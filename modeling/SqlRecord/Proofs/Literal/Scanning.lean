import SqlRecord.Proofs.Sql.Tokens

/-!
# Scanning text literals

How a literal ends is a matter of the text that holds it: a quote ends it unless another one follows
(`Literal.Scans`). Between its quotes a literal has one form for each content
(`Literal.denotes_iff`), and the reader of quoted text finds exactly the literals that end in this
way (`Sql.quoted?_eq_some_iff`). So a quoted text is scanned as itself whatever it holds. Main
statement: `Literal.scans_quote_iff`.
-/

namespace SqlRecord

namespace Literal

/-- What the characters between the quotes of a literal denote. A quote that is written twice is one
quote, and any other character is itself. -/
inductive Denotes : List Char → List Char → Prop
  | nil : Denotes [] []
  | quote {body content : List Char} (h : Denotes body content) :
      Denotes ('\'' :: '\'' :: body) ('\'' :: content)
  | char {c : Char} {body content : List Char} (hc : c ≠ '\'') (h : Denotes body content) :
      Denotes (c :: body) (c :: content)

/-- **Each content has one form between quotes.** -/
theorem denotes_iff {body content : List Char} : Denotes body content ↔ body = escape content := by
  constructor
  · intro h
    induction h with
    | nil => rfl
    | quote _ ih => rw [escape, if_pos rfl, ih]
    | char hc _ ih => rw [escape, if_neg hc, ih]
  · rintro rfl
    induction content with
    | nil => exact .nil
    | cons c content ih =>
      rw [escape]
      split_ifs with hc
      · rw [hc]
        exact .quote ih
      · exact .char hc ih

/-- A text is scanned as a literal, which has a content, and what is left after it: the literal is
characters between quotes that denote its content, and no further quote follows. -/
def Scans (cs literal content rest : List Char) : Prop :=
  cs = literal ++ rest ∧ (∃ body, literal = '\'' :: (body ++ ['\'']) ∧ Denotes body content) ∧
    ∀ c ∈ rest.head?, c ≠ '\''

end Literal

/-- **The reader of quoted text scans literals**, from behind their first quote. -/
theorem Sql.quoted?_eq_some_iff {cs content rest : List Char} :
    quoted? '\'' cs = some (content, rest) ↔ ∃ body, cs = body ++ '\'' :: rest ∧
      Literal.Denotes body content ∧ ∀ c ∈ rest.head?, c ≠ '\'' := by
  constructor
  · intro h
    fun_induction quoted? '\'' cs generalizing content rest with
    | case1 => cases h
    | case2 ds ih =>
      -- a quote that is written twice
      obtain ⟨⟨more, rest'⟩, hread, heq⟩ := Option.map_eq_some_iff.mp h
      obtain ⟨rfl, rfl⟩ := Prod.mk.inj heq
      obtain ⟨body, rfl, hbody, hrest⟩ := ih hread
      exact ⟨_, rfl, .quote hbody, hrest⟩
    | case3 d ds hd =>
      cases h
      refine ⟨[], rfl, .nil, ?_⟩
      rintro c ⟨⟩
      exact hd
    | case4 =>
      cases h
      exact ⟨[], rfl, .nil, nofun⟩
    | case5 c ds hc ih =>
      obtain ⟨⟨more, rest'⟩, hread, heq⟩ := Option.map_eq_some_iff.mp h
      obtain ⟨rfl, rfl⟩ := Prod.mk.inj heq
      obtain ⟨body, rfl, hbody, hrest⟩ := ih hread
      exact ⟨_, rfl, .char hc hbody, hrest⟩
  · rintro ⟨body, rfl, hbody, hrest⟩
    rw [Literal.denotes_iff.mp hbody]
    exact quoted?_escape content hrest

namespace Literal

variable {cs literal content rest : List Char}

/-- A scan is what the reader of quoted text makes of the characters behind the first quote. -/
theorem Scans.quoted?_tail (h : Scans cs literal content rest) :
    Sql.quoted? '\'' cs.tail = some (content, rest) := by
  obtain ⟨rfl, ⟨body, rfl, hbody⟩, hrest⟩ := h
  refine Sql.quoted?_eq_some_iff.mpr ⟨body, ?_, hbody, hrest⟩
  rw [List.cons_append, List.tail_cons, List.append_assoc, List.singleton_append]

/-- **A text is scanned in one way at most.** -/
theorem Scans.unique {literal' content' rest' : List Char} (h : Scans cs literal content rest)
    (h' : Scans cs literal' content' rest') :
    literal' = literal ∧ content' = content ∧ rest' = rest := by
  obtain ⟨rfl, rfl⟩ := Prod.mk.inj (Option.some.inj (h'.quoted?_tail.symm.trans h.quoted?_tail))
  exact ⟨List.append_cancel_right (h'.1.symm.trans h.1), rfl, rfl⟩

theorem scans_quoteChars (content : List Char) (hrest : ∀ c ∈ rest.head?, c ≠ '\'') :
    Scans (quoteChars content ++ rest) (quoteChars content) content rest :=
  ⟨rfl, ⟨escape content, rfl, denotes_iff.mpr rfl⟩, hrest⟩

/-- A quoted text is scanned up to its last quote, with the text as its content. -/
theorem scans_quote (s : String) (hrest : ∀ c ∈ rest.head?, c ≠ '\'') :
    Scans ((quote s).toList ++ rest) (quote s).toList s.toList rest := by
  rw [quote, String.toList_ofList]
  exact scans_quoteChars s.toList hrest

/-- Different texts are quoted differently. -/
theorem quote_injective : Function.Injective quote := by
  intro s s' h
  have hend : ∀ c ∈ ([] : List Char).head?, c ≠ '\'' := nofun
  have hs := scans_quote s hend
  rw [h] at hs
  exact String.toList_injective ((scans_quote s' hend).unique hs).2.1

/-- **A quoted text is scanned as itself, whatever it holds.** In front of anything but a quote, it
is scanned as one literal, all of it, whose content is the text, and in no other way: no quote in
the text ends the literal early, and nothing behind it becomes a part of it. The reader of tokens
makes one token of it. So texts that are quoted alike are equal. -/
theorem scans_quote_iff (s : String) (hrest : ∀ c ∈ rest.head?, c ≠ '\'') :
    (∀ literal content rest', Scans ((quote s).toList ++ rest) literal content rest' ↔
      literal = (quote s).toList ∧ content = s.toList ∧ rest' = rest) ∧
    Sql.token? ((quote s).toList ++ rest) = some (.text s.toList, rest) ∧
    Function.Injective quote := by
  refine ⟨fun literal content rest' => ⟨(scans_quote s hrest).unique, ?_⟩, ?_, quote_injective⟩
  · rintro ⟨rfl, rfl, rfl⟩
    exact scans_quote s hrest
  · rw [quote, String.toList_ofList]
    exact Sql.token?_text s.toList hrest

/-- A text that would end its literal, the list of values and the statement, in front of another
value. -/
theorem scans_quote_iff_values :
    quote "'); DROP TABLE t; --'" = "'''); DROP TABLE t; --'''" ∧
    (∀ literal content rest, Scans ("'''); DROP TABLE t; --'''".toList ++ ", 1)".toList) literal
        content rest ↔
      literal = "'''); DROP TABLE t; --'''".toList ∧ content = "'); DROP TABLE t; --'".toList ∧
        rest = ", 1)".toList) ∧
    Sql.token? ("'''); DROP TABLE t; --'''".toList ++ ", 1)".toList) =
      some (.text "'); DROP TABLE t; --'".toList, ", 1)".toList) := by
  have hquote : quote "'); DROP TABLE t; --'" = "'''); DROP TABLE t; --'''" := rfl
  have hrest : ∀ c ∈ ", 1)".toList.head?, c ≠ '\'' := by simp
  have hscan := scans_quote_iff "'); DROP TABLE t; --'" hrest
  rw [hquote] at hscan
  exact ⟨hquote, hscan.1, hscan.2.1⟩

end Literal

end SqlRecord
