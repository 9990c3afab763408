import SqlRecord.Proofs.Sql.Readers

/-!
# Texts with a NUL

A store reads a text up to its first NUL. In the text of a spaced layout a NUL stands inside a
literal only, so what is left of the text ends within the literal, and no statement can be read
from it. Main statement: `Spaced.lexemes?_eq_none`.
-/

namespace SqlRecord

namespace Sql

/-- The character that ends a text for the reader of statements. -/
def nul : Char := Char.ofNat 0

/-- What is read of a text: the part before its first NUL. -/
def cut (cs : List Char) : List Char := cs.takeWhile (· != nul)

theorem cut_cons {c : Char} (hc : c ≠ nul) (cs : List Char) : cut (c :: cs) = c :: cut cs :=
  List.takeWhile_cons_of_pos (bne_iff_ne.mpr hc)

/-- What has no NUL is read in full, and the cut is in the rest. -/
theorem cut_append {cs : List Char} (h : nul ∉ cs) (rest : List Char) :
    cut (cs ++ rest) = cs ++ cut rest :=
  List.takeWhile_append_of_pos fun _ hc => bne_iff_ne.mpr (ne_of_mem_of_not_mem hc h)

/-! ### Literals that are cut -/

/-- Escaping neither makes nor loses a NUL. -/
theorem nul_mem_escape {cs : List Char} : nul ∈ Literal.escape cs ↔ nul ∈ cs := by
  have hquote : nul ≠ '\'' := by decide
  induction cs with
  | nil => rfl
  | cons c cs ih =>
    rw [Literal.escape]
    split_ifs with hc
    · subst hc
      simp [ih, hquote]
    · simp [ih]

theorem nul_mem_quoteChars {cs : List Char} : nul ∈ Literal.quoteChars cs ↔ nul ∈ cs := by
  have hquote : nul ≠ '\'' := by decide
  simp [Literal.quoteChars, nul_mem_escape, hquote]

/-- The content of a literal is cut like its text. -/
theorem cut_escape {cs : List Char} (h : nul ∈ cs) (rest : List Char) :
    cut (Literal.escape cs ++ rest) = Literal.escape (cut cs) := by
  induction cs with
  | nil => cases h
  | cons c cs ih =>
    by_cases hc : c = nul
    · subst hc
      rfl
    · have hcs : nul ∈ cs := (List.mem_cons.mp h).resolve_left (Ne.symm hc)
      rw [cut_cons hc, Literal.escape, Literal.escape]
      split_ifs with hquote
      · have hquote : '\'' ≠ nul := by decide
        rw [List.cons_append, List.cons_append, cut_cons hquote, cut_cons hquote, ih hcs]
      · rw [List.cons_append, cut_cons hc, ih hcs]

/-- Nothing closes the content of a literal by itself. -/
theorem quoted?_escape_nil (cs : List Char) : quoted? '\'' (Literal.escape cs) = none := by
  induction cs with
  | nil => rfl
  | cons c cs ih =>
    by_cases hc : c = '\''
    · subst hc
      simp [Literal.escape, quoted?, ih]
    · simp [Literal.escape, hc, quoted?_cons_of_ne hc, ih]

/-- A literal that is not closed is no token: escaped quotes do not close it. -/
theorem token?_open (cs : List Char) : token? ('\'' :: Literal.escape cs) = none := by
  simp [token?, isWordStart, Identifier.isStart, quoted?_escape_nil]

/-! ### Texts that are refused -/

/-- Whether no statement can be read from what is left of a text. -/
def Refused (cs : List Char) : Prop := ∀ fuel, lexemesFuel fuel (cut cs) = none

theorem Refused.lexemes?_eq_none {cs : List Char} (h : Refused cs) : lexemes? cs = none := h _

/-- A token is passed over, and what follows is refused. -/
theorem refused_append {t : Token} {cs rest : List Char} (hne : cs ≠ []) (hnul : nul ∉ cs)
    (hgap : skipGap .open (cs ++ cut rest) = cs ++ cut rest)
    (ht : token? (cs ++ cut rest) = some (t, cut rest)) (hsemicolon : t ≠ .symbol ";")
    (h : Refused rest) : Refused (cs ++ rest) := by
  obtain ⟨c, cs, rfl⟩ := List.exists_cons_of_ne_nil hne
  intro fuel
  cases fuel with
  | zero => rfl
  | succ fuel =>
    rw [cut_append hnul, lexemesFuel, hgap]
    rw [List.cons_append] at ht ⊢
    dsimp only
    rw [ht]
    split
    next heq => cases heq
    next heq =>
      cases heq
      exact absurd rfl hsemicolon
    next heq =>
      cases heq
      rw [h fuel]
      rfl

theorem refused_blank {cs : List Char} (h : Refused cs) : Refused (' ' :: cs) := by
  intro fuel
  have hblank : lexemesFuel fuel (' ' :: cut cs) = lexemesFuel fuel (cut cs) := by
    cases fuel <;> rfl
  rw [cut_cons (by decide), hblank, h fuel]

theorem refused_mark {c : Char} (hc : c ∈ ['(', ')', ',', '~']) {cs : List Char} (h : Refused cs) :
    Refused (c :: cs) := by
  simp only [List.mem_cons, List.not_mem_nil, or_false] at hc
  refine @refused_append (.symbol (String.singleton c)) [c] cs (by simp) ?_ ?_ ?_ ?_ h
  · rcases hc with rfl | rfl | rfl | rfl <;> decide
  · rcases hc with rfl | rfl | rfl | rfl <;>
      exact skipGap_open_of_ne _ (by decide) (by decide) (by decide)
  · rcases hc with rfl | rfl | rfl | rfl <;> cases cut cs <;> rfl
  · rcases hc with rfl | rfl | rfl | rfl <;> decide

theorem head?_cut {cs : List Char} {c : Char} (h : (cut cs).head? = some c) :
    cs.head? = some c := by
  cases cs with
  | nil => cases h
  | cons d cs =>
    by_cases hd : d = nul
    · subst hd
      cases h
    · rw [cut_cons hd] at h
      exact h

/-- A minus in front does not mend what is refused, unless it makes a comment of it. -/
theorem refused_minus {cs : List Char} (hhead : cs.head? ≠ some '-') (h : Refused cs) :
    Refused ('-' :: cs) := by
  have hhead : (cut cs).head? ≠ some '-' := mt head?_cut hhead
  refine @refused_append (.symbol "-") ['-'] cs (by simp) (by decide) ?_ ?_ (by decide) h
  · exact skipGap_open_cons (by decide) (fun _ => hhead) (absurd · (by decide))
  · cases cut cs <;> rfl

/-! ### Layouts -/

/-- Only a text is written with a NUL. -/
theorem Token.IsPlain.nul_notMem {t : Token} (ht : t.IsPlain) (hl : ∀ cs, t ≠ .text cs) :
    nul ∉ t.spelling := by
  have hpart : ∀ {cs : List Char}, (∀ c ∈ cs, Identifier.isPart c = true) → nul ∉ cs :=
    fun hcs hnul => absurd (hcs _ hnul) (by decide)
  cases t with
  | word w =>
    obtain ⟨-, -, -, -, hall⟩ := Identifier.isWord_iff.mp ht
    exact hpart hall
  | number cs =>
    have hdigits : ∀ {cs : List Char}, Literal.isDigits cs = true → nul ∉ cs := fun hcs =>
      hpart fun c hc => Identifier.isPart_of_isDigit ((Literal.isDigits_iff.mp hcs).2 c hc)
    rcases Literal.isUnsignedNumeric_iff.mp ht with h | ⟨whole, fraction, rfl, hw, hf⟩
    · exact hdigits h
    · simp only [Token.spelling, List.mem_append, List.mem_cons, not_or]
      exact ⟨hdigits hw, by decide, hdigits hf⟩
  | text cs => exact absurd rfl (hl cs)
  | placeholder p =>
    obtain ⟨mark, cs, hcs, hmark, -, hall⟩ := ht
    rw [Token.spelling, hcs, List.mem_cons, not_or]
    refine ⟨?_, hpart hall⟩
    rcases List.mem_pair.mp hmark with rfl | rfl <;> decide
  | symbol s =>
    have hall : ∀ s ∈ plainSymbols, nul ∉ s.toList := by decide
    exact hall s ht
  | name _ => exact ht.elim
  | bytes _ => exact ht.elim

/-- No plain token ends a statement. -/
theorem Token.IsPlain.ne_semicolon {t : Token} (ht : t.IsPlain) : t ≠ .symbol ";" := by
  rintro rfl
  exact absurd (show ";" ∈ plainSymbols from ht) (by decide)

/-- Whether a text is refused, in front of any text that closes it, if it has a NUL or what follows
is refused. -/
def Cuts (cs : List Char) : Prop :=
  ∀ rest, Closes rest → nul ∈ cs ∨ Refused rest → Refused (cs ++ rest)

namespace Cuts

variable {cs ds : List Char}

/-- A plain token cuts the statement if there is a NUL in it, which can only be in a text. -/
theorem token {t : Token} (ht : t.IsPlain) : Cuts t.spelling := by
  intro rest hr h
  by_cases hnul : nul ∈ t.spelling
  · -- a token with a NUL is a text, which is left without its closing quote
    obtain ⟨cs, rfl⟩ : ∃ cs, t = .text cs := by
      by_contra hl
      exact ht.nul_notMem (not_exists.mp hl) hnul
    have hcs : nul ∈ cs := nul_mem_quoteChars.mp hnul
    have hcut : cut (Token.spelling (.text cs) ++ rest) = '\'' :: Literal.escape (cut cs) := by
      rw [Token.spelling, Literal.quoteChars, List.cons_append, List.append_assoc,
        cut_cons (by decide), cut_escape hcs]
    intro fuel
    cases fuel with
    | zero => rfl
    | succ fuel =>
      rw [hcut, lexemesFuel, skipGap_open_of_ne _ (by decide) (by decide) (by decide)]
      dsimp only
      rw [token?_open]
  · have hclose : Closes (cut rest) := fun c hc => hr c (head?_cut hc)
    obtain ⟨hne, hgap⟩ := skipGap_spelling ht hclose
    exact refused_append hne hnul hgap (token?_spelling ht hclose) ht.ne_semicolon
      (h.resolve_left hnul)

theorem nil : Cuts [] := fun _ _ h => h.resolve_left List.not_mem_nil

/-- A text that closes what is before it may follow. -/
theorem append (hc : Cuts cs) (hd : Cuts ds) (hmeet : ∀ rest, Closes (ds ++ rest)) :
    Cuts (cs ++ ds) := by
  intro rest hr h
  rw [List.append_assoc]
  refine hc _ (hmeet rest) ?_
  rw [List.mem_append, or_assoc] at h
  exact h.imp_right (hd rest hr)

/-- A character that mends nothing may stand in front of what cuts. -/
theorem cons {c : Char} (hc : c ≠ nul) (hpass : ∀ {ds}, Refused ds → Refused (c :: ds))
    (hd : Cuts ds) : Cuts (c :: ds) := fun rest hr h =>
  hpass (hd rest hr (h.imp_left fun h => (List.mem_cons.mp h).resolve_left hc.symm))

theorem blank (hd : Cuts ds) : Cuts (' ' :: ds) := cons (by decide) refused_blank hd

theorem mark {c : Char} (hc : c ∈ ['(', ')', ',', '~']) (hd : Cuts ds) : Cuts (c :: ds) := by
  refine cons ?_ (refused_mark hc) hd
  rintro rfl
  exact absurd hc (by decide)

theorem enclose (hc : Cuts cs) : Cuts ('(' :: (cs ++ [')'])) :=
  mark (by decide) (hc.append (mark (by decide) nil) fun _ => closes_cons (by decide))

theorem call {w : String} (hw : Identifier.isWord w.toList = true) (hc : Cuts cs) :
    Cuts (w.toList ++ '(' :: (cs ++ [')'])) := by
  intro rest hr h
  have hplain : Token.IsPlain (.word w) := hw
  have hnul : nul ∉ w.toList := hplain.nul_notMem nofun
  rw [List.append_assoc]
  -- the name of a function ends at the parenthesis
  have hcut : cut ('(' :: (cs ++ [')']) ++ rest) = '(' :: cut (cs ++ [')'] ++ rest) :=
    cut_cons (by decide) _
  obtain ⟨c, ds, hcs, hstart, -⟩ := Identifier.isWord_iff.mp hw
  refine refused_append (t := .word w) (by simp [hcs]) hnul ?_ ?_ nofun ?_
  · rw [hcs]
    exact skipGap_open_of_isPart _ (Identifier.isPart_of_isStart hstart)
  · rw [hcut]
    refine token?_word hw ?_
    rintro c ⟨⟩
    decide
  · exact hc.enclose rest hr (h.imp_left fun h => (List.mem_append.mp h).resolve_left hnul)

theorem minus (hc : Cuts cs) (hne : cs ≠ []) (hhead : cs.head? ≠ some '-') :
    Cuts ('-' :: cs) := by
  intro rest hr h
  have hhead' : (cs ++ rest).head? ≠ some '-' := by rwa [List.head?_append_of_ne_nil _ hne]
  have hnul : nul ≠ '-' := by decide
  refine refused_minus hhead' (hc rest hr (h.imp_left fun h => ?_))
  exact (List.mem_cons.mp h).resolve_left hnul

end Cuts

/-- **The text of a spaced layout is refused if it has a NUL.** -/
theorem Spaced.cuts {ps : List Piece} (h : Spaced ps) : Cuts (spell ps) := by
  induction h with
  | token ht => simpa using Cuts.token ht
  | gap _ _ ihp ihq =>
    rw [spell_append]
    exact ihp.append ihq.blank fun _ => closes_cons (by decide)
  | comma _ _ ihp ihq =>
    rw [spell_append]
    exact ihp.append (.mark (by decide) ihq.blank) fun _ => closes_cons (by decide)
  | enclose _ ih =>
    rw [spell_enclose]
    exact ih.enclose
  | call hw _ ih =>
    rw [spell_word_cons, spell_enclose]
    exact ih.call hw
  | minus hp hhead ih => exact ih.minus hp.spell_ne_nil (mt hp.head?_spell_eq_minus_iff.mp hhead)
  | tilde _ ih => exact ih.mark (by decide)

/-- A spaced layout with a NUL is no statement. -/
theorem Spaced.lexemes?_eq_none {ps : List Piece} (h : Spaced ps) (hnul : nul ∈ spell ps) :
    lexemes? (spell ps) = none := by
  have hrefused := h.cuts [] closes_nil (.inl hnul)
  rw [List.append_nil] at hrefused
  exact hrefused.lexemes?_eq_none

/-! ### Contents -/

/-- The content of a token that is a text. -/
def Token.content? : Token → Option (List Char)
  | text cs => some cs
  | _ => none

/-- The contents of the texts among tokens, from left to right. -/
def contentsOf (ts : List Token) : List (List Char) := ts.filterMap Token.content?

theorem skipsWords_content? : SkipsWords Token.content? := ⟨fun _ => rfl, fun _ => rfl⟩

/-- A NUL in a plain token is in the content of a text. -/
theorem Token.IsPlain.nul_mem_spelling_iff {t : Token} (ht : t.IsPlain) :
    nul ∈ t.spelling ↔ ∃ cs, t.content? = some cs ∧ nul ∈ cs := by
  by_cases hl : ∃ cs, t = .text cs
  · obtain ⟨cs, rfl⟩ := hl
    simp [Token.spelling, nul_mem_quoteChars, Token.content?]
  · have hnone : t.content? = none := by
      cases t with
      | text cs => exact absurd ⟨cs, rfl⟩ hl
      | _ => rfl
    simp [ht.nul_notMem (not_exists.mp hl), hnone]

/-- The tokens of a spaced layout are plain. -/
theorem Spaced.isPlain {ps : List Piece} (h : Spaced ps) : ∀ t ∈ tokensOf ps, t.IsPlain := by
  have hmark : ∀ {s : String}, s ∈ plainSymbols → Token.IsPlain (.symbol s) := id
  have henclose : ∀ {ps : List Piece}, (∀ t ∈ tokensOf ps, t.IsPlain) →
      ∀ t ∈ tokensOf (Sql.enclose ps), t.IsPlain := by
    intro ps hps
    rw [tokensOf_enclose, List.forall_mem_cons, List.forall_mem_append, List.forall_mem_singleton]
    exact ⟨hmark (by decide), hps, hmark (by decide)⟩
  induction h with
  | token ht => simpa using ht
  | gap _ _ ihp ihq =>
    rw [tokensOf_append, tokensOf_gap_cons]
    exact List.forall_mem_append.mpr ⟨ihp, ihq⟩
  | comma _ _ ihp ihq =>
    rw [tokensOf_append, tokensOf_symbol_cons, tokensOf_gap_cons]
    exact List.forall_mem_append.mpr ⟨ihp, List.forall_mem_cons.mpr ⟨hmark (by decide), ihq⟩⟩
  | enclose _ ih => exact henclose ih
  | call hw _ ih => exact List.forall_mem_cons.mpr ⟨hw, henclose ih⟩
  | minus _ _ ih => exact List.forall_mem_cons.mpr ⟨hmark (by decide), ih⟩
  | tilde _ ih => exact List.forall_mem_cons.mpr ⟨hmark (by decide), ih⟩

/-- A NUL in a layout is in one of its tokens. -/
theorem nul_mem_spell_iff {ps : List Piece} :
    nul ∈ spell ps ↔ ∃ t ∈ tokensOf ps, nul ∈ t.spelling := by
  rw [spell, List.mem_flatMap]
  constructor
  · rintro ⟨p, hp, hnul⟩
    cases p with
    | gap => exact absurd hnul (by decide)
    | token t => exact ⟨t, List.mem_filterMap.mpr ⟨_, hp, rfl⟩, hnul⟩
  · rintro ⟨t, ht, hnul⟩
    obtain ⟨p, hp, htoken⟩ := List.mem_filterMap.mp ht
    cases p with
    | gap => cases htoken
    | token u =>
      cases htoken
      exact ⟨_, hp, hnul⟩

/-- **A NUL in the text of a spaced layout stands in the content of a text.** -/
theorem Spaced.nul_mem_spell_iff {ps : List Piece} (h : Spaced ps) :
    nul ∈ spell ps ↔ ∃ cs ∈ contentsOf (tokensOf ps), nul ∈ cs := by
  rw [Sql.nul_mem_spell_iff]
  simp only [contentsOf, List.mem_filterMap]
  constructor
  · rintro ⟨t, ht, hnul⟩
    obtain ⟨cs, hcs, hnul⟩ := (h.isPlain t ht).nul_mem_spelling_iff.mp hnul
    exact ⟨cs, ⟨t, ht, hcs⟩, hnul⟩
  · rintro ⟨cs, ⟨t, ht, hcs⟩, hnul⟩
    exact ⟨t, ht, (h.isPlain t ht).nul_mem_spelling_iff.mpr ⟨cs, hcs, hnul⟩⟩

end Sql

end SqlRecord
