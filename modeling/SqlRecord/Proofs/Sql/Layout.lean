import SqlRecord.Proofs.Sql.Tokens

/-!
# Layouts

A layout is a text as a list of pieces, each one blank or one token. A layout is *spaced* if its
tokens stand far enough apart to be told from each other. Main statement: `tokens?_spell`, by which
the text of a spaced layout reads as the tokens of the layout.
-/

namespace SqlRecord

namespace Sql

/-- A piece of a text. -/
inductive Piece where
  | gap
  | token (t : Token)
  deriving DecidableEq

namespace Piece

/-- The piece of a word. -/
def word (w : String) : Piece := token (.word w)

/-- The piece of a symbol. -/
def symbol (s : String) : Piece := token (.symbol s)

def text : Piece → List Char
  | gap => [' ']
  | token t => t.spelling

def token? : Piece → Option Token
  | gap => none
  | token t => some t

end Piece

/-- The text of a layout. -/
def spell (ps : List Piece) : List Char := ps.flatMap Piece.text

/-- The tokens of a layout. -/
def tokensOf (ps : List Piece) : List Token := ps.filterMap Piece.token?

/-- A layout in parentheses. -/
def enclose (ps : List Piece) : List Piece := .symbol "(" :: (ps ++ [.symbol ")"])

@[simp] theorem spell_nil : spell [] = [] := rfl

@[simp] theorem spell_append (ps qs : List Piece) : spell (ps ++ qs) = spell ps ++ spell qs :=
  List.flatMap_append

@[simp] theorem spell_gap_cons (ps : List Piece) : spell (.gap :: ps) = ' ' :: spell ps := rfl

@[simp] theorem spell_token_cons (t : Token) (ps : List Piece) :
    spell (.token t :: ps) = t.spelling ++ spell ps := rfl

@[simp] theorem spell_word_cons (w : String) (ps : List Piece) :
    spell (.word w :: ps) = w.toList ++ spell ps := rfl

@[simp] theorem spell_symbol_cons (s : String) (ps : List Piece) :
    spell (.symbol s :: ps) = s.toList ++ spell ps := rfl

@[simp] theorem spell_comma_cons (ps : List Piece) :
    spell (.symbol "," :: ps) = ',' :: spell ps := rfl

@[simp] theorem spell_minus_cons (ps : List Piece) :
    spell (.symbol "-" :: ps) = '-' :: spell ps := rfl

@[simp] theorem spell_tilde_cons (ps : List Piece) :
    spell (.symbol "~" :: ps) = '~' :: spell ps := rfl

@[simp] theorem spell_enclose (ps : List Piece) :
    spell (enclose ps) = '(' :: (spell ps ++ [')']) := by
  simp only [enclose, spell_symbol_cons, spell_append, spell_nil, List.append_nil]
  rfl

@[simp] theorem tokensOf_nil : tokensOf [] = [] := rfl

@[simp] theorem tokensOf_append (ps qs : List Piece) :
    tokensOf (ps ++ qs) = tokensOf ps ++ tokensOf qs :=
  List.filterMap_append

@[simp] theorem tokensOf_gap_cons (ps : List Piece) : tokensOf (.gap :: ps) = tokensOf ps := rfl

@[simp] theorem tokensOf_token_cons (t : Token) (ps : List Piece) :
    tokensOf (.token t :: ps) = t :: tokensOf ps := rfl

@[simp] theorem tokensOf_word_cons (w : String) (ps : List Piece) :
    tokensOf (.word w :: ps) = .word w :: tokensOf ps := rfl

@[simp] theorem tokensOf_symbol_cons (s : String) (ps : List Piece) :
    tokensOf (.symbol s :: ps) = .symbol s :: tokensOf ps := rfl

@[simp] theorem tokensOf_enclose (ps : List Piece) :
    tokensOf (enclose ps) = .symbol "(" :: (tokensOf ps ++ [.symbol ")"]) := by
  simp [enclose]

/-! ### Spaced layouts -/

/-- Layouts whose tokens cannot run into each other. Plain tokens stand side by side between gaps,
at parentheses and before commas; besides, a sign may directly precede its operand, but a minus no
other minus. -/
inductive Spaced : List Piece → Prop
  | token {t : Token} (ht : t.IsPlain) : Spaced [.token t]
  | gap {ps qs : List Piece} (hp : Spaced ps) (hq : Spaced qs) : Spaced (ps ++ .gap :: qs)
  | comma {ps qs : List Piece} (hp : Spaced ps) (hq : Spaced qs) :
      Spaced (ps ++ .symbol "," :: .gap :: qs)
  | enclose {ps : List Piece} (hp : Spaced ps) : Spaced (enclose ps)
  | call {w : String} {ps : List Piece} (hw : Identifier.isWord w.toList = true)
      (hp : Spaced ps) : Spaced (.word w :: Sql.enclose ps)
  | minus {ps : List Piece} (hp : Spaced ps) (h : ps.head? ≠ some (.symbol "-")) :
      Spaced (.symbol "-" :: ps)
  | tilde {ps : List Piece} (hp : Spaced ps) : Spaced (.symbol "~" :: ps)

theorem Spaced.word {w : String} (hw : Identifier.isWord w.toList = true) : Spaced [.word w] :=
  .token hw

/-- A word before a gap. -/
theorem Spaced.word_gap {w : String} (hw : Identifier.isWord w.toList = true) {ps : List Piece}
    (hp : Spaced ps) : Spaced (.word w :: .gap :: ps) := Spaced.gap (.word hw) hp

theorem Spaced.symbol {s : String} (hs : s ∈ plainSymbols) : Spaced [.symbol s] := .token hs

/-- A plain token starts with a minus only if it is one. -/
theorem Token.IsPlain.head?_spelling {t : Token} (ht : t.IsPlain) :
    ∃ c, t.spelling.head? = some c ∧ (c = '-' ↔ t = .symbol "-") := by
  cases t with
  | word w =>
    obtain ⟨c, cs, hcs, hc, -⟩ := Identifier.isWord_iff.mp ht
    refine ⟨c, by simp [Token.spelling, hcs], ?_⟩
    have := Identifier.forall_isPart (P := (· ≠ '-')) (by decide)
      (Identifier.isPart_of_isStart hc)
    simp [this]
  | number cs =>
    obtain ⟨c, ds, rfl, hc⟩ := Literal.exists_digit_of_isUnsignedNumeric ht
    refine ⟨c, rfl, ?_⟩
    have := Identifier.forall_isPart (P := (· ≠ '-')) (by decide)
      (Identifier.isPart_of_isDigit hc)
    simp [this]
  | text cs => exact ⟨'\'', rfl, by simp⟩
  | placeholder p =>
    obtain ⟨mark, cs, hcs, hmark, -⟩ := ht
    refine ⟨mark, by simp [Token.spelling, hcs], ?_⟩
    rcases List.mem_pair.mp hmark with rfl | rfl <;> simp
  | symbol s =>
    have hs : s ∈ plainSymbols := ht
    rw [plainSymbols] at hs
    fin_cases hs <;> exact ⟨_, rfl, by decide⟩
  | name _ => exact ht.elim
  | bytes _ => exact ht.elim

/-- A spaced layout starts with a token, which its text starts with too. -/
theorem Spaced.head? {ps : List Piece} (h : Spaced ps) :
    ∃ t c, ps.head? = some (.token t) ∧ (spell ps).head? = some c ∧
      (c = '-' ↔ t = .symbol "-") := by
  induction h with
  | @token t ht =>
    obtain ⟨c, hc, hminus⟩ := ht.head?_spelling
    exact ⟨t, c, rfl, by simpa using hc, hminus⟩
  | gap _ _ ihp =>
    obtain ⟨t, c, ht, hc, hminus⟩ := ihp
    exact ⟨t, c, by simp [ht], by simp [hc], hminus⟩
  | comma _ _ ihp =>
    obtain ⟨t, c, ht, hc, hminus⟩ := ihp
    exact ⟨t, c, by simp [ht], by simp [hc], hminus⟩
  | enclose => exact ⟨_, _, rfl, by rw [spell_enclose]; rfl, by decide⟩
  | @call w _ hw =>
    obtain ⟨c, hc, hminus⟩ := Token.IsPlain.head?_spelling (t := .word w) hw
    have hc' : w.toList.head? = some c := hc
    exact ⟨.word w, c, rfl, by simp [hc'], hminus⟩
  | minus => exact ⟨_, _, rfl, by rw [spell_minus_cons]; rfl, by decide⟩
  | tilde => exact ⟨_, _, rfl, by rw [spell_tilde_cons]; rfl, by decide⟩

theorem Spaced.spell_ne_nil {ps : List Piece} (h : Spaced ps) : spell ps ≠ [] := by
  obtain ⟨t, c, -, hc, -⟩ := h.head?
  intro hnil
  rw [hnil] at hc
  cases hc

/-- The text of a spaced layout starts with a minus exactly if its first piece is one. -/
theorem Spaced.head?_spell_eq_minus_iff {ps : List Piece} (h : Spaced ps) :
    (spell ps).head? = some '-' ↔ ps.head? = some (.symbol "-") := by
  obtain ⟨t, c, ht, hc, hminus⟩ := h.head?
  rw [ht, hc, Option.some_inj, hminus, Option.some_inj, Piece.symbol, Piece.token.injEq]

/-! ### Reading layouts -/

/-- Whether a text reads as tokens, in front of any text that closes it. -/
def Reads (cs : List Char) (ts : List Token) : Prop :=
  ∀ rest, Closes rest → tokens? (cs ++ rest) = (tokens? rest).map (ts ++ ·)

namespace Reads

variable {cs ds : List Char} {ts us : List Token}

/-- A text that reads as tokens before any text does so at the end. -/
theorem tokens? (h : Reads cs ts) : tokens? cs = some ts := by
  have := h [] closes_nil
  simpa [tokens?_nil] using this

theorem of_eq (h : Reads cs ts) (hc : ds = cs) (ht : us = ts) : Reads ds us := by
  rwa [hc, ht]

/-- A plain token reads as itself. -/
theorem token {t : Token} (ht : t.IsPlain) : Reads t.spelling [t] :=
  fun _ hr => tokens?_spelling ht hr

theorem word {w : String} (hw : Identifier.isWord w.toList = true) :
    Reads w.toList [.word w] := token (t := .word w) hw

theorem symbol {s : String} (hs : s ∈ plainSymbols) : Reads s.toList [.symbol s] :=
  token (t := .symbol s) hs

theorem gap (hc : Reads cs ts) (hd : Reads ds us) : Reads (cs ++ ' ' :: ds) (ts ++ us) := by
  intro rest hr
  rw [List.append_assoc, List.cons_append, hc _ (closes_cons (by decide)), tokens?_blank, hd _ hr]
  simp [Function.comp_def]

/-- Texts with a comma and a blank between them read with the comma. -/
theorem comma (hc : Reads cs ts) (hd : Reads ds us) :
    Reads (cs ++ ',' :: ' ' :: ds) (ts ++ .symbol "," :: us) := by
  intro rest hr
  rw [List.append_assoc, List.cons_append, List.cons_append, hc _ (closes_cons (by decide)),
    tokens?_mark (by decide), tokens?_blank, hd _ hr]
  simp [Function.comp_def]

/-- A text in parentheses reads with them. -/
theorem enclose (hc : Reads cs ts) :
    Reads ('(' :: (cs ++ [')'])) (.symbol "(" :: (ts ++ [.symbol ")"])) := by
  intro rest hr
  rw [List.cons_append, List.append_assoc, List.singleton_append, tokens?_mark (by decide),
    hc _ (closes_cons (by decide)), tokens?_mark (by decide)]
  simp [Function.comp_def]

/-- A call reads as its name and what it encloses. -/
theorem call {w : String} (hw : Identifier.isWord w.toList = true) (hc : Reads cs ts) :
    Reads (w.toList ++ '(' :: (cs ++ [')'])) (.word w :: .symbol "(" :: (ts ++ [.symbol ")"])) := by
  intro rest hr
  -- the name of a function ends at the parenthesis
  have hstop : ∀ c ∈ ('(' :: (cs ++ [')']) ++ rest).head?, isWordPart c = false ∧ c ≠ '\'' := by
    rintro c ⟨⟩
    decide
  rw [List.append_assoc, tokens?_word hw hstop, hc.enclose _ hr]
  simp [Function.comp_def]

/-- A minus reads in front of a text that does not begin with one, which would be a comment. -/
theorem minus (hc : Reads cs ts) (hne : cs ≠ []) (hhead : cs.head? ≠ some '-') :
    Reads ('-' :: cs) (.symbol "-" :: ts) := by
  intro rest hr
  have hhead' : (cs ++ rest).head? ≠ some '-' := by rwa [List.head?_append_of_ne_nil _ hne]
  rw [List.cons_append, tokens?_minus hhead', hc _ hr]
  simp [Function.comp_def]

theorem tilde (hc : Reads cs ts) : Reads ('~' :: cs) (.symbol "~" :: ts) := by
  intro rest hr
  rw [List.cons_append, tokens?_mark (by decide), hc _ hr]
  simp [Function.comp_def]

end Reads

/-- **The text of a spaced layout reads as its tokens.** -/
theorem Spaced.reads {ps : List Piece} (h : Spaced ps) : Reads (spell ps) (tokensOf ps) := by
  induction h with
  | token ht => simpa using Reads.token ht
  | gap _ _ ihp ihq =>
    rw [spell_append, tokensOf_append]
    exact ihp.gap ihq
  | comma _ _ ihp ihq =>
    rw [spell_append, tokensOf_append]
    exact ihp.comma ihq
  | enclose _ ih =>
    rw [spell_enclose, tokensOf_enclose]
    exact ih.enclose
  | call hw _ ih =>
    rw [spell_word_cons, spell_enclose, tokensOf_word_cons, tokensOf_enclose]
    exact ih.call hw
  | minus hp hhead ih => exact ih.minus hp.spell_ne_nil (mt hp.head?_spell_eq_minus_iff.mp hhead)
  | tilde _ ih => exact ih.tilde

/-- A spaced layout reads as its tokens. -/
theorem tokens?_spell {ps : List Piece} (h : Spaced ps) :
    tokens? (spell ps) = some (tokensOf ps) := h.reads.tokens?

/-! ### Lists -/

/-- Layouts one after the other, with a layout between any two. -/
def separate (sep : List Piece) (items : List (List Piece)) : List Piece := sep.intercalate items

/-- Layouts with commas between them. -/
def commas (items : List (List Piece)) : List Piece := separate [.symbol ",", .gap] items

theorem separate_cons_cons (sep ps qs : List Piece) (items : List (List Piece)) :
    separate sep (ps :: qs :: items) = ps ++ (sep ++ separate sep (qs :: items)) := by
  rw [separate, List.intercalate_cons_cons, List.append_assoc]
  rfl

/-- What takes layouts to lists and respects their concatenation respects lists of layouts. -/
theorem map_separate {α : Type} {f : List Piece → List α} (hnil : f [] = [])
    (happend : ∀ ps qs, f (ps ++ qs) = f ps ++ f qs) (sep : List Piece)
    (items : List (List Piece)) :
    f (separate sep items) = (f sep).intercalate (items.map f) := by
  induction items with
  | nil => exact hnil
  | cons ps items ih =>
    cases items with
    | nil => simp [separate]
    | cons qs items =>
      rw [separate_cons_cons, happend, happend, ih]
      simp only [List.map_cons, List.intercalate_cons_cons, List.append_assoc]

/-- Layouts are spelled with the spelling of what separates them in between. -/
theorem spell_separate (sep : List Piece) (items : List (List Piece)) :
    spell (separate sep items) = (spell sep).intercalate (items.map spell) :=
  map_separate rfl spell_append sep items

theorem tokensOf_separate (sep : List Piece) (items : List (List Piece)) :
    tokensOf (separate sep items) = (tokensOf sep).intercalate (items.map tokensOf) :=
  map_separate rfl tokensOf_append sep items

/-- What keeps two layouts spaced keeps any number of them spaced. -/
theorem spaced_separate {sep : List Piece}
    (hsep : ∀ {ps qs : List Piece}, Spaced ps → Spaced qs → Spaced (ps ++ (sep ++ qs)))
    {items : List (List Piece)} (hne : items ≠ []) (h : ∀ ps ∈ items, Spaced ps) :
    Spaced (separate sep items) := by
  induction items with
  | nil => exact absurd rfl hne
  | cons ps items ih =>
    obtain ⟨hps, hitems⟩ := List.forall_mem_cons.mp h
    cases items with
    | nil => simpa [separate] using hps
    | cons qs items =>
      rw [separate_cons_cons]
      exact hsep hps (ih (by simp) hitems)

theorem spaced_commas {items : List (List Piece)} (hne : items ≠ [])
    (h : ∀ ps ∈ items, Spaced ps) : Spaced (commas items) :=
  spaced_separate (fun hp hq => .comma hp hq) hne h

theorem spaced_gaps {items : List (List Piece)} (hne : items ≠ [])
    (h : ∀ ps ∈ items, Spaced ps) : Spaced (separate [.gap] items) :=
  spaced_separate (fun hp hq => .gap hp hq) hne h

/-- Texts with commas between them read as their tokens with commas between them. -/
theorem Reads.commas {α : Type} {text : α → List Char} {tokens : α → List Token} {items : List α}
    (hne : items ≠ []) (h : ∀ a ∈ items, Reads (text a) (tokens a)) :
    Reads (", ".toList.intercalate (items.map text))
      ([.symbol ","].intercalate (items.map tokens)) := by
  induction items with
  | nil => exact absurd rfl hne
  | cons a items ih =>
    obtain ⟨ha, hitems⟩ := List.forall_mem_cons.mp h
    cases items with
    | nil => simpa using ha
    | cons b items =>
      have hrest := ha.comma (ih (by simp) hitems)
      simp only [List.map_cons, List.intercalate_cons_cons, List.append_assoc] at hrest ⊢
      exact hrest

/-! ### Readable texts -/

/-- The tokens of a text, if it has any. -/
def textTokens (text : String) : List Token := (tokens? text.toList).getD []

theorem Reads.textTokens_eq {text : String} {ts : List Token} (h : Reads text.toList ts) :
    textTokens text = ts := by
  rw [textTokens, h.tokens?, Option.getD_some]

/-- Whether a text reads as its tokens. -/
def IsReadable (text : String) : Prop := Reads text.toList (textTokens text)

theorem Reads.isReadable {text : String} {ts : List Token} (h : Reads text.toList ts) :
    IsReadable text := by
  rw [IsReadable, h.textTokens_eq]
  exact h

end Sql

end SqlRecord
