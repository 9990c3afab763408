import SqlRecord.Proofs.Sql.Phrase

/-!
# Constants of phrases

The constants and placeholders among the tokens of a phrase are its atoms, in order
(`Phrase.filterMap_tokensOf_layout`). Hiding the content of its texts hides it in its tokens and
changes nothing else (`Phrase.map_mask_tokensOf_layout`).
-/

namespace SqlRecord

namespace Sql

/-! ### Atoms -/

namespace Phrase

/-- The constants and placeholders of a phrase as tokens, from left to right. -/
def atoms : Phrase → List Token
  | integer n => [.number (Digits.ofNat n)]
  | real x => [.number x.realText]
  | text cs => [.text cs]
  | placeholder p => [.placeholder p]
  | before _ e => e.atoms
  | between _ l r => l.atoms ++ r.atoms
  | null | column _ | call _ _ => []

section

variable {α : Type} {f : Token → Option α} (hf : SkipsWords f)

include hf

theorem filterMap_enclose (ps : List Piece) :
    (tokensOf (enclose ps)).filterMap f = (tokensOf ps).filterMap f := by
  rw [tokensOf_enclose, hf.filterMap_symbol, List.filterMap_append, hf.filterMap_symbol,
    List.filterMap_nil, List.append_nil]

theorem filterMap_wrap (t : Phrase) (ps : List Piece) :
    (tokensOf (t.wrap ps)).filterMap f = (tokensOf ps).filterMap f := by
  rw [wrap]
  split_ifs
  · exact filterMap_enclose hf ps
  · rfl

/-- What skips words and symbols finds behind an operator what it finds in the operand. -/
theorem filterMap_beforeLayout (op : UnaryOp) (ps : List Piece) :
    (tokensOf (beforeLayout op ps)).filterMap f = (tokensOf ps).filterMap f := by
  cases op with
  | not => exact hf.filterMap_word "NOT" _
  | bitNot => exact hf.filterMap_symbol "~" _
  | negate =>
    rw [beforeLayout, tokensOf_symbol_cons, hf.filterMap_symbol]
    split_ifs
    · exact filterMap_enclose hf ps
    · rfl

theorem filterMap_tokens (c : Connective) : c.tokens.filterMap f = [] := by
  cases c with
  | operator op h =>
    rw [Connective.tokens]
    split_ifs
    · exact hf.filterMap_word _ []
    · exact hf.filterMap_symbol _ []
  | is => exact hf.filterMap_word "IS" []
  | isNot => rw [Connective.tokens, hf.filterMap_word, hf.filterMap_word, List.filterMap_nil]

/-- What skips words and symbols finds around a connective what it finds in the operands. -/
theorem filterMap_betweenLayout (c : Connective) (ps qs : List Piece) :
    (tokensOf (betweenLayout c ps qs)).filterMap f =
      (tokensOf ps).filterMap f ++ (tokensOf qs).filterMap f := by
  have hall : (tokensOf (ps ++ .gap :: (c.layout ++ .gap :: qs))).filterMap f =
      (tokensOf ps).filterMap f ++ (tokensOf qs).filterMap f := by
    simp only [tokensOf_append, tokensOf_gap_cons, c.tokensOf_layout, List.filterMap_append,
      filterMap_tokens hf, List.nil_append]
  rw [betweenLayout]
  split_ifs
  · exact hall
  · rw [filterMap_enclose hf, hall]

/-- **A function that skips words and symbols sees the atoms of a phrase.** -/
theorem filterMap_tokensOf_layout (t : Phrase) :
    (tokensOf t.layout).filterMap f = t.atoms.filterMap f := by
  induction t with
  | null => exact hf.filterMap_word "NULL" []
  | integer n => rfl
  | real x => rfl
  | text cs => rfl
  | placeholder p => rfl
  | column c => exact hf.filterMap_word c []
  | call func arg =>
    rw [layout, tokensOf_word_cons, hf.filterMap_word, filterMap_enclose hf]
    cases arg with
    | none => exact hf.filterMap_symbol "*" []
    | some c => exact hf.filterMap_word c []
  | before op e ih => rw [layout, filterMap_beforeLayout hf, filterMap_wrap hf, ih, atoms]
  | between c l r ihl ihr =>
    rw [layout, filterMap_betweenLayout hf, filterMap_wrap hf, filterMap_wrap hf, ihl, ihr, atoms,
      List.filterMap_append]

end

end Phrase

/-! ### Masks -/

/-- The same token without the content of a text. -/
def Token.mask : Token → Token
  | text _ => text []
  | t => t

/-- The same piece without the content of a text. -/
def Piece.mask : Piece → Piece
  | gap => gap
  | token t => token t.mask

/-- Masking pieces masks their tokens. -/
theorem tokensOf_map_mask (ps : List Piece) :
    tokensOf (ps.map Piece.mask) = (tokensOf ps).map Token.mask := by
  induction ps with
  | nil => rfl
  | cons p ps ih =>
    cases p with
    | gap => exact ih
    | token t => exact congrArg (t.mask :: ·) ih

theorem Piece.mask_eq_symbol_iff {p : Piece} {s : String} : p.mask = .symbol s ↔ p = .symbol s := by
  rcases p with _ | ⟨_ | _ | _ | _ | _ | _ | _⟩ <;> simp [Piece.mask, Token.mask, Piece.symbol]

theorem head?_map_mask_iff {ps : List Piece} {s : String} :
    (ps.map Piece.mask).head? = some (.symbol s) ↔ ps.head? = some (.symbol s) := by
  cases ps with
  | nil => simp
  | cons p ps => simp [Piece.mask_eq_symbol_iff]

theorem map_mask_enclose (ps : List Piece) :
    (enclose ps).map Piece.mask = enclose (ps.map Piece.mask) := by
  simp [enclose, Piece.mask, Piece.symbol, Token.mask]

namespace Phrase

/-- The same phrase without the content of texts. -/
def mask : Phrase → Phrase
  | text _ => text []
  | before op e => before op e.mask
  | between c l r => between c l.mask r.mask
  | t => t

/-- Masking does not change where parentheses stand. -/
theorem isBare_mask (t : Phrase) : t.mask.isBare = t.isBare := by
  cases t <;> rfl

theorem map_mask_wrap (t : Phrase) (ps : List Piece) :
    (t.wrap ps).map Piece.mask = t.mask.wrap (ps.map Piece.mask) := by
  rw [wrap, wrap, isBare_mask]
  split_ifs
  · exact map_mask_enclose ps
  · rfl

theorem map_mask_beforeLayout (op : UnaryOp) (ps : List Piece) :
    (beforeLayout op ps).map Piece.mask = beforeLayout op (ps.map Piece.mask) := by
  cases op with
  | not => rfl
  | bitNot => rfl
  | negate =>
    simp only [beforeLayout, head?_map_mask_iff, List.map_cons]
    split_ifs
    · rw [map_mask_enclose]
      rfl
    · rfl

theorem map_mask_layout_connective (c : Connective) : c.layout.map Piece.mask = c.layout := by
  cases c with
  | operator op h =>
    rw [Connective.layout, Connective.tokens]
    split_ifs <;> rfl
  | is => rfl
  | isNot => rfl

/-- The layout of operands is masked operand by operand. -/
theorem map_mask_betweenLayout (c : Connective) (ps qs : List Piece) :
    (betweenLayout c ps qs).map Piece.mask =
      betweenLayout c (ps.map Piece.mask) (qs.map Piece.mask) := by
  have hall : (ps ++ .gap :: (c.layout ++ .gap :: qs)).map Piece.mask =
      ps.map Piece.mask ++ .gap :: (c.layout ++ .gap :: qs.map Piece.mask) := by
    simp only [List.map_append, List.map_cons, map_mask_layout_connective, Piece.mask]
  rw [betweenLayout, betweenLayout]
  split_ifs
  · exact hall
  · rw [map_mask_enclose, hall]

/-- The layout of a phrase is masked as the phrase is. -/
theorem map_mask_layout (t : Phrase) : t.layout.map Piece.mask = t.mask.layout := by
  induction t with
  | null => rfl
  | integer n => rfl
  | real x => rfl
  | text cs => rfl
  | placeholder p => rfl
  | column c => rfl
  | call func arg => cases arg <;> rfl
  | before op e ih => rw [layout, map_mask_beforeLayout, map_mask_wrap, ih, mask, layout]
  | between c l r ihl ihr =>
    rw [layout, map_mask_betweenLayout, map_mask_wrap, map_mask_wrap, ihl, ihr, mask, layout]

/-- **Phrases that differ in the content of texts have tokens that differ in it only.** -/
theorem map_mask_tokensOf_layout (t : Phrase) :
    (tokensOf t.layout).map Token.mask = tokensOf t.mask.layout := by
  rw [← tokensOf_map_mask, map_mask_layout]

end Phrase

end Sql

end SqlRecord
