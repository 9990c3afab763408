import SqlRecord.Proofs.Sql.Layout
import SqlRecord.Schema.Definition

/-!
# Normalized layouts

What normalizing a definition does to a layout: words lose the case of their letters and nothing
else changes (`normalize_spell`). The folded layout is spaced as well, so a normalized text reads
as the folded tokens.
-/

namespace SqlRecord

namespace Sql

/-- A token with the letters of words in lower case. -/
def Token.fold : Token → Token
  | word w => word (foldName w)
  | placeholder p => placeholder (foldName p)
  | t => t

/-- A piece with the letters of words in lower case. -/
def Piece.fold : Piece → Piece
  | gap => gap
  | token t => token t.fold

/-- A layout with the letters of words in lower case. -/
def foldLayout (ps : List Piece) : List Piece := ps.map Piece.fold

@[simp] theorem foldLayout_nil : foldLayout [] = [] := rfl

@[simp] theorem foldLayout_append (ps qs : List Piece) :
    foldLayout (ps ++ qs) = foldLayout ps ++ foldLayout qs := List.map_append

@[simp] theorem foldLayout_gap_cons (ps : List Piece) :
    foldLayout (.gap :: ps) = .gap :: foldLayout ps := rfl

@[simp] theorem foldLayout_word_cons (w : String) (ps : List Piece) :
    foldLayout (.word w :: ps) = .word (foldName w) :: foldLayout ps := rfl

@[simp] theorem foldLayout_symbol_cons (s : String) (ps : List Piece) :
    foldLayout (.symbol s :: ps) = .symbol s :: foldLayout ps := rfl

@[simp] theorem foldLayout_token_cons (t : Token) (ps : List Piece) :
    foldLayout (.token t :: ps) = .token t.fold :: foldLayout ps := rfl

@[simp] theorem foldLayout_enclose (ps : List Piece) :
    foldLayout (enclose ps) = enclose (foldLayout ps) := by
  simp [enclose]

theorem foldLayout_separate (sep : List Piece) (items : List (List Piece)) :
    foldLayout (separate sep items) = separate (foldLayout sep) (items.map foldLayout) :=
  map_separate rfl foldLayout_append sep items

/-- Folding a layout folds its tokens. -/
theorem tokensOf_foldLayout (ps : List Piece) :
    tokensOf (foldLayout ps) = (tokensOf ps).map Token.fold := by
  induction ps with
  | nil => rfl
  | cons p ps ih => cases p <;> simp [ih]

theorem Token.fold_eq_symbol_iff {t : Token} {s : String} : t.fold = .symbol s ↔ t = .symbol s := by
  cases t <;> simp [Token.fold]

theorem symbol_mem_map_fold_iff {ts : List Token} {s : String} :
    .symbol s ∈ ts.map Token.fold ↔ .symbol s ∈ ts := by
  simp [Token.fold_eq_symbol_iff]

theorem Token.fold_fold (t : Token) : t.fold.fold = t.fold := by
  cases t <;> simp [Token.fold]

/-! ### Folding keeps layouts spaced -/

theorem Token.IsPlain.fold {t : Token} (ht : t.IsPlain) : t.fold.IsPlain := by
  cases t with
  | word w =>
    have h := Identifier.isWord_map_toLower ht
    rw [Token.fold, Token.IsPlain, toList_foldName]
    exact h
  | placeholder p =>
    obtain ⟨mark, cs, hcs, hmark, hne, hall⟩ := ht
    refine ⟨mark, cs.map Char.toLower, ?_, hmark, by simpa using hne, ?_⟩
    · rw [toList_foldName, foldCase, hcs, List.map_cons]
      rcases List.mem_pair.mp hmark with rfl | rfl <;> rfl
    · intro c hc
      obtain ⟨d, hd, rfl⟩ := List.mem_map.mp hc
      exact Identifier.isPart_toLower (hall d hd)
  | number _ => exact ht
  | text _ => exact ht
  | symbol _ => exact ht
  | name _ => exact ht
  | bytes _ => exact ht

theorem Piece.fold_eq_symbol_iff {p : Piece} {s : String} : p.fold = .symbol s ↔ p = .symbol s := by
  cases p with
  | gap => simp [Piece.fold, Piece.symbol]
  | token t => simp [Piece.fold, Piece.symbol, Token.fold_eq_symbol_iff]

theorem head?_foldLayout_iff {ps : List Piece} {s : String} :
    (foldLayout ps).head? = some (.symbol s) ↔ ps.head? = some (.symbol s) := by
  cases ps with
  | nil => simp
  | cons p ps => simp [foldLayout, Piece.fold_eq_symbol_iff]

/-- Folding keeps a layout spaced. -/
theorem Spaced.foldLayout {ps : List Piece} (h : Spaced ps) : Spaced (foldLayout ps) := by
  induction h with
  | token ht => exact .token ht.fold
  | gap _ _ ihp ihq =>
    rw [foldLayout_append, foldLayout_gap_cons]
    exact .gap ihp ihq
  | comma _ _ ihp ihq =>
    rw [foldLayout_append, foldLayout_symbol_cons, foldLayout_gap_cons]
    exact .comma ihp ihq
  | enclose _ ih =>
    rw [foldLayout_enclose]
    exact .enclose ih
  | call hw _ ih =>
    rw [foldLayout_word_cons, foldLayout_enclose]
    refine .call ?_ ih
    rw [toList_foldName]
    exact Identifier.isWord_map_toLower hw
  | @minus ps _ hhead ih =>
    rw [foldLayout_symbol_cons]
    exact .minus ih (mt head?_foldLayout_iff.mp hhead)
  | tilde _ ih =>
    rw [foldLayout_symbol_cons]
    exact .tilde ih

/-! ### Normalizing -/

open Definition (normalizeFrom isBlank)

/-- The blank that stands for white space that was passed. -/
def lead (pending : Bool) : List Char := if pending then [' '] else []

/-- Characters that are neither blank nor quotes are folded one by one. -/
theorem normalizeFrom_append {cs : List Char} (hne : cs ≠ [])
    (h : ∀ c ∈ cs, isBlank c = false ∧ c ≠ '\'') (pending started : Bool) (rest : List Char) :
    normalizeFrom false pending started (cs ++ rest) =
      lead pending ++ (cs.map Char.toLower ++ normalizeFrom false false true rest) := by
  -- after the first character no blank is pending
  have hmany : ∀ cs : List Char, (∀ c ∈ cs, isBlank c = false ∧ c ≠ '\'') →
      normalizeFrom false false true (cs ++ rest) =
        cs.map Char.toLower ++ normalizeFrom false false true rest := by
    intro cs h
    induction cs with
    | nil => rfl
    | cons c cs ih =>
      obtain ⟨hb, hq⟩ := h c List.mem_cons_self
      have hq' : (c == '\'') = false := beq_eq_false_iff_ne.mpr hq
      simp [normalizeFrom, hb, hq', ih fun d hd => h d (List.mem_cons_of_mem c hd)]
  obtain ⟨c, cs, rfl⟩ := List.exists_cons_of_ne_nil hne
  obtain ⟨hb, hq⟩ := h c List.mem_cons_self
  have hq' : (c == '\'') = false := beq_eq_false_iff_ne.mpr hq
  rw [List.cons_append, normalizeFrom]
  cases pending <;>
    simp [hb, hq', lead, hmany cs fun d hd => h d (List.mem_cons_of_mem c hd)]

/-- The inside of a literal is kept as it is, and so is the quote that closes it. -/
theorem normalizeFrom_escape (cs rest : List Char) :
    normalizeFrom true false true (Literal.escape cs ++ '\'' :: rest) =
      Literal.escape cs ++ '\'' :: normalizeFrom false false true rest := by
  induction cs with
  | nil => simp [Literal.escape, normalizeFrom]
  | cons c cs ih =>
    by_cases hc : c = '\''
    · subst hc
      have hb : isBlank '\'' = false := by decide
      have hl : '\''.toLower = '\'' := by decide
      simp [Literal.escape, normalizeFrom, hb, hl, ih]
    · have hc' : (c != '\'') = true := bne_iff_ne.mpr hc
      simp [Literal.escape, normalizeFrom, hc, hc', ih]

/-- The characters of a plain token other than a literal are kept up to their case. -/
theorem Token.IsPlain.keeps {t : Token} (ht : t.IsPlain) (hl : ∀ cs, t ≠ .text cs) :
    (∀ c ∈ t.spelling, isBlank c = false ∧ c ≠ '\'') ∧
      t.fold.spelling = t.spelling.map Char.toLower := by
  have hpart : ∀ {c : Char}, Identifier.isPart c = true → isBlank c = false ∧ c ≠ '\'' :=
    Identifier.forall_isPart (P := fun c => isBlank c = false ∧ c ≠ '\'') (by decide)
  cases t with
  | word w =>
    obtain ⟨-, -, -, -, hall⟩ := Identifier.isWord_iff.mp ht
    exact ⟨fun c hc => hpart (hall c hc), toList_foldName w⟩
  | placeholder p =>
    obtain ⟨mark, cs, hcs, hmark, -, hall⟩ := ht
    refine ⟨fun c hc => ?_, toList_foldName p⟩
    rw [Token.spelling, hcs, List.mem_cons] at hc
    rcases hc with rfl | hc
    · rcases List.mem_pair.mp hmark with rfl | rfl <;> decide
    · exact hpart (hall c hc)
  | number cs =>
    -- there are no letters in a plain number
    have hdigit : ∀ c ∈ cs, c.isDigit = true ∨ c = '.' := by
      rcases Literal.isUnsignedNumeric_iff.mp ht with h | ⟨whole, fraction, rfl, hw, hf⟩
      · exact fun c hc => .inl ((Literal.isDigits_iff.mp h).2 c hc)
      · intro c hc
        rcases List.mem_append.mp hc with hc | hc
        · exact .inl ((Literal.isDigits_iff.mp hw).2 c hc)
        · rcases List.mem_cons.mp hc with rfl | hc
          · exact .inr rfl
          · exact .inl ((Literal.isDigits_iff.mp hf).2 c hc)
    refine ⟨fun c hc => ?_, ?_⟩
    · rcases hdigit c hc with h | rfl
      · exact hpart (Identifier.isPart_of_isDigit h)
      · decide
    · have hlow : ∀ c ∈ cs, c.toLower = id c := by
        intro c hc
        rcases hdigit c hc with h | rfl
        · exact Identifier.forall_isPart (P := fun c => c.isDigit = true → c.toLower = c)
            (by decide) (Identifier.isPart_of_isDigit h) h
        · decide
      rw [Token.fold, Token.spelling, List.map_congr_left hlow, List.map_id]
      · exact fun _ => Token.noConfusion
      · exact fun _ => Token.noConfusion
  | symbol s =>
    have hs : s ∈ plainSymbols := ht
    -- no symbol has a letter, a blank or a quote in it
    have hall : plainSymbols.all (fun s => s.toList.all fun c =>
        !isBlank c && c != '\'' && c.toLower == c) = true := by decide
    have hchar : ∀ c ∈ s.toList, (!isBlank c && c != '\'' && c.toLower == c) = true :=
      List.all_eq_true.mp (List.all_eq_true.mp hall s hs)
    simp only [Bool.and_eq_true, Bool.not_eq_true', bne_iff_ne, beq_iff_eq] at hchar
    refine ⟨fun c hc => (hchar c hc).1, ?_⟩
    exact ((List.map_congr_left fun c hc => (hchar c hc).2).trans (List.map_id _)).symm
  | text cs => exact absurd rfl (hl cs)
  | name _ => exact ht.elim
  | bytes _ => exact ht.elim

/-- A plain token is normalized to its folded form, after one blank if white space is pending. -/
theorem normalizeFrom_spelling {t : Token} (ht : t.IsPlain) (pending started : Bool)
    (rest : List Char) :
    normalizeFrom false pending started (t.spelling ++ rest) =
      lead pending ++ (t.fold.spelling ++ normalizeFrom false false true rest) := by
  by_cases hl : ∃ cs, t = .text cs
  · obtain ⟨cs, rfl⟩ := hl
    -- a literal keeps its content, and its quotes have no case
    have hb : isBlank '\'' = false := by decide
    have hlow : '\''.toLower = '\'' := by decide
    rw [Token.fold, Token.spelling, Literal.quoteChars, List.cons_append, List.append_assoc,
      List.singleton_append, normalizeFrom]
    · cases pending <;> simp [hb, hlow, lead, normalizeFrom_escape]
    · exact fun _ => Token.noConfusion
    · exact fun _ => Token.noConfusion
  · obtain ⟨hkeep, hfold⟩ := ht.keeps (not_exists.mp hl)
    rw [hfold]
    exact normalizeFrom_append (skipGap_spelling ht closes_nil).1 hkeep pending started rest

theorem normalizeFrom_blank (pending started : Bool) (cs : List Char) :
    normalizeFrom false pending started (' ' :: cs) = normalizeFrom false started started cs := rfl

theorem normalizeFrom_mark {c : Char} (hc : c ∈ ['(', ')', ',', '~', '-'])
    (pending started : Bool) (cs : List Char) :
    normalizeFrom false pending started (c :: cs) =
      lead pending ++ c :: normalizeFrom false false true cs := by
  simp only [List.mem_cons, List.not_mem_nil, or_false] at hc
  rcases hc with rfl | rfl | rfl | rfl | rfl <;> cases pending <;> rfl

/-- Parentheses are kept around what they enclose. -/
theorem normalizeFrom_enclose {ps : List Piece}
    (h : ∀ (pending started : Bool) (rest : List Char),
      normalizeFrom false pending started (spell ps ++ rest) =
        lead pending ++ (spell (foldLayout ps) ++ normalizeFrom false false true rest))
    (pending started : Bool) (rest : List Char) :
    normalizeFrom false pending started (spell (enclose ps) ++ rest) =
      lead pending ++
        (spell (foldLayout (enclose ps)) ++ normalizeFrom false false true rest) := by
  rw [spell_enclose, List.cons_append, List.append_assoc, List.singleton_append,
    normalizeFrom_mark (by decide), h, normalizeFrom_mark (by decide)]
  simp [lead]

/-- Normalizing the text of a spaced layout folds the layout, whatever stands around it. -/
theorem Spaced.normalizeFrom_append {ps : List Piece} (h : Spaced ps) :
    ∀ (pending started : Bool) (rest : List Char),
      normalizeFrom false pending started (spell ps ++ rest) =
        lead pending ++ (spell (Sql.foldLayout ps) ++ normalizeFrom false false true rest) := by
  induction h with
  | token ht =>
    intro pending started rest
    simpa using normalizeFrom_spelling ht pending started rest
  | gap _ _ ihp ihq =>
    intro pending started rest
    rw [spell_append, spell_gap_cons, List.append_assoc, List.cons_append, ihp,
      normalizeFrom_blank, ihq]
    simp [lead]
  | comma _ _ ihp ihq =>
    intro pending started rest
    rw [spell_append, spell_comma_cons, spell_gap_cons, List.append_assoc, List.cons_append,
      List.cons_append, ihp, normalizeFrom_mark (by decide), normalizeFrom_blank, ihq]
    simp [lead]
  | enclose _ ih =>
    intro pending started rest
    exact normalizeFrom_enclose ih pending started rest
  | call hw _ ih =>
    intro pending started rest
    have hword := normalizeFrom_spelling (t := .word _) hw
    rw [Token.fold, Token.spelling, Token.spelling] at hword
    rw [spell_word_cons, List.append_assoc, hword, normalizeFrom_enclose ih]
    simp [lead]
  | minus _ _ ih =>
    intro pending started rest
    rw [spell_minus_cons, List.cons_append, normalizeFrom_mark (by decide), ih]
    simp [lead]
  | tilde _ ih =>
    intro pending started rest
    rw [spell_tilde_cons, List.cons_append, normalizeFrom_mark (by decide), ih]
    simp [lead]

/-- **Normalizing a definition folds its layout** and changes nothing else. -/
theorem normalize_spell {ps : List Piece} (h : Spaced ps) :
    Definition.normalize (spell ps) = spell (foldLayout ps) := by
  have := h.normalizeFrom_append false false []
  rw [List.append_nil] at this
  rw [Definition.normalize, this]
  simp [lead, normalizeFrom]

end Sql

end SqlRecord
