import SqlRecord.Proofs.Sql.Grammar

/-!
# Layouts of phrases

How a phrase is written: arithmetic in parentheses of its own, comparisons, logical connectives
and `NOT` in parentheses where they are operands, and a minus never directly before a minus. Main
statement: `Phrase.Writable.derives`, by which the written tokens are read back as the phrase.
-/

namespace SqlRecord

namespace Sql

namespace Connective

/-- The pieces of a connective. -/
def layout (c : Connective) : List Piece := (c.tokens.map Piece.token).intersperse .gap

/-- Whether a connective stands without parentheses around it and its operands. -/
def isBare : Connective → Bool
  | operator op _ => op.isComparison || op.isLogical
  | is | isNot => true

/-- A connective is laid out as its tokens. -/
theorem tokensOf_layout (c : Connective) : tokensOf c.layout = c.tokens := by
  cases c <;> rfl

theorem spelled_tokens (c : Connective) : c.Spelled c.tokens := rfl

theorem spaced_layout (c : Connective) : Spaced c.layout := by
  cases c with
  | operator op h =>
    cases op <;> cases h <;>
      first | exact .symbol (by decide) | exact .word (by decide)
  | is => exact .word (by decide)
  | isNot => exact .word_gap (by decide) (.word (by decide))

end Connective

namespace Phrase

/-- Whether a phrase is put in parentheses as an operand. -/
def isBare : Phrase → Bool
  | before op _ => op == .not
  | between c _ _ => c.isBare
  | _ => false

/-- The category of a phrase as it is written. -/
def category (t : Phrase) : Category := if t.isBare then .sentence else .primary

/-- The layout of an operand, given the layout of its phrase. -/
def wrap (t : Phrase) (ps : List Piece) : List Piece := if t.isBare then enclose ps else ps

/-- The layout of an operator before an operand. -/
def beforeLayout (op : UnaryOp) (ps : List Piece) : List Piece :=
  match op with
  | .not => .word "NOT" :: .gap :: ps
  | .negate => .symbol "-" :: if ps.head? = some (.symbol "-") then enclose ps else ps
  | .bitNot => .symbol "~" :: ps

/-- The layout of a connective between operands. -/
def betweenLayout (c : Connective) (ps qs : List Piece) : List Piece :=
  let all := ps ++ .gap :: (c.layout ++ .gap :: qs)
  if c.isBare then all else enclose all

/-- The argument of an aggregate as a token. -/
def argument (column : Option String) : Token := column.elim (.symbol "*") .word

/-- The layout of a phrase. -/
def layout : Phrase → List Piece
  | null => [.word "NULL"]
  | integer n => [.token (.number (Digits.ofNat n))]
  | real x => [.token (.number x.realText)]
  | text cs => [.token (.text cs)]
  | placeholder p => [.token (.placeholder p)]
  | column c => [.word c]
  | call func arg => .word func.name :: enclose [.token (argument arg)]
  | before op e => beforeLayout op (e.wrap e.layout)
  | between c l r => betweenLayout c (l.wrap l.layout) (r.wrap r.layout)

/-- The phrases that are written: names are valid, reals finite and without a sign, and
placeholders plain. -/
def Writable : Phrase → Prop
  | real x => x.isFinite = true ∧ x.negative = false
  | placeholder p => Token.IsPlain (.placeholder p)
  | column c => Identifier.isValid c = true
  | call _ arg => ∀ c ∈ arg, Identifier.isValid c = true
  | before _ e => e.Writable
  | between _ l r => l.Writable ∧ r.Writable
  | _ => True

theorem isWord_of_isValid {c : String} (h : Identifier.isValid c = true) :
    Identifier.isWord c.toList = true := (Bool.and_eq_true_iff.mp h).1

theorem isKeyword_of_isValid {c : String} (h : Identifier.isValid c = true) :
    Identifier.isKeyword c = false := by
  simpa using (Bool.and_eq_true_iff.mp h).2

/-! ### Written phrases are spaced -/

theorem spaced_wrap {t : Phrase} {ps : List Piece} (h : Spaced ps) : Spaced (t.wrap ps) := by
  rw [wrap]
  split_ifs
  · exact .enclose h
  · exact h

theorem spaced_beforeLayout (op : UnaryOp) {ps : List Piece} (h : Spaced ps) :
    Spaced (beforeLayout op ps) := by
  cases op with
  | not => exact .word_gap (by decide) h
  | negate =>
    rw [beforeLayout]
    split_ifs with hhead
    · exact .minus (.enclose h) (by simp [enclose, Piece.symbol])
    · exact .minus h hhead
  | bitNot => exact .tilde h

/-- A connective between spaced operands is spaced. -/
theorem spaced_betweenLayout (c : Connective) {ps qs : List Piece} (hp : Spaced ps)
    (hq : Spaced qs) : Spaced (betweenLayout c ps qs) := by
  have hall := Spaced.gap hp (.gap c.spaced_layout hq)
  rw [betweenLayout]
  split_ifs
  · exact hall
  · exact .enclose hall

/-- The layout of a phrase that can be written is spaced. -/
theorem Writable.spaced {t : Phrase} (h : t.Writable) : Spaced t.layout := by
  induction t with
  | null => exact .word (by decide)
  | integer n =>
    refine .token ?_
    exact Literal.isUnsignedNumeric_iff.mpr (.inl (Digits.isDigits_ofNat n))
  | real x => exact .token (Floating.nearest_realText h.1 h.2).1
  | text cs => exact .token trivial
  | placeholder p => exact .token h
  | column c => exact .word (isWord_of_isValid h)
  | call func arg =>
    refine .call (by cases func <;> decide) ?_
    cases arg with
    | none => exact .symbol (by decide)
    | some c => exact .word (isWord_of_isValid (h c rfl))
  | before op e ih => exact spaced_beforeLayout op (spaced_wrap (ih h))
  | between c l r ihl ihr =>
    exact spaced_betweenLayout c (spaced_wrap (ihl h.1)) (spaced_wrap (ihr h.2))

/-- The text of a written phrase reads as its tokens. -/
theorem Writable.reads {t : Phrase} (h : t.Writable) :
    Reads (String.ofList (spell t.layout)).toList (tokensOf t.layout) := by
  rw [String.toList_ofList]
  exact h.spaced.reads

/-! ### Written phrases are read back -/

/-- A phrase is derived as an operand once it is in the parentheses it needs. -/
theorem derives_wrap {t : Phrase} {ps : List Piece} (h : Derives t.category (tokensOf ps) t) :
    Derives .primary (tokensOf (t.wrap ps)) t := by
  rw [category] at h
  rw [wrap]
  split_ifs at h ⊢
  · rw [tokensOf_enclose]
    exact .enclose h
  · exact h

/-- A valid name as an operand means the column of this name. -/
theorem atom?_column {c : String} (h : Identifier.isValid c = true) :
    (Token.word c).atom? = some (.column c) := by
  have hkey := isKeyword_of_isValid h
  have hnull : sameName c "NULL" = false := by
    by_contra hnull
    rw [Bool.not_eq_false] at hnull
    have : Identifier.isKeyword "NULL" = true := by decide +kernel
    rw [← isKeyword_of_sameName hnull, hkey] at this
    cases this
  simp [Token.atom?, hnull, hkey]

/-- **A written phrase is read back**: it is the derivation of its tokens. -/
theorem Writable.derives {t : Phrase} (h : t.Writable) :
    Derives t.category (tokensOf t.layout) t := by
  induction t with
  | null => exact .atom (by decide)
  | integer n =>
    refine .atom ?_
    rw [Token.atom?, if_pos (Digits.isDigits_ofNat n), Digits.value_ofNat]
  | real x =>
    refine .atom ?_
    rw [Token.atom?, x.isDigits_realText, if_neg (by decide),
      (Floating.nearest_realText h.1 h.2).2]
  | text cs => exact .atom rfl
  | placeholder p => exact .atom rfl
  | column c => exact .atom (atom?_column h)
  | call func arg =>
    refine .call (by cases func <;> decide) ?_
    cases arg with
    | none => rfl
    | some c => simp [argument, Token.argument?, isKeyword_of_isValid (h c rfl)]
  | before op e ih =>
    have hoperand := derives_wrap (ih h)
    cases op with
    | not => exact .not (by decide) hoperand
    | bitNot => exact @Derives.sign .bitNot _ _ (by decide) hoperand
    | negate =>
      -- an operand that begins with a minus is in parentheses, which change no meaning
      rw [layout, beforeLayout]
      split_ifs
      · rw [tokensOf_symbol_cons, tokensOf_enclose]
        exact @Derives.sign .negate _ _ (by decide) (.enclose (.primary hoperand))
      · exact @Derives.sign .negate _ _ (by decide) hoperand
  | between c l r ihl ihr =>
    have hall : Derives .sentence
        (tokensOf (l.wrap l.layout ++ .gap :: (c.layout ++ .gap :: r.wrap r.layout)))
        (.between c l r) := by
      rw [tokensOf_append, tokensOf_gap_cons, tokensOf_append, tokensOf_gap_cons,
        c.tokensOf_layout]
      exact .between (derives_wrap (ihl h.1)) c.spelled_tokens (derives_wrap (ihr h.2))
    rw [layout, betweenLayout, category, isBare]
    split_ifs
    · exact hall
    · rw [tokensOf_enclose]
      exact .enclose hall

/-- A phrase that needs no parentheses is derived as an operand. -/
theorem Writable.derives_primary {t : Phrase} (h : t.Writable) (hbare : t.isBare = false) :
    Derives .primary (tokensOf t.layout) t := by
  have hd := h.derives
  rwa [category, hbare] at hd

/-- Every phrase that can be written is derived as a sentence. -/
theorem Writable.derives_sentence {t : Phrase} (h : t.Writable) :
    Derives .sentence (tokensOf t.layout) t := by
  have hd := h.derives
  rw [category] at hd
  split_ifs at hd
  · exact hd
  · exact .primary hd

/-! ### Folding -/

/-- The same phrase with the letters of names in lower case. -/
def fold : Phrase → Phrase
  | placeholder p => placeholder (foldName p)
  | column c => column (foldName c)
  | call func arg => call func (arg.map foldName)
  | before op e => before op e.fold
  | between c l r => between c l.fold r.fold
  | t => t

theorem isBare_fold (t : Phrase) : t.fold.isBare = t.isBare := by
  cases t <;> rfl

/-- The folded layout of a phrase is determined by the folded phrase. -/
theorem foldLayout_layout (t : Phrase) : foldLayout t.layout = foldLayout t.fold.layout := by
  have hwrap : ∀ {t : Phrase} {ps qs : List Piece}, foldLayout ps = foldLayout qs →
      foldLayout (t.wrap ps) = foldLayout (t.fold.wrap qs) := by
    intro t ps qs h
    rw [wrap, wrap, isBare_fold]
    split_ifs
    · rw [foldLayout_enclose, foldLayout_enclose, h]
    · exact h
  induction t with
  | null => rfl
  | integer => rfl
  | real => rfl
  | text => rfl
  | placeholder p => simp [layout, fold, Token.fold]
  | column c => simp [layout, fold]
  | call func arg =>
    cases arg with
    | none => rfl
    | some c => simp [layout, fold, argument, Token.fold]
  | before op e ih =>
    have he := hwrap (t := e) ih
    -- folding moves no minus, so that parentheses stay where they are
    have hhead : (e.wrap e.layout).head? = some (.symbol "-") ↔
        (e.fold.wrap e.fold.layout).head? = some (.symbol "-") := by
      rw [← head?_foldLayout_iff, he, head?_foldLayout_iff]
    cases op with
    | not => simp [layout, fold, beforeLayout, he]
    | bitNot => simp [layout, fold, beforeLayout, he]
    | negate =>
      simp only [layout, fold, beforeLayout, hhead]
      split_ifs <;> simp [he]
  | between c l r ihl ihr =>
    have hl := hwrap (t := l) ihl
    have hr := hwrap (t := r) ihr
    simp only [layout, fold, betweenLayout]
    split_ifs <;> simp [hl, hr]

end Phrase

/-- Folding tokens folds what they mean. -/
theorem Derives.fold {k : Category} {ts : List Token} {a : Phrase} (h : Derives k ts a) :
    Derives k (ts.map Token.fold) a.fold := by
  induction h with
  | primary _ ih => exact .primary ih
  | not hw _ ih =>
    refine .not ?_ ih
    rw [sameName_foldName_left]
    exact hw
  | between _ hc _ ihl ihr =>
    rw [List.map_append, List.map_append]
    refine .between ihl ?_ ihr
    rw [Connective.Spelled, List.map_map, ← hc]
    exact List.map_congr_left fun t _ => t.fold_fold
  | sign hop _ ih => exact .sign hop ih
  | @atom t a ht =>
    refine .atom ?_
    cases t with
    | word w =>
      rw [Token.atom?] at ht
      rw [Token.fold, Token.atom?, sameName_foldName_left, Identifier.isKeyword_foldName]
      split_ifs at ht ⊢ <;> rw [← Option.some.inj ht] <;> rfl
    | number cs =>
      rw [Token.atom?] at ht
      rw [Token.fold, Token.atom?, ← Option.some.inj ht]
      · split_ifs <;> rfl
      all_goals exact fun _ => Token.noConfusion
    | text cs => cases ht; rfl
    | placeholder p => cases ht; rfl
    | name _ => cases ht
    | bytes _ => cases ht
    | symbol _ => cases ht
  | @call w func t arg hw ht =>
    refine .call ?_ ?_
    · rw [sameName_foldName_left]
      exact hw
    · cases t with
      | word w =>
        rw [Token.argument?] at ht
        rw [Token.fold, Token.argument?, Identifier.isKeyword_foldName]
        split_ifs at ht ⊢
        cases ht
        rfl
      | symbol s =>
        rw [Token.argument?] at ht
        rw [Token.fold, Token.argument?]
        · split_ifs at ht ⊢
          cases ht
          rfl
        all_goals exact fun _ => Token.noConfusion
      | _ => cases ht
  | enclose _ ih =>
    rw [List.map_cons, List.map_append]
    exact .enclose ih

end Sql

end SqlRecord
