import SqlRecord.Expr.Compile
import SqlRecord.Proofs.Schema.Build
import SqlRecord.Proofs.Sql.Phrase

/-!
# What expressions mean

`Schema.phrase?` says what the text of an expression means: fields stand for their columns, a
negative constant is a minus before its absolute value, and equality with `NULL` is `IS`. What an
expression over a well-formed schema means can be written (`Schema.writable_phrase?`).
-/

namespace SqlRecord

open Sql

/-! ### Constants -/

/-- A number with its sign. -/
def signed (negative : Bool) (t : Phrase) : Phrase := if negative then .before .negate t else t

/-- What the literal of a value means. -/
def Value.phrase? : Value → Option Phrase
  | null => some .null
  | integer i => some (signed (decide (i.val < 0)) (.integer i.val.natAbs))
  | real x => if x.isFinite then some (signed x.negative (.real x.abs)) else none
  | text s => some (.text s.toList)
  | blob _ => none

/-- What a constant means after `n` others were bound. -/
def Value.phraseIn? (mode : BindMode) (n : Nat) (v : Value) : Option Phrase :=
  match v with
  | .null => some .null
  | .blob _ => none
  | v => match mode with
    | .inline => v.phrase?
    | .parameters => some (.placeholder (":p" ++ natText (n + 1)))

/-- The constants that are bound when an expression is written, from left to right. -/
def Expr.bound (mode : BindMode) : Expr → List Value
  | literal v => if mode = .parameters ∧ v.isNull = false then [v] else []
  | binary _ left right => left.bound mode ++ right.bound mode
  | unary _ operand => operand.bound mode
  | column _ | aggregate _ _ => []

/-- Inline, no constants are bound. -/
theorem Expr.bound_inline (e : Expr) : e.bound .inline = [] := by
  induction e with
  | binary op left right ihl ihr => rw [bound, ihl, ihr, List.append_nil]
  | unary op e ih => exact ih
  | literal v => exact if_neg (by simp)
  | column field => rfl
  | aggregate func field => rfl

/-- `NULL` is not bound. -/
theorem Expr.bound_null (mode : BindMode) : (literal .null).bound mode = [] :=
  if_neg (by simp [Value.isNull])

theorem Expr.bound_literal {v : Value} (h : v.isNull = false) :
    (literal v).bound .parameters = [v] := if_pos ⟨rfl, h⟩

/-- Constants as parameters, numbered after `n` others. -/
def numbered (n : Nat) (values : List Value) : List Parameter :=
  values.mapIdx fun i v => ⟨":p" ++ natText (n + i + 1), v⟩

/-! ### Expressions -/

/-- What stands between two operands; `null` tells that one of them is `NULL`. -/
def connective? (op : BinaryOp) (null : Bool) : Option Connective :=
  if null ∧ op = .eq then some .is
  else if null ∧ op = .ne then some .isNot
  else if h : op.token?.isSome then some (.operator op h)
  else none

namespace Schema

variable (s : Schema)

/-- The column of a field, by name. -/
def columnName? (field : String) : Option String :=
  (s.indexOf? field).map fun i => (s.column i).name

/-- What the text of an expression means in a mode, after `n` constants were bound. -/
def phrase? (mode : BindMode) (n : Nat) : Expr → Option Phrase
  | .column field => (s.columnName? field).map .column
  | .literal v => v.phraseIn? mode n
  | .binary op left right => do
    let c ← connective? op (left.isNull || right.isNull)
    let l ← phrase? mode n left
    let r ← phrase? mode (n + (left.bound mode).length) right
    return .between c l r
  | .unary op e => (phrase? mode n e).map (.before op)
  | .aggregate func (some field) => (s.columnName? field).map fun c => .call func (some c)
  | .aggregate func none => if func = .count then some (.call func none) else none

/-- What an expression means with its constants as literals. -/
def reading (e : Expr) : Option Phrase := s.phrase? .inline 0 e

end Schema

/-! ### Literals -/

/-- A sign stands directly in front of a number. -/
theorem spell_signed {negative : Bool} {t : Phrase} (hbare : t.isBare = false)
    (hhead : t.layout.head? ≠ some (.symbol "-")) :
    spell (signed negative t).layout =
      if negative then '-' :: spell t.layout else spell t.layout := by
  cases negative with
  | false => rfl
  | true => simp [signed, Phrase.layout, Phrase.beforeLayout, Phrase.wrap, hbare, hhead]

/-- The literal of a value is the text of what it means. -/
theorem Literal.ofValue_eq (v : Value) :
    (Literal.ofValue v).toOption = v.phrase?.map fun t => String.ofList (spell t.layout) := by
  cases v with
  | null => rfl
  | integer i =>
    have hspell := @spell_signed (decide (i.val < 0)) (.integer i.val.natAbs)
      rfl (by simp [Phrase.layout, Piece.symbol])
    simp only [ofValue, intText, Digits.ofInt_eq, Value.phrase?, Option.map_some, hspell,
      decide_eq_true_eq]
    simp [Except.toOption, Phrase.layout, Token.spelling]
  | real x =>
    rw [ofValue, Value.phrase?]
    split_ifs with hfinite
    · have hspell := @spell_signed x.negative (.real x.abs) rfl
        (by simp [Phrase.layout, Piece.symbol])
      rw [Literal.ofReal_eq_ok_iff.mpr ⟨hfinite, rfl⟩, Option.map_some, hspell,
        Floating.realText_eq_abs hfinite]
      simp [Except.toOption, Phrase.layout, Token.spelling]
    · rw [ofReal, if_neg hfinite]
      rfl
  | text s => simp [ofValue, Value.phrase?, Except.toOption, quote, Phrase.layout, Token.spelling]
  | blob bytes => rfl

/-- The phrases of constants without a sign. -/
inductive IsConstant : Phrase → Prop
  | null : IsConstant .null
  | integer (n : Nat) : IsConstant (.integer n)
  | real {x : Binary64} (hfinite : x.isFinite = true) (hsign : x.negative = false) :
      IsConstant (.real x)
  | text (cs : List Char) : IsConstant (.text cs)

/-- The literal of a value is that of a constant, perhaps after a minus. -/
theorem Value.exists_signed {v : Value} {t : Phrase} (h : v.phrase? = some t) :
    ∃ negative a, t = signed negative a ∧ IsConstant a := by
  cases v with
  | null => cases h; exact ⟨false, _, rfl, .null⟩
  | integer i => cases h; exact ⟨_, _, rfl, .integer _⟩
  | real x =>
    rw [phrase?] at h
    split_ifs at h with hfinite
    cases h
    have habs : x.abs.isFinite = true := by rw [x.isFinite_abs, hfinite]
    exact ⟨_, _, rfl, .real habs x.negative_abs⟩
  | text s => cases h; exact ⟨false, _, rfl, .text _⟩
  | blob bytes => cases h

/-- The literal of a value can be written, as an operand without parentheses. -/
theorem Value.writable_phrase? {v : Value} {t : Phrase} (h : v.phrase? = some t) :
    t.Writable ∧ t.isBare = false := by
  obtain ⟨negative, a, rfl, ha⟩ := exists_signed h
  have hwritable : a.Writable ∧ a.isBare = false := by
    cases ha with
    | real hfinite hsign => exact ⟨⟨hfinite, hsign⟩, rfl⟩
    | _ => exact ⟨trivial, rfl⟩
  cases negative with
  | false => exact hwritable
  | true => exact ⟨hwritable.1, rfl⟩

/-! ### Placeholders -/

theorem isPlain_placeholder (n : Nat) :
    Token.IsPlain (.placeholder (":p" ++ natText n)) := by
  refine ⟨':', 'p' :: Digits.ofNat n, by simp [natText], by decide, by simp, ?_⟩
  rintro c hc
  rcases List.mem_cons.mp hc with rfl | hc
  · decide
  · exact Identifier.isPart_of_isDigit ((Literal.isDigits_iff.mp (Digits.isDigits_ofNat n)).2 c hc)

/-- A constant can be written in either mode, as an operand without parentheses. -/
theorem Value.writable_phraseIn? {mode : BindMode} {n : Nat} {v : Value} {t : Phrase}
    (h : v.phraseIn? mode n = some t) : t.Writable ∧ t.isBare = false := by
  rw [phraseIn?.eq_def] at h
  split at h
  next => cases h; exact ⟨trivial, rfl⟩
  next => cases h
  next =>
    cases mode with
    | inline => exact writable_phrase? h
    | parameters => cases h; exact ⟨isPlain_placeholder _, rfl⟩

namespace Schema

variable {s : Schema}

/-- The columns of a built schema have valid names. -/
theorem columnName?_valid (hs : s.WellFormed) {field name : String}
    (h : s.columnName? field = some name) : Identifier.isValid name = true := by
  obtain ⟨i, -, rfl⟩ := Option.map_eq_some_iff.mp h
  exact hs.name_valid _ (List.get_mem _ _)

/-- What an expression over a well-formed schema means can be written. -/
theorem writable_phrase? (hs : s.WellFormed) {mode : BindMode} {n : Nat} {e : Expr} {t : Phrase}
    (h : s.phrase? mode n e = some t) : t.Writable := by
  induction e generalizing n t with
  | column field =>
    obtain ⟨c, hc, rfl⟩ := Option.map_eq_some_iff.mp h
    exact columnName?_valid hs hc
  | literal v => exact (Value.writable_phraseIn? h).1
  | binary op left right ihl ihr =>
    simp only [phrase?, Option.bind_eq_bind, Option.bind_eq_some_iff] at h
    obtain ⟨c, -, l, hl, r, hr, ht⟩ := h
    cases ht
    exact ⟨ihl hl, ihr hr⟩
  | unary op e ih =>
    obtain ⟨t', ht, rfl⟩ := Option.map_eq_some_iff.mp h
    exact ih (t := t') ht
  | aggregate func field =>
    cases field with
    | some field =>
      obtain ⟨c, hc, rfl⟩ := Option.map_eq_some_iff.mp h
      rintro d ⟨⟩
      exact columnName?_valid hs hc
    | none =>
      rw [phrase?] at h
      split_ifs at h
      cases h
      rintro d ⟨⟩

/-- What stands bare are the connectives of comparisons and of logic. -/
theorem isBare_connective? {op : BinaryOp} {null : Bool} {c : Connective}
    (h : connective? op null = some c) : c.isBare = (op.isComparison || op.isLogical) := by
  rw [connective?] at h
  split_ifs at h with heq hne
  · cases h
    rw [heq.2]
    rfl
  · cases h
    rw [hne.2]
    rfl
  · cases h
    rfl

/-- What an expression means is put in parentheses where the expression is. -/
theorem isBare_phrase? {mode : BindMode} {n : Nat} {e : Expr} {t : Phrase}
    (h : s.phrase? mode n e = some t) : t.isBare = e.needsParentheses := by
  cases e with
  | column field =>
    obtain ⟨c, -, rfl⟩ := Option.map_eq_some_iff.mp h
    rfl
  | literal v => exact (Value.writable_phraseIn? h).2
  | binary op left right =>
    simp only [phrase?, Option.bind_eq_bind, Option.bind_eq_some_iff] at h
    obtain ⟨c, hc, l, -, r, -, ht⟩ := h
    cases ht
    exact isBare_connective? hc
  | unary op e =>
    obtain ⟨t, -, rfl⟩ := Option.map_eq_some_iff.mp h
    rfl
  | aggregate func field =>
    cases field with
    | some field =>
      obtain ⟨c, -, rfl⟩ := Option.map_eq_some_iff.mp h
      rfl
    | none =>
      rw [phrase?] at h
      split_ifs at h
      cases h
      rfl

/-- Literals take no numbers. -/
theorem phrase?_inline (s : Schema) (n : Nat) (e : Expr) : s.phrase? .inline n e = s.reading e := by
  rw [reading]
  induction e generalizing n with
  | column field => rfl
  | literal v => cases v <;> rfl
  | binary op left right ihl ihr => rw [phrase?, phrase?, ihl n, ihr, ihr (0 + _)]
  | unary op e ih => rw [phrase?, phrase?, ih n]
  | aggregate func field => cases field <;> rfl

end Schema

end SqlRecord
