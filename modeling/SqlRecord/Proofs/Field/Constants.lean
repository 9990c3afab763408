import SqlRecord.Proofs.Field.Lossless
import SqlRecord.Proofs.Field.Modes
import SqlRecord.Proofs.Schema.Build
import SqlRecord.Schema.Definition

/-!
# Fields as constants

A value that a column stores can also stand in a condition, a check or a default, as a constant. The
constant is the value that the column stores, and it is written as the column's value is written,
except for a decimal that is no integer of a cell: the column has its digits, the constant has them
between quotes, which makes a text of them. Main statement: `FieldType.constant_text_eq_iff`.
-/

namespace SqlRecord

/-! ### Constants of native types -/

namespace NativeType

/-- The types whose values can stand as constants: all but payloads and the integer types that
reach past those of a cell or whose width depends on the machine. -/
def HasConstants : NativeType → Prop
  | integer t => t ≠ .uint64 ∧ t ≠ .uintSize ∧ t ≠ .intSize
  | payload _ => False
  | _ => True

/-- An integer is the constant with its value, if a cell can hold that. -/
theorem constant?_integer {t : IntegerType} (ht : (integer t).HasConstants) (n : t.Carrier) :
    (integer t).constant? n = (BoundedInt.ofInt? _ _ n.val).map .integer := by
  obtain ⟨h₁, h₂, h₃⟩ := ht
  cases t <;> first | rfl | contradiction

/-- The constant of a value that is stored is what it is stored as. -/
theorem constant?_eq_of_toValue {t : NativeType} (ht : t.HasConstants) {v : t.Carrier} {c : Value}
    (h : t.toValue v = .ok c) : t.constant? v = some c := by
  cases t with
  | integer t =>
    obtain ⟨n, rfl, hn⟩ := integerValue_eq_ok h
    have hmember : BoundedInt.ofInt? _ _ (BoundedInt.val v) = some n :=
      BoundedInt.ofInt?_eq_some_iff.mpr hn
    exact (constant?_integer ht v).trans (congrArg (Option.map Value.integer) hmember)
  | float32 | float64 =>
    obtain ⟨rfl, -⟩ := realValue_eq_ok h
    rfl
  | bool =>
    obtain ⟨n, rfl, hn⟩ := integerValue_eq_ok h
    exact congrArg (Option.map Value.integer) (BoundedInt.ofInt?_eq_some_iff.mpr hn)
  | instant =>
    rw [toValue] at h
    split at h
    next n hn =>
      cases h
      exact congrArg (some ∘ Value.integer) (Instant.nearestCell_of_cell? hn)
    next => cases h
  | decimal =>
    have hvalue : decimalValue v = .ok c := h
    simp only [constant?, hvalue]
  | string | char =>
    cases h
    rfl
  | payload => cases ht

/-- Whether a value is a decimal that is no integer of a cell. -/
def IsFraction : (t : NativeType) → t.Carrier → Prop
  | decimal, d => ¬Decimal.IsCellInt d
  | _, _ => False

/-- What is stored in a numeric column as a text is a fraction, and nothing else is one. -/
theorem isFraction_cases {t : NativeType} {v : t.Carrier} {c : Value} (h : t.toValue v = .ok c) :
    t.IsFraction v ∧ t.sqlType = .numeric ∧ (∃ d : Decimal, c = .text (String.ofList d.text)) ∨
      ¬t.IsFraction v ∧ (t.sqlType = .numeric → c.storageClass ≠ .text) := by
  cases t with
  | decimal =>
    rcases decimalValue_cases h with ⟨hcell, n, rfl⟩ | ⟨hcell, rfl⟩
    · exact .inr ⟨not_not_intro hcell, fun _ hclass => by cases hclass⟩
    · exact .inl ⟨hcell, rfl, v, rfl⟩
  | bool =>
    obtain ⟨n, rfl, -⟩ := integerValue_eq_ok h
    exact .inr ⟨id, fun _ hclass => by cases hclass⟩
  | instant =>
    rw [toValue] at h
    split at h
    next =>
      cases h
      exact .inr ⟨id, fun _ hclass => by cases hclass⟩
    next => cases h
  | integer | float32 | float64 | string | char | payload =>
    exact .inr ⟨id, fun htype => by cases htype⟩

end NativeType

/-! ### Literals and values of columns -/

theorem Literal.length_escape (cs : List Char) : cs.length ≤ (escape cs).length := by
  induction cs with
  | nil => exact Nat.le_refl _
  | cons c cs ih =>
    rw [escape]
    split_ifs <;> simp only [List.length_cons] <;> omega

/-- A text differs from its literal, which is longer. -/
theorem Literal.quote_ne (s : String) : quote s ≠ s := by
  intro h
  have hlength := congrArg (fun s : String => s.toList.length) h
  have hescape := length_escape s.toList
  simp only [quote, quoteChars, String.toList_ofList, List.length_cons, List.length_append,
    List.length_nil] at hlength
  omega

/-- A value that suits its column has the column's text for its literal, unless it is the text of a
number. -/
theorem SqlType.Suits.literal_eq {t : SqlType} {c : Value} (h : t.Suits c) (ht : t ≠ .blob)
    (hc : t = .numeric → c.storageClass ≠ .text) :
    Literal.ofValue c = SqlRecord.inlineText t c := by
  cases h with
  | null => cases t <;> rfl
  | integer hi => rcases hi with rfl | rfl <;> rfl
  | real | text => rfl
  | decimal => exact absurd rfl (hc rfl)
  | blob => exact absurd rfl ht

/-- The text of a decimal stands in a numeric column as it is. -/
theorem inlineText_decimal (d : Decimal) :
    inlineText .numeric (.text (String.ofList d.text)) = .ok (String.ofList d.text) := by
  have hnumeric := d.isNumericText_text
  rw [← String.toList_ofList (l := d.text)] at hnumeric
  exact if_pos hnumeric

theorem encode_inline {t : SqlType} {c : Value} {text : String} (name : String) (ht : t ≠ .blob)
    (h : inlineText t c = .ok text) : encode name t c .inline = .ok ⟨text, none⟩ := by
  have hencode : encode name t c .inline = (inlineText t c).map .ofText := by
    cases t <;> first | exact absurd rfl ht | rfl
  rw [hencode, h]
  rfl

namespace Schema

variable (s : Schema)

/-- A constant is written as its literal. -/
theorem compile_literal {c : Value} {text : String} (h : Literal.ofValue c = .ok text) :
    s.compile (.literal c) = .ok text := by
  cases c with
  | null =>
    cases h
    rfl
  | blob bytes => cases h
  | integer i | real x | text str =>
    rw [compile, emit, emitLiteral, h]
    · rfl
    all_goals nofun

theorem constraintText_default {c : Value} {text : String} (h : Literal.ofValue c = .ok text) :
    s.constraintText (.default c) = .ok ("DEFAULT " ++ text) := by
  rw [constraintText, h]

theorem constraintText_check {c : Value} {text : String} (h : Literal.ofValue c = .ok text) :
    s.constraintText (.check (.literal c)) = .ok ("CHECK" ++ parenthesize text) := by
  rw [constraintText, s.compile_literal h]
  rfl

end Schema

/-! ### Fields -/

namespace FieldType

/-- Whether a field has a decimal that is no integer of a cell. -/
def IsFraction : (t : FieldType) → t.Carrier → Prop
  | plain t, v => t.IsFraction v
  | optional _, none => False
  | optional t, some v => t.IsFraction v

/-- A value that can be stored is the constant with its cell. -/
theorem constant?_eq_of_toValue {t : FieldType} (ht : t.native.HasConstants) {v : t.Carrier}
    {c : Value} (h : t.toValue v = .ok c) : t.constant? v = some c := by
  cases t with
  | plain t => exact NativeType.constant?_eq_of_toValue ht h
  | optional t =>
    cases v with
    | none =>
      cases h
      rfl
    | some v => exact NativeType.constant?_eq_of_toValue ht h

/-- The decimals that are stored as texts are exactly the fractions. -/
theorem isFraction_cases {t : FieldType} {v : t.Carrier} {c : Value} (h : t.toValue v = .ok c) :
    t.IsFraction v ∧ t.sqlType = .numeric ∧ (∃ d : Decimal, c = .text (String.ofList d.text)) ∨
      ¬t.IsFraction v ∧ (t.sqlType = .numeric → c.storageClass ≠ .text) := by
  cases t with
  | plain t => exact NativeType.isFraction_cases h
  | optional t =>
    cases v with
    | none =>
      cases h
      exact .inr ⟨id, fun _ hclass => by cases hclass⟩
    | some v => exact NativeType.isFraction_cases h

/-- A type with constants has no column of payloads. -/
theorem sqlType_ne_blob {t : FieldType} (ht : t.native.HasConstants) : t.sqlType ≠ .blob := by
  rw [sqlType]
  cases hnative : t.native with
  | payload =>
    rw [hnative] at ht
    cases ht
  | _ =>
    intro hblob
    cases hblob

/-- **A constant is written as the value of its column, except for a fraction.** The constant of a
field that is stored is what it is stored as. In a condition, a default and a check alike it is
written as in a column of the field's type, exactly if it is no decimal besides the integers of a
cell; such a decimal is written between quotes. -/
theorem constant_text_eq_iff {t : FieldType} (ht : t.native.HasConstants) {v : t.Carrier}
    {c : Value} (name : String) (h : t.toValue v = .ok c) :
    t.constant? v = some c ∧
      ∃ text literal, encode name t.sqlType c .inline = .ok ⟨text, none⟩ ∧
        (∀ s : Schema, s.compile (.literal c) = .ok literal ∧
          s.constraintText (.default c) = .ok ("DEFAULT " ++ literal) ∧
          s.constraintText (.check (.literal c)) = .ok ("CHECK" ++ parenthesize literal)) ∧
        (literal = text ↔ ¬t.IsFraction v) ∧
        (t.IsFraction v → literal = Literal.quote text) := by
  have htype := sqlType_ne_blob ht
  have hwritten : ∀ {literal : String}, Literal.ofValue c = .ok literal → ∀ s : Schema,
      s.compile (.literal c) = .ok literal ∧
        s.constraintText (.default c) = .ok ("DEFAULT " ++ literal) ∧
        s.constraintText (.check (.literal c)) = .ok ("CHECK" ++ parenthesize literal) :=
    fun hliteral s => ⟨s.compile_literal hliteral, s.constraintText_default hliteral,
      s.constraintText_check hliteral⟩
  refine ⟨constant?_eq_of_toValue ht h, ?_⟩
  rcases isFraction_cases h with ⟨hfraction, hnumeric, d, rfl⟩ | ⟨hfraction, hclass⟩
  · -- the column has the digits of a fraction, the constant has them between quotes
    have htext := inlineText_decimal d
    rw [← hnumeric] at htext
    refine ⟨_, _, encode_inline name htype htext, hwritten rfl, ?_, fun _ => rfl⟩
    exact iff_of_false (Literal.quote_ne _) (not_not_intro hfraction)
  · -- any other value has one text for both
    have hsuits := toValue_suits h
    obtain ⟨text, -, htext, -⟩ := hsuits.inlineText htype
    have hliteral := (hsuits.literal_eq htype hclass).trans htext
    refine ⟨text, text, encode_inline name htype htext, hwritten hliteral, ?_, ?_⟩
    · exact iff_of_true rfl hfraction
    · exact fun h => absurd h hfraction

/-- An optional real has one text as a constant and as a column's value. -/
theorem constant_text_eq_iff_real :
    ∃ c text, (optional .float64).toValue (some (Floating.ofInt _ (-18))) = .ok c ∧
      (optional .float64).constant? (some (Floating.ofInt _ (-18))) = some c ∧
      encode "weight" .real c .inline = .ok ⟨text, none⟩ ∧
      Schema.notes.compile (.literal c) = .ok text := by
  have hvalue : (optional .float64).toValue (some (Floating.ofInt _ (-18))) =
      .ok (.real (Floating.ofInt _ (-18))) := by
    decide +kernel
  obtain ⟨hconstant, text, literal, hencode, hliteral, hiff, -⟩ :=
    constant_text_eq_iff (t := .optional .float64) trivial "weight" hvalue
  obtain rfl := hiff.mpr id
  exact ⟨_, literal, hvalue, hconstant, hencode, (hliteral .notes).1⟩

/-- A price with a fraction is a number in its column, and a text as a constant. -/
theorem constant_text_ne_price :
    (plain .decimal).toValue (⟨false, 1250, 2, by decide, by decide⟩ : Decimal) =
        .ok (.text "12.50") ∧
      (plain .decimal).constant? (⟨false, 1250, 2, by decide, by decide⟩ : Decimal) =
        some (.text "12.50") ∧
      encode "price" .numeric (.text "12.50") .inline = .ok ⟨"12.50", none⟩ ∧
      Schema.notes.compile (.literal (.text "12.50")) = .ok "'12.50'" := by
  refine ⟨?_, ?_, ?_, ?_⟩
  all_goals decide +kernel

end FieldType

end SqlRecord
