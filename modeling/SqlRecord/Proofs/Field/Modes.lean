import SqlRecord.Proofs.Encoding
import SqlRecord.Proofs.Field.Values

/-!
# Fields in both modes

What a field is stored as reaches its column in both modes. A payload is a parameter in both of
them; any other value is a parameter or a single literal, and the literal denotes that very value.
Main statement: `FieldType.encode_modes_agree`.
-/

namespace SqlRecord

open Sql

/-! ### Literals read back -/

/-- The number that a decimal denotes. -/
def Decimal.toRat (d : Decimal) : ℚ := d.signedMantissa / 10 ^ d.scale

/-- The constants that SQL literals stand for. A number with a fraction is kept as its digits and
the power of ten they are multiplied by. -/
inductive Sql.Constant where
  | null
  | integer (i : Int)
  | number (negative : Bool) (digits : Nat) (exponent : Int)
  | text (cs : List Char)
  deriving DecidableEq

namespace Sql.Constant

/-- The constant of a numeral after a sign: an integer if it has nothing but digits. -/
def ofNumeral (negative : Bool) (cs : List Char) : Constant :=
  if Literal.isDigits cs then
    .integer (if negative then -(Digits.value cs : Int) else Digits.value cs)
  else .number negative (Numeral.digits cs) (Numeral.exponent cs)

/-- The constant of tokens that are one literal. -/
def ofTokens? : List Token → Option Constant
  | [.word "NULL"] => some .null
  | [.text cs] => some (.text cs)
  | [.number cs] => some (.ofNumeral false cs)
  | [.symbol "-", .number cs] => some (.ofNumeral true cs)
  | _ => none

/-- The constant of a text that is one literal. -/
def read? (text : String) : Option Constant := (tokens? text.toList).bind ofTokens?

/-- The number that a constant denotes. -/
def number? : Constant → Option ℚ
  | integer i => some i
  | number negative digits exponent =>
    some ((if negative then -(digits : ℚ) else digits) * 10 ^ exponent)
  | _ => none

/-- Whether a constant in a column of a type denotes a value: the same integer, the real of the same
bits, the same text, or the number that a numeric text denotes. -/
inductive Denotes (t : SqlType) : Constant → Value → Prop
  | null : Denotes t .null .null
  | integer (i : CellInt) : Denotes t (.integer i.val) (.integer i)
  | real {x : Binary64} {negative : Bool} {digits : Nat} {exponent : Int}
      (h : Floating.ofDecimal .binary64 negative digits exponent = x) :
      Denotes t (.number negative digits exponent) (.real x)
  | text {s : String} (ht : t = .text) : Denotes t (.text s.toList) (.text s)
  | numericText {k : Constant} {s : String} {d : Decimal} (ht : t ≠ .text)
      (hread : Decimal.read? s.toList = some d) (hnumber : k.number? = some d.toRat) :
      Denotes t k (.text s)

/-! ### Numbers -/

/-- The text of a numeral is read as the number it is, with its sign. -/
theorem read?_eq {cs : List Char} (hcs : Literal.isUnsignedNumeric cs = true) (negative : Bool) :
    read? (String.ofList (if negative then '-' :: cs else cs)) = some (ofNumeral negative cs) := by
  rw [read?, String.toList_ofList, (reads_numeric hcs negative).tokens?, numberTokens]
  cases negative <;> rfl

/-- An integer is written as its digits after its sign. -/
theorem read?_intText (i : Int) : read? (intText i) = some (.integer i) := by
  have htext : intText i = String.ofList
      (if decide (i < 0) then '-' :: Digits.ofNat i.natAbs else Digits.ofNat i.natAbs) := by
    rw [intText, Digits.ofInt_eq]
    simp only [decide_eq_true_eq]
  have hdigits := Digits.isDigits_ofNat i.natAbs
  rw [htext, read?_eq (Literal.isUnsignedNumeric_iff.mpr (.inl hdigits)), ofNumeral,
    if_pos hdigits, Digits.value_ofNat]
  congr 2
  split_ifs with h <;> simp only [decide_eq_true_eq] at h <;> omega

/-- A finite real is written as a number that rounds to its bits. -/
theorem read?_realText {x : Binary64} (hfinite : x.isFinite = true) :
    ∃ digits exponent,
      read? (String.ofList x.realText) = some (.number x.negative digits exponent) ∧
        Floating.ofDecimal .binary64 x.negative digits exponent = x := by
  have habs : x.abs.isFinite = true := by rw [x.isFinite_abs, hfinite]
  obtain ⟨hnumeric, hnearest⟩ := Floating.nearest_realText habs x.negative_abs
  refine ⟨_, _, ?_, Floating.ofDecimal_of_abs hnearest⟩
  rw [Floating.realText_eq_abs hfinite, read?_eq hnumeric, ofNumeral,
    if_neg (by simp [Floating.isDigits_realText])]

/-- A decimal with digits after the point is written as the number it denotes. -/
theorem read?_decimalText {d : Decimal} (hscale : 0 < d.scale) :
    read? (String.ofList d.text) =
      some (.number d.negative d.mantissa (-(d.scale : Int))) := by
  obtain ⟨whole, fraction, htext, hw, hf, hlength, hvalue⟩ :=
    Digits.fixedPoint_eq hscale d.mantissa
  have hdigits : Literal.isDigits (whole ++ '.' :: fraction) = false :=
    Literal.isDigits_of_point (by simp)
  rw [Decimal.text_eq, read?_eq d.isUnsignedNumeric_unsignedText, Decimal.unsignedText, htext,
    ofNumeral, if_neg (by simp [hdigits]), Numeral.digits_point hw hf,
    Numeral.exponent_point hw hf, hvalue, hlength]

end Sql.Constant

/-- The number of a decimal does not depend on the sign of a zero. -/
theorem Decimal.number?_text (d : Decimal) :
    (Constant.number d.negative d.mantissa (-(d.scale : Int))).number? =
      some d.unsignedZero.toRat := by
  have hsigned : (if d.negative then -(d.mantissa : ℚ) else d.mantissa) = d.signedMantissa := by
    rw [signedMantissa]
    cases d.negative <;> simp
  rw [Constant.number?, toRat, signedMantissa_unsignedZero, hsigned, zpow_neg, zpow_natCast,
    div_eq_mul_inv]
  rfl

/-! ### Both modes -/

variable {t : SqlType} {c : Value}

theorem Constant.read?_null : Constant.read? "NULL" = some .null := by
  rw [Constant.read?, (Reads.word (w := "NULL") (by decide)).tokens?]
  rfl

/-- In a column without payloads, a value that suits it is written as a literal that denotes it. -/
theorem SqlType.Suits.inlineText (h : t.Suits c) (ht : t ≠ .blob) :
    ∃ text k, inlineText t c = .ok text ∧ Constant.read? text = some k ∧ k.Denotes t c := by
  cases h with
  | null =>
    have htext : SqlRecord.inlineText t .null = .ok "NULL" := by cases t <;> rfl
    exact ⟨_, _, htext, Constant.read?_null, .null⟩
  | @integer _ i hi =>
    have htext : SqlRecord.inlineText t (.integer i) = .ok (intText i.val) := by
      rcases hi with rfl | rfl <;> rfl
    exact ⟨_, _, htext, Constant.read?_intText i.val, .integer i⟩
  | real hfinite =>
    obtain ⟨digits, exponent, hread, hreal⟩ := Constant.read?_realText hfinite
    exact ⟨_, _, Literal.ofReal_eq_ok_iff.mpr ⟨hfinite, rfl⟩, hread, .real hreal⟩
  | @decimal d hscale =>
    have htext : SqlRecord.inlineText .numeric (.text (String.ofList d.text)) =
        .ok (String.ofList d.text) := by
      rw [SqlRecord.inlineText, Literal.numeric, String.toList_ofList, if_pos d.isNumericText_text]
      all_goals simp
    refine ⟨_, _, htext, Constant.read?_decimalText hscale, ?_⟩
    refine .numericText (by decide) ?_ d.number?_text
    rw [String.toList_ofList, d.read?_text]
  | @text s =>
    refine ⟨_, .text s.toList, rfl, ?_, .text rfl⟩
    rw [Constant.read?, (reads_quote s).tokens?]
    rfl
  | blob => exact absurd rfl ht

/-- **Both modes store the same value of a field.** What a field is stored as is encoded in both
modes. In a column of payloads both give the same, and in any other column the placeholder has the
value for its parameter in one mode, while the text is one literal that denotes it in the other. -/
theorem FieldType.encode_modes_agree {t : FieldType} {v : t.Carrier} {c : Value} (name : String)
    (h : t.toValue v = .ok c) :
    (t.sqlType = .blob →
      c = .null ∧ (∀ mode, encode name t.sqlType c mode = .ok ⟨"NULL", none⟩) ∨
        (∃ bytes, c = .blob bytes) ∧
          ∀ mode, encode name t.sqlType c mode = .ok ⟨"@" ++ name, some c⟩) ∧
    (t.sqlType ≠ .blob →
      encode name t.sqlType c .parameters = .ok ⟨"@" ++ name, some c⟩ ∧
        ∃ text k, encode name t.sqlType c .inline = .ok ⟨text, none⟩ ∧
          Constant.read? text = some k ∧ k.Denotes t.sqlType c) := by
  have hsuits := FieldType.toValue_suits h
  generalize t.sqlType = type at hsuits ⊢
  constructor
  · rintro rfl
    cases hsuits with
    | null => exact .inl ⟨rfl, fun _ => rfl⟩
    | integer hi => rcases hi with hi | hi <;> cases hi
    | blob => exact .inr ⟨⟨_, rfl⟩, fun _ => rfl⟩
  · intro htype
    obtain ⟨text, k, htext, hread, hdenotes⟩ := hsuits.inlineText htype
    refine ⟨?_, text, k, ?_, hread, hdenotes⟩
    · cases type <;> first | exact absurd rfl htype | rfl
    · have hencode : encode name type c .inline = (inlineText type c).map .ofText := by
        cases type <;> first | exact absurd rfl htype | rfl
      rw [hencode, htext]
      rfl

/-- A decimal keeps the zero it ends with in both modes. -/
theorem FieldType.encode_modes_agree_decimal :
    encode "price" .numeric (.text "-12.50") .parameters =
        .ok ⟨"@price", some (.text "-12.50")⟩ ∧
      ∃ k, encode "price" .numeric (.text "-12.50") .inline = .ok ⟨"-12.50", none⟩ ∧
        Constant.read? "-12.50" = some k ∧ k.Denotes .numeric (.text "-12.50") := by
  have hvalue : (FieldType.optional .decimal).toValue
      (some (⟨true, 1250, 2, by decide, by decide⟩ : Decimal)) = .ok (.text "-12.50") := by
    decide +kernel
  obtain ⟨-, hagree⟩ := encode_modes_agree "price" hvalue
  obtain ⟨hbound, text, k, htext, hread, hdenotes⟩ := hagree (by decide)
  have hencode : encode "price" .numeric (.text "-12.50") .inline = .ok ⟨"-12.50", none⟩ := by
    decide +kernel
  rw [FieldType.sqlType, native, NativeType.sqlType, hencode] at htext
  cases htext
  exact ⟨hbound, k, hencode, hread, hdenotes⟩

end SqlRecord
