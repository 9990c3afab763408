import SqlRecord.Encoding
import SqlRecord.Proofs.Characters
import SqlRecord.Proofs.Decimal.Text

/-!
# Numbers without quotes

The form in which text may stand unquoted in a numeric column is a regular expression
(`Literal.numberPattern`): an optional minus, digits, and digits after a point if there is one. What
recognizes it takes the text apart at its first point, and agrees with the expression on every text
(`Literal.isNumericText_iff_mem`). Main statement: `encode_text_unquoted`.
-/

namespace SqlRecord

open RegularExpression

namespace Literal

/-! ### The expression -/

/-- The digits of numbers. -/
def digitChars : List Char := ['0', '1', '2', '3', '4', '5', '6', '7', '8', '9']

/-- `[0-9]` -/
def digitPattern : RegularExpression Char := (digitChars.map char).sum

/-- `[0-9]+` -/
def digitsPattern : RegularExpression Char := digitPattern * star digitPattern

/-- `-?[0-9]+(\.[0-9]+)?` -/
def numberPattern : RegularExpression Char :=
  (1 + char '-') * digitsPattern * (1 + char '.' * digitsPattern)

variable {cs : List Char}

theorem mem_char {c : Char} : cs ∈ (char c).matches' ↔ cs = [c] := by
  rw [matches'_char]
  exact Set.mem_singleton_iff

theorem mem_optional {p : RegularExpression Char} :
    cs ∈ (1 + p).matches' ↔ cs = [] ∨ cs ∈ p.matches' := by
  rw [matches'_add, Language.mem_add, matches'_epsilon, Language.mem_one]

/-- A sequence of patterns matches a text that is cut between them. -/
theorem mem_seq {p q : RegularExpression Char} :
    cs ∈ (p * q).matches' ↔ ∃ as ∈ p.matches', ∃ bs ∈ q.matches', as ++ bs = cs := by
  rw [matches'_mul, Language.mem_mul]

/-- A choice among characters matches each of them alone. -/
theorem mem_choice {chars : List Char} :
    cs ∈ (chars.map char).sum.matches' ↔ ∃ c ∈ chars, cs = [c] := by
  induction chars with
  | nil => simp
  | cons c chars ih =>
    rw [List.map_cons, List.sum_cons, matches'_add, Language.mem_add, ih, mem_char]
    simp only [List.mem_cons, exists_eq_or_imp]

/-! ### What it matches -/

theorem mem_digitChars {c : Char} : c ∈ digitChars ↔ c.isDigit = true := by
  constructor
  · have hall : digitChars.all Char.isDigit = true := by decide
    exact List.all_eq_true.mp hall c
  · intro h
    exact Identifier.forall_isPart (P := fun c => c.isDigit = true → c ∈ digitChars)
      (by decide) (Identifier.isPart_of_isDigit h) h

theorem mem_digitPattern : cs ∈ digitPattern.matches' ↔ ∃ c, c.isDigit = true ∧ cs = [c] := by
  rw [digitPattern, mem_choice]
  simp only [mem_digitChars]

/-- The repeated pattern matches the texts of digits only, the empty one among them. -/
theorem mem_star_digitPattern :
    cs ∈ (star digitPattern).matches' ↔ ∀ c ∈ cs, c.isDigit = true := by
  rw [matches'_star, Language.mem_kstar]
  constructor
  · rintro ⟨parts, rfl, hparts⟩ c hc
    obtain ⟨part, hpart, hc⟩ := List.mem_flatten.mp hc
    obtain ⟨d, hd, rfl⟩ := mem_digitPattern.mp (hparts part hpart)
    rwa [List.mem_singleton.mp hc]
  · intro h
    refine ⟨cs.map ([·]), ?_, ?_⟩
    · rw [← List.flatMap_def, List.flatMap_singleton']
    · intro part hpart
      obtain ⟨c, hc, rfl⟩ := List.mem_map.mp hpart
      exact mem_digitPattern.mpr ⟨c, h c hc, rfl⟩

/-- The pattern of digits matches exactly what counts as digits. -/
theorem mem_digitsPattern : cs ∈ digitsPattern.matches' ↔ isDigits cs = true := by
  rw [digitsPattern, mem_seq, isDigits_iff]
  constructor
  · rintro ⟨first, hfirst, more, hmore, rfl⟩
    obtain ⟨c, hc, rfl⟩ := mem_digitPattern.mp hfirst
    exact ⟨List.cons_ne_nil _ _, List.forall_mem_cons.mpr ⟨hc, mem_star_digitPattern.mp hmore⟩⟩
  · rintro ⟨hne, hall⟩
    obtain ⟨c, more, rfl⟩ := List.exists_cons_of_ne_nil hne
    obtain ⟨hc, hmore⟩ := List.forall_mem_cons.mp hall
    exact ⟨[c], mem_digitPattern.mpr ⟨c, hc, rfl⟩, more, mem_star_digitPattern.mpr hmore, rfl⟩

/-- Digits and perhaps a point and more digits are an unsigned number. -/
theorem mem_unsignedPattern :
    cs ∈ (digitsPattern * (1 + char '.' * digitsPattern)).matches' ↔
      isUnsignedNumeric cs = true := by
  rw [mem_seq, isUnsignedNumeric_iff]
  constructor
  · rintro ⟨whole, hwhole, tail, htail, rfl⟩
    rw [mem_digitsPattern] at hwhole
    rcases mem_optional.mp htail with rfl | htail
    · rw [List.append_nil]
      exact .inl hwhole
    · obtain ⟨point, hpoint, fraction, hfraction, rfl⟩ := mem_seq.mp htail
      obtain rfl := mem_char.mp hpoint
      exact .inr ⟨whole, fraction, rfl, hwhole, mem_digitsPattern.mp hfraction⟩
  · rintro (h | ⟨whole, fraction, rfl, hwhole, hfraction⟩)
    · exact ⟨cs, mem_digitsPattern.mpr h, [], mem_optional.mpr (.inl rfl), List.append_nil cs⟩
    · refine ⟨whole, mem_digitsPattern.mpr hwhole, '.' :: fraction, mem_optional.mpr (.inr ?_), rfl⟩
      exact mem_seq.mpr ⟨['.'], mem_char.mpr rfl, fraction, mem_digitsPattern.mpr hfraction, rfl⟩

/-- **What may stand unquoted is what the expression matches.** -/
theorem isNumericText_iff_mem : isNumericText cs = true ↔ cs ∈ numberPattern.matches' := by
  have hassoc : numberPattern.matches' =
      ((1 + char '-') * (digitsPattern * (1 + char '.' * digitsPattern))).matches' := by
    simp only [numberPattern, matches'_mul, mul_assoc]
  rw [hassoc, isNumericText_iff, mem_seq]
  constructor
  · rintro ⟨negative, ds, h, rfl⟩
    rw [← mem_unsignedPattern] at h
    cases negative with
    | true => exact ⟨['-'], mem_optional.mpr (.inr (mem_char.mpr rfl)), ds, h, rfl⟩
    | false => exact ⟨[], mem_optional.mpr (.inl rfl), ds, h, rfl⟩
  · rintro ⟨sign, hsign, ds, h, rfl⟩
    rw [mem_unsignedPattern] at h
    rcases mem_optional.mp hsign with rfl | hsign
    · exact ⟨false, ds, h, rfl⟩
    · obtain rfl := mem_char.mp hsign
      exact ⟨true, ds, h, rfl⟩

end Literal

/-! ### Texts in statements -/

open Literal (numberPattern isNumericText_iff_mem)

/-- In a column of numbers a text is written as it is, or refused. -/
theorem encode_text_of_mem {t : SqlType} (ht : t ∈ [SqlType.integer, .real, .numeric])
    (name s : String) : encode name t (.text s) .inline =
      if s.toList ∈ numberPattern.matches' then .ok ⟨s, none⟩
      else .error (.unsupported (.nonNumericText s)) := by
  have hencode : encode name t (.text s) .inline = (Literal.numeric (.text s)).map .ofText := by
    fin_cases ht <;> rfl
  rw [hencode, Literal.numeric]
  by_cases hnumber : Literal.isNumericText s.toList = true
  · rw [if_pos hnumber, if_pos (isNumericText_iff_mem.mp hnumber)]
    rfl
  · rw [if_neg hnumber, if_neg (mt isNumericText_iff_mem.mpr hnumber)]
    rfl

/-- **Only numbers stand unquoted.** In a column of integers, reals or numbers, a text is written as
it is if it is an optional minus, digits, and perhaps a point and more digits, and refused if it is
not. So whatever its column, a text that becomes part of a statement is bound to a placeholder, or
quoted, or such a number. The text of every decimal is one. -/
theorem encode_text_unquoted (name s : String) :
    (∀ t ∈ [SqlType.integer, .real, .numeric], encode name t (.text s) .inline =
      if s.toList ∈ numberPattern.matches' then .ok ⟨s, none⟩
      else .error (.unsupported (.nonNumericText s))) ∧
    (∀ t mode e, encode name t (.text s) mode = .ok e →
      e = ⟨placeholder name, some (.text s)⟩ ∨ e = ⟨Literal.quote s, none⟩ ∨
        e = ⟨s, none⟩ ∧ s.toList ∈ numberPattern.matches') ∧
    ∀ d : Decimal, d.text ∈ numberPattern.matches' := by
  refine ⟨fun t ht => encode_text_of_mem ht name s, fun t mode e h => ?_, fun d =>
    isNumericText_iff_mem.mp d.isNumericText_text⟩
  cases mode with
  | parameters =>
    cases t with
    | blob => cases h
    | integer | real | numeric | text =>
      cases h
      exact .inl rfl
  | inline =>
    cases t with
    | blob => cases h
    | text =>
      cases h
      exact .inr (.inl rfl)
    | integer | real | numeric =>
      rw [encode_text_of_mem (by decide)] at h
      split_ifs at h with hnumber
      cases h
      exact .inr (.inr ⟨rfl, hnumber⟩)

/-- An amount is written as it is. Numbers that are cut short or have two points, digits beyond
ASCII and a statement behind a number are refused. -/
theorem encode_text_unquoted_amount :
    encode "price" .numeric (.text "-12.50") .inline = .ok ⟨"-12.50", none⟩ ∧
    ∀ s ∈ ["", "-", "3.", ".5", "1.2.3", "1e5", "٣", "1; DROP TABLE t"],
      encode "price" .numeric (.text s) .inline = .error (.unsupported (.nonNumericText s)) := by
  have hnumeric : SqlType.numeric ∈ [SqlType.integer, .real, .numeric] := by decide
  constructor
  · rw [(encode_text_unquoted "price" "-12.50").1 .numeric hnumeric,
      if_pos (isNumericText_iff_mem.mp (by decide))]
  · intro s hs
    have hrefused : ∀ s ∈ ["", "-", "3.", ".5", "1.2.3", "1e5", "٣", "1; DROP TABLE t"],
        Literal.isNumericText s.toList = false := by
      decide
    rw [(encode_text_unquoted "price" s).1 .numeric hnumeric,
      if_neg (mt isNumericText_iff_mem.mpr (Bool.eq_false_iff.mp (hrefused s hs)))]

end SqlRecord
