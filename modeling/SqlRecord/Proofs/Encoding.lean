import SqlRecord.Encoding
import SqlRecord.Proofs.Expr.Reading

/-!
# Encoded values

What a value becomes in a statement is `NULL`, the placeholder of its column, a text literal or a
number (`encode_form`), each of which reads as tokens of its own. Only a placeholder comes with a
parameter.
-/

namespace SqlRecord

open Sql

/-! ### Numbers -/

/-- The text of a number is an unsigned number, perhaps after a minus. -/
theorem Literal.exists_of_numeric {v : Value} {text : String} (h : Literal.numeric v = .ok text) :
    ∃ (negative : Bool) (cs : List Char), isUnsignedNumeric cs = true ∧
      text.toList = if negative then '-' :: cs else cs := by
  cases v with
  | integer i =>
    cases h
    refine ⟨decide (i.val < 0), Digits.ofNat i.val.natAbs,
      Literal.isUnsignedNumeric_iff.mpr (.inl (Digits.isDigits_ofNat _)), ?_⟩
    rw [intText, String.toList_ofList, Digits.ofInt_eq]
    simp only [decide_eq_true_eq]
  | real x =>
    obtain ⟨hfinite, rfl⟩ := ofReal_eq_ok_iff.mp h
    have habs : x.abs.isFinite = true := by rw [x.isFinite_abs, hfinite]
    refine ⟨x.negative, x.abs.realText,
      (Floating.nearest_realText habs x.negative_abs).1, ?_⟩
    rw [String.toList_ofList]
    exact Floating.realText_eq_abs hfinite
  | text s =>
    rw [numeric] at h
    split_ifs at h with hnumeric
    cases h
    exact isNumericText_iff.mp hnumeric
  | null => cases h
  | blob bytes => cases h

/-- The tokens of a number. -/
def numberTokens (negative : Bool) (cs : List Char) : List Token :=
  if negative then [.symbol "-", .number cs] else [.number cs]

/-- A numeral reads as a number, after a minus if it has a sign. -/
theorem reads_numeric {cs : List Char} (h : Literal.isUnsignedNumeric cs = true)
    (negative : Bool) :
    Reads (if negative then '-' :: cs else cs) (numberTokens negative cs) := by
  have hnumber := Reads.token (t := .number cs) h
  obtain ⟨c, ds, hcs, hc⟩ := Literal.exists_digit_of_isUnsignedNumeric h
  rw [numberTokens]
  split_ifs
  · refine hnumber.minus (by simp [Token.spelling, hcs]) ?_
    have : c ≠ '-' := by
      rintro rfl
      exact absurd hc (by decide)
    simpa [Token.spelling, hcs] using this
  · exact hnumber

/-- A quoted text reads as one text, the one that was quoted. -/
theorem reads_quote (s : String) : Reads (Literal.quote s).toList [.text s.toList] := by
  rw [Literal.quote, String.toList_ofList]
  exact Reads.token (t := .text s.toList) trivial

/-! ### Encoded values -/

/-- What a value becomes, for a column of a name and type, in a mode. -/
inductive Encoded.Form (name : String) (t : SqlType) (v : Value) (mode : BindMode) :
    Encoded → Prop
  | null (hv : v = .null) (h : t = .blob ∨ mode = .inline) : Form name t v mode ⟨"NULL", none⟩
  | bound (h : mode = .inline → t = .blob) (hblob : t = .blob → ∃ bytes, v = .blob bytes) :
      Form name t v mode ⟨placeholder name, some v⟩
  | text (s : String) (h : mode = .inline) (ht : t = .text) (hv : ∀ bytes, v ≠ .blob bytes) :
      Form name t v mode ⟨Literal.quote s, none⟩
  | number {text : String} (h : mode = .inline) (ht : t ≠ .text) (hb : t ≠ .blob)
      (htext : Literal.numeric v = .ok text) : Form name t v mode ⟨text, none⟩

/-- The inline text of a value has the form of the value, outside columns of payloads. -/
theorem inlineText_form {name : String} {t : SqlType} {v : Value} {text : String}
    (hb : t ≠ .blob) (h : inlineText t v = .ok text) :
    Encoded.Form name t v .inline ⟨text, none⟩ := by
  rw [inlineText.eq_def] at h
  split at h
  next => cases h; exact .null rfl (.inr rfl)
  next => cases h; exact .text _ rfl rfl nofun
  next =>
    cases hv : Literal.ofValue v with
    | error e => rw [hv] at h; cases h
    | ok text =>
      rw [hv] at h
      cases h
      refine .text text rfl rfl ?_
      rintro bytes rfl
      cases hv
  next ht _ _ => exact .number rfl ht hb h

/-- Whatever is encoded has the form that the value and the mode ask for: every fact about an
encoded column is read off this one. -/
theorem encode_form {name : String} {t : SqlType} {v : Value} {mode : BindMode} {e : Encoded}
    (h : encode name t v mode = .ok e) : e.Form name t v mode := by
  rw [encode.eq_def] at h
  split at h
  next =>
    split at h
    next => cases h; exact .null rfl (.inl rfl)
    next bytes => cases h; exact .bound (fun _ => rfl) fun _ => ⟨bytes, rfl⟩
    next => cases h
  next hb =>
    cases mode with
    | parameters => cases h; exact .bound nofun fun ht => absurd ht hb
    | inline =>
      dsimp only at h
      cases htext : inlineText t v with
      | error e => rw [htext] at h; cases h
      | ok text =>
        rw [htext] at h
        cases h
        exact inlineText_form hb htext

namespace Encoded

variable {name : String} {t : SqlType} {v w : Value} {mode : BindMode} {e e' : Encoded}

/-! ### Reading -/

theorem isPlain_placeholder (hname : Identifier.isWord name.toList = true) :
    Token.IsPlain (.placeholder (placeholder name)) := by
  obtain ⟨c, cs, hcs, -, hall⟩ := Identifier.isWord_iff.mp hname
  exact ⟨'@', name.toList, by simp [placeholder], by decide, by simp [hcs], hall⟩

/-- The text of an encoded value can be read. Its only placeholder is its own, which has a
parameter, and with parameters there is no constant in it. -/
theorem Form.reads (h : e.Form name t v mode) (hname : Identifier.isWord name.toList = true) :
    IsReadable e.sql ∧ placeholdersOf (textTokens e.sql) = e.param.toList.map (fun _ => e.sql) ∧
      (mode = .parameters → constantsOf (textTokens e.sql) = []) := by
  cases h with
  | null =>
    have hreads := Reads.word (w := "NULL") (by decide)
    refine ⟨hreads.isReadable, ?_, fun _ => ?_⟩ <;> rw [hreads.textTokens_eq] <;> rfl
  | bound =>
    have hreads : Reads (placeholder name).toList [.placeholder (placeholder name)] :=
      Reads.token (isPlain_placeholder hname)
    refine ⟨hreads.isReadable, ?_, fun _ => ?_⟩ <;> rw [hreads.textTokens_eq] <;> rfl
  | text s hmode =>
    have hreads := reads_quote s
    refine ⟨hreads.isReadable, ?_, fun h => ?_⟩
    · rw [hreads.textTokens_eq]
      rfl
    · rw [hmode] at h
      cases h
  | number hmode _ _ htext =>
    obtain ⟨negative, cs, hcs, htext⟩ := Literal.exists_of_numeric htext
    have hreads := reads_numeric hcs negative
    rw [← htext] at hreads
    refine ⟨hreads.isReadable, ?_, fun h => ?_⟩
    · rw [hreads.textTokens_eq, numberTokens]
      split_ifs <;> rfl
    · rw [hmode] at h
      cases h

/-- Only a placeholder has a parameter, the value itself; with inline values it is a payload. -/
theorem Form.param (h : e.Form name t v mode) (hv : w ∈ e.param) :
    e.sql = placeholder name ∧ w = v ∧
      (mode = .inline → t = .blob ∧ ∃ bytes, v = .blob bytes) := by
  cases h with
  | bound hmode hblob =>
    cases hv
    exact ⟨rfl, rfl, fun h => ⟨hmode h, hblob (hmode h)⟩⟩
  | null => cases hv
  | text => cases hv
  | number => cases hv

/-! ### Values that encode alike -/

/-- With parameters, values that are both `NULL` or both not are written alike. -/
theorem Form.congr_isNull (h : e.Form name t v .parameters) (h' : e'.Form name t w .parameters)
    (hnull : v.isNull = w.isNull) : e.sql = e'.sql ∧ e.param.isSome = e'.param.isSome := by
  -- with parameters a value is a placeholder, but `NULL` in a column of payloads is `NULL`
  have hkind : ∀ {v e}, Form name t v .parameters e →
      e.sql = "NULL" ∧ e.param = none ∧ v.isNull = true ∧ t = .blob ∨
        e.sql = placeholder name ∧ e.param = some v ∧ (t = .blob → v.isNull = false) := by
    rintro v e (⟨rfl, ht | ht⟩ | ⟨-, hblob⟩ | ⟨_, ht⟩ | ⟨ht⟩)
    · exact .inl ⟨rfl, rfl, rfl, ht⟩
    · cases ht
    · refine .inr ⟨rfl, rfl, fun ht => ?_⟩
      obtain ⟨bytes, rfl⟩ := hblob ht
      rfl
    · cases ht
    · cases ht
  rcases hkind h with ⟨hsql, hparam, hv, ht⟩ | ⟨hsql, hparam, hv⟩ <;>
    rcases hkind h' with ⟨hsql', hparam', hw, ht'⟩ | ⟨hsql', hparam', hw⟩
  · simp [hsql, hsql', hparam, hparam']
  · rw [hv, hw ht] at hnull
    cases hnull
  · rw [hv ht', hw] at hnull
    cases hnull
  · simp [hsql, hsql', hparam, hparam']

/-- Two payloads are written alike, in either mode. -/
theorem Form.congr_blob {bytes bytes' : List UInt8} (h : e.Form name t (.blob bytes) mode)
    (h' : e'.Form name t (.blob bytes') mode) :
    e.sql = e'.sql ∧ e.param.isSome = e'.param.isSome := by
  -- a payload is a placeholder in either mode
  have hkind : ∀ {bytes e}, Form name t (.blob bytes) mode e →
      e.sql = placeholder name ∧ e.param = some (.blob bytes) := by
    rintro bytes e (⟨hv⟩ | _ | ⟨_, _, _, hv⟩ | ⟨_, _, _, hv⟩)
    · cases hv
    · exact ⟨rfl, rfl⟩
    · exact absurd rfl (hv bytes)
    · cases hv
  obtain ⟨⟨hsql, hparam⟩, ⟨hsql', hparam'⟩⟩ := hkind h, hkind h'
  simp [hsql, hsql', hparam, hparam']

/-- A text in a text column is a text literal. -/
theorem Form.of_text {s : String} (h : e.Form name .text (.text s) .inline) :
    ∃ s, e = ⟨Literal.quote s, none⟩ := by
  cases h with
  | text s => exact ⟨s, rfl⟩
  | null hv => cases hv
  | bound ht => cases ht rfl
  | number _ ht => exact absurd rfl ht

end Encoded

end SqlRecord
