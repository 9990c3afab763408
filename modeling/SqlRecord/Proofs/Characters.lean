import SqlRecord.Identifier
import Mathlib

/-!
# Characters of words

Facts about the characters of identifiers and about case folding. All of them concern ASCII, where
a statement about one character is checked for each of the 128 (`Ascii.forall_of_decide`); beyond
ASCII, folding changes nothing.
-/

namespace SqlRecord

namespace Ascii

/-- What holds of each character of ASCII holds of a character in that range. -/
theorem forall_of_decide {P : Char → Prop} (h : ∀ n : Fin 128, P (Char.ofNat n)) {c : Char}
    (hc : c.toNat < 128) : P c := by
  simpa using h ⟨c.toNat, hc⟩

theorem toNat_val (c : Char) : c.val.toNat = c.toNat := rfl

/-- Beyond ASCII there is no case to fold. -/
theorem toLower_of_le {c : Char} (h : 128 ≤ c.toNat) : c.toLower = c := by
  unfold Char.toLower
  rw [dif_neg]
  rintro ⟨-, h'⟩
  have : c.toNat ≤ 90 := h'
  omega

theorem toLower_toLower (c : Char) : c.toLower.toLower = c.toLower := by
  rcases Nat.lt_or_ge c.toNat 128 with h | h
  · exact forall_of_decide (P := fun c => c.toLower.toLower = c.toLower) (by decide) h
  · rw [toLower_of_le h, toLower_of_le h]

theorem toUpper_toLower (c : Char) : c.toLower.toUpper = c.toUpper := by
  rcases Nat.lt_or_ge c.toNat 128 with h | h
  · exact forall_of_decide (P := fun c => c.toLower.toUpper = c.toUpper) (by decide) h
  · rw [toLower_of_le h]

end Ascii

namespace Identifier

/-- The characters of a name are ASCII. -/
theorem toNat_lt_of_isPart {c : Char} (h : isPart c = true) : c.toNat < 128 := by
  simp only [isPart, Char.isAlphanum, Char.isAlpha, Char.isUpper, Char.isLower, Char.isDigit,
    Bool.or_eq_true, Bool.and_eq_true, decide_eq_true_eq, beq_iff_eq, ge_iff_le,
    UInt32.le_iff_toNat_le, Ascii.toNat_val] at h
  rcases h with h | rfl
  · simp at h
    omega
  · decide

/-- A fact about the characters of identifiers, checked for each character of ASCII. -/
theorem forall_isPart {P : Char → Prop}
    (h : ∀ n : Fin 128, isPart (Char.ofNat n) = true → P (Char.ofNat n)) {c : Char}
    (hc : isPart c = true) : P c :=
  Ascii.forall_of_decide (P := fun c => isPart c = true → P c) h (toNat_lt_of_isPart hc) hc

/-- What can start a name can also stand inside it. -/
theorem isPart_of_isStart {c : Char} (h : isStart c = true) : isPart c = true := by
  simp only [isStart, isPart, Char.isAlphanum, Bool.or_eq_true] at h ⊢
  rcases h with h | h
  · exact .inl (.inl h)
  · exact .inr h

theorem isPart_of_isDigit {c : Char} (h : c.isDigit = true) : isPart c = true := by
  simp [isPart, Char.isAlphanum, h]

/-- Folding the case of a name's character gives one again. -/
theorem isPart_toLower {c : Char} (h : isPart c = true) : isPart c.toLower = true :=
  forall_isPart (P := fun c => isPart c.toLower = true) (by decide) h

theorem isStart_toLower {c : Char} (h : isStart c = true) : isStart c.toLower = true :=
  forall_isPart (P := fun c => isStart c = true → isStart c.toLower = true) (by decide)
    (isPart_of_isStart h) h

/-- A word has a first character that can start a name, and others that can stand inside one. -/
theorem isWord_iff {cs : List Char} :
    isWord cs = true ↔ ∃ c rest, cs = c :: rest ∧ isStart c = true ∧ ∀ d ∈ cs, isPart d = true := by
  cases cs with
  | nil => simp [isWord]
  | cons c rest =>
    simp only [isWord, Bool.and_eq_true, List.all_eq_true, List.forall_mem_cons]
    constructor
    · rintro ⟨h, hs⟩
      exact ⟨c, rest, rfl, h, isPart_of_isStart h, hs⟩
    · rintro ⟨_, _, heq, h, -, hs⟩
      cases heq
      exact ⟨h, hs⟩

/-- A word stays a word when its case is folded. -/
theorem isWord_map_toLower {cs : List Char} (h : isWord cs = true) :
    isWord (cs.map Char.toLower) = true := by
  obtain ⟨c, rest, rfl, hc, hall⟩ := isWord_iff.mp h
  refine isWord_iff.mpr ⟨c.toLower, rest.map Char.toLower, rfl, isStart_toLower hc, ?_⟩
  intro d hd
  obtain ⟨e, he, rfl⟩ := List.mem_map.mp hd
  exact isPart_toLower (hall e he)

end Identifier

/-- The same name with ASCII letters in lower case. -/
def foldName (s : String) : String := String.ofList (foldCase s)

@[simp] theorem toList_foldName (s : String) : (foldName s).toList = foldCase s := by
  simp [foldName]

theorem foldCase_foldName (s : String) : foldCase (foldName s) = foldCase s := by
  rw [foldCase, toList_foldName, foldCase, List.map_map]
  exact List.map_congr_left fun c _ => Ascii.toLower_toLower c

/-- Names are the same exactly if they fold to one text. -/
theorem foldName_eq_iff {a b : String} : foldName a = foldName b ↔ sameName a b = true := by
  rw [sameName, beq_iff_eq, foldName, foldName, String.ofList_inj]

/-- Names that are compared may be folded first. -/
theorem sameName_foldName_left (a b : String) : sameName (foldName a) b = sameName a b := by
  rw [sameName, sameName, foldCase_foldName]

@[simp] theorem foldName_foldName (s : String) : foldName (foldName s) = foldName s := by
  rw [foldName_eq_iff, sameName, foldCase_foldName, beq_iff_eq]

/-- Keywords are keywords in any case. -/
theorem Identifier.isKeyword_foldName (s : String) :
    Identifier.isKeyword (foldName s) = Identifier.isKeyword s := by
  have h : (foldName s).toList.map Char.toUpper = s.toList.map Char.toUpper := by
    rw [toList_foldName, foldCase, List.map_map]
    exact List.map_congr_left fun c _ => Ascii.toUpper_toLower c
  rw [Identifier.isKeyword, Identifier.isKeyword, h]

end SqlRecord
