import SqlRecord.Proofs.Characters

/-!
# Names and keywords

A name is looked up among the keywords in upper case and by halving, where a scan of the table
would compare it with each keyword ignoring case. The two agree on every name (`isKeyword_eq_any`):
halving a table in increasing order finds what is in it (`search_eq_true_iff`), the keywords are in
increasing order (`pairwise_keywords`), and each of them is in upper case. Main statement:
`Identifier.isValid_iff`.
-/

namespace SqlRecord

/-! ### Upper case -/

theorem Ascii.toUpper_of_le {c : Char} (h : 128 ≤ c.toNat) : c.toUpper = c := by
  unfold Char.toUpper
  rw [dif_neg]
  rintro ⟨-, h'⟩
  have : c.toNat ≤ 122 := h'
  omega

theorem Ascii.toLower_toUpper (c : Char) : c.toUpper.toLower = c.toLower := by
  rcases Nat.lt_or_ge c.toNat 128 with h | h
  · exact forall_of_decide (P := fun c => c.toUpper.toLower = c.toLower) (by decide) h
  · rw [toUpper_of_le h]

/-- The same text with ASCII letters in upper case. -/
def raiseCase (s : String) : List Char := s.toList.map Char.toUpper

/-- Names that are equal ignoring case are the same in upper case. -/
theorem sameName_iff_raiseCase {a b : String} :
    sameName a b = true ↔ raiseCase a = raiseCase b := by
  have hraise : ∀ s, (foldCase s).map Char.toUpper = raiseCase s := fun s => by
    rw [foldCase, List.map_map]
    exact List.map_congr_left fun c _ => Ascii.toUpper_toLower c
  have hfold : ∀ s, (raiseCase s).map Char.toLower = foldCase s := fun s => by
    rw [raiseCase, List.map_map]
    exact List.map_congr_left fun c _ => Ascii.toLower_toUpper c
  rw [sameName, beq_iff_eq]
  constructor
  · intro h
    rw [← hraise a, h, hraise b]
  · intro h
    rw [← hfold a, h, hfold b]

namespace Identifier

/-! ### Search by halving -/

variable {table : Array String} {name : String} {lo hi : Nat}

/-- Entries of a sorted table grow with their places. -/
theorem getD_lt_getD (hsorted : table.Pairwise (· < ·)) {i j : Nat} (hij : i < j)
    (hj : j < table.size) : table.getD i "" < table.getD j "" := by
  have hi : i < table.size := hij.trans hj
  simpa [Array.getD_eq_getD_getElem?, hi, hj] using
    Array.pairwise_iff_getElem.mp hsorted i j hi hj hij

/-- What is found is an entry within the bounds, in a table of any order. -/
theorem exists_of_search (h : search table name lo hi = true) :
    ∃ i, lo ≤ i ∧ i < hi ∧ table.getD i "" = name := by
  fun_induction search table name lo hi with
  | case1 lo hi hlt mid entry hentry => exact ⟨mid, by omega, by omega, hentry⟩
  | case2 lo hi hlt mid entry _ _ ih =>
    obtain ⟨i, hlo, hhi, hi⟩ := ih h
    exact ⟨i, by omega, hhi, hi⟩
  | case3 lo hi hlt mid entry _ _ ih =>
    obtain ⟨i, hlo, hhi, hi⟩ := ih h
    exact ⟨i, hlo, by omega, hi⟩
  | case4 => cases h

/-- An entry within the bounds is found in a table in increasing order: halving keeps it within
them. -/
theorem search_of_getD (hsorted : table.Pairwise (· < ·)) (hsize : hi ≤ table.size) {i : Nat}
    (hlo : lo ≤ i) (hhi : i < hi) (hname : table.getD i "" = name) :
    search table name lo hi = true := by
  fun_induction search table name lo hi with
  | case1 => rfl
  | case2 lo hi hlt mid entry _ hless ih =>
    -- the entry in the middle comes before the name, and so do the entries in front of it
    have hmid : mid < i := by
      by_contra hle
      rcases Nat.eq_or_lt_of_le (Nat.not_lt.mp hle) with rfl | hlt'
      · exact absurd hless (hname ▸ lt_irrefl _)
      · exact absurd (hless.trans_eq hname.symm) (getD_lt_getD hsorted hlt' (by omega)).asymm
    exact ih hsize hmid hhi
  | case3 lo hi hlt mid entry hne hless ih =>
    have hmid : i < mid := by
      by_contra hle
      rcases Nat.eq_or_lt_of_le (Nat.not_lt.mp hle) with rfl | hlt'
      · exact hne hname
      · exact hless ((getD_lt_getD hsorted hlt' (by omega)).trans_eq hname)
    exact ih (by omega) hlo hmid
  | case4 => omega

/-- **Halving finds what is in the table**, if that is in increasing order. -/
theorem search_eq_true_iff (hsorted : table.Pairwise (· < ·)) :
    search table name 0 table.size = true ↔ name ∈ table := by
  rw [Array.mem_iff_getElem]
  constructor
  · intro h
    obtain ⟨i, -, hi, hname⟩ := exists_of_search h
    exact ⟨i, hi, by simpa [Array.getD_eq_getD_getElem?, hi] using hname⟩
  · rintro ⟨i, hi, hname⟩
    exact search_of_getD hsorted le_rfl (Nat.zero_le i) hi
      (by simpa [Array.getD_eq_getD_getElem?, hi] using hname)

/-! ### Keywords -/

-- both at once, so that the characters of the keywords are taken apart once
/-- The keywords are in order and in capitals, which is decided over the table once. -/
theorem keywords_increasing_raised : keywords.toList.IsChain (· < ·) ∧
    ∀ keyword ∈ keywords.toList, raiseCase keyword = keyword.toList := by
  decide +kernel

theorem pairwise_keywords : keywords.Pairwise (· < ·) :=
  List.isChain_iff_pairwise.mp keywords_increasing_raised.1

/-- A keyword is in capitals. -/
theorem raiseCase_of_mem_keywords {keyword : String} (h : keyword ∈ keywords) :
    raiseCase keyword = keyword.toList :=
  keywords_increasing_raised.2 keyword (Array.mem_toList_iff.mpr h)

/-- **The search for a name in upper case is a scan that ignores case.** -/
theorem isKeyword_eq_any (name : String) : isKeyword name = keywords.any (sameName · name) := by
  rw [Bool.eq_iff_iff, isKeyword, search_eq_true_iff pairwise_keywords, Array.any_eq_true']
  constructor
  · intro h
    refine ⟨_, h, sameName_iff_raiseCase.mpr ?_⟩
    rw [raiseCase_of_mem_keywords h, String.toList_ofList, raiseCase]
  · rintro ⟨keyword, h, hsame⟩
    rw [sameName_iff_raiseCase, raiseCase_of_mem_keywords h] at hsame
    rw [raiseCase] at hsame
    rwa [← hsame, String.ofList_toList]

/-! ### Names -/

/-- A name may start with what may stand in it and is no digit. -/
theorem isStart_iff {c : Char} : isStart c = true ↔ isPart c = true ∧ c.isDigit = false := by
  constructor
  · intro h
    exact forall_isPart (P := fun c => isStart c = true → isPart c = true ∧ c.isDigit = false)
      (by decide) (isPart_of_isStart h) h
  · rintro ⟨h, hdigit⟩
    exact forall_isPart (P := fun c => c.isDigit = false → isStart c = true) (by decide) h hdigit

theorem isPart_iff {c : Char} : isPart c = true ↔ c.isAlphanum = true ∨ c = '_' := by
  rw [isPart, Bool.or_eq_true, beq_iff_eq]

/-- A plain word is not empty, has letters, digits and underscores only, and starts with no
digit. -/
theorem isWord_iff_forall {cs : List Char} : isWord cs = true ↔
    cs ≠ [] ∧ (∀ c ∈ cs, c.isAlphanum = true ∨ c = '_') ∧ ∀ c ∈ cs.head?, c.isDigit = false := by
  cases cs with
  | nil => simp [isWord]
  | cons c cs =>
    simp only [isWord, Bool.and_eq_true, List.all_eq_true, isStart_iff, isPart_iff, ne_eq,
      List.cons_ne_nil, not_false_eq_true, true_and, List.forall_mem_cons, List.head?_cons,
      Option.mem_def, Option.some.injEq, forall_eq']
    tauto

/-- **Names that may stand unquoted.** A name is valid if and only if it is not empty, has ASCII
letters, digits and underscores only, does not start with a digit, and is equal to no keyword
ignoring case. The search by halving that looks it up answers for every name as comparing it with
each keyword in turn would. -/
theorem isValid_iff (name : String) :
    (isValid name = true ↔ name ≠ "" ∧ (∀ c ∈ name.toList, c.isAlphanum = true ∨ c = '_') ∧
      (∀ c ∈ name.toList.head?, c.isDigit = false) ∧
      ∀ keyword ∈ keywords, sameName keyword name = false) ∧
    isKeyword name = keywords.any (sameName · name) := by
  refine ⟨?_, isKeyword_eq_any name⟩
  have hkeyword : isKeyword name = false ↔ ∀ keyword ∈ keywords, sameName keyword name = false := by
    rw [isKeyword_eq_any, Array.any_eq_false']
    simp only [Bool.not_eq_true]
  rw [isValid, Bool.and_eq_true, Bool.not_eq_true', isWord_iff_forall, hkeyword, ne_eq, ne_eq,
    String.toList_eq_nil_iff, and_assoc, and_assoc]

end Identifier

end SqlRecord
