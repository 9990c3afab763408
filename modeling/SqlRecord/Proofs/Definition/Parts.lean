import SqlRecord.Proofs.Sql.Folding

/-!
# Parts of definitions

Single quotes cut a text into parts that are outside and inside of literals by turns. Two
definitions are the same exactly if their inside parts are equal and their outside parts are equal
up to case, to the amount of white space and to white space at the ends of the text. Main statement:
`Definition.same_iff_parts`.
-/

namespace SqlRecord

namespace Definition

open Sql (lead)

/-! ### Cutting a text -/

/-- The parts of a text between its single quotes. The first one is outside literals, the next one
inside, and so on by turns; a literal that is never closed is the last part. -/
def parts (cs : List Char) : List (List Char) := cs.splitOn '\''

/-- Every other element of a list, the first one among them or not. -/
def alternate {α : Type} : (first : Bool) → List α → List α
  | _, [] => []
  | true, a :: as => a :: alternate false as
  | false, _ :: as => alternate true as

/-- Whether a literal is open at the end of a text; `literal` tells whether one is at its start. -/
def isOpen (literal : Bool) : List Char → Bool
  | [] => literal
  | c :: cs => isOpen (literal ^^ c == '\'') cs

/-- A text without the white space at its start and, if it ends outside literals, at its end. -/
def trim (cs : List Char) : List Char :=
  let cs := cs.dropWhile isBlank
  if isOpen false cs then cs else cs.rdropWhile isBlank

/-- A text with letters in lower case and each run of white space as one blank. -/
def squeeze (cs : List Char) : List Char :=
  (cs.splitBy fun a b => isBlank a && isBlank b).flatMap fun run =>
    if run.all isBlank then [' '] else run.map Char.toLower

/-- The parts of a text inside literals. -/
def insideParts (cs : List Char) : List (List Char) := alternate false (parts cs)

/-- The parts of a text outside literals, up to case, to the amount of white space and to white
space at the ends of the text. -/
def outsideParts (cs : List Char) : List (List Char) :=
  (alternate true (parts (trim cs))).map squeeze

/-! ### Single characters -/

theorem ne_quote_of_isBlank {c : Char} (h : isBlank c = true) : c ≠ '\'' := by
  rintro rfl
  exact absurd h (by decide)

theorem beq_quote_of_isBlank {c : Char} (h : isBlank c = true) : (c == '\'') = false :=
  beq_eq_false_iff_ne.mpr (ne_quote_of_isBlank h)

/-- White space neither opens nor closes a literal. -/
theorem isOpen_blank_cons {c : Char} (h : isBlank c = true) (literal : Bool) (cs : List Char) :
    isOpen literal (c :: cs) = isOpen literal cs := by
  rw [isOpen, beq_quote_of_isBlank h, Bool.xor_false]

theorem isBlank_toLower (c : Char) : isBlank c.toLower = isBlank c := by
  rcases Nat.lt_or_ge c.toNat 128 with h | h
  · exact Ascii.forall_of_decide (P := fun c => isBlank c.toLower = isBlank c) (by decide) h
  · rw [Ascii.toLower_of_le h]

theorem toLower_eq_quote_iff {c : Char} : c.toLower = '\'' ↔ c = '\'' := by
  rcases Nat.lt_or_ge c.toNat 128 with h | h
  · exact Ascii.forall_of_decide (P := fun c => c.toLower = '\'' ↔ c = '\'') (by decide) h
  · rw [Ascii.toLower_of_le h]

theorem toLower_beq_quote (c : Char) : (c.toLower == '\'') = (c == '\'') := by
  rw [Bool.eq_iff_iff, beq_iff_eq, beq_iff_eq, toLower_eq_quote_iff]

/-! ### Runs of white space -/

@[simp] theorem squeeze_nil : squeeze [] = [] := rfl

/-- Texts that do not meet in white space are squeezed apart from each other. -/
theorem squeeze_append_of_splitBy {run rest : List Char}
    (h : ∀ c ∈ run.getLast?, ∀ d ∈ rest.head?, (isBlank c && isBlank d) = false) :
    squeeze (run ++ rest) = squeeze run ++ squeeze rest := by
  rw [squeeze, List.splitBy_append h, List.flatMap_append]
  rfl

/-- A character that is not white space is squeezed to its small letter. -/
theorem squeeze_cons {c : Char} (hc : isBlank c = false) (cs : List Char) :
    squeeze (c :: cs) = c.toLower :: squeeze cs := by
  have hone : squeeze [c] = [c.toLower] := by
    simp [squeeze, List.splitBy, List.splitBy.loop, hc]
  rw [← List.singleton_append, squeeze_append_of_splitBy (by simp [hc]), hone]
  rfl

/-- A run of white space is one blank. -/
theorem squeeze_append {run rest : List Char} (hne : run ≠ []) (hrun : ∀ c ∈ run, isBlank c = true)
    (hrest : ∀ c ∈ rest.head?, isBlank c = false) :
    squeeze (run ++ rest) = ' ' :: squeeze rest := by
  have hchain : run.IsChain fun a b => (isBlank a && isBlank b) = true := by
    refine List.Pairwise.isChain (List.pairwise_of_forall_mem_list fun a ha b hb => ?_)
    rw [hrun a ha, hrun b hb, Bool.and_self]
  have hblank : squeeze run = [' '] := by
    rw [squeeze, List.splitBy_of_isChain hne hchain, List.flatMap_singleton,
      if_pos (List.all_eq_true.mpr hrun)]
  rw [squeeze_append_of_splitBy fun c _ d hd => by rw [hrest d hd, Bool.and_false], hblank]
  rfl

/-- What is left behind the white space at the start does not start with any. -/
theorem head?_dropWhile_isBlank (cs : List Char) :
    ∀ c ∈ (cs.dropWhile isBlank).head?, isBlank c = false := by
  intro c hc
  have hnot := List.head?_dropWhile_not isBlank cs
  rwa [Option.mem_def.mp hc] at hnot

/-- White space in front of more of it makes no difference. -/
theorem squeeze_blank_cons {c : Char} (hc : isBlank c = true) (cs : List Char) :
    squeeze (c :: cs) = if cs.head?.any isBlank then squeeze cs else ' ' :: squeeze cs := by
  obtain ⟨run, rest, rfl, hrun, hrest⟩ : ∃ run rest, cs = run ++ rest ∧
      (∀ c ∈ run, isBlank c = true) ∧ ∀ c ∈ rest.head?, isBlank c = false :=
    ⟨_, _, List.takeWhile_append_dropWhile.symm, fun c h => List.mem_takeWhile_imp h,
      head?_dropWhile_isBlank cs⟩
  have hall : ∀ d ∈ c :: run, isBlank d = true := List.forall_mem_cons.mpr ⟨hc, hrun⟩
  rw [← List.cons_append, squeeze_append (List.cons_ne_nil _ _) hall hrest]
  cases run with
  | nil => cases rest <;> simp_all
  | cons d run =>
    have hd : isBlank d = true := hrun d List.mem_cons_self
    rw [squeeze_append (List.cons_ne_nil _ _) hrun hrest]
    simp [hd]

/-- There is no quote in a squeezed text without quotes. -/
theorem quote_notMem_squeeze {cs : List Char} (h : '\'' ∉ cs) : '\'' ∉ squeeze cs := by
  rw [squeeze, List.mem_flatMap]
  rintro ⟨run, hrun, hquote⟩
  split_ifs at hquote
  · exact absurd hquote (by decide)
  · obtain ⟨c, hc, hlower⟩ := List.mem_map.mp hquote
    have hmem : c ∈ cs := by
      rw [← List.flatten_splitBy (fun a b => isBlank a && isBlank b) cs]
      exact List.mem_flatten_of_mem hrun hc
    exact h (toLower_eq_quote_iff.mp hlower ▸ hmem)

/-! ### Parts by turns -/

section

variable {α : Type}

/-- A list is known by the elements that it has by turns. -/
theorem eq_of_alternate_eq {as bs : List α} (htrue : alternate true as = alternate true bs)
    (hfalse : alternate false as = alternate false bs) : as = bs := by
  induction as generalizing bs with
  | nil => cases bs with
    | nil => rfl
    | cons b bs => cases htrue
  | cons a as ih => cases bs with
    | nil => cases htrue
    | cons b bs =>
      obtain ⟨rfl, htail⟩ := List.cons.inj htrue
      exact congrArg _ (ih hfalse htail)

/-- Changing the first element changes the elements by turns only where they start with it. -/
theorem alternate_modifyHead (f : α → α) (first : Bool) (as : List α) :
    alternate first (as.modifyHead f) =
      if first then (alternate first as).modifyHead f else alternate first as := by
  cases as <;> cases first <;> rfl

end

/-- A quote in front of a text is an empty part in front of the others. -/
theorem parts_quote_cons (cs : List Char) : parts ('\'' :: cs) = [] :: parts cs := by
  rw [parts, List.splitOn_cons_eq_if_modifyHead]
  rfl

/-- Any other character in front of a text belongs to its first part. -/
theorem parts_cons {c : Char} (hc : c ≠ '\'') (cs : List Char) :
    parts (c :: cs) = (parts cs).modifyHead (c :: ·) := by
  rw [parts, List.splitOn_cons_eq_if_modifyHead, if_neg (by simpa using hc)]
  rfl

/-- There is no quote in a part. -/
theorem quote_notMem_of_mem_parts {cs p : List Char} (hp : p ∈ parts cs) : '\'' ∉ p := by
  induction cs generalizing p with
  | nil =>
    obtain rfl : p = [] := List.mem_singleton.mp hp
    exact List.not_mem_nil
  | cons c cs ih =>
    by_cases hc : c = '\''
    · subst hc
      rw [parts_quote_cons, List.mem_cons] at hp
      rcases hp with rfl | hp
      · exact List.not_mem_nil
      · exact ih hp
    · rw [parts_cons hc] at hp
      cases hparts : parts cs with
      | nil =>
        rw [hparts] at hp
        cases hp
      | cons q qs =>
        rw [hparts, List.modifyHead_cons, List.mem_cons] at hp
        rcases hp with rfl | hp
        · exact List.not_mem_cons_of_ne_of_not_mem (Ne.symm hc) (ih (hparts ▸ List.mem_cons_self))
        · exact ih (hparts ▸ List.mem_cons_of_mem _ hp)

theorem exists_parts_eq_cons (cs : List Char) : ∃ p ps, parts cs = p :: ps :=
  List.exists_cons_of_ne_nil (List.splitOn_ne_nil _ _)

/-- Parts of which those outside literals are squeezed; `literal` tells whether the first one is
inside. -/
def tidy : (literal : Bool) → List (List Char) → List (List Char)
  | _, [] => []
  | true, p :: ps => p :: tidy false ps
  | false, p :: ps => squeeze p :: tidy true ps

/-- Squeezing the parts outside literals leaves those inside as they are. -/
theorem alternate_tidy (literal first : Bool) (ps : List (List Char)) :
    alternate first (tidy literal ps) =
      if first = literal then alternate first ps else (alternate first ps).map squeeze := by
  induction ps generalizing literal first with
  | nil => cases literal <;> cases first <;> rfl
  | cons p ps ih => cases literal <;> cases first <;> simp [tidy, alternate, ih]

/-- Squeezing puts no quote into a part. -/
theorem quote_notMem_tidy {literal : Bool} {ps : List (List Char)} (h : ∀ p ∈ ps, '\'' ∉ p) :
    ∀ p ∈ tidy literal ps, '\'' ∉ p := by
  induction ps generalizing literal with
  | nil => cases literal <;> exact h
  | cons p ps ih =>
    obtain ⟨hp, hps⟩ := List.forall_mem_cons.mp h
    cases literal with
    | true => exact List.forall_mem_cons.mpr ⟨hp, ih hps⟩
    | false => exact List.forall_mem_cons.mpr ⟨quote_notMem_squeeze hp, ih hps⟩

/-! ### Joining the parts -/

/-- The text of the parts of a text after those outside literals are squeezed. -/
def joined (literal : Bool) (cs : List Char) : List Char :=
  ['\''].intercalate (tidy literal (parts cs))

theorem joined_nil (literal : Bool) : joined literal [] = [] := by cases literal <;> rfl

theorem intercalate_cons_head (c : Char) (p : List Char) (ps : List (List Char)) :
    ['\''].intercalate ((c :: p) :: ps) = c :: ['\''].intercalate (p :: ps) := by
  cases ps with
  | nil => simp
  | cons q ps => simp [List.intercalate_cons_cons]

/-- A quote is kept and opens or closes a literal. -/
theorem joined_quote_cons (literal : Bool) (cs : List Char) :
    joined literal ('\'' :: cs) = '\'' :: joined (!literal) cs := by
  obtain ⟨p, ps, hps⟩ := exists_parts_eq_cons cs
  rw [joined, joined, parts_quote_cons, hps]
  cases literal <;> simp [tidy, List.intercalate_cons_cons]

theorem joined_true_cons {c : Char} (hc : c ≠ '\'') (cs : List Char) :
    joined true (c :: cs) = c :: joined true cs := by
  obtain ⟨p, ps, hps⟩ := exists_parts_eq_cons cs
  rw [joined, joined, parts_cons hc, hps]
  exact intercalate_cons_head c p _

/-- Outside literals a character that is no white space becomes its small letter. -/
theorem joined_false_cons {c : Char} (hblank : isBlank c = false) (hc : c ≠ '\'')
    (cs : List Char) : joined false (c :: cs) = c.toLower :: joined false cs := by
  obtain ⟨p, ps, hps⟩ := exists_parts_eq_cons cs
  rw [joined, joined, parts_cons hc, hps, List.modifyHead_cons, tidy, tidy, squeeze_cons hblank]
  exact intercalate_cons_head _ _ _

/-- The first part of a text starts with white space exactly if the text does. -/
theorem any_isBlank_head?_parts {cs p : List Char} {ps : List (List Char)}
    (h : parts cs = p :: ps) : p.head?.any isBlank = cs.head?.any isBlank := by
  cases cs with
  | nil =>
    cases h
    rfl
  | cons c cs =>
    by_cases hc : c = '\''
    · subst hc
      rw [parts_quote_cons] at h
      cases h
      rfl
    · obtain ⟨q, qs, hqs⟩ := exists_parts_eq_cons cs
      rw [parts_cons hc, hqs] at h
      cases h
      rfl

/-- Outside literals a run of white space is one blank, left of the character after it. -/
theorem joined_blank_cons {c : Char} (hc : isBlank c = true) (cs : List Char) :
    joined false (c :: cs) =
      if cs.head?.any isBlank then joined false cs else ' ' :: joined false cs := by
  obtain ⟨p, ps, hps⟩ := exists_parts_eq_cons cs
  rw [joined, joined, parts_cons (ne_quote_of_isBlank hc), hps, List.modifyHead_cons, tidy, tidy,
    squeeze_blank_cons hc, any_isBlank_head?_parts hps]
  split_ifs
  · rfl
  · exact intercalate_cons_head _ _ _

/-- The joined parts are cut where they were joined. -/
theorem parts_joined (literal : Bool) (cs : List Char) :
    parts (joined literal cs) = tidy literal (parts cs) := by
  obtain ⟨p, ps, hps⟩ := exists_parts_eq_cons cs
  refine List.splitOn_intercalate _ (quote_notMem_tidy fun _ => quote_notMem_of_mem_parts) ?_
  rw [hps]
  cases literal <;> exact List.cons_ne_nil _ _

/-! ### Normalizing -/

theorem normalizeFrom_true_cons (pending started : Bool) (c : Char) (cs : List Char) :
    normalizeFrom true pending started (c :: cs) =
      c :: normalizeFrom (true ^^ c == '\'') false true cs := by
  rw [normalizeFrom, if_pos rfl, Bool.true_xor]
  rfl

/-- Outside literals the scan passes white space, and has it pending once it has started. -/
theorem normalizeFrom_blank_cons {c : Char} (hc : isBlank c = true) (pending started : Bool)
    (cs : List Char) :
    normalizeFrom false pending started (c :: cs) = normalizeFrom false started started cs := by
  rw [normalizeFrom, if_neg Bool.false_ne_true, if_pos hc]

/-- Outside literals the scan writes a character in lower case, after one blank if white space is
pending. -/
theorem normalizeFrom_false_cons {c : Char} (hc : isBlank c = false) (pending started : Bool)
    (cs : List Char) :
    normalizeFrom false pending started (c :: cs) =
      lead pending ++ c.toLower :: normalizeFrom (false ^^ c == '\'') false true cs := by
  rw [normalizeFrom, if_neg Bool.false_ne_true, hc, Bool.false_xor]
  cases pending <;> rfl

/-- Normalizing leaves a normalized text as it is. -/
theorem normalizeFrom_normalizeFrom (cs : List Char) {literal pending started : Bool}
    (hpending : pending = true → started = true) :
    normalizeFrom literal false started (normalizeFrom literal pending started cs) =
      normalizeFrom literal pending started cs := by
  induction cs generalizing literal pending started with
  | nil => rfl
  | cons c cs ih =>
    cases literal with
    | true => rw [normalizeFrom_true_cons, normalizeFrom_true_cons, ih Bool.noConfusion]
    | false =>
      cases hc : isBlank c with
      | true =>
        rw [normalizeFrom_blank_cons hc]
        exact ih id
      | false =>
        -- what is written is not blank, in lower case, and the same quote
        have hlower : isBlank c.toLower = false := (isBlank_toLower c).trans hc
        have hagain (pending started : Bool) : normalizeFrom false pending started
            (c.toLower :: normalizeFrom (false ^^ c == '\'') false true cs) =
              lead pending ++ c.toLower :: normalizeFrom (false ^^ c == '\'') false true cs := by
          rw [normalizeFrom_false_cons hlower, Ascii.toLower_toLower, toLower_beq_quote,
            ih Bool.noConfusion]
        rw [normalizeFrom_false_cons hc]
        cases pending with
        | true =>
          obtain rfl := hpending rfl
          exact hagain true true
        | false => exact hagain false started

/-- A normal form is its own normal form. -/
theorem normalize_normalize (cs : List Char) : normalize (normalize cs) = normalize cs :=
  normalizeFrom_normalizeFrom cs Bool.noConfusion

/-! ### White space at the ends -/

/-- White space at the end of a text that ends outside literals leaves no trace. -/
theorem normalizeFrom_concat {c : Char} (hc : isBlank c = true) {cs : List Char}
    {literal : Bool} (hopen : isOpen literal cs = false) (pending started : Bool) :
    normalizeFrom literal pending started (cs ++ [c]) = normalizeFrom literal pending started cs := by
  induction cs generalizing literal pending started with
  | nil =>
    cases hopen
    exact normalizeFrom_blank_cons hc _ _ _
  | cons d cs ih =>
    rw [List.cons_append]
    cases literal with
    | true => rw [normalizeFrom_true_cons, normalizeFrom_true_cons, ih hopen]
    | false =>
      cases hd : isBlank d with
      | true =>
        rw [isOpen_blank_cons hd] at hopen
        rw [normalizeFrom_blank_cons hd, normalizeFrom_blank_cons hd, ih hopen]
      | false => rw [normalizeFrom_false_cons hd, normalizeFrom_false_cons hd, ih hopen]

/-- Whether a literal is open is told one text after the other. -/
theorem isOpen_append (literal : Bool) (cs ds : List Char) :
    isOpen literal (cs ++ ds) = isOpen (isOpen literal cs) ds := by
  induction cs generalizing literal with
  | nil => rfl
  | cons c cs ih => exact ih _

/-- White space at the end opens and closes nothing. -/
theorem isOpen_concat {c : Char} (hc : isBlank c = true) (literal : Bool) (cs : List Char) :
    isOpen literal (cs ++ [c]) = isOpen literal cs := by
  rw [isOpen_append, isOpen_blank_cons hc, isOpen]

/-- What holds of a text that ends outside literals holds of it without the white space at its end,
if one character of it makes no difference. -/
theorem rdropWhile_eq {α : Type} {f : List Char → α}
    (hf : ∀ {c cs}, isBlank c = true → isOpen false cs = false → f (cs ++ [c]) = f cs)
    {cs : List Char} (hopen : isOpen false cs = false) : f (cs.rdropWhile isBlank) = f cs := by
  induction cs using List.reverseRecOn with
  | nil => rfl
  | append_singleton cs c ih =>
    rw [List.rdropWhile_concat]
    split_ifs with hc
    · rw [isOpen_concat hc] at hopen
      rw [ih hopen, hf hc hopen]
    · rfl

/-- What ignores white space at the start and, outside literals, at the end does not tell a text
from the trimmed one. -/
theorem trim_eq {α : Type} {f : List Char → α}
    (hstart : ∀ {c cs}, isBlank c = true → f (c :: cs) = f cs)
    (hend : ∀ {c cs}, isBlank c = true → isOpen false cs = false → f (cs ++ [c]) = f cs)
    (cs : List Char) : f (trim cs) = f cs := by
  have hdrop : f (cs.dropWhile isBlank) = f cs := by
    induction cs with
    | nil => rfl
    | cons c cs ih =>
      rw [List.dropWhile_cons]
      split_ifs with hc
      · rw [ih, hstart hc]
      · rfl
  rw [trim]
  split_ifs with hopen
  · exact hdrop
  · rw [rdropWhile_eq hend (by simpa using hopen), hdrop]

theorem normalize_trim (cs : List Char) : normalize (trim cs) = normalize cs :=
  trim_eq (fun hc => normalizeFrom_blank_cons hc _ _ _)
    (fun hc hopen => normalizeFrom_concat hc hopen _ _) cs

/-- The parts inside literals do not change with white space at the end. -/
theorem alternate_parts_concat {c : Char} (hc : isBlank c = true) {cs : List Char} {literal : Bool}
    (hopen : isOpen literal cs = false) :
    alternate literal (parts (cs ++ [c])) = alternate literal (parts cs) := by
  induction cs generalizing literal with
  | nil =>
    cases hopen
    rw [List.nil_append, parts_cons (ne_quote_of_isBlank hc)]
    rfl
  | cons d cs ih =>
    have hrest := ih hopen
    rw [List.cons_append]
    by_cases hd : d = '\''
    · subst hd
      rw [parts_quote_cons, parts_quote_cons]
      cases literal with
      | true => exact congrArg ([] :: ·) hrest
      | false => exact hrest
    · have hne : (d == '\'') = false := beq_eq_false_iff_ne.mpr hd
      rw [hne, Bool.xor_false] at hrest
      rw [parts_cons hd, parts_cons hd, alternate_modifyHead, alternate_modifyHead, hrest]

/-- Trimming does not reach into literals. -/
theorem insideParts_trim (cs : List Char) : insideParts (trim cs) = insideParts cs := by
  refine trim_eq (fun {c cs} hc => ?_) (fun hc hopen => alternate_parts_concat hc hopen) cs
  rw [insideParts, parts_cons (ne_quote_of_isBlank hc), alternate_modifyHead]
  rfl

/-- Where a text ends outside literals, its last character is not white space. -/
def NoTrail (literal : Bool) (cs : List Char) : Prop :=
  isOpen literal cs = false → ∀ c ∈ cs.getLast?, isBlank c = false

theorem NoTrail.tail {literal : Bool} {c : Char} {cs : List Char}
    (h : NoTrail literal (c :: cs)) : NoTrail (literal ^^ c == '\'') cs := by
  exact fun hopen d hd => h hopen d (List.mem_getLast?_cons hd)

/-- A trimmed text has no white space at its end, unless that is inside a literal. -/
theorem noTrail_trim (cs : List Char) : NoTrail false (trim cs) := by
  intro hopen c hc
  rw [trim] at hopen hc
  split_ifs at hopen hc with hliteral
  · exact absurd (hliteral.symm.trans hopen) Bool.noConfusion
  · obtain ⟨hne, rfl⟩ := List.mem_getLast?_eq_getLast hc
    simpa using List.rdropWhile_last_not isBlank _ hne

/-- A trimmed text does not start with white space. -/
theorem head?_trim (cs : List Char) : ∀ c ∈ (trim cs).head?, isBlank c = false := by
  intro c hc
  refine head?_dropWhile_isBlank cs c ?_
  rw [trim] at hc
  split_ifs at hc
  · exact hc
  · obtain ⟨rest, hrest⟩ := List.rdropWhile_prefix isBlank (cs.dropWhile isBlank)
    rw [← hrest, List.head?_append, Option.mem_def.mp hc]
    rfl

/-! ### Normalizing part by part -/

/-- After the first character that is written, normalizing squeezes the parts outside literals. A
blank may be pending only in front of more text. -/
theorem normalizeFrom_eq_joined {cs : List Char} {literal : Bool} (h : NoTrail literal cs) :
    normalizeFrom literal false true cs = joined literal cs ∧
      (literal = false → cs ≠ [] →
        normalizeFrom false true true cs = joined false (' ' :: cs)) := by
  induction cs generalizing literal with
  | nil => exact ⟨(joined_nil literal).symm, fun _ hne => absurd rfl hne⟩
  | cons c cs ih =>
    obtain ⟨hrest, hpending⟩ := ih h.tail
    cases literal with
    | true =>
      refine ⟨?_, Bool.noConfusion⟩
      rw [normalizeFrom_true_cons, hrest]
      by_cases hc : c = '\''
      · subst hc
        rw [joined_quote_cons]
        rfl
      · rw [joined_true_cons hc, beq_eq_false_iff_ne.mpr hc, Bool.xor_false]
    | false =>
      have hspace : isBlank ' ' = true := rfl
      cases hblank : isBlank c with
      | true =>
        -- the text does not end with this blank, so more of it is to come
        have hne : cs ≠ [] := by
          rintro rfl
          have hlast := h (isOpen_blank_cons hblank false []) c rfl
          exact Bool.noConfusion (hblank.symm.trans hlast)
        have hc : (false ^^ c == '\'') = false := by
          rw [Bool.false_xor, beq_quote_of_isBlank hblank]
        have hrun : joined false (' ' :: c :: cs) = joined false (c :: cs) := by
          rw [joined_blank_cons hspace, List.head?_cons, Option.any_some, if_pos hblank]
        have hcons : joined false (' ' :: cs) = joined false (c :: cs) := by
          rw [joined_blank_cons hspace, joined_blank_cons hblank]
        have hblanks (pending : Bool) :
            normalizeFrom false pending true (c :: cs) = joined false (c :: cs) := by
          rw [normalizeFrom_blank_cons hblank, hpending hc hne, hcons]
        exact ⟨hblanks false, fun _ _ => (hblanks true).trans hrun.symm⟩
      | false =>
        have hcons : c.toLower :: normalizeFrom (false ^^ c == '\'') false true cs =
            joined false (c :: cs) := by
          rw [hrest]
          by_cases hc : c = '\''
          · subst hc
            rw [joined_quote_cons]
            rfl
          · rw [joined_false_cons hblank hc, beq_eq_false_iff_ne.mpr hc, Bool.xor_false]
        refine ⟨?_, fun _ _ => ?_⟩
        · rw [normalizeFrom_false_cons hblank, hcons]
          rfl
        · rw [normalizeFrom_false_cons hblank, hcons, joined_blank_cons hspace, List.head?_cons,
            Option.any_some, hblank]
          rfl

/-- The scan gives what squeezing the parts of the trimmed text does. -/
theorem normalize_eq_joined (cs : List Char) : normalize cs = joined false (trim cs) := by
  rw [← normalize_trim, ← (normalizeFrom_eq_joined (noTrail_trim cs)).1, normalize]
  have hhead := head?_trim cs
  cases htrim : trim cs with
  | nil => rfl
  | cons c rest =>
    rw [htrim] at hhead
    rw [normalizeFrom_false_cons (hhead c rfl), normalizeFrom_false_cons (hhead c rfl)]

/-- Normalized texts are equal exactly if their parts are equal by turns. -/
theorem normalize_eq_iff {cs ds : List Char} :
    normalize cs = normalize ds ↔
      insideParts cs = insideParts ds ∧ outsideParts cs = outsideParts ds := by
  have hinside (cs : List Char) :
      alternate false (tidy false (parts (trim cs))) = insideParts cs := by
    rw [alternate_tidy, if_pos rfl]
    exact insideParts_trim cs
  have houtside (cs : List Char) :
      alternate true (tidy false (parts (trim cs))) = outsideParts cs := by
    rw [alternate_tidy, if_neg Bool.noConfusion]
    rfl
  rw [normalize_eq_joined, normalize_eq_joined, ← hinside, ← hinside, ← houtside, ← houtside]
  constructor
  · intro h
    have hparts := congrArg parts h
    rw [parts_joined, parts_joined] at hparts
    rw [hparts]
    exact ⟨rfl, rfl⟩
  · rintro ⟨hfalse, htrue⟩
    exact congrArg (['\''].intercalate ·) (eq_of_alternate_eq htrue hfalse)

/-- **Definitions are compared part by part.** Two definitions are the same exactly if their parts
inside literals are equal and their parts outside are equal up to case, to the amount of white space
and to white space at the ends. Normalizing a definition once more changes nothing. -/
theorem same_iff_parts (a b : String) :
    (same a b = true ↔ insideParts a.toList = insideParts b.toList ∧
      outsideParts a.toList = outsideParts b.toList) ∧
    normalize (normalize a.toList) = normalize a.toList := by
  refine ⟨?_, normalize_normalize _⟩
  rw [same, beq_iff_eq, normalize_eq_iff]

/-- White space at the end of a literal that is never closed is part of it. -/
example :
    outsideParts " A\t\n'It''s' B 'c ".toList = ["a ".toList, [], " b ".toList] ∧
      insideParts " A\t\n'It''s' B 'c ".toList = ["It".toList, "s".toList, "c ".toList] := by
  decide +kernel

end Definition

end SqlRecord
