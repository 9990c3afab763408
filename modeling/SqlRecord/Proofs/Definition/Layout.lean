import SqlRecord.Proofs.Schema.Definition
import SqlRecord.Proofs.Sql.Written
import SqlRecord.Store.Engine

/-!
# Layouts of definitions

Two texts with the same tokens are the same definition exactly if white space stands between the
same tokens; how much of it and of which kind makes no difference, nor does white space at the ends
(`Definition.same_iff_gaps`). A stored table whose text leaves out a blank in front of a parenthesis
therefore counts as another one.
-/

namespace SqlRecord

namespace Definition

open Sql

/-! ### Tokens -/

/-- Normalizing goes on after a text that ends outside literals and not with white space. -/
theorem normalizeFrom_append {cs : List Char} {literal : Bool} (hopen : isOpen literal cs = false)
    (hlast : ∀ c ∈ cs.getLast?, isBlank c = false) {pending started : Bool}
    (hnil : cs = [] → pending = false ∧ started = true) (rest : List Char) :
    normalizeFrom literal pending started (cs ++ rest) =
      normalizeFrom literal pending started cs ++ normalizeFrom false false true rest := by
  induction cs generalizing literal pending started with
  | nil =>
    obtain ⟨rfl, rfl⟩ := hnil rfl
    cases hopen
    rfl
  | cons c cs ih =>
    have htail : ∀ d ∈ cs.getLast?, isBlank d = false :=
      fun d hd => hlast d (List.mem_getLast?_cons hd)
    rw [List.cons_append]
    cases literal with
    | true =>
      rw [normalizeFrom_true_cons, normalizeFrom_true_cons, ih hopen htail fun _ => ⟨rfl, rfl⟩]
      rfl
    | false =>
      cases hc : isBlank c with
      | true =>
        have hne : cs ≠ [] := by
          rintro rfl
          exact Bool.noConfusion (hc.symm.trans (hlast c rfl))
        rw [isOpen_blank_cons hc] at hopen
        rw [normalizeFrom_blank_cons hc, normalizeFrom_blank_cons hc,
          ih hopen htail fun hnil => absurd hnil hne]
      | false =>
        rw [normalizeFrom_false_cons hc, normalizeFrom_false_cons hc,
          ih hopen htail fun _ => ⟨rfl, rfl⟩, List.append_assoc, List.cons_append]

/-- Solid characters are normalized by themselves, whatever stood before them. -/
theorem normalizeFrom_solid {cs : List Char} (h : Solid cs) (pending started : Bool) :
    normalizeFrom false pending started cs = lead pending ++ normalize cs := by
  obtain ⟨c, cs, rfl⟩ := List.exists_cons_of_ne_nil h.ne_nil
  have hc := h.head c rfl
  rw [normalize, normalizeFrom_false_cons hc, normalizeFrom_false_cons hc]
  rfl

/-- A solid text is normalized on its own, whatever stands around it. -/
theorem normalizeFrom_solid_append {cs : List Char} (h : Solid cs) (pending started : Bool)
    (rest : List Char) :
    normalizeFrom false pending started (cs ++ rest) =
      lead pending ++ (normalize cs ++ normalizeFrom false false true rest) := by
  rw [normalizeFrom_append h.closed h.last (fun hnil => absurd hnil h.ne_nil),
    normalizeFrom_solid h, List.append_assoc]

/-- A solid text does not become one that starts with a blank. -/
theorem head?_normalize_ne {cs : List Char} (h : Solid cs) :
    ∃ d ds, normalize cs = d :: ds ∧ d ≠ ' ' := by
  obtain ⟨c, cs, rfl⟩ := List.exists_cons_of_ne_nil h.ne_nil
  have hc := h.head c rfl
  refine ⟨c.toLower, _, normalizeFrom_false_cons hc false false cs, ?_⟩
  intro hlower
  have hblank := isBlank_toLower c
  rw [hlower, hc] at hblank
  cases hblank

/-- Normalizing makes no difference between spellings that are equal up to case. -/
theorem normalizeFrom_foldSpelling (cs : List Char) (literal pending started : Bool) :
    normalizeFrom literal pending started (foldSpelling literal cs) =
      normalizeFrom literal pending started cs := by
  induction cs generalizing literal pending started with
  | nil => rfl
  | cons c cs ih =>
    cases literal with
    | true =>
      rw [foldSpelling, if_pos rfl, normalizeFrom_true_cons, normalizeFrom_true_cons, ih]
    | false =>
      rw [foldSpelling, if_neg Bool.false_ne_true]
      cases hc : isBlank c with
      | true =>
        rw [normalizeFrom_blank_cons ((isBlank_toLower c).trans hc), normalizeFrom_blank_cons hc,
          beq_quote_of_isBlank hc]
        exact ih _ _ _
      | false =>
        rw [normalizeFrom_false_cons ((isBlank_toLower c).trans hc), normalizeFrom_false_cons hc,
          toLower_beq_quote, Ascii.toLower_toLower, ih]

/-- Tokens that are equal up to case have the same normal form. -/
theorem normalize_eq_of_folded {w u : Written} (h : w.folded = u.folded) :
    normalize w.spelling = normalize u.spelling := by
  have hw := normalizeFrom_foldSpelling w.spelling false false false
  have hu := normalizeFrom_foldSpelling u.spelling false false false
  exact hw.symm.trans ((congrArg _ h).trans hu)

/-! ### Texts -/

/-- The white space between tokens is white space to the comparison. -/
theorem isBlank_of_isSpace {c : Char} (h : isSpace c = true) : isBlank c = true := by
  have hall : [' ', '\t', '\n', '\r', Char.ofNat 12].all isBlank = true := by decide
  exact List.all_eq_true.mp hall c (List.contains_iff_mem.mp h)

/-- White space is passed, and leaves a blank pending where something was written before. -/
theorem normalizeFrom_gap {gap : List Char} (h : ∀ c ∈ gap, isSpace c = true) (started : Bool)
    (rest : List Char) :
    normalizeFrom false false started (gap ++ rest) =
      normalizeFrom false (!gap.isEmpty && started) started rest := by
  have hmany : ∀ gap : List Char, (∀ c ∈ gap, isSpace c = true) →
      normalizeFrom false started started (gap ++ rest) =
        normalizeFrom false started started rest := by
    intro gap h
    induction gap with
    | nil => rfl
    | cons c gap ih =>
      obtain ⟨hc, hgap⟩ := List.forall_mem_cons.mp h
      rw [List.cons_append, normalizeFrom_blank_cons (isBlank_of_isSpace hc), ih hgap]
  cases gap with
  | nil => rfl
  | cons c gap =>
    obtain ⟨hc, hgap⟩ := List.forall_mem_cons.mp h
    rw [List.cons_append, normalizeFrom_blank_cons (isBlank_of_isSpace hc), hmany gap hgap]
    rfl

/-- What normalizing leaves of tokens that follow others. -/
def outline (ws : List Written) : List Char :=
  ws.flatMap fun w => lead w.isSpaced ++ normalize w.spelling

/-- What follows a token is normalized to the outline of the tokens. -/
theorem normalizeFrom_written {ws : List Written} {last : List Char} (h : IsRead ws last)
    (hsolid : ∀ w ∈ ws, Solid w.spelling) :
    normalizeFrom false false true (written ws last) = outline ws := by
  induction ws with
  | nil =>
    have hgap := normalizeFrom_gap h true []
    rw [List.append_nil] at hgap
    exact hgap.trans rfl
  | cons w ws ih =>
    obtain ⟨hw, hws⟩ := h
    obtain ⟨hwsolid, hsolid⟩ := List.forall_mem_cons.mp hsolid
    rw [written_cons, normalizeFrom_gap hw.gap, normalizeFrom_solid_append hwsolid, ih hws hsolid,
      Bool.and_true, ← List.append_assoc]
    rfl

/-- A definition is normalized to its first token and the outline of the others. -/
theorem normalize_written_cons {w : Written} {ws : List Written} {last : List Char}
    (h : IsRead (w :: ws) last) (hsolid : ∀ v ∈ w :: ws, Solid v.spelling) :
    normalize (written (w :: ws) last) = normalize w.spelling ++ outline ws := by
  obtain ⟨hw, hws⟩ := h
  obtain ⟨hwsolid, hsolid⟩ := List.forall_mem_cons.mp hsolid
  rw [written_cons, normalize, normalizeFrom_gap hw.gap, Bool.and_false,
    normalizeFrom_solid_append hwsolid, normalizeFrom_written hws hsolid]
  rfl

/-- Texts of the same tokens are told apart by the tokens with white space in front. -/
theorem outline_eq_iff {ws us : List Written}
    (hsame : ws.map Written.folded = us.map Written.folded)
    (hsolid : ∀ w ∈ ws, Solid w.spelling) :
    outline ws = outline us ↔ ws.map Written.isSpaced = us.map Written.isSpaced := by
  induction ws generalizing us with
  | nil =>
    obtain rfl := List.map_eq_nil_iff.mp hsame.symm
    exact iff_of_true rfl rfl
  | cons w ws ih =>
    cases us with
    | nil => cases hsame
    | cons u us =>
      obtain ⟨hwu, hsame⟩ := List.cons.inj hsame
      obtain ⟨hwsolid, hsolid⟩ := List.forall_mem_cons.mp hsolid
      -- a token does not start with a blank, so a blank comes from the white space before it
      have hlead (a b : Bool) (cs ds : List Char) :
          lead a ++ (normalize w.spelling ++ cs) = lead b ++ (normalize w.spelling ++ ds) ↔
            a = b ∧ cs = ds := by
        obtain ⟨d, rest, hd, hne⟩ := head?_normalize_ne hwsolid
        rw [hd]
        cases a <;> cases b <;> simp [lead, hne, Ne.symm hne]
      rw [outline, outline, List.flatMap_cons, List.flatMap_cons, ← normalize_eq_of_folded hwu,
        List.append_assoc, List.append_assoc, hlead, List.map_cons, List.map_cons,
        List.cons.injEq, ← ih hsame hsolid]
      rfl

/-! ### Definitions -/

/-- Ordinary tokens are solid where they are read. -/
theorem IsRead.solid {ws : List Written} {last : List Char} (h : IsRead ws last)
    (hordinary : ∀ w ∈ ws, w.token.IsOrdinary w.spelling) : ∀ w ∈ ws, Solid w.spelling := by
  induction ws with
  | nil => nofun
  | cons w ws ih =>
    obtain ⟨hw, hws⟩ := h
    obtain ⟨hword, hordinary⟩ := List.forall_mem_cons.mp hordinary
    exact List.forall_mem_cons.mpr
      ⟨solid_of_token? hw.ne_nil hw.token hword, ih hws hordinary⟩

/-- Tokens that are equal to solid ones up to case are solid. -/
theorem solid_of_folded_eq {ws us : List Written}
    (hsame : ws.map Written.folded = us.map Written.folded)
    (hsolid : ∀ w ∈ ws, Solid w.spelling) : ∀ u ∈ us, Solid u.spelling := by
  intro u hu
  have hmem : u.folded ∈ ws.map Written.folded := hsame ▸ List.mem_map_of_mem hu
  obtain ⟨w, hw, hwu⟩ := List.mem_map.mp hmem
  exact (hsolid w hw).of_foldSpelling_eq hwu

/-- Texts of the same tokens normalize alike exactly if white space stands between the same tokens,
whatever stands in front of the first one. -/
theorem normalize_written_eq_iff {ws us : List Written} {last last' : List Char}
    (hws : IsRead ws last) (hus : IsRead us last')
    (hsame : ws.map Written.folded = us.map Written.folded)
    (hsolid : ∀ w ∈ ws, Solid w.spelling) :
    normalize (written ws last) = normalize (written us last') ↔
      (ws.map Written.isSpaced).tail = (us.map Written.isSpaced).tail := by
  have hsolid' := solid_of_folded_eq hsame hsolid
  cases ws with
  | nil =>
    obtain rfl := List.map_eq_nil_iff.mp hsame.symm
    have hblank {last : List Char} (h : IsRead [] last) : normalize (written [] last) = [] := by
      have hgap := normalizeFrom_gap h false []
      rw [List.append_nil, Bool.and_false] at hgap
      exact hgap
    rw [hblank hws, hblank hus]
    exact iff_of_true rfl rfl
  | cons w ws =>
    cases us with
    | nil => cases hsame
    | cons u us =>
      rw [normalize_written_cons hws hsolid, normalize_written_cons hus hsolid']
      obtain ⟨hwu, hsame⟩ := List.cons.inj hsame
      rw [normalize_eq_of_folded hwu, List.append_right_inj]
      exact outline_eq_iff hsame (List.forall_mem_cons.mp hsolid).2

/-- **Only the presence of white space tells texts of the same tokens apart.** Two texts have the
same tokens if these are spelled alike up to case and literals are spelled alike. Then they are the
same definition exactly if white space stands in front of the same tokens, whatever stands in front
of the first one and after the last. So where one of them is stored and the other one is the
definition of a schema, the schema does not match exactly if definitions are checked and white space
stands between other tokens. Names in quotes of their own kind may hold no single quotes, and words
no white space beyond ASCII. -/
theorem same_iff_gaps {ws us : List Written} {last last' : List Char}
    (hws : IsRead ws last) (hus : IsRead us last')
    (hsame : ws.map Written.folded = us.map Written.folded)
    (hordinary : ∀ w ∈ ws, w.token.IsOrdinary w.spelling) :
    (same (.ofList (written ws last)) (.ofList (written us last')) = true ↔
      (ws.map Written.isSpaced).tail = (us.map Written.isSpaced).tail) ∧
    ∀ {σ : Type} (engine : Engine σ) (db : Database σ) (s : Schema),
      s.createText = .ok (.ofList (written us last')) →
      engine.definition? s.table db.state = some (.ofList (written ws last)) →
        ((db.sync engine s).1 = .error (.schemaMismatch s.table (.ofList (written us last'))
            (.ofList (written ws last))) ↔
          db.settings.checkSchema = true ∧
            (ws.map Written.isSpaced).tail ≠ (us.map Written.isSpaced).tail) := by
  have hiff : same (.ofList (written ws last)) (.ofList (written us last')) = true ↔
      (ws.map Written.isSpaced).tail = (us.map Written.isSpaced).tail := by
    rw [same, beq_iff_eq, String.toList_ofList, String.toList_ofList,
      normalize_written_eq_iff hws hus hsame (IsRead.solid hws hordinary)]
  refine ⟨hiff, fun engine db s hexpected hfound => ?_⟩
  rw [Database.sync, hexpected]
  simp only [hfound, Database.verify, ne_eq, ← hiff]
  split_ifs with hcheck hgaps <;> simp_all

/-- The tokens of a definition, with white space in front of each but the last one and the name of
the column, and some in front of the parenthesis. -/
def tallied (gap : List Char) : List Written :=
  [⟨[], "CREATE".toList, .word "CREATE"⟩, ⟨[' '], "TABLE".toList, .word "TABLE"⟩,
    ⟨[' '], "t".toList, .word "t"⟩, ⟨gap, "(".toList, .symbol "("⟩, ⟨[], "a".toList, .word "a"⟩,
    ⟨[' '], "INTEGER".toList, .word "INTEGER"⟩, ⟨[], ")".toList, .symbol ")"⟩]

/-- A schema of one column of integers. -/
def tally : Schema := ⟨"Tally", "t", [⟨"a", "a", .plain (.integer .int64), []⟩]⟩

/-- A store in which the table was made by a text without the blank in front of the parenthesis. -/
def tallyStore : Store := (Store.empty.script "CREATE TABLE t(a INTEGER)").2

/-- White space of another kind makes no difference to the definition of a table, and a blank that
is left out makes the table another one. -/
theorem same_iff_gaps_tally :
    same (.ofList (written (tallied ['\n', '\t']) ['\n'])) (.ofList (written (tallied [' ']) [])) =
      true ∧
    ((Database.ofSettings .default tallyStore).sync Store.engine tally).1 = .error
      (.schemaMismatch "t" "CREATE TABLE t (a INTEGER)" "CREATE TABLE t(a INTEGER)") := by
  have hordinary (gap : List Char) :
      ∀ w ∈ tallied gap, w.token.IsOrdinary w.spelling := by
    simp only [tallied, String.reduceToList, List.mem_cons, List.not_mem_nil, or_false,
      Token.IsOrdinary, forall_eq_or_imp, forall_eq, and_true, true_and]
    decide +kernel
  have hbroken : IsRead (tallied ['\n', '\t']) ['\n'] := by decide +kernel
  have hspaced : IsRead (tallied [' ']) [] := by decide +kernel
  have hunspaced : IsRead (tallied []) [] := by decide +kernel
  have hexpected : String.ofList (written (tallied [' ']) []) = "CREATE TABLE t (a INTEGER)" := by
    decide +kernel
  have hfound : String.ofList (written (tallied []) []) = "CREATE TABLE t(a INTEGER)" := by
    decide +kernel
  constructor
  · exact (same_iff_gaps hbroken hspaced (by decide +kernel) (hordinary _)).1.mpr
      (by decide +kernel)
  · have hsync := (same_iff_gaps hunspaced hspaced (by decide +kernel) (hordinary _)).2
      Store.engine (.ofSettings .default tallyStore) tally
    rw [hexpected, hfound] at hsync
    exact (hsync (by decide +kernel) (by decide +kernel)).mpr ⟨rfl, by decide +kernel⟩

/-- Without the blank in front of the parenthesis, a definition has the same tokens and is another
one. -/
theorem not_same_unspaced :
    String.ofList (written (tallied []) []) = "CREATE TABLE t(a INTEGER)" ∧
    tally.createText = .ok (.ofList (written (tallied [' ']) [])) ∧
    IsRead (tallied []) [] ∧ IsRead (tallied [' ']) [] ∧
    (tallied []).map Written.folded = (tallied [' ']).map Written.folded ∧
    same (.ofList (written (tallied []) [])) (.ofList (written (tallied [' ']) [])) = false := by
  refine ⟨?_, ?_, ?_, ?_, ?_, ?_⟩ <;> decide +kernel

end Definition

end SqlRecord
