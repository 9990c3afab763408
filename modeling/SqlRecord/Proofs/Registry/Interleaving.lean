import SqlRecord.Proofs.Registry.Basic
import SqlRecord.Proofs.Schema.Build

/-!
# Requests at the same time

Any number of requests may use one registry, for any record types, and their sections may come in
any order (`Race.run`); a section is atomic. `Registry.getOrBuild` is the three sections of one
request in a row. What holds between any two sections is `Race.Sound`: each section preserves it
(`Race.sound_step`), whatever the other requests have done in the meantime. Main statement:
`Race.agreement`.
-/

namespace SqlRecord

namespace Registry

/-! ### Sections -/

/-- A request for the schema of a record type, with the declaration it builds if none is stored. -/
structure Request where
  record : Nat
  declaration : Declaration

/-- How far a request is: before its first section, between two of them, or answered. An answer is a
stored entry, the request's own schema, which it has inserted, a failed build, or an entry that
belongs to another record type. -/
inductive Progress where
  | waiting
  | missing
  | built (candidate : Registered)
  | found (stored : Registered)
  | inserted (stored : Registered)
  | failed (e : SchemaError)
  | mistyped

namespace Progress

/-- The schema that a request was answered with. -/
def answer? : Progress → Option Registered
  | found stored => some stored
  | inserted stored => some stored
  | _ => none

/-- The schema that a request has built itself and not discarded. -/
def own? : Progress → Option Registered
  | built candidate => some candidate
  | inserted candidate => some candidate
  | _ => none

/-- What an entry is for a request: the answer, if it was built for the type it is asked for. -/
def ofStored (record : Nat) (stored : Registered) : Progress :=
  if stored.record = record then found stored else mistyped

/-- What a caller gets, once the request is answered. -/
def result? : Progress → Option (Except SchemaError Registered)
  | found stored => some (.ok stored)
  | inserted stored => some (.ok stored)
  | failed e => some (.error e)
  | _ => none

/-- How many sections a request is past at least; three are all. -/
def sections : Progress → Nat
  | waiting => 0
  | missing => 1
  | built _ => 2
  | _ => 3

/-- A request that is past its three sections is answered. -/
theorem of_three_le_sections {p : Progress} (h : 3 ≤ p.sections) :
    (∃ e, p.answer? = some e) ∨ (∃ error, p = .failed error) ∨ p = .mistyped := by
  cases p with
  | waiting => exact absurd h (by decide)
  | missing => exact absurd h (by decide)
  | built candidate => exact absurd h (Nat.not_succ_le_self 2)
  | found e => exact .inl ⟨e, rfl⟩
  | inserted e => exact .inl ⟨e, rfl⟩
  | failed error => exact .inr (.inl ⟨error, rfl⟩)
  | mistyped => exact .inr (.inr rfl)

end Progress

/-- The next section of a request: the look-up, the build, the second look-up with the insertion. An
answered request has none. -/
def advance (r : Registry) (q : Request) : Progress → Progress × Registry
  | .waiting => match r.lookup q.record with
    | some stored => (.ofStored q.record stored, r)
    | none => (.missing, r)
  | .missing => match r.build q.record q.declaration with
    | (.ok candidate, r) => (.built candidate, r)
    | (.error e, r) => (.failed e, r)
  | .built candidate =>
    let (stored, after) := r.publish q.record candidate
    (if r.contains q.record then .ofStored q.record stored else .inserted stored, after)
  | answered => (answered, r)

/-- Everything that one section can do. -/
inductive Section (r : Registry) (q : Request) : Progress → Progress → Registry → Prop
  | hit {p : Progress} {stored : Registered} (unanswered : p.sections < 3)
      (h : r.lookup q.record = some stored) : Section r q p (.ofStored q.record stored) r
  | miss (h : r.lookup q.record = none) : Section r q .waiting .missing r
  | build {schema : Schema} (h : q.declaration.build = .ok schema) :
      Section r q .missing (.built ⟨q.record, r.built, schema⟩) { r with built := r.built + 1 }
  | fail {e : SchemaError} (h : q.declaration.build = .error e) :
      Section r q .missing (.failed e) r
  | insert {candidate : Registered} (h : r.lookup q.record = none) :
      Section r q (.built candidate) (.inserted candidate)
        { r with entries := r.entries ++ [(q.record, candidate)] }
  | rest {p : Progress} (answered : p.sections = 3) : Section r q p p r

/-- What a request advances by is a section. -/
theorem section_advance (r : Registry) (q : Request) (p : Progress) :
    Section r q p (r.advance q p).1 (r.advance q p).2 := by
  cases p with
  | waiting =>
    rw [advance]
    split
    · next stored h => exact .hit (by decide) h
    · next h => exact .miss h
  | missing =>
    rw [advance, build]
    cases h : q.declaration.build with
    | ok schema => exact .build h
    | error e => exact .fail h
  | built candidate =>
    rw [advance, publish, contains]
    cases h : r.lookup q.record with
    | some stored => exact .hit (Nat.lt_succ_self 2) h
    | none => exact .insert h
  | found stored => exact .rest rfl
  | inserted stored => exact .rest rfl
  | failed e => exact .rest rfl
  | mistyped => exact .rest rfl

/-- Where no other request comes between them, the three sections of a request are
`Registry.getOrBuild`. -/
theorem getOrBuild_eq_sections (r : Registry) (q : Request)
    (hrecord : ∀ e, r.lookup q.record = some e → e.record = q.record) :
    let first := r.advance q .waiting
    let second := first.2.advance q first.1
    let third := second.2.advance q second.1
    third.1.result? = some (r.getOrBuild q.record q.declaration).1 ∧
      third.2 = (r.getOrBuild q.record q.declaration).2 := by
  intro first second third
  cases hlookup : r.lookup q.record with
  | some stored =>
    have hfirst : first = (.found stored, r) := by
      simp only [first, advance, hlookup, Progress.ofStored, hrecord stored hlookup, if_true]
    simp only [third, second, hfirst, advance, getOrBuild, getOrBuildWith, hlookup, and_true]
    rfl
  | none =>
    have hfirst : first = (.missing, r) := by simp only [first, advance, hlookup]
    cases hbuild : q.declaration.build with
    | error e =>
      have hsecond : second = (.failed e, r) := by
        simp only [second, hfirst, advance, build, hbuild]
      simp only [third, hsecond, advance, getOrBuild, getOrBuildWith, hlookup, build, hbuild,
        and_true]
      rfl
    | ok schema =>
      have hsecond : second = (.built ⟨q.record, r.built, schema⟩,
          { r with built := r.built + 1 }) := by
        simp only [second, hfirst, advance, build, hbuild]
      have hstill : ({ r with built := r.built + 1 } : Registry).lookup q.record = none := hlookup
      simp only [third, hsecond, advance, contains, publish, hstill, getOrBuild, getOrBuildWith,
        hlookup, build, hbuild, and_true]
      rfl

namespace Section

variable {r r' : Registry} {q : Request} {p p' : Progress}

/-- An entry stays. -/
theorem lookup_eq_some (h : Section r q p p' r') {record : Nat} {e : Registered}
    (he : r.lookup record = some e) : r'.lookup record = some e := by
  cases h with
  | insert _ => rw [lookup_append, he, Option.some_or]
  | _ => exact he

/-- A new entry is the one the request inserts. -/
theorem mem_entries (h : Section r q p p' r') {record : Nat} {e : Registered}
    (he : (record, e) ∈ r'.entries) :
    (record, e) ∈ r.entries ∨ (record = q.record ∧ p' = .inserted e) := by
  cases h with
  | insert _ =>
    obtain he | he := List.mem_append.mp he
    · exact .inl he
    · cases List.mem_singleton.mp he
      exact .inr ⟨rfl, rfl⟩
  | _ => exact .inl he

/-- No key is stored twice. -/
theorem nodup_keys (h : Section r q p p' r') (hkeys : (r.entries.map Prod.fst).Nodup) :
    (r'.entries.map Prod.fst).Nodup := by
  cases h with
  | insert hnone =>
    have hfresh : ∀ entry ∈ r.entries, entry.1 ≠ q.record := fun entry he heq => by
      simpa [heq] using List.lookup_eq_none_iff.mp hnone entry he
    rw [List.map_append]
    refine List.Nodup.append hkeys (List.nodup_singleton _) ?_
    simpa [List.disjoint_singleton] using fun e he => hfresh _ he rfl
  | _ => exact hkeys

/-- An answer is what is stored for the type asked for. -/
theorem answer?_eq_some (h : Section r q p p' r') {e : Registered} (he : p'.answer? = some e) :
    p.answer? = some e ∨ r'.lookup q.record = some e := by
  cases h with
  | hit _ hsome =>
    rw [Progress.ofStored] at he
    split_ifs at he
    · exact .inr (hsome.trans he)
    · cases he
  | insert hnone =>
    refine .inr ?_
    rw [lookup_append, hnone, Option.none_or, if_pos rfl]
    exact he
  | rest _ => exact .inl he
  | _ => cases he

/-- A schema of the request's own is new, or was there before. -/
theorem own?_eq_some (h : Section r q p p' r') {e : Registered} (he : p'.own? = some e) :
    p.own? = some e ∨ (e.record = q.record ∧ q.declaration.build = .ok e.schema ∧
      e.stamp = r.built ∧ r'.built = r.built + 1) := by
  cases h with
  | hit _ _ =>
    rw [Progress.ofStored] at he
    split_ifs at he <;> cases he
  | build hbuild =>
    cases he
    exact .inr ⟨rfl, hbuild, rfl, rfl⟩
  | insert _ => exact .inl he
  | rest _ => exact .inl he
  | _ => cases he

theorem built_le (h : Section r q p p' r') : r.built ≤ r'.built := by
  cases h with
  | build _ => exact Nat.le_succ _
  | _ => exact Nat.le_refl _

/-- An answer stays. -/
theorem eq_of_answered (h : Section r q p p' r') (hp : p.sections = 3) : p' = p := by
  cases h with
  | hit hopen _ => omega
  | rest _ => rfl
  | _ => cases hp

/-- A request fails where its build does. -/
theorem failed (h : Section r q p p' r') {e : SchemaError} (he : p' = .failed e) :
    p = .failed e ∨ q.declaration.build = .error e := by
  cases h with
  | hit _ _ =>
    rw [Progress.ofStored] at he
    split_ifs at he
  | fail hbuild =>
    cases he
    exact .inr hbuild
  | rest _ => exact .inl he
  | _ => cases he

/-- A request is mistyped where an entry was stored under a type it was not built for. -/
theorem mistyped (h : Section r q p p' r') (he : p' = .mistyped) :
    p = .mistyped ∨ ∃ stored, r.lookup q.record = some stored ∧ stored.record ≠ q.record := by
  cases h with
  | hit _ hsome =>
    rw [Progress.ofStored] at he
    split_ifs at he with hrecord
    exact .inr ⟨_, hsome, hrecord⟩
  | rest _ => exact .inl he
  | _ => cases he

/-- A section brings its request on. -/
theorem sections_le (h : Section r q p p' r') : min 3 (p.sections + 1) ≤ p'.sections := by
  cases h with
  | hit _ _ =>
    rw [Progress.ofStored]
    split_ifs <;> exact Nat.min_le_left _ _
  | fail _ => exact Nat.min_le_left _ _
  | rest hp => exact (Nat.min_le_left _ _).trans hp.ge
  | _ => exact Nat.min_le_right _ _

end Section

/-! ### Races -/

/-- A registry and the requests that use it at the same time. -/
structure Race (ι : Type*) where
  registry : Registry
  progress : ι → Progress

namespace Race

variable {ι : Type*}

/-- An empty registry, and no request past its first section. -/
def start : Race ι := ⟨.empty, fun _ => .waiting⟩

/-- What holds between any two sections. -/
structure Sound (requests : ι → Request) (race : Race ι) : Prop where
  nodup_keys : (race.registry.entries.map Prod.fst).Nodup
  entry : ∀ record e, (record, e) ∈ race.registry.entries →
    ∃ i, (requests i).record = record ∧ race.progress i = .inserted e
  answer : ∀ i e, (race.progress i).answer? = some e →
    race.registry.lookup (requests i).record = some e
  own : ∀ i e, (race.progress i).own? = some e → e.record = (requests i).record ∧
    (requests i).declaration.build = .ok e.schema ∧ e.stamp < race.registry.built
  distinct : ∀ i j e e', (race.progress i).own? = some e → (race.progress j).own? = some e' →
    e.stamp = e'.stamp → i = j
  failed : ∀ i e, race.progress i = .failed e → (requests i).declaration.build = .error e
  typed : ∀ i, race.progress i ≠ .mistyped

/-- A race starts soundly, as nothing is stored and no request has built anything. -/
theorem sound_start (requests : ι → Request) : (start : Race ι).Sound requests where
  nodup_keys := List.nodup_nil
  entry _ _ h := absurd h List.not_mem_nil
  answer _ _ h := nomatch h
  own _ _ h := nomatch h
  distinct _ _ _ _ h := nomatch h
  failed _ _ h := nomatch h
  typed _ h := nomatch h

/-- An entry was built for the type it is stored under. -/
theorem Sound.record_eq {requests : ι → Request} {race : Race ι} (h : race.Sound requests)
    {record : Nat} {e : Registered} (he : (record, e) ∈ race.registry.entries) :
    e.record = record := by
  obtain ⟨i, rfl, hi⟩ := h.entry record e he
  exact (h.own i e (by rw [hi]; rfl)).1

/-- The types with an entry are those for which some request has inserted one. -/
theorem Sound.size_eq {requests : ι → Request} {race : Race ι} (h : race.Sound requests) :
    race.registry.size =
      {record | ∃ i e, (requests i).record = record ∧ race.progress i = .inserted e}.ncard := by
  have hkeys : {record | ∃ i e, (requests i).record = record ∧ race.progress i = .inserted e} =
      ((race.registry.entries.map Prod.fst).toFinset : Set Nat) := by
    ext record
    simp only [Set.mem_ofPred_eq, List.coe_toFinset, List.mem_map, Prod.exists, exists_and_right,
      exists_eq_right]
    constructor
    · rintro ⟨i, e, rfl, hi⟩
      exact ⟨e, mem_of_lookup (h.answer i e (by rw [hi]; rfl))⟩
    · rintro ⟨e, he⟩
      obtain ⟨i, hrecord, hi⟩ := h.entry record e he
      exact ⟨i, e, hrecord, hi⟩
  rw [hkeys, Set.ncard_coe_finset, List.toFinset_card_of_nodup h.nodup_keys, List.length_map, size]

variable [DecidableEq ι] (requests : ι → Request)

/-- The race after the next section of one request. -/
def step (race : Race ι) (i : ι) : Race ι :=
  let next := race.registry.advance (requests i) (race.progress i)
  ⟨next.2, Function.update race.progress i next.1⟩

/-- The race after sections of the requests in a schedule. -/
def run (schedule : List ι) : Race ι := schedule.foldl (step requests) start

/-- A step of a race is a section of one request. -/
theorem section_step (race : Race ι) (i : ι) : Section race.registry (requests i)
    (race.progress i) ((race.step requests i).progress i) (race.step requests i).registry := by
  simp only [step, Function.update_self]
  exact section_advance _ _ _

theorem progress_step_of_ne (race : Race ι) {i j : ι} (h : j ≠ i) :
    (race.step requests i).progress j = race.progress j :=
  Function.update_of_ne h _ _

variable {requests}

/-- **A section of any request preserves soundness.** -/
theorem sound_step {race : Race ι} (h : race.Sound requests) (i : ι) :
    (race.step requests i).Sound requests := by
  have hsection := race.section_step requests i
  have hother := fun j (hj : j ≠ i) => race.progress_step_of_ne requests hj
  -- the schema of the request's own is the one it had, or newer than all
  have hown : ∀ j e, ((race.step requests i).progress j).own? = some e →
      (race.progress j).own? = some e ∨ (j = i ∧ e.record = (requests i).record ∧
        (requests i).declaration.build = .ok e.schema ∧ e.stamp = race.registry.built ∧
        (race.step requests i).registry.built = race.registry.built + 1) := by
    intro j e he
    by_cases hj : j = i
    · subst hj
      exact (hsection.own?_eq_some he).imp_right fun h => ⟨rfl, h⟩
    · exact .inl (hother j hj ▸ he)
  have hstamp : ∀ j e, (race.progress j).own? = some e → e.stamp < race.registry.built :=
    fun j e he => (h.own j e he).2.2
  constructor
  case nodup_keys => exact hsection.nodup_keys h.nodup_keys
  -- who inserted an entry is answered and has no further sections
  case entry =>
    intro record e he
    obtain he | ⟨rfl, hi⟩ := hsection.mem_entries he
    · obtain ⟨j, hrecord, hj⟩ := h.entry record e he
      refine ⟨j, hrecord, ?_⟩
      by_cases hji : j = i
      · subst hji
        rw [hsection.eq_of_answered (by rw [hj]; rfl), hj]
      · rw [hother j hji, hj]
    · exact ⟨i, rfl, hi⟩
  case answer =>
    intro j e he
    by_cases hj : j = i
    · subst hj
      exact (hsection.answer?_eq_some he).elim
        (fun he => hsection.lookup_eq_some (h.answer j e he)) id
    · rw [hother j hj] at he
      exact hsection.lookup_eq_some (h.answer j e he)
  case own =>
    intro j e he
    obtain he | ⟨rfl, hrecord, hbuild, hstamp, hbuilt⟩ := hown j e he
    · obtain ⟨hrecord, hbuild, hlt⟩ := h.own j e he
      exact ⟨hrecord, hbuild, hlt.trans_le hsection.built_le⟩
    · exact ⟨hrecord, hbuild, by omega⟩
  case distinct =>
    intro j k e e' he he' heq
    obtain hj | ⟨hji, -, -, hnew, -⟩ := hown j e he
    · obtain hk | ⟨-, -, -, hnew', -⟩ := hown k e' he'
      · exact h.distinct j k e e' hj hk heq
      · have := hstamp j e hj
        omega
    · obtain hk | ⟨hki, -, -, -, -⟩ := hown k e' he'
      · have := hstamp k e' hk
        omega
      · exact hji.trans hki.symm
  case failed =>
    intro j e he
    by_cases hj : j = i
    · subst hj
      exact (hsection.failed he).elim (h.failed j e) id
    · exact h.failed j e (hother j hj ▸ he)
  case typed =>
    intro j he
    by_cases hj : j = i
    · subst hj
      obtain he | ⟨stored, hstored, hne⟩ := hsection.mistyped he
      · exact h.typed j he
      -- what is stored under the type of the request was built for that type
      · exact hne (h.record_eq (mem_of_lookup hstored))
    · exact h.typed j (hother j hj ▸ he)

/-- **Any schedule preserves soundness.** -/
theorem sound_foldl {race : Race ι} (h : race.Sound requests) (schedule : List ι) :
    (schedule.foldl (step requests) race).Sound requests := by
  induction schedule generalizing race with
  | nil => exact h
  | cons i schedule ih => exact ih (sound_step h i)

/-- **An entry is never replaced or removed.** -/
theorem lookup_foldl {race : Race ι} {record : Nat} {e : Registered}
    (h : race.registry.lookup record = some e) (schedule : List ι) :
    (schedule.foldl (step requests) race).registry.lookup record = some e := by
  induction schedule generalizing race with
  | nil => exact h
  | cons i schedule ih => exact ih ((race.section_step requests i).lookup_eq_some h)

/-- A request has come at least as far as it had turns. -/
theorem count_le_sections (requests : ι → Request) (schedule : List ι) (i : ι) :
    min 3 (schedule.count i) ≤ ((run requests schedule).progress i).sections := by
  induction schedule using List.reverseRecOn with
  | nil => exact Nat.min_le_right _ _
  | append_singleton schedule j ih =>
    rw [run, List.foldl_append, ← run, List.foldl_cons, List.foldl_nil, List.count_append]
    by_cases hij : i = j
    · subst hij
      have hnext := ((run requests schedule).section_step requests i).sections_le
      rw [List.count_singleton_self]
      omega
    · rw [progress_step_of_ne _ _ hij, List.count_singleton, if_neg (by simpa using Ne.symm hij)]
      exact ih

/-- **Requests for one type agree, however their sections interleave.** They are answered with the
same object, which is the stored one; it was inserted by one of them, for that type, and stays for
good. A type that no request can build has no entry, the entries are as many as the types for
which some request has inserted one, and a request that had its three turns is answered. -/
theorem agreement (requests : ι → Request) (schedule : List ι) :
    let race := run requests schedule
    (∀ i j e e', (race.progress i).answer? = some e → (race.progress j).answer? = some e' →
      (requests i).record = (requests j).record → e = e') ∧
    (∀ i e, (race.progress i).answer? = some e →
      race.registry.lookup (requests i).record = some e) ∧
    (∀ i j e e', (race.progress i).own? = some e → (race.progress j).own? = some e' →
      e.stamp = e'.stamp → i = j) ∧
    (∀ record e, race.registry.lookup record = some e → ∀ further,
      (run requests (schedule ++ further)).registry.lookup record = some e) ∧
    (∀ record e, (record, e) ∈ race.registry.entries → e.record = record ∧
      ∃ i, (requests i).record = record ∧ (requests i).declaration.build = .ok e.schema ∧
        race.progress i = .inserted e) ∧
    (∀ i, race.progress i ≠ .mistyped) ∧
    (∀ record, (∀ i, (requests i).record = record →
      ∃ error, (requests i).declaration.build = .error error) →
        race.registry.contains record = false) ∧
    race.registry.size =
      {record | ∃ i e, (requests i).record = record ∧ race.progress i = .inserted e}.ncard ∧
    ∀ i, 3 ≤ schedule.count i → (∃ e, (race.progress i).answer? = some e) ∨
      ∃ error, race.progress i = .failed error ∧
        (requests i).declaration.build = .error error := by
  intro race
  have hsound : race.Sound requests := sound_foldl (sound_start requests) schedule
  refine ⟨?_, hsound.answer, hsound.distinct, ?_, ?_, hsound.typed, ?_, hsound.size_eq, ?_⟩
  · intro i j e e' he he' hrecord
    have hstored := hsound.answer i e he
    rw [hrecord, hsound.answer j e' he'] at hstored
    exact (Option.some.inj hstored).symm
  · intro record e he further
    rw [run, List.foldl_append]
    exact lookup_foldl he further
  · intro record e he
    obtain ⟨i, hrecord, hi⟩ := hsound.entry record e he
    exact ⟨hsound.record_eq he, i, hrecord, (hsound.own i e (by rw [hi]; rfl)).2.1, hi⟩
  · intro record hfails
    by_contra hstored
    obtain ⟨e, he⟩ := Option.isSome_iff_exists.mp (Bool.not_eq_false _ ▸ hstored)
    obtain ⟨i, hrecord, hi⟩ := hsound.entry record e (mem_of_lookup he)
    obtain ⟨error, herror⟩ := hfails i hrecord
    cases herror.symm.trans (hsound.own i e (by rw [hi]; rfl)).2.1
  · intro i hcount
    have hturns := count_le_sections requests schedule i
    rw [Nat.min_eq_left hcount] at hturns
    obtain he | ⟨error, hi⟩ | hi := Progress.of_three_le_sections hturns
    · exact .inl he
    · exact .inr ⟨error, hi, hsound.failed i error hi⟩
    · exact absurd hi (hsound.typed i)

/-- Two requests for notes, and one for a type whose declaration names no table. -/
def noteRequests : Fin 3 → Request :=
  ![⟨7, .mk "Note" (some "notes") Schema.notes.columns⟩,
    ⟨7, .mk "Note" (some "notes") Schema.notes.columns⟩, ⟨8, .mk "Tag" none []⟩]

/-- Both requests for notes build before one of them inserts, and the one that built first comes
second to the insertion. -/
theorem agreement_notes :
    let race := run noteRequests [0, 1, 2, 0, 1, 2, 1, 0, 2]
    (∃ e, e.schema = .notes ∧ (race.progress 0).answer? = some e ∧
      (race.progress 1).answer? = some e ∧ race.registry.lookup 7 = some e) ∧
    race.progress 2 = .failed (.missingTableName "Tag") ∧ race.registry.contains 8 = false ∧
      race.registry.size = 1 := by
  intro race
  obtain ⟨hagree, hstored, -, -, hentry, -, hfailing, hsize, hturns⟩ :=
    agreement noteRequests [0, 1, 2, 0, 1, 2, 1, 0, 2]
  have hbuild : ∀ i, (noteRequests i).record = 7 →
      (noteRequests i).declaration.build = .ok .notes := fun i hi => by
    fin_cases i
    · exact Schema.build_notes
    · exact Schema.build_notes
    · cases hi
  have hanswered : ∀ i, (noteRequests i).record = 7 →
      3 ≤ [0, 1, 2, 0, 1, 2, 1, 0, 2].count i → ∃ e, (race.progress i).answer? = some e := by
    intro i hi hcount
    refine (hturns i hcount).resolve_right ?_
    rintro ⟨error, -, herror⟩
    cases herror.symm.trans (hbuild i hi)
  obtain ⟨e, he⟩ := hanswered 0 rfl (by decide)
  obtain ⟨e', he'⟩ := hanswered 1 rfl (by decide)
  obtain rfl := hagree 0 1 e e' he he' rfl
  have hlookup := hstored 0 e he
  obtain ⟨-, i, hi, hschema, hinserted⟩ := hentry 7 e (mem_of_lookup hlookup)
  have habsent : race.registry.contains 8 = false := by
    refine hfailing 8 fun i hi => ⟨.missingTableName "Tag", ?_⟩
    fin_cases i
    · cases hi
    · cases hi
    · rfl
  have hfailed : race.progress 2 = .failed (.missingTableName "Tag") := by
    obtain ⟨e', he'⟩ | ⟨error, hfailed, herror⟩ := hturns 2 (by decide)
    · rw [contains, show race.registry.lookup 8 = some e' from hstored 2 e' he'] at habsent
      cases habsent
    · cases herror
      exact hfailed
  have htypes : {record | ∃ i e, (noteRequests i).record = record ∧
      race.progress i = .inserted e} = {7} := by
    refine Set.eq_singleton_iff_unique_mem.mpr ⟨⟨i, e, hi, hinserted⟩, ?_⟩
    rintro _ ⟨j, e', rfl, hj⟩
    fin_cases j
    · rfl
    · rfl
    · cases hfailed.symm.trans hj
  refine ⟨⟨e, Except.ok.inj (hschema.symm.trans (hbuild i hi)), he, he', hlookup⟩, hfailed,
    habsent, ?_⟩
  rw [hsize, htypes, Set.ncard_singleton]

end Race

end Registry

end SqlRecord
