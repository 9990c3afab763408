import SqlRecord.Proofs.Schema.Build

/-!
# Which lists of fields resolve

A list of fields resolves if it is not empty, names only fields that a column maps, and none of them
twice (`Schema.Resolvable`). The columns are then the first ones that map the fields, in the order
of the list. Any other list fails at the first field that cannot come after those before it
(`Schema.FailsAt`). Generated columns are looked for only when the whole list has been resolved.
Main statement: `Schema.resolve_writable_iff`.
-/

namespace SqlRecord

namespace Schema

variable {s : Schema}

/-! ### Single fields -/

/-- Whether a column maps a field. -/
def Maps (s : Schema) (field : String) : Prop := ∃ c ∈ s.columns, c.field = field

instance (field : String) : Decidable (s.Maps field) := inferInstanceAs (Decidable (∃ _ ∈ _, _))

/-- Whether a column is the first one that maps its field. -/
def IsFirst (s : Schema) (i : s.Index) : Prop := ∀ j < i, (s.column j).field ≠ (s.column i).field

/-- A field has the first column that maps it. -/
theorem indexOf?_eq_some_iff {field : String} {i : s.Index} :
    s.indexOf? field = some i ↔ (s.column i).field = field ∧ s.IsFirst i := by
  rw [indexOf?, List.findFinIdx?_eq_some_iff]
  constructor
  · rintro ⟨hfield, hfirst⟩
    have hfield : (s.column i).field = field := eq_of_beq hfield
    exact ⟨hfield, fun j hj heq => hfirst j hj (beq_iff_eq.mpr (heq.trans hfield))⟩
  · rintro ⟨rfl, hfirst⟩
    exact ⟨beq_self_eq_true _, fun j hj heq => hfirst j hj (eq_of_beq heq)⟩

theorem indexOf?_eq_none_iff {field : String} : s.indexOf? field = none ↔ ¬s.Maps field := by
  simp [indexOf?, List.findFinIdx?_eq_none_iff, Maps]

/-- The first column that maps a field is the one it resolves to. -/
theorem indexOf_of_isFirst {i : s.Index} (hi : s.IsFirst i) :
    s.indexOf (s.column i).field = .ok i := by
  rw [indexOf, indexOf?_eq_some_iff.mpr ⟨rfl, hi⟩]

/-- A field that no column maps is refused with its name. -/
theorem indexOf_of_not_maps {field : String} (h : ¬s.Maps field) :
    s.indexOf field = .error (.unmappedField s.table field) := by
  rw [indexOf, indexOf?_eq_none_iff.mpr h]

/-- A field that is mapped has a first column. -/
theorem Maps.exists_isFirst {field : String} (h : s.Maps field) :
    ∃ i, (s.column i).field = field ∧ s.IsFirst i := by
  cases hfind : s.indexOf? field with
  | some i => exact ⟨i, indexOf?_eq_some_iff.mp hfind⟩
  | none => exact absurd h (indexOf?_eq_none_iff.mp hfind)

/-! ### Lists of fields -/

/-- Whether every field of a list is mapped and none is named twice. -/
structure Resolvable (s : Schema) (fields : List String) : Prop where
  mapped : ∀ field ∈ fields, s.Maps field
  distinct : fields.Nodup

/-- The error of a field that cannot come after others: no column maps it, or it is one of them. -/
inductive FailsAt (s : Schema) (before : List String) (field : String) : SchemaError → Prop
  | unmapped (h : ¬s.Maps field) : FailsAt s before field (.unmappedField s.table field)
  | repeated {i : s.Index} (hfield : (s.column i).field = field) (hi : s.IsFirst i)
      (hmem : field ∈ before) : FailsAt s before field (.duplicateColumn s.table (s.column i).name)

/-- A list of fields resolves up to its last one, which must be mapped and new. -/
theorem resolvable_concat {fields : List String} {field : String} :
    s.Resolvable (fields ++ [field]) ↔ s.Resolvable fields ∧ s.Maps field ∧ field ∉ fields := by
  constructor
  · rintro ⟨hmapped, hdistinct⟩
    obtain ⟨hfields, hfield⟩ := List.forall_mem_append.mp hmapped
    rw [← List.concat_eq_append, List.nodup_concat] at hdistinct
    exact ⟨⟨hfields, hdistinct.2⟩, hfield _ (List.mem_singleton_self _), hdistinct.1⟩
  · rintro ⟨⟨hmapped, hdistinct⟩, hfield, hnew⟩
    refine ⟨List.forall_mem_append.mpr ⟨hmapped, List.forall_mem_singleton.mpr hfield⟩, ?_⟩
    rw [← List.concat_eq_append, List.nodup_concat]
    exact ⟨hnew, hdistinct⟩

/-- A list that does not resolve has a first field that is refused. -/
theorem exists_failsAt {fields : List String} (h : ¬s.Resolvable fields) :
    ∃ before field after e, fields = before ++ field :: after ∧ s.Resolvable before ∧
      s.FailsAt before field e := by
  induction fields using List.reverseRecOn with
  | nil => exact absurd ⟨nofun, List.nodup_nil⟩ h
  | append_singleton fields field ih =>
    by_cases hfields : s.Resolvable fields
    · have hfails : ∃ e, s.FailsAt fields field e := by
        by_cases hfield : s.Maps field
        · obtain ⟨i, hi, hfirst⟩ := hfield.exists_isFirst
          have hmem : field ∈ fields := by
            by_contra hnew
            exact h (resolvable_concat.mpr ⟨hfields, hfield, hnew⟩)
          exact ⟨_, .repeated hi hfirst hmem⟩
        · exact ⟨_, .unmapped hfield⟩
      obtain ⟨e, he⟩ := hfails
      exact ⟨fields, field, [], e, rfl, hfields, he⟩
    · obtain ⟨before, field', after, e, rfl, hrest⟩ := ih hfields
      exact ⟨before, field', after ++ [field], e, by simp, hrest⟩

/-- A resolvable list has columns: the first ones that map its fields. -/
theorem Resolvable.exists_columns {fields : List String} (h : s.Resolvable fields) :
    ∃ columns : List s.Index, columns.map (fun i => (s.column i).field) = fields ∧
      ∀ i ∈ columns, s.IsFirst i := by
  have hmapped := h.mapped
  clear h
  induction fields with
  | nil => exact ⟨[], rfl, nofun⟩
  | cons field fields ih =>
    obtain ⟨hfield, hfields⟩ := List.forall_mem_cons.mp hmapped
    obtain ⟨i, hi, hfirst⟩ := hfield.exists_isFirst
    obtain ⟨columns, hcolumns, hfirsts⟩ := ih hfields
    exact ⟨i :: columns, congrArg₂ _ hi hcolumns, List.forall_mem_cons.mpr ⟨hfirst, hfirsts⟩⟩

/-! ### Resolving -/

section

variable {done : List s.Index} {i : s.Index} {fields : List String}

/-- A mapped field that was not named before adds its column. -/
theorem resolveAfter_cons_new (hi : s.IsFirst i)
    (hnew : ∀ j ∈ done, (s.column j).field ≠ (s.column i).field) :
    s.resolveAfter done ((s.column i).field :: fields) = s.resolveAfter (i :: done) fields := by
  have hany : ¬(done.any fun j => (s.column j).field == (s.column i).field) = true := by
    simpa using hnew
  rw [resolveAfter, indexOf_of_isFirst hi]
  exact if_neg hany

/-- A field that is refused ends the resolving with its error. -/
theorem resolveAfter_cons_failsAt {field : String} {e : SchemaError}
    (h : s.FailsAt (done.map fun j => (s.column j).field) field e) :
    s.resolveAfter done (field :: fields) = .error e := by
  cases h with
  | unmapped h => rw [resolveAfter, indexOf_of_not_maps h]
  | repeated hfield hi hmem =>
    subst hfield
    rw [resolveAfter, indexOf_of_isFirst hi]
    exact if_pos (by simpa using hmem)

/-- **Resolving finds the columns of fields that were not named before and goes on.** -/
theorem resolveAfter_append {columns : List s.Index} {rest : List String}
    (hfirst : ∀ i ∈ columns, s.IsFirst i)
    (hnodup : ((done.reverse ++ columns).map fun i => (s.column i).field).Nodup) :
    s.resolveAfter done (columns.map (fun i => (s.column i).field) ++ rest) =
      s.resolveAfter (columns.reverse ++ done) rest := by
  -- induction on the columns, each of which is moved to those that were found
  induction columns generalizing done with
  | nil => rfl
  | cons i columns ih =>
    obtain ⟨hi, hfirst⟩ := List.forall_mem_cons.mp hfirst
    have hmoved : (i :: done).reverse ++ columns = done.reverse ++ i :: columns := by simp
    have hnew : ∀ j ∈ done, (s.column j).field ≠ (s.column i).field := by
      rw [List.map_append, List.nodup_append] at hnodup
      exact fun j hj => hnodup.2.2 _ (List.mem_map_of_mem (List.mem_reverse.mpr hj)) _
        List.mem_cons_self
    rw [List.map_cons, List.cons_append, resolveAfter_cons_new hi hnew,
      ih hfirst (hmoved ▸ hnodup), List.reverse_cons, List.append_assoc]
    rfl

/-- Columns that come first for different fields resolve from these, and the rest goes on after
them. -/
theorem resolveAfter_nil_append {columns : List s.Index} {rest : List String}
    (hfirst : ∀ i ∈ columns, s.IsFirst i)
    (hnodup : (columns.map fun i => (s.column i).field).Nodup) :
    s.resolveAfter [] (columns.map (fun i => (s.column i).field) ++ rest) =
      s.resolveAfter columns.reverse rest := by
  rw [resolveAfter_append hfirst (by simpa using hnodup), List.append_nil]

end

variable {fields : List String}

theorem resolve_of_ne_nil (h : fields ≠ []) : s.resolve fields = s.resolveAfter [] fields := by
  rw [resolve, if_neg (by simpa using h)]

/-- The first columns of different fields are what the fields resolve to. -/
theorem resolve_of_isFirst {columns : List s.Index} (hne : fields ≠ [])
    (hfields : columns.map (fun i => (s.column i).field) = fields) (hnodup : fields.Nodup)
    (hfirst : ∀ i ∈ columns, s.IsFirst i) : s.resolve fields = .ok columns := by
  subst hfields
  rw [resolve_of_ne_nil hne, ← List.append_nil (columns.map _),
    resolveAfter_nil_append hfirst hnodup, resolveAfter, List.reverse_reverse]

/-- The first field that is refused is the error of its list. -/
theorem resolve_of_failsAt {before after : List String} {field : String} {e : SchemaError}
    (hbefore : s.Resolvable before) (h : s.FailsAt before field e) :
    s.resolve (before ++ field :: after) = .error e := by
  obtain ⟨columns, rfl, hfirst⟩ := hbefore.exists_columns
  rw [resolve_of_ne_nil (by simp), resolveAfter_nil_append hfirst hbefore.distinct]
  refine resolveAfter_cons_failsAt ?_
  cases h with
  | unmapped h => exact .unmapped h
  | repeated hfield hi hmem => exact .repeated hfield hi (by simpa using hmem)

/-- Fields resolve to columns exactly if there are fields, all different, and the columns are the
first to map them. -/
theorem resolve_eq_ok_iff {columns : List s.Index} :
    s.resolve fields = .ok columns ↔ fields ≠ [] ∧ fields.Nodup ∧
      columns.map (fun i => (s.column i).field) = fields ∧ ∀ i ∈ columns, s.IsFirst i := by
  constructor
  · intro h
    have hne : fields ≠ [] := by
      rintro rfl
      cases h
    by_cases hfields : s.Resolvable fields
    · obtain ⟨columns', hcolumns, hfirst⟩ := hfields.exists_columns
      cases h.symm.trans (resolve_of_isFirst hne hcolumns hfields.distinct hfirst)
      exact ⟨hne, hfields.distinct, hcolumns, hfirst⟩
    · obtain ⟨before, field, after, e, rfl, hbefore, hfails⟩ := exists_failsAt hfields
      cases h.symm.trans (resolve_of_failsAt hbefore hfails)
  · rintro ⟨hne, hnodup, hcolumns, hfirst⟩
    exact resolve_of_isFirst hne hcolumns hnodup hfirst

/-- A list resolves exactly if it is not empty and each of its fields is mapped and new. -/
theorem exists_resolve_iff :
    (∃ columns, s.resolve fields = .ok columns) ↔ fields ≠ [] ∧ s.Resolvable fields := by
  constructor
  · rintro ⟨columns, h⟩
    obtain ⟨hne, hnodup, rfl, -⟩ := resolve_eq_ok_iff.mp h
    refine ⟨hne, fun field hfield => ?_, hnodup⟩
    obtain ⟨i, -, hi⟩ := List.mem_map.mp hfield
    exact ⟨s.column i, List.get_mem _ _, hi⟩
  · rintro ⟨hne, hfields⟩
    obtain ⟨columns, hcolumns, hfirst⟩ := hfields.exists_columns
    exact ⟨columns, resolve_of_isFirst hne hcolumns hfields.distinct hfirst⟩

/-- A list fails exactly if it is empty, or at its first field that is not mapped or not new. -/
theorem resolve_eq_error_iff {e : SchemaError} :
    s.resolve fields = .error e ↔ fields = [] ∧ e = .emptyFieldList s.table ∨
      ∃ before field after, fields = before ++ field :: after ∧ s.Resolvable before ∧
        s.FailsAt before field e := by
  constructor
  · intro h
    by_cases hne : fields = []
    · subst hne
      cases h
      exact .inl ⟨rfl, rfl⟩
    · have hfields : ¬s.Resolvable fields := fun hfields => by
        obtain ⟨columns, hok⟩ := exists_resolve_iff.mpr ⟨hne, hfields⟩
        cases h.symm.trans hok
      obtain ⟨before, field, after, e', rfl, hbefore, hfails⟩ := exists_failsAt hfields
      cases h.symm.trans (resolve_of_failsAt hbefore hfails)
      exact .inr ⟨before, field, after, rfl, hbefore, hfails⟩
  · rintro (⟨rfl, rfl⟩ | ⟨before, field, after, rfl, hbefore, hfails⟩)
    · rfl
    · exact resolve_of_failsAt hbefore hfails

/-! ### Columns to write -/

/-- Fields are writable exactly if they resolve to columns none of which is generated. -/
theorem writable_eq_ok_iff {columns : List s.Index} :
    s.writable (some fields) = .ok columns ↔
      s.resolve fields = .ok columns ∧ ∀ i ∈ columns, (s.column i).isAutoincrement = false := by
  rw [writable]
  cases s.resolve fields with
  | error e => exact iff_of_false nofun fun h => nomatch h.1
  | ok resolved =>
    dsimp only
    cases hfind : resolved.find? fun i => (s.column i).isAutoincrement with
    | none =>
      have hwritable : ∀ i ∈ resolved, (s.column i).isAutoincrement = false := by simpa using hfind
      refine ⟨fun h => ⟨h, ?_⟩, And.left⟩
      cases h
      exact hwritable
    | some i =>
      refine iff_of_false nofun ?_
      rintro ⟨⟨⟩, hwritable⟩
      have hi := List.find?_some hfind
      exact Bool.noConfusion (hi.symm.trans (hwritable i (List.mem_of_find?_eq_some hfind)))

/-- A list that does not resolve has that error, also if it names a generated column; and a list
that does has the error of the first generated column. -/
theorem writable_eq_error_iff {e : SchemaError} :
    s.writable (some fields) = .error e ↔ s.resolve fields = .error e ∨
      ∃ before i after, s.resolve fields = .ok (before ++ i :: after) ∧
        (∀ j ∈ before, (s.column j).isAutoincrement = false) ∧
        (s.column i).isAutoincrement = true ∧ e = .immutableColumn s.table (s.column i).name := by
  have hfirst : ∀ {columns : List s.Index} {i : s.Index},
      columns.find? (fun i => (s.column i).isAutoincrement) = some i ↔
        ∃ before after, columns = before ++ i :: after ∧
          (∀ j ∈ before, (s.column j).isAutoincrement = false) ∧
          (s.column i).isAutoincrement = true := by
    intro columns i
    rw [List.find?_eq_some_iff_append]
    simp only [Bool.not_eq_true']
    tauto
  rw [writable]
  cases s.resolve fields with
  | error e' => simp
  | ok resolved =>
    dsimp only
    cases hfind : resolved.find? fun i => (s.column i).isAutoincrement with
    | none =>
      refine iff_of_false nofun ?_
      rintro (h | ⟨before, i, after, h, hbefore, hi, -⟩)
      · cases h
      · cases hfind.symm.trans (hfirst.mpr ⟨before, after, Except.ok.inj h, hbefore, hi⟩)
    | some i =>
      constructor
      · rintro ⟨⟩
        obtain ⟨before, after, rfl, hbefore, hi⟩ := hfirst.mp hfind
        exact .inr ⟨before, i, after, rfl, hbefore, hi, rfl⟩
      · rintro (h | ⟨before, i', after, h, hbefore, hi, rfl⟩)
        · cases h
        · cases hfind.symm.trans (hfirst.mpr ⟨before, after, Except.ok.inj h, hbefore, hi⟩)
          rfl

/-- Without fields, the writable columns are all that are not generated, in their order. -/
theorem writable_none_eq_ok_iff {columns : List s.Index} :
    s.writable none = .ok columns ↔ columns.Pairwise (· < ·) ∧
      ∀ i, i ∈ columns ↔ (s.column i).isAutoincrement = false := by
  have hordered : (s.indices.filter fun i => !(s.column i).isAutoincrement).Pairwise (· < ·) :=
    (List.pairwise_lt_finRange _).filter _
  have hmem : ∀ i, i ∈ s.indices.filter (fun i => !(s.column i).isAutoincrement) ↔
      (s.column i).isAutoincrement = false := by
    simp [indices]
  rw [writable, Except.ok.injEq]
  constructor
  · rintro rfl
    exact ⟨hordered, hmem⟩
  · rintro ⟨hcolumns, hmem'⟩
    exact hordered.eq_of_mem_iff hcolumns fun i => (hmem i).trans (hmem' i).symm

/-- **Which lists of fields resolve and may be written.** A list resolves if and only if it is not
empty, each of its fields is mapped and none is named twice, and then to the first columns that map
its fields, in its order. The error of any other list is that of its first field that no column maps
or that was named before. A list may be written if it resolves to columns of which none is
generated; the error is that of resolving where there is one, else that of the first generated
column in the list. Without a list all columns that are not generated may be written, in the order
of their declaration. -/
theorem resolve_writable_iff (s : Schema) (fields : List String) :
    ((∃ columns, s.resolve fields = .ok columns) ↔ fields ≠ [] ∧ s.Resolvable fields) ∧
    (∀ columns, s.resolve fields = .ok columns ↔ fields ≠ [] ∧ fields.Nodup ∧
      columns.map (fun i => (s.column i).field) = fields ∧ ∀ i ∈ columns, s.IsFirst i) ∧
    (∀ e, s.resolve fields = .error e ↔ fields = [] ∧ e = .emptyFieldList s.table ∨
      ∃ before field after, fields = before ++ field :: after ∧ s.Resolvable before ∧
        s.FailsAt before field e) ∧
    (∀ columns, s.writable (some fields) = .ok columns ↔
      s.resolve fields = .ok columns ∧ ∀ i ∈ columns, (s.column i).isAutoincrement = false) ∧
    (∀ e, s.writable (some fields) = .error e ↔ s.resolve fields = .error e ∨
      ∃ before i after, s.resolve fields = .ok (before ++ i :: after) ∧
        (∀ j ∈ before, (s.column j).isAutoincrement = false) ∧
        (s.column i).isAutoincrement = true ∧ e = .immutableColumn s.table (s.column i).name) ∧
    ∀ columns, s.writable none = .ok columns ↔ columns.Pairwise (· < ·) ∧
      ∀ i, i ∈ columns ↔ (s.column i).isAutoincrement = false :=
  ⟨exists_resolve_iff, fun _ => resolve_eq_ok_iff, fun _ => resolve_eq_error_iff,
    fun _ => writable_eq_ok_iff, fun _ => writable_eq_error_iff, fun _ => writable_none_eq_ok_iff⟩

/-- A field named twice before one that no column maps, and a generated column before such a field
and alone. -/
example :
    Schema.notes.resolve ["title", "key", "title", "none"] =
        .error (.duplicateColumn "notes" "title") ∧
      Schema.notes.writable (some ["key", "none"]) = .error (.unmappedField "notes" "none") ∧
      Schema.notes.writable (some ["title", "key"]) = .error (.immutableColumn "notes" "id") := by
  decide +kernel

end Schema

end SqlRecord
