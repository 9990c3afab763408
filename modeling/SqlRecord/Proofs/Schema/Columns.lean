import SqlRecord.Proofs.Schema.Resolve

/-!
# Columns of a built schema

A column of a well-formed schema is found by its name in any case
(`Schema.WellFormed.positionOf_eq_some_iff`). Fields resolve to columns that map them and are all
different (`Schema.resolve_spec`), and the columns that a command assigns are all different, too
(`Schema.writable_spec`). Where no two columns map one field, the fields of columns resolve to these
columns (`Schema.resolve_map_field`).
-/

namespace SqlRecord

namespace Schema

variable {s : Schema}

/-! ### Names -/

theorem WellFormed.column_valid (hs : s.WellFormed) (i : s.Index) :
    Identifier.isValid (s.column i).name = true :=
  hs.name_valid _ (List.get_mem _ _)

theorem sameName_self (name : String) : sameName name name = true := by simp [sameName]

theorem sameName_comm (a b : String) : sameName a b = sameName b a := by
  rw [sameName, sameName, Bool.beq_comm]

/-- Columns with one name, in any case, are the same. -/
theorem WellFormed.eq_of_sameName (hs : s.WellFormed) {i j : s.Index}
    (h : sameName (s.column i).name (s.column j).name = true) : i = j := by
  have hlt : ∀ i j : s.Index, i < j → sameName (s.column i).name (s.column j).name = false :=
    List.pairwise_iff_get.mp hs.names_distinct
  rcases lt_trichotomy i j with hij | hij | hij
  · exact Bool.noConfusion (h.symm.trans (hlt i j hij))
  · exact hij
  · rw [sameName_comm] at h
    exact Bool.noConfusion (h.symm.trans (hlt j i hij))

/-- Columns of a built schema have different names. -/
theorem WellFormed.name_injective (hs : s.WellFormed) :
    Function.Injective fun i : s.Index => (s.column i).name := by
  intro i j hname
  dsimp only at hname
  exact hs.eq_of_sameName (by rw [hname, sameName_self])

/-- A name stands for the one column that has it, in any case. -/
theorem WellFormed.positionOf_eq_some_iff (hs : s.WellFormed) {name : String} {i : s.Index} :
    s.positionOf name = some i ↔ sameName (s.column i).name name = true := by
  rw [positionOf, List.findFinIdx?_eq_some_iff]
  refine ⟨And.left, fun h => ⟨h, fun j hj hsame => ?_⟩⟩
  have hsame : foldCase (s.column j).name = foldCase name := eq_of_beq hsame
  refine hj.ne (hs.eq_of_sameName ?_)
  rw [sameName, hsame]
  exact (sameName_comm _ _).trans h

/-- A column of a built schema is found by its name. -/
theorem WellFormed.positionOf_name (hs : s.WellFormed) (i : s.Index) :
    s.positionOf (s.column i).name = some i :=
  hs.positionOf_eq_some_iff.mpr (sameName_self _)

/-! ### Lists of fields -/

/-- Fields resolve to columns that map them, all different, and there is one at least. -/
theorem resolve_spec {fields : List String} {columns : List s.Index}
    (h : s.resolve fields = .ok columns) :
    columns.Nodup ∧ columns ≠ [] ∧ columns.map (fun i => (s.column i).field) = fields := by
  obtain ⟨hne, hnodup, rfl, -⟩ := resolve_eq_ok_iff.mp h
  exact ⟨hnodup.of_map _, fun hnil => hne (congrArg _ hnil), rfl⟩

/-- The columns that a command assigns are all different and not generated. They are all such
columns, or those that map the fields. -/
theorem writable_spec {fields : Option (List String)} {columns : List s.Index}
    (h : s.writable fields = .ok columns) :
    columns.Nodup ∧ (∀ i ∈ columns, (s.column i).isAutoincrement = false) ∧
      (fields = none → columns = s.indices.filter fun i => !(s.column i).isAutoincrement) ∧
      ∀ names, fields = some names →
        columns ≠ [] ∧ columns.map (fun i => (s.column i).field) = names := by
  cases fields with
  | none =>
    cases h
    exact ⟨(List.nodup_finRange _).filter _, fun i hi => by simpa using List.of_mem_filter hi,
      fun _ => rfl, nofun⟩
  | some fields =>
    obtain ⟨hresolve, hwritable⟩ := writable_eq_ok_iff.mp h
    obtain ⟨hnodup, hfields⟩ := resolve_spec hresolve
    refine ⟨hnodup, hwritable, nofun, ?_⟩
    rintro _ ⟨⟩
    exact hfields

/-! ### Fields of columns -/

/-- Where columns have different fields, each one is told by its field. -/
theorem field_injective (hfields : (s.columns.map Column.field).Nodup) :
    Function.Injective fun i : s.Index => (s.column i).field := by
  intro i j hij
  have hcolumn : s.columns.get i = s.columns.get j :=
    List.inj_on_of_nodup_map hfields (List.get_mem _ i) (List.get_mem _ j) hij
  exact List.nodup_iff_injective_get.mp (hfields.of_map _) hcolumn

/-- The fields of different columns resolve to these columns. -/
theorem resolve_map_field (hfields : (s.columns.map Column.field).Nodup) {columns : List s.Index}
    (hne : columns ≠ []) (hnodup : columns.Nodup) :
    s.resolve (columns.map fun i => (s.column i).field) = .ok columns := by
  have hinjective := field_injective hfields
  exact resolve_eq_ok_iff.mpr ⟨by simpa using hne, hnodup.map hinjective, rfl,
    fun i _ j hj hfield => hj.ne (hinjective hfield)⟩

/-- The fields of different columns may be assigned if none of the columns is generated. -/
theorem writable_map_field (hfields : (s.columns.map Column.field).Nodup) {columns : List s.Index}
    (hne : columns ≠ []) (hnodup : columns.Nodup)
    (hwritable : ∀ i ∈ columns, (s.column i).isAutoincrement = false) :
    s.writable (some (columns.map fun i => (s.column i).field)) = .ok columns :=
  writable_eq_ok_iff.mpr ⟨resolve_map_field hfields hne hnodup, hwritable⟩

end Schema

end SqlRecord
