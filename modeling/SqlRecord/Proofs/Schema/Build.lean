import SqlRecord.Record.Basic
import SqlRecord.Schema.Build
import Mathlib

/-!
# Built schemas

What checking a declaration guarantees (`Schema.WellFormed`): valid names, no two columns with one
name in any case, and constraints that can be written. Main statement:
`Declaration.build_wellFormed`.
-/

namespace SqlRecord

/-- The schemas without problems: names are valid, columns have distinct names, and constraints can
be written. -/
structure Schema.WellFormed (s : Schema) : Prop where
  table_valid : Identifier.isValid s.table = true
  columns_ne_nil : s.columns ≠ []
  name_valid : ∀ c ∈ s.columns, Identifier.isValid c.name = true
  names_distinct : s.columns.Pairwise fun c d => sameName c.name d.name = false
  constraints : ∀ c ∈ s.columns, ∀ k ∈ c.constraints, s.constraintProblems c k = []

namespace Schema

variable (s : Schema)

/-- Columns without problems, after columns whose names were seen. -/
theorem wellFormed_of_columnsProblems {seen : List (List Char)} {keyed : Bool} {cs : List Column}
    (h : s.columnsProblems seen keyed cs = []) :
    (∀ c ∈ cs, Identifier.isValid c.name = true ∧ foldCase c.name ∉ seen ∧
        ∀ k ∈ c.constraints, s.constraintProblems c k = []) ∧
      cs.Pairwise fun c d => sameName c.name d.name = false := by
  induction cs generalizing seen keyed with
  | nil => simp
  | cons c cs ih =>
    rw [columnsProblems] at h
    split_ifs at h with hvalid hseen
    obtain ⟨hc, hcs⟩ := List.append_eq_nil_iff.mp h
    obtain ⟨hall, hdistinct⟩ := ih hcs
    rw [Bool.not_eq_true, Bool.not_eq_false'] at hvalid
    have hseen : foldCase c.name ∉ seen := by simpa using hseen
    have hconstraints : ∀ k ∈ c.constraints, s.constraintProblems c k = [] :=
      List.flatMap_eq_nil_iff.mp (List.append_eq_nil_iff.mp hc).2
    refine ⟨List.forall_mem_cons.mpr ⟨⟨hvalid, hseen, hconstraints⟩, ?_⟩,
      List.pairwise_cons.mpr ⟨?_, hdistinct⟩⟩
    · intro d hd
      obtain ⟨hdvalid, hdseen, hdconstraints⟩ := hall d hd
      exact ⟨hdvalid, fun hmem => hdseen (List.mem_cons_of_mem _ hmem), hdconstraints⟩
    -- later columns do not have the name of this one, which they know as seen
    · intro d hd
      rw [sameName, beq_eq_false_iff_ne]
      intro hsame
      exact (hall d hd).2.1 (by rw [← hsame]; exact List.mem_cons_self)

/-- A schema in which no problem is found is well-formed: each check is read as what it asks. -/
theorem wellFormed_of_problems (h : s.problems = []) : s.WellFormed := by
  rw [problems] at h
  split_ifs at h with htable hcolumns
  obtain ⟨hall, hdistinct⟩ := s.wellFormed_of_columnsProblems h
  exact {
    table_valid := by simpa using htable
    columns_ne_nil := by simpa using hcolumns
    name_valid := fun c hc => (hall c hc).1
    names_distinct := hdistinct
    constraints := fun c hc => (hall c hc).2.2 }

end Schema

/-- **A schema that is built is well-formed.** -/
theorem Declaration.build_wellFormed {d : Declaration} {s : Schema} (h : d.build = .ok s) :
    s.WellFormed := by
  rw [build] at h
  split at h
  · cases h
  · next table _ =>
    dsimp only at h
    split at h
    next hproblems =>
      cases h
      exact Schema.wellFormed_of_problems _ hproblems
    next => cases h

/-- A schema whose declaration has no problems is what the declaration builds. -/
theorem Declaration.build_of_problems {record table : String} {columns : List Column}
    (h : (Schema.mk record table columns).problems = []) :
    (Declaration.mk record (some table) columns).build = .ok ⟨record, table, columns⟩ := by
  rw [build]
  dsimp only
  rw [h]

/-! ### A table of notes -/

/-- A schema with a column of each kind: a generated key, a text whose default needs quotes, a real
with a condition, and a payload. -/
def Schema.notes : Schema where
  record := "Note"
  table := "notes"
  columns :=
    [⟨"id", "key", .plain (.integer .int64), [.primaryKey, .autoincrement]⟩,
      ⟨"title", "title", .plain .string, [.notNull, .default (.text "it's, (new)")]⟩,
      ⟨"weight", "weight", .optional .float64,
        [.check (.binary .ne (.column "weight") (.literal .null))]⟩,
      ⟨"body", "body", .optional (.payload .bytes), []⟩]

theorem Schema.build_notes :
    (Declaration.mk notes.record (some notes.table) notes.columns).build = .ok notes :=
  Declaration.build_of_problems (by decide +kernel)

/-- A note with a title and a payload. -/
def Record.note (title : String) (body : Option PayloadType.bytes.Carrier) : Record .notes :=
  ((Record.default .notes).set ⟨1, by decide⟩ title).set ⟨3, by decide⟩ body

end SqlRecord
