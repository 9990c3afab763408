import SqlRecord.Registry

/-!
# Registered schemas

What a registry holds after requests that come one after the other: every entry is what the
declaration of its record type builds, and so is every answer. Main statement:
`Registry.Faithful.getOrBuild`.
-/

namespace SqlRecord

namespace Registry

theorem mem_of_lookup {r : Registry} {record : Nat} {e : Registered}
    (h : r.lookup record = some e) : (record, e) ∈ r.entries := by
  obtain ⟨before, after, hentries, -⟩ := List.lookup_eq_some_iff.mp h
  rw [hentries]
  exact List.mem_append_right _ List.mem_cons_self

/-- An appended entry is found only where none was before it. -/
theorem lookup_append (r : Registry) (built record : Nat) (e : Registered) (other : Nat) :
    (Registry.mk (r.entries ++ [(record, e)]) built).lookup other =
      (r.lookup other).or (if other = record then some e else none) := by
  rw [lookup, List.lookup_append, ← lookup, List.lookup_cons, List.lookup_nil]
  by_cases heq : other = record
  · rw [beq_iff_eq.mpr heq, if_pos heq]
  · rw [beq_eq_false_iff_ne.mpr heq, if_neg heq]

variable {records : Nat → Declaration}

/-- Every entry is what the declaration of its record type builds. -/
def Faithful (records : Nat → Declaration) (r : Registry) : Prop :=
  ∀ record found, r.lookup record = some found → (records record).build = .ok found.schema

theorem faithful_empty : empty.Faithful records := fun _ _ h => nomatch h

/-- **A request gets what the declaration builds**, now or earlier. -/
theorem Faithful.getOrBuild {r : Registry} (h : r.Faithful records) (record : Nat) :
    (r.getOrBuild record (records record)).1.map Registered.schema = (records record).build ∧
      (r.getOrBuild record (records record)).2.Faithful records := by
  rw [Registry.getOrBuild, getOrBuildWith]
  cases hlookup : r.lookup record with
  | some stored => exact ⟨(h record stored hlookup).symm, h⟩
  | none =>
    cases hbuild : (records record).build with
    | error e =>
      simp only [build, hbuild]
      exact ⟨rfl, h⟩
    | ok s =>
      have hstill : ({ r with built := r.built + 1 } : Registry).lookup record = none := hlookup
      simp only [build, hbuild, publish, hstill]
      refine ⟨rfl, fun other found hfound => ?_⟩
      rw [lookup_append, Option.or_eq_some_iff] at hfound
      obtain hfound | ⟨-, hnew⟩ := hfound
      · exact h other found hfound
      · obtain ⟨rfl, hnew⟩ := Option.ite_none_right_eq_some.mp hnew
        cases hnew
        exact hbuild

end Registry

end SqlRecord
