import SqlRecord.Store.Engine
import Mathlib

/-!
# Binding parameters

Parameters are bound if each has a name of its own that is the name of a placeholder
(`Store.exists_bind`); each placeholder then stands for the value of its parameter.
-/

namespace SqlRecord

namespace Store

/-- A placeholder that can be bound: one with a name, without a NUL in it. -/
def IsBindable (name : String) : Prop := name.contains (Char.ofNat 0) = false ∧ name ≠ "?"

/-- The names of parameters with the cells they stand for, the last one first. -/
def bindings (params : List Parameter) : List (String × Cell) :=
  (params.map fun p => (p.name, Cell.ofValue p.value)).reverse

/-- Parameters that are bindable and named by placeholders are bound one after the other, the last
one in front. -/
theorem bind_foldlM {placeholders : List String} {params : List Parameter}
    (hparams : ∀ p ∈ params, IsBindable p.name ∧ p.name ∈ placeholders)
    (bound : List (String × Cell)) :
    params.foldlM (fun bound p =>
        if p.name.contains (Char.ofNat 0) then throw .engine
        else if p.name == "?" || !placeholders.contains p.name then
          throw (.unboundParameter p.name)
        else return (p.name, Cell.ofValue p.value) :: bound) bound =
      (.ok (bindings params ++ bound) : Except DatabaseError (List (String × Cell))) := by
  induction params generalizing bound with
  | nil => rfl
  | cons p params ih =>
    obtain ⟨⟨⟨hnul, hmark⟩, hmem⟩, hrest⟩ := List.forall_mem_cons.mp hparams
    rw [List.foldlM_cons, if_neg (by rw [hnul]; decide), if_neg (by simp [hmark, hmem])]
    refine (ih hrest _).trans ?_
    simp [bindings]

/-- A parameter whose name is that of no other is found by it. -/
theorem lookup_bindings {params : List Parameter} (hnodup : (params.map Parameter.name).Nodup)
    {p : Parameter} (hp : p ∈ params) :
    (bindings params).lookup p.name = some (Cell.ofValue p.value) := by
  obtain ⟨before, after, rfl⟩ := List.mem_iff_append.mp hp
  rw [List.map_append, List.map_cons] at hnodup
  -- in reverse, the parameters after this one come first, under other names
  have hafter : p.name ∉ after.map Parameter.name :=
    (List.nodup_cons.mp (List.nodup_append.mp hnodup).2.1).1
  refine List.lookup_eq_some_iff.mpr ⟨bindings after, bindings before, by simp [bindings], ?_⟩
  intro q hq
  simp only [bindings, List.mem_reverse, List.mem_map] at hq
  obtain ⟨r, hr, rfl⟩ := hq
  refine bne_iff_ne.mpr fun hname => hafter ?_
  rw [hname]
  exact List.mem_map_of_mem hr

/-- **Parameters with names of their own are bound**, if each name is that of a placeholder. -/
theorem exists_bind {params : List Parameter} {placeholders : List String}
    (hparams : ∀ p ∈ params, IsBindable p.name ∧ p.name ∈ placeholders)
    (hnodup : (params.map Parameter.name).Nodup) :
    ∃ f, bind placeholders params = .ok f ∧ ∀ p ∈ params, f p.name = Cell.ofValue p.value := by
  refine ⟨fun name => ((bindings params).lookup name).getD .null, ?_, fun p hp => ?_⟩
  · rw [bind, bind_foldlM hparams, List.append_nil]
    rfl
  · dsimp only
    rw [lookup_bindings hnodup hp, Option.getD_some]

end Store

end SqlRecord
