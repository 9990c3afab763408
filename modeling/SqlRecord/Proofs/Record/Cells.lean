import SqlRecord.Proofs.Record.Rows

/-!
# Which cells a record holds

A row is a list of cells next to the names of the result's columns. A pair of them assigns a column
if its name maps to the column and its cell is not `NULL`; the others are skipped. A row decodes if
and only if every cell that is assigned does, overwritten ones included, and then each column holds
what its last cell decodes to. So only the order among the cells of one column matters. Main
statement: `Rows.materialize_spec`.
-/

namespace SqlRecord

/-- What a column holds after its last cell: what the cell decodes to, and the default of the
column's type where there is no cell. -/
def FieldType.Holds (t : FieldType) (v : t.Carrier) : Option Value → Prop
  | none => v = t.default
  | some cell => t.ofValue cell = .ok v

/-- A cell has one value. -/
theorem FieldType.Holds.unique {t : FieldType} {v w : t.Carrier} {cell? : Option Value}
    (hv : t.Holds v cell?) (hw : t.Holds w cell?) : v = w := by
  cases cell? with
  | none => exact hv.trans hw.symm
  | some cell => exact Except.ok.inj (hv.symm.trans hw)

namespace Rows

variable {s : Schema}

/-- The pairs whose name maps to a column. -/
def known (s : Schema) (row : List (String × Value)) : List (String × Value) :=
  row.filter fun p => (s.positionOf p.1).isSome

/-- The cells that are assigned to a column, in their order. -/
def cellsOf (i : s.Index) (row : List (String × Value)) : List Value :=
  (row.filter fun p => s.positionOf p.1 = some i ∧ p.2 ≠ .null).map Prod.snd

/-- Whether every cell that is assigned to some column decodes. -/
def Decodes (s : Schema) (row : List (String × Value)) : Prop :=
  ∀ (i : s.Index), ∀ cell ∈ cellsOf i row, ∃ v, (s.column i).type.ofValue cell = .ok v

/-- The record of a row of names and cells. -/
def ofRow (s : Schema) (row : List (String × Value)) : Except Error (Record s) :=
  assignCells (.default s) (row.map fun p => (p.2, s.positionOf p.1))

/-- A row is materialized from its names and cells. -/
theorem materialize_eq_ofRow (names : List String) (cells : List Value) :
    materialize (names.map s.positionOf) cells = ofRow s (names.zip cells) := by
  rw [materialize, ofRow, List.zip_map_right, ← List.zip_swap names cells, List.map_map]
  rfl

/-! ### The cells of a column -/

variable {i : s.Index} {p : String × Value} {row row' : List (String × Value)}

theorem cellsOf_append : cellsOf i (row ++ row') = cellsOf i row ++ cellsOf i row' := by
  rw [cellsOf, List.filter_append, List.map_append]
  rfl

theorem cellsOf_singleton (hname : s.positionOf p.1 = some i) (hcell : p.2 ≠ .null) :
    cellsOf i [p] = [p.2] := by
  rw [cellsOf, List.filter_cons_of_pos (by simp [hname, hcell])]
  rfl

theorem cellsOf_singleton_of_not (h : ¬(s.positionOf p.1 = some i ∧ p.2 ≠ .null)) :
    cellsOf i [p] = [] := by
  rw [cellsOf, List.filter_cons_of_neg (by simpa using h)]
  rfl

/-- Names that map to no column contribute no cells. -/
theorem cellsOf_known (i : s.Index) (row : List (String × Value)) :
    cellsOf i (known s row) = cellsOf i row := by
  rw [cellsOf, known, List.filter_filter, cellsOf]
  refine congrArg _ (List.filter_congr fun p _ => ?_)
  rw [Bool.and_eq_left_iff_imp, decide_eq_true_iff]
  exact fun hassigned => Option.isSome_iff_exists.mpr ⟨i, hassigned.1⟩

theorem decodes_append : Decodes s (row ++ row') ↔ Decodes s row ∧ Decodes s row' := by
  simp only [Decodes, cellsOf_append, List.forall_mem_append, forall_and]

/-- A row that does not decode has a first pair that does not. -/
theorem exists_undecodable (h : ¬Decodes s row) :
    ∃ before p after i cause, row = before ++ p :: after ∧ Decodes s before ∧
      s.positionOf p.1 = some i ∧ p.2 ≠ .null ∧
      (s.column i).type.ofValue p.2 = .error cause := by
  induction row using List.reverseRecOn with
  | nil => exact absurd (fun i cell hcell => absurd hcell List.not_mem_nil) h
  | append_singleton row p ih =>
    by_cases hrow : Decodes s row
    · have hp : ¬Decodes s [p] := fun hp => h (decodes_append.mpr ⟨hrow, hp⟩)
      rw [Decodes] at hp
      push Not at hp
      obtain ⟨i, cell, hcell, hfails⟩ := hp
      by_cases hassigned : s.positionOf p.1 = some i ∧ p.2 ≠ .null
      · rw [cellsOf_singleton hassigned.1 hassigned.2, List.mem_singleton] at hcell
        subst hcell
        cases hvalue : (s.column i).type.ofValue p.2 with
        | ok v => exact absurd hvalue (hfails v)
        | error cause =>
          exact ⟨row, p, [], i, cause, rfl, hrow, hassigned.1, hassigned.2, hvalue⟩
      · rw [cellsOf_singleton_of_not hassigned] at hcell
        cases hcell
    · obtain ⟨before, q, after, i, cause, rfl, hq⟩ := ih hrow
      exact ⟨before, q, after ++ [p], i, cause, by rw [List.append_assoc, List.cons_append], hq⟩

/-! ### Assigning the cells of a row -/

/-- Cells are assigned one part after the other. -/
theorem assignCells_append (r : Record s) (cells cells' : List (Value × Option s.Index)) :
    assignCells r (cells ++ cells') = (assignCells r cells).bind (assignCells · cells') := by
  induction cells generalizing r with
  | nil => rfl
  | cons c cells ih =>
    obtain ⟨cell, binding⟩ := c
    cases binding with
    | none => exact ih r
    | some i =>
      rw [List.cons_append, assignCells, assignCells]
      split_ifs
      · exact ih r
      · cases r.assign i cell with
        | ok r' => exact ih r'
        | error cause => rfl

/-- A row that is longer goes on from the record of its front. -/
theorem ofRow_append (row row' : List (String × Value)) :
    ofRow s (row ++ row') =
      (ofRow s row).bind (assignCells · (row'.map fun p => (p.2, s.positionOf p.1))) := by
  rw [ofRow, List.map_append, assignCells_append]
  rfl

/-- A pair that assigns no column is skipped. -/
theorem assignCells_of_not (r : Record s) (cells : List (Value × Option s.Index))
    (h : ∀ i, ¬(s.positionOf p.1 = some i ∧ p.2 ≠ .null)) :
    assignCells r ((p.2, s.positionOf p.1) :: cells) = assignCells r cells := by
  cases hname : s.positionOf p.1 with
  | none => rfl
  | some i =>
    have hnull : p.2 = .null := by simpa [hname] using h i
    rw [hnull]
    rfl

/-- A pair that assigns a column sets it to what the cell decodes to. -/
theorem assignCells_of_assigned (r : Record s) (cells : List (Value × Option s.Index))
    (hname : s.positionOf p.1 = some i) (hcell : p.2 ≠ .null) :
    assignCells r ((p.2, s.positionOf p.1) :: cells) =
      match (s.column i).type.ofValue p.2 with
      | .ok v => assignCells (r.set i v) cells
      | .error cause => .error (.decode (s.column i).name cause) := by
  have hnull : ¬p.2.isNull = true := by
    cases hp : p.2 with
    | null => exact absurd hp hcell
    | _ => exact Bool.false_ne_true
  rw [hname, assignCells, if_neg hnull, Record.assign]
  cases (s.column i).type.ofValue p.2 <;> rfl

/-- A row that decodes becomes a record, in which each column holds what its last cell decodes
to. -/
theorem exists_ofRow (h : Decodes s row) :
    ∃ r, ofRow s row = .ok r ∧
      ∀ i, (s.column i).type.Holds (r i) (cellsOf i row).getLast? := by
  -- the last pair is the last cell of one column at most and leaves the other columns alone
  induction row using List.reverseRecOn with
  | nil => exact ⟨_, rfl, fun i => rfl⟩
  | append_singleton row p ih =>
    obtain ⟨hrow, hp⟩ := decodes_append.mp h
    obtain ⟨r, hr, hholds⟩ := ih hrow
    simp only [ofRow_append, hr, Except.bind, List.map_singleton]
    by_cases hassigned : ∃ i, s.positionOf p.1 = some i ∧ p.2 ≠ .null
    · obtain ⟨i, hname, hcell⟩ := hassigned
      have hp := hp i
      rw [cellsOf_singleton hname hcell] at hp
      obtain ⟨v, hv⟩ := hp p.2 (List.mem_singleton_self _)
      rw [assignCells_of_assigned r [] hname hcell, hv]
      refine ⟨r.set i v, rfl, fun j => ?_⟩
      rw [cellsOf_append]
      by_cases hji : j = i
      · subst hji
        rw [cellsOf_singleton hname hcell, List.getLast?_concat, Record.set_self]
        exact hv
      · rw [cellsOf_singleton_of_not fun hj => hji (Option.some.inj (hj.1.symm.trans hname)),
          List.append_nil, Record.set_of_ne _ _ hji]
        exact hholds j
    · have hskipped : ∀ i, ¬(s.positionOf p.1 = some i ∧ p.2 ≠ .null) :=
        not_exists.mp hassigned
      rw [assignCells_of_not r [] hskipped]
      refine ⟨r, rfl, fun j => ?_⟩
      rw [cellsOf_append, cellsOf_singleton_of_not (hskipped j), List.append_nil]
      exact hholds j

/-- The first pair that does not decode is the error of the row. -/
theorem ofRow_eq_error {before after : List (String × Value)} {cause : CodecError}
    (hbefore : Decodes s before) (hname : s.positionOf p.1 = some i) (hcell : p.2 ≠ .null)
    (hvalue : (s.column i).type.ofValue p.2 = .error cause) :
    ofRow s (before ++ p :: after) = .error (.decode (s.column i).name cause) := by
  obtain ⟨r, hr, -⟩ := exists_ofRow hbefore
  rw [ofRow_append, hr]
  have hp := assignCells_of_assigned r (after.map fun p => (p.2, s.positionOf p.1)) hname hcell
  rw [hvalue] at hp
  exact hp

/-- A row gives a record exactly if its cells decode, and then each column holds its last cell. -/
theorem ofRow_eq_ok_iff {r : Record s} :
    ofRow s row = .ok r ↔
      Decodes s row ∧ ∀ i, (s.column i).type.Holds (r i) (cellsOf i row).getLast? := by
  constructor
  · intro h
    by_cases hrow : Decodes s row
    · obtain ⟨r', hr', hholds⟩ := exists_ofRow hrow
      cases h.symm.trans hr'
      exact ⟨hrow, hholds⟩
    · obtain ⟨before, p, after, i, cause, rfl, hbefore, hname, hcell, hvalue⟩ :=
        exists_undecodable hrow
      cases h.symm.trans (ofRow_eq_error hbefore hname hcell hvalue)
  · rintro ⟨hrow, hholds⟩
    obtain ⟨r', hr', hholds'⟩ := exists_ofRow hrow
    have heq : r = r' := funext fun i => (hholds i).unique (hholds' i)
    rw [heq, hr']

/-- A row fails exactly with the error of its first cell that does not decode, which the column's
name is put to. -/
theorem ofRow_eq_error_iff {e : Error} :
    ofRow s row = .error e ↔
      ∃ before p after i cause, row = before ++ p :: after ∧ Decodes s before ∧
        s.positionOf p.1 = some i ∧ p.2 ≠ .null ∧
        (s.column i).type.ofValue p.2 = .error cause ∧ e = .decode (s.column i).name cause := by
  constructor
  · intro h
    have hrow : ¬Decodes s row := fun hrow => by
      obtain ⟨r, hr, -⟩ := exists_ofRow hrow
      cases h.symm.trans hr
    obtain ⟨before, p, after, i, cause, rfl, hbefore, hname, hcell, hvalue⟩ :=
      exists_undecodable hrow
    exact ⟨before, p, after, i, cause, rfl, hbefore, hname, hcell, hvalue,
      Except.error.inj (h.symm.trans (ofRow_eq_error hbefore hname hcell hvalue))⟩
  · rintro ⟨before, p, after, i, cause, rfl, hbefore, hname, hcell, hvalue, rfl⟩
    exact ofRow_eq_error hbefore hname hcell hvalue

/-! ### The order of the pairs -/

/-- A column that is matched once has one cell at most. -/
theorem length_cellsOf_le (hnodup : (row.filterMap fun p => s.positionOf p.1).Nodup)
    (i : s.Index) : (cellsOf i row).length ≤ 1 := by
  calc (cellsOf i row).length
      = row.countP fun p => decide (s.positionOf p.1 = some i ∧ p.2 ≠ .null) := by
        rw [cellsOf, List.length_map, List.countP_eq_length_filter]
    _ ≤ row.countP fun p => s.positionOf p.1 == some i :=
        List.countP_mono_left fun p _ h => beq_iff_eq.mpr (of_decide_eq_true h).1
    _ = (row.filterMap fun p => s.positionOf p.1).count i := by
        rw [List.count, List.countP_filterMap]
        refine List.countP_congr fun p _ => ?_
        cases s.positionOf p.1 <;> simp
    _ ≤ 1 := List.nodup_iff_count_le_one.mp hnodup i

/-- The cells of columns that are matched once stay the same in any order and next to any pairs
with unknown names. -/
theorem cellsOf_eq_of_perm (hnodup : (row.filterMap fun p => s.positionOf p.1).Nodup)
    (hperm : (known s row).Perm (known s row')) (i : s.Index) : cellsOf i row' = cellsOf i row := by
  have hcells : (cellsOf i row).Perm (cellsOf i row') := by
    rw [← cellsOf_known i row, ← cellsOf_known i row']
    exact (hperm.filter _).map _
  have hlength := length_cellsOf_le hnodup i
  cases hrow : cellsOf i row with
  | nil => exact List.nil_perm.mp (hrow ▸ hcells)
  | cons cell rest =>
    obtain rfl : rest = [] := by
      rw [hrow, List.length_cons] at hlength
      exact List.length_eq_zero_iff.mp (by omega)
    exact (List.singleton_perm.mp (hrow ▸ hcells)).symm

end Rows

end SqlRecord
