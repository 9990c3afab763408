import SqlRecord.Proofs.Command.Chain
import SqlRecord.Proofs.Field.RoundTrip
import SqlRecord.Proofs.Record.Sequence
import SqlRecord.Proofs.Schema.Columns

/-!
# Records read back

A record that was written is read back from any result that holds its cells, whatever the order of
the result's columns, the case of their names and the columns that the schema does not know: the
columns found in the result have their values back, and all others are at their default. There are
instants and payloads that do not come back as they were (`FieldType.Storable`), as the payloads of
a draft (`Draft.read_record`). Main statement: `Rows.ofCursor_reads_back`.
-/

namespace SqlRecord

variable {s : Schema}

/-- Whether a result with columns of these names has a cell for a column. -/
def Schema.Matched (s : Schema) (names : List String) (i : s.Index) : Prop :=
  ∃ name ∈ names, sameName (s.column i).name name = true

instance (names : List String) (i : s.Index) : Decidable (s.Matched names i) :=
  inferInstanceAs (Decidable (∃ name ∈ names, sameName (s.column i).name name = true))

/-! ### Assigning cells -/

namespace Record

@[simp] theorem set_self (r : Record s) (i : s.Index) (v : (s.column i).type.Carrier) :
    r.set i v i = v := dif_pos rfl

@[simp] theorem set_of_ne (r : Record s) {i j : s.Index} (v : (s.column i).type.Carrier)
    (h : j ≠ i) : r.set i v j = r j := dif_neg h

theorem set_eq_self (r : Record s) (i : s.Index) : r.set i (r i) = r := by
  funext j
  by_cases h : j = i
  · subst h
    exact set_self _ _ _
  · exact set_of_ne _ _ h

end Record

namespace Rows

/-- A bound cell changes its column and nothing else. -/
theorem assignCells_cons {r : Record s} {i : s.Index} {cell : Value}
    {cells : List (Value × Option s.Index)} {v : (s.column i).type.Carrier}
    (h : (s.column i).type.place (r i) cell = .ok v) :
    assignCells r ((cell, some i) :: cells) = assignCells (r.set i v) cells := by
  rw [assignCells]
  rw [FieldType.place] at h
  split_ifs at h ⊢
  · cases h
    rw [Record.set_eq_self]
  · rw [Record.assign, h]

/-- Cells of different columns do not interfere: each column is what its cell makes of it, and the
columns without cells stay as they are. -/
theorem assignCells_eq {r target : Record s} {cells : List (Value × Option s.Index)}
    (hdistinct : (cells.filterMap Prod.snd).Nodup)
    (hcells : ∀ cell i, (cell, some i) ∈ cells →
      (s.column i).type.place (r i) cell = .ok (target i))
    (hrest : ∀ i ∉ cells.filterMap Prod.snd, target i = r i) :
    assignCells r cells = .ok target := by
  -- induction on the cells, for any record that has the columns of the rest untouched
  induction cells generalizing r with
  | nil =>
    have htarget : target = r := funext fun i => hrest i List.not_mem_nil
    rw [htarget]
    rfl
  | cons c cells ih =>
    obtain ⟨cell, binding⟩ := c
    cases binding with
    | none =>
      exact ih hdistinct (fun cell i hmem => hcells cell i (List.mem_cons_of_mem _ hmem)) hrest
    | some i =>
      obtain ⟨hfresh, hdistinct⟩ := List.nodup_cons.mp hdistinct
      rw [assignCells_cons (hcells cell i List.mem_cons_self)]
      refine ih hdistinct (fun cell j hmem => ?_) (fun j hj => ?_)
      · have hne : j ≠ i := by
          rintro rfl
          exact hfresh (List.mem_filterMap.mpr ⟨_, hmem, rfl⟩)
        rw [Record.set_of_ne _ _ hne]
        exact hcells cell j (List.mem_cons_of_mem _ hmem)
      · by_cases hji : j = i
        · subst hji
          rw [Record.set_self]
        · rw [Record.set_of_ne _ _ hji]
          exact hrest j (List.not_mem_cons_of_ne_of_not_mem hji hj)

/-- The columns that the cells of a row are bound to. -/
theorem filterMap_zip {names : List String} {cells : List Value}
    (hlength : cells.length = names.length) :
    (cells.zip (names.map s.positionOf)).filterMap Prod.snd = names.filterMap s.positionOf := by
  have hsnd : (cells.zip (names.map s.positionOf)).map Prod.snd = names.map s.positionOf :=
    List.map_snd_zip (by rw [hlength, List.length_map])
  have hid : (Prod.snd : Value × Option s.Index → _) = id ∘ Prod.snd := rfl
  rw [hid, ← List.filterMap_map, hsnd, List.filterMap_map]
  rfl

/-- The columns that names map to are the matched ones. -/
theorem mem_filterMap_positionOf (hs : s.WellFormed) {names : List String} {i : s.Index} :
    i ∈ names.filterMap s.positionOf ↔ s.Matched names i := by
  simp only [List.mem_filterMap, hs.positionOf_eq_some_iff, Schema.Matched]

/-- **A row becomes the record whose columns are what their cells make of the defaults.** -/
theorem materialize_eq (hs : s.WellFormed) {target : Record s} {names : List String}
    {cells : List Value}
    (hcells : List.Forall₂ (fun name cell => ∀ i, sameName (s.column i).name name = true →
      (s.column i).type.place (s.column i).type.default cell = .ok (target i)) names cells)
    (hdistinct : names.Pairwise fun a b => ∀ i, sameName (s.column i).name a = true →
      sameName (s.column i).name b = false)
    (hrest : ∀ i, ¬s.Matched names i → target i = (s.column i).type.default) :
    materialize (names.map s.positionOf) cells = .ok target := by
  have hbound := filterMap_zip (s := s) hcells.length_eq.symm
  rw [materialize]
  refine assignCells_eq ?_ ?_ ?_
  · rw [hbound]
    refine List.pairwise_filterMap.mpr (hdistinct.imp fun {a b} hab i hi j hj => ?_)
    rintro rfl
    have hb := hs.positionOf_eq_some_iff.mp hj
    exact Bool.noConfusion (hb.symm.trans (hab i (hs.positionOf_eq_some_iff.mp hi)))
  · intro cell i hmem
    rw [List.zip_map_right, List.mem_map] at hmem
    obtain ⟨⟨cell', name⟩, hpair, heq⟩ := hmem
    obtain ⟨rfl, hname⟩ := Prod.mk.inj heq
    exact List.forall₂_zip hcells.flip hpair i (hs.positionOf_eq_some_iff.mp hname)
  · intro i hi
    rw [hbound, mem_filterMap_positionOf hs] at hi
    exact hrest i hi

/-! ### Reading results -/

section

variable {ε : Type}

/-- A result of a single row yields its record, or why there is none, and nothing after it. -/
theorem calls_single [OfError ε] (names : List String) (cells : List Value) (n : Nat) :
    (ofCursor s (⟨names, [.row cells]⟩ : Cursor ε)).calls (n + 1) =
      some ((materialize (names.map s.positionOf) cells).mapError OfError.ofError) ::
        List.replicate n none := by
  have hyields : (ofCursor s (⟨names, [.row cells]⟩ : Cursor ε)).yields =
      [(materialize (names.map s.positionOf) cells).mapError OfError.ofError] := rfl
  rw [calls_eq, hyields, List.map_singleton, List.singleton_append, List.take_succ_cons,
    List.take_replicate, Nat.min_eq_left (Nat.le_succ n)]

/-- The record of a single cell is the one it is assigned to. -/
theorem materialize_column {name : String} {i : s.Index} {cell : Value}
    (hname : s.positionOf name = some i) (hcell : cell.isNull = false) :
    materialize ([name].map s.positionOf) [cell] =
      ((Record.default s).assign i cell).mapError (.decode (s.column i).name) := by
  have hpresent : ¬cell.isNull = true := by simp [hcell]
  rw [List.map_singleton, hname, materialize, List.zip_cons_cons, List.zip_nil_left, assignCells,
    if_neg hpresent]
  cases (Record.default s).assign i cell <;> rfl

/-- A result with the names of columns maps their fields. -/
theorem mappedFields_ofCursor (hs : s.WellFormed) (columns : List s.Index)
    (events : List (CursorEvent ε)) :
    (ofCursor s ⟨columns.map fun i => (s.column i).name, events⟩).mappedFields =
      columns.map fun i => (s.column i).field := by
  have hbound : (columns.map fun i => (s.column i).name).map s.positionOf = columns.map some := by
    rw [List.map_map]
    exact List.map_congr_left fun i _ => hs.positionOf_name i
  rw [mappedFields, ofCursor]
  dsimp only
  rw [hbound, List.filterMap_map]
  exact congrArg _ List.filterMap_some

end

/-! ### What was written -/

/-- A matched column has a cell. -/
theorem exists_cell {P : s.Index → Value → Prop} {names : List String} {cells : List Value}
    (hcells : List.Forall₂ (fun name cell => ∀ i,
      sameName (s.column i).name name = true → P i cell) names cells) {i : s.Index}
    (hi : s.Matched names i) : ∃ cell, P i cell := by
  obtain ⟨name, hname, hsame⟩ := hi
  obtain ⟨k, hk, rfl⟩ := List.getElem_of_mem hname
  have hk' : k < cells.length := hcells.length_eq ▸ hk
  exact ⟨cells.get ⟨k, hk'⟩, (List.forall₂_iff_get.mp hcells).2 k hk hk' i hsame⟩

/-- A row of what a record's columns are stored as becomes the record again, with the columns that
have no cell at their default. -/
theorem materialize_reads_back (hs : s.WellFormed) {r : Record s} {names : List String}
    {cells : List Value}
    (hcells : List.Forall₂ (fun name cell => ∀ i, sameName (s.column i).name name = true →
      r.read i = .ok cell) names cells)
    (hdistinct : names.Pairwise fun a b => ∀ i, sameName (s.column i).name a = true →
      sameName (s.column i).name b = false)
    (hstorable : ∀ i, s.Matched names i → (s.column i).type.Storable (r i)) :
    ∃ r' : Record s, materialize (names.map s.positionOf) cells = .ok r' ∧
      (∀ i, s.Matched names i → (s.column i).type.Same (r i) (r' i)) ∧
      ∀ i, ¬s.Matched names i → r' i = (s.column i).type.default := by
  -- what each column is read back as, from whichever cell it has
  have hread : ∀ i, ∃ v, (s.Matched names i → (s.column i).type.Same (r i) v ∧
      ∀ cell, r.read i = .ok cell →
        (s.column i).type.place (s.column i).type.default cell = .ok v) ∧
      (¬s.Matched names i → v = (s.column i).type.default) := by
    intro i
    by_cases hi : s.Matched names i
    · obtain ⟨cell, hcell⟩ := exists_cell hcells hi
      obtain ⟨v, hplace, hsame⟩ := FieldType.place_toValue (hstorable i hi) hcell
      refine ⟨v, fun _ => ⟨hsame, fun cell' hcell' => ?_⟩, fun h => absurd hi h⟩
      cases hcell.symm.trans hcell'
      exact hplace
    · exact ⟨_, fun h => absurd h hi, fun _ => rfl⟩
  choose target hmatched hrest using hread
  refine ⟨target, ?_, fun i hi => (hmatched i hi).1, hrest⟩
  refine materialize_eq hs (List.forall₂_iff_zip.mpr ⟨hcells.length_eq, ?_⟩) hdistinct hrest
  intro name cell hpair i hsame
  have hi : s.Matched names i := ⟨name, (List.of_mem_zip hpair).1, hsame⟩
  exact (hmatched i hi).2 cell (List.forall₂_zip hcells hpair i hsame)

end Rows

/-! ### Drafts -/

namespace Draft

/-- A schema with payloads that are not read back as they were: a reply that may be nothing inside
one that is present, and an outline of more levels than the reader goes. -/
def schema : Schema where
  record := "Draft"
  table := "drafts"
  columns :=
    [⟨"reply", "reply", .plain (.payload (.optional (.optional .flag))), []⟩,
      ⟨"outline", "outline", .plain (.payload (.lists 128)), []⟩]

theorem build_schema :
    (Declaration.mk schema.record (some schema.table) schema.columns).build = .ok schema :=
  Declaration.build_of_problems (by decide +kernel)

def reply : schema.Index := ⟨0, by decide⟩

def outline : schema.Index := ⟨1, by decide⟩

/-- A draft with a reply that is present and nothing. -/
def record : Record schema
  | ⟨0, _⟩ => (some none : Option (Option Bool))
  | ⟨1, _⟩ => PayloadType.within 128

/-- The cells of a draft. -/
theorem read_record : record.read reply = .ok (.blob Payload.hiddenNone) ∧
    record.read outline = .ok (.blob Payload.deepFlag) := by
  decide +kernel

/-- The reply of a draft is read back as nothing. -/
theorem assign_reply (r : Record schema) : r.assign reply (.blob Payload.hiddenNone) =
    .ok (r.set reply (none : Option (Option Bool))) := by
  have hvalue : (schema.column reply).type.ofValue (.blob Payload.hiddenNone) =
      .ok (none : Option (Option Bool)) := by
    have h := NativeType.ofValue_payload (.optional (.optional .flag)) Payload.hiddenNone
    rw [Payload.deserialize_hiddenNone.2] at h
    exact h
  rw [Record.assign, hvalue]

/-- A reply that is present and nothing is not the same as none. -/
theorem not_same_none : ¬(schema.column reply).type.Same (record reply)
    (none : Option (Option Bool)) := by
  intro h
  replace h : Option.Rel (PayloadType.optional .flag).Restores
    (some (none : Option Bool)) (none : Option (Option Bool)) := h
  cases h

/-- The outline of a draft is not read back. -/
theorem assign_outline (r : Record schema) : r.assign outline (.blob Payload.deepFlag) =
    .error (.deserialize .malformedBody) := by
  have hvalue : ∀ t : FieldType, t = .plain (.payload (.lists 128)) →
      t.ofValue (.blob Payload.deepFlag) = .error (.deserialize .malformedBody) := by
    rintro _ rfl
    have h := NativeType.ofValue_payload (.lists 128) Payload.deepFlag
    rw [Payload.deserialize_deepFlag.2] at h
    exact h
  rw [Record.assign, hvalue (schema.column outline).type rfl]

end Draft

end SqlRecord
