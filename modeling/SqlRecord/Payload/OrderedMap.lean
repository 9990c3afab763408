/-!
# Maps with text keys in order

A map from texts is its list of entries with strictly increasing keys, so that two maps with the
same bindings are equal. Texts are ordered by their characters' code points, which is the order
of their UTF-8 bytes.
-/

namespace SqlRecord

/-- A map whose entries are in strictly increasing order of their keys. -/
structure OrderedMap (α : Type) where
  entries : List (String × α)
  sorted : entries.Pairwise (·.1 < ·.1)

namespace OrderedMap

variable {α : Type}

def empty : OrderedMap α := ⟨[], List.Pairwise.nil⟩

/-- Puts an entry at its place; an entry with the same key is replaced. -/
def insertEntry (key : String) (value : α) : List (String × α) → List (String × α)
  | [] => [(key, value)]
  | (k, v) :: entries =>
    if key < k then (key, value) :: (k, v) :: entries
    else if key = k then (key, value) :: entries
    else (k, v) :: insertEntry key value entries

theorem mem_insertEntry {key : String} {value : α} {entries : List (String × α)}
    {e : String × α} (h : e ∈ insertEntry key value entries) :
    e = (key, value) ∨ e ∈ entries := by
  induction entries with
  | nil => simpa [insertEntry] using h
  | cons head entries ih =>
    obtain ⟨k, v⟩ := head
    unfold insertEntry at h
    split at h
    · simpa using h
    · split at h
      · rcases List.mem_cons.1 h with h | h
        · exact .inl h
        · exact .inr (List.mem_cons_of_mem _ h)
      · rcases List.mem_cons.1 h with h | h
        · exact .inr (h ▸ List.mem_cons_self)
        · rcases ih h with h | h
          · exact .inl h
          · exact .inr (List.mem_cons_of_mem _ h)

theorem sorted_insertEntry (key : String) (value : α) {entries : List (String × α)}
    (h : entries.Pairwise (·.1 < ·.1)) :
    (insertEntry key value entries).Pairwise (·.1 < ·.1) := by
  induction entries with
  | nil => simp [insertEntry]
  | cons head entries ih =>
    obtain ⟨k, v⟩ := head
    obtain ⟨hk, ht⟩ := List.pairwise_cons.1 h
    unfold insertEntry
    split
    · next lt =>
      refine List.pairwise_cons.2 ⟨fun e he => ?_, h⟩
      rcases List.mem_cons.1 he with rfl | he
      · exact lt
      · exact String.lt_trans lt (hk e he)
    · next nlt =>
      split
      · next eq => exact List.pairwise_cons.2 ⟨fun e he => eq ▸ hk e he, ht⟩
      · next ne =>
        refine List.pairwise_cons.2 ⟨fun e he => ?_, ih ht⟩
        rcases mem_insertEntry he with rfl | he
        · exact Decidable.byContradiction fun hn =>
            ne (String.le_antisymm (String.not_lt.1 hn) (String.not_lt.1 nlt))
        · exact hk e he

/-- The map with one more binding; an earlier one of the same key is replaced. -/
def insert (m : OrderedMap α) (key : String) (value : α) : OrderedMap α :=
  ⟨insertEntry key value m.entries, sorted_insertEntry key value m.sorted⟩

/-- The map of a list of bindings, of which a later one replaces an earlier one. -/
def ofList (bindings : List (String × α)) : OrderedMap α :=
  bindings.foldl (fun m (k, v) => m.insert k v) empty

end OrderedMap

end SqlRecord
