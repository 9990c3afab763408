import SqlRecord.Payload.Frame
import SqlRecord.Proofs.Cbor.RoundTrip

/-!
# Payloads read back

What is serialized is deserialized as the same payload, up to what its form cannot tell apart
(`PayloadType.canonical`): there is one NaN, and a present value that is written as nothing is
nothing. Main statement: `Payload.deserialize_serialize`.
-/

namespace SqlRecord

open Cbor

/-! ### Ordered maps -/

namespace OrderedMap

variable {α : Type}

/-- An entry whose key is past all others is inserted at the end. -/
theorem insertEntry_last {key : String} {value : α} {entries : List (String × α)}
    (h : ∀ e ∈ entries, e.1 < key) :
    insertEntry key value entries = entries ++ [(key, value)] := by
  induction entries with
  | nil => rfl
  | cons e entries ih =>
    obtain ⟨he, hentries⟩ := List.forall_mem_cons.mp h
    rw [insertEntry, if_neg (String.lt_asymm he), if_neg (String.ne_of_lt he).symm, ih hentries,
      List.cons_append]

/-- Entries that are in order are inserted one after the other as they are. -/
theorem entries_foldl {bindings : List (String × α)} {m : OrderedMap α}
    (h : (m.entries ++ bindings).Pairwise (·.1 < ·.1)) :
    (bindings.foldl (fun m (k, v) => m.insert k v) m).entries = m.entries ++ bindings := by
  induction bindings generalizing m with
  | nil => simp
  | cons b bindings ih =>
    have hlast : (m.insert b.1 b.2).entries = m.entries ++ [b] :=
      insertEntry_last fun e he =>
        (List.pairwise_append.mp h).2.2 e he b List.mem_cons_self
    rw [List.foldl_cons, ih (by rw [hlast]; simpa using h), hlast]
    simp

/-- **A map is the map of its entries.** -/
theorem ofList_entries (m : OrderedMap α) : ofList m.entries = m := by
  have h : (ofList m.entries).entries = m.entries := entries_foldl (m := empty) m.sorted
  rcases hm : ofList m.entries with ⟨entries, sorted⟩
  rw [hm] at h
  cases h
  rfl

end OrderedMap

/-! ### Items -/

namespace Cbor

theorem canonicalItems_eq_map (items : List Item) :
    canonicalItems items = items.map Item.canonical := by
  induction items with
  | nil => rfl
  | cons item items ih => rw [canonicalItems, ih, List.map_cons]

theorem fitEntries_iff {depth : Nat} {entries : List (Item × Item)} :
    FitEntries depth entries ↔ ∀ e ∈ entries, e.1.Fits depth ∧ e.2.Fits depth := by
  induction entries with
  | nil => simp [FitEntries]
  | cons e entries ih => rw [FitEntries, ih, List.forall_mem_cons, and_assoc]

mutual

/-- What fits into some levels fits into more of them. -/
theorem Item.Fits.mono {depth depth' : Nat} (h : depth ≤ depth') {item : Item}
    (hfits : item.Fits depth) : item.Fits depth' := by
  match item with
  | .unsigned _ | .negative _ => exact hfits
  | .bytes _ | .text _ | .bool _ | .null | .undefined | .float _ => trivial
  | .array items => exact ⟨lt_of_lt_of_le hfits.1 h, FitItems.mono (by omega) hfits.2⟩
  | .map entries => exact ⟨lt_of_lt_of_le hfits.1 h, FitEntries.mono (by omega) hfits.2⟩
  | .tagged item => exact ⟨lt_of_lt_of_le hfits.1 h, Item.Fits.mono (by omega) hfits.2⟩

theorem FitItems.mono {depth depth' : Nat} (h : depth ≤ depth') {items : List Item}
    (hfits : FitItems depth items) : FitItems depth' items := by
  match items with
  | [] => trivial
  | item :: items => exact ⟨hfits.1.mono h, FitItems.mono h hfits.2⟩

theorem FitEntries.mono {depth depth' : Nat} (h : depth ≤ depth') {entries : List (Item × Item)}
    (hfits : FitEntries depth entries) : FitEntries depth' entries := by
  match entries with
  | [] => trivial
  | (key, value) :: entries =>
    exact ⟨hfits.1.mono h, hfits.2.1.mono h, FitEntries.mono h hfits.2.2⟩

end

end Cbor

/-! ### Payloads -/

namespace PayloadType

/-- How deep the items of a type nest at most. -/
def depth : PayloadType → Nat
  | optional t => t.depth
  | list t => t.depth + 1
  | triple a b c => max a.depth (max b.depth c.depth) + 1
  | inventory => 2
  | _ => 0

/-- How deep the item of a payload nests: a level for each array and each map around a value. -/
def nesting : (t : PayloadType) → t.Carrier → Nat
  | optional _, none => 0
  | optional t, some v => t.nesting v
  | list t, vs => (List.map t.nesting vs).foldr max 0 + 1
  | triple a b c, (x, y, z) => max (a.nesting x) (max (b.nesting y) (c.nesting z)) + 1
  | inventory, _ => 2
  | integer _, _ | float, _ | flag, _ | text, _ | guarded, _ => 0

/-- Whether a payload is written as nothing. -/
def isNull : (t : PayloadType) → t.Carrier → Bool
  | optional _, none => true
  | optional t, some v => t.isNull v
  | _, _ => false

/-- The payload that a payload is read back as: every NaN is the canonical one, and a value that is
written as nothing is nothing. -/
def canonical : (t : PayloadType) → t.Carrier → t.Carrier
  | float, x => Floating.canonical (f := .binary64) x
  | optional _, none => (none : Option _)
  | optional t, some v => if t.isNull v then (none : Option _) else some (t.canonical v)
  | list t, vs => List.map t.canonical vs
  | triple a b c, (x, y, z) => (a.canonical x, b.canonical y, c.canonical z)
  | integer _, n => n
  | flag, b => b
  | text, s => s
  | inventory, v => v
  | guarded, s => s

/-! ### Writing -/

/-- The items of a list are those of its values, one by one. -/
theorem mapM_toItem {t : PayloadType} {vs : List t.Carrier} {items : List Item}
    (h : vs.mapM t.toItem = .ok items) :
    List.Forall₂ (fun v item => t.toItem v = .ok item) vs items := by
  induction vs generalizing items with
  | nil => cases h; exact .nil
  | cons v vs ih =>
    rw [List.mapM_cons] at h
    cases hv : t.toItem v with
    | error e => rw [hv] at h; cases h
    | ok item =>
      cases hvs : vs.mapM t.toItem with
      | error e => rw [hv, hvs] at h; cases h
      | ok rest =>
        rw [hv, hvs] at h
        cases h
        exact .cons hv (ih hvs)

theorem toItem_list {t : PayloadType} {vs : List t.Carrier} {item : Item}
    (h : (list t).toItem vs = .ok item) :
    ∃ items, item = .array items ∧ List.Forall₂ (fun v item => t.toItem v = .ok item) vs items := by
  replace h : (vs.mapM t.toItem >>= fun items => pure (.array items)) = .ok item := h
  cases hitems : vs.mapM t.toItem with
  | error e => rw [hitems] at h; cases h
  | ok items =>
    rw [hitems] at h
    cases h
    exact ⟨items, rfl, mapM_toItem hitems⟩

/-- A guarded text that is written is written as the text. -/
theorem toItem_guarded {s : String} {item : Item} (h : guardedItem s = .ok item) :
    item = .text s := by
  rw [guardedItem] at h
  split_ifs at h
  cases h
  rfl

/-- A triple is written as an array of the items of its three values. -/
theorem toItem_triple {a b c : PayloadType} {x : a.Carrier} {y : b.Carrier} {z : c.Carrier}
    {item : Item} (h : (triple a b c).toItem (x, y, z) = .ok item) :
    ∃ i j k, a.toItem x = .ok i ∧ b.toItem y = .ok j ∧ c.toItem z = .ok k ∧
      item = .array [i, j, k] := by
  rw [toItem] at h
  cases hx : a.toItem x with
  | error e => rw [hx] at h; cases h
  | ok i =>
    cases hy : b.toItem y with
    | error e => rw [hx, hy] at h; cases h
    | ok j =>
      cases hz : c.toItem z with
      | error e => rw [hx, hy, hz] at h; cases h
      | ok k =>
        rw [hx, hy, hz] at h
        cases h
        exact ⟨i, j, k, rfl, rfl, rfl, rfl⟩

/-- The item of an integer fits at any depth, as it nests in nothing and has 64 bits. -/
theorem integerItem_fits {t : IntegerType} (n : t.Carrier) (depth : Nat) :
    (integerItem n).Fits depth := by
  have hleast : -2 ^ 64 ≤ t.least := by cases t <;> decide
  have hgreatest : t.greatest < 2 ^ 64 := by cases t <;> decide
  have hlo := n.lo_le
  have hhi := n.le_hi
  rw [integerItem]
  cases hn : n.val with
  | ofNat k =>
    rw [hn, Int.ofNat_eq_natCast] at hhi
    simp only [Item.ofInt, Item.Fits]
    omega
  | negSucc k =>
    rw [hn] at hlo
    simp only [Item.ofInt, Item.Fits]
    omega

/-- No payload nests deeper than its type. -/
theorem nesting_le_depth (t : PayloadType) (v : t.Carrier) : t.nesting v ≤ t.depth := by
  induction t with
  | optional t ih =>
    cases v with
    | none => exact Nat.zero_le _
    | some v => exact ih v
  | list t ih =>
    refine Nat.succ_le_succ (List.max_le_of_forall_le _ _ fun n hn => ?_)
    obtain ⟨w, -, rfl⟩ := List.mem_map.mp hn
    exact ih w
  | triple a b c iha ihb ihc =>
    exact Nat.succ_le_succ (max_le_max (iha v.1) (max_le_max (ihb v.2.1) (ihc v.2.2)))
  | integer | float | flag | text | inventory | guarded => exact le_rfl

/-- **The item of a payload nests as deep as the payload**, and its numbers have 64 bits. -/
theorem toItem_fits {t : PayloadType} {v : t.Carrier} {item : Item} (h : t.toItem v = .ok item) :
    item.Fits (t.nesting v) := by
  induction t generalizing item with
  | integer t => cases h; exact integerItem_fits v _
  | float => cases h; trivial
  | flag => cases h; trivial
  | text => cases h; trivial
  | optional t ih =>
    cases v with
    | none => cases h; trivial
    | some v => exact ih h
  | list t ih =>
    obtain ⟨items, rfl, hitems⟩ := toItem_list h
    have hfits : FitItems ((List.map t.nesting v).foldr max 0) items := by
      clear h
      induction hitems with
      | nil => trivial
      | cons hv _ ihs =>
        exact ⟨(ih hv).mono (le_max_left _ _), FitItems.mono (le_max_right _ _) ihs⟩
    exact ⟨Nat.succ_pos _, hfits⟩
  | triple a b c iha ihb ihc =>
    obtain ⟨x, y, z⟩ := v
    obtain ⟨i, j, k, hi, hj, hk, rfl⟩ := toItem_triple h
    refine ⟨Nat.succ_pos _, (iha hi).mono ?_, (ihb hj).mono ?_, (ihc hk).mono ?_, trivial⟩ <;>
      simp only [nesting] <;> omega
  | inventory =>
    cases h
    change (inventoryItem v).Fits 2
    refine ⟨by decide, trivial, integerItem_fits v.gold _, trivial, ⟨by decide, ?_⟩, trivial⟩
    refine fitEntries_iff.mpr fun e he => ?_
    obtain ⟨entry, -, rfl⟩ := List.mem_map.mp he
    exact ⟨trivial, integerItem_fits entry.2 _⟩
  | guarded =>
    cases toItem_guarded h
    trivial

/-! ### Reading -/

/-- A payload is written as nothing if it is nothing, at any level of optional values. -/
theorem toItem_eq_null_iff {t : PayloadType} {v : t.Carrier} :
    t.toItem v = .ok .null ↔ t.isNull v = true := by
  induction t with
  | integer t =>
    have hne : ∀ i, Item.ofInt i ≠ .null := fun i => by cases i <;> nofun
    exact iff_of_false (fun h => hne _ (Except.ok.inj h)) Bool.false_ne_true
  | optional t ih =>
    cases v with
    | none => exact iff_of_true rfl rfl
    | some v => exact ih
  | list t =>
    refine iff_of_false (fun h => ?_) Bool.false_ne_true
    obtain ⟨items, hitem, -⟩ := toItem_list h
    cases hitem
  | triple a b c =>
    refine iff_of_false (fun h => ?_) Bool.false_ne_true
    obtain ⟨i, j, k, -, -, -, hitem⟩ := toItem_triple h
    cases hitem
  | guarded => exact iff_of_false (fun h => nomatch toItem_guarded h) Bool.false_ne_true
  | float | flag | text | inventory => exact iff_of_false nofun Bool.false_ne_true

/-- An integer is read back from its item. -/
theorem member?_integerItem {t : IntegerType} (n : t.Carrier) :
    member? t (integerItem n).canonical = some n := by
  have hinteger : integer? (integerItem n).canonical = some n.val := by
    rw [integerItem]
    cases n.val with
    | ofNat k => rfl
    | negSucc k =>
      simp only [Item.ofInt, Item.canonical, integer?, Item.untagged]
      congr 1
      omega
  rw [member?, hinteger]
  exact BoundedInt.ofInt?_val n

theorem canonical_ne_null {item : Item} (h : item ≠ .null) : item.canonical ≠ .null := by
  cases item <;> first | exact absurd rfl h | exact nofun

/-- An item that is not nothing reads as a value that is there. -/
theorem ofItem?_optional {t : PayloadType} {item : Item} (h : item ≠ .null) :
    (optional t).ofItem? item = (t.ofItem? item).map some := by
  cases item <;> first | exact absurd rfl h | rfl

/-- The item of counted names. -/
def countsItem (m : OrderedMap IntegerType.uint16.Carrier) : Item :=
  .map (m.entries.map fun (name, n) => (.text name, integerItem n))

/-- Counted names are read back from their item. -/
theorem counts?_countsItem (m : OrderedMap IntegerType.uint16.Carrier) :
    counts? (countsItem m).canonical = some m := by
  have hentries : (canonicalEntries (m.entries.map fun e =>
      (.text e.1, integerItem e.2))).mapM (fun e => do
        return (← text? e.1, ← member? .uint16 e.2)) = some m.entries := by
    induction m.entries with
    | nil => rfl
    | cons e entries ih =>
      rw [List.map_cons, canonicalEntries, List.mapM_cons, ih]
      simp only [member?_integerItem]
      rfl
  have hcounts : counts? (countsItem m).canonical = (do
      return .ofList (← (canonicalEntries (m.entries.map fun e =>
        (.text e.1, integerItem e.2))).mapM (fun e => do
          return (← text? e.1, ← member? .uint16 e.2)))) := rfl
  rw [hcounts, hentries]
  exact congrArg some m.ofList_entries

/-- **An item is read as the payload it was written from**, up to its canonical form. -/
theorem ofItem?_toItem {t : PayloadType} {v : t.Carrier} {item : Item}
    (h : t.toItem v = .ok item) : t.ofItem? item.canonical = some (t.canonical v) := by
  induction t generalizing item with
  | integer t => cases h; exact member?_integerItem v
  | float => cases h; rfl
  | flag => cases h; rfl
  | text => cases h; rfl
  | optional t ih =>
    cases v with
    | none => cases h; rfl
    | some v =>
      have hread := ih h
      cases hnull : t.isNull v with
      | true =>
        cases h.symm.trans (toItem_eq_null_iff.mpr hnull)
        have hcanonical : (optional t).canonical (some v) = (none : Option t.Carrier) :=
          if_pos hnull
        rw [hcanonical]
        rfl
      | false =>
        have hne : item ≠ .null := by
          rintro rfl
          exact Bool.false_ne_true (hnull.symm.trans (toItem_eq_null_iff.mp h))
        have hcanonical : (optional t).canonical (some v) = some (t.canonical v) :=
          if_neg (by simp [hnull])
        rw [hcanonical, ofItem?_optional (canonical_ne_null hne), hread]
        rfl
  | list t ih =>
    obtain ⟨items, rfl, hitems⟩ := toItem_list h
    have hread : (items.map Item.canonical).mapM t.ofItem? = some (List.map t.canonical v) := by
      clear h
      induction hitems with
      | nil => rfl
      | cons hv _ ihs =>
        rw [List.map_cons, List.mapM_cons, ih hv, ihs]
        rfl
    rw [Item.canonical, canonicalItems_eq_map]
    exact hread
  | triple a b c iha ihb ihc =>
    obtain ⟨i, j, k, hi, hj, hk, rfl⟩ := toItem_triple h
    have hread : (do
        return (← a.ofItem? i.canonical, ← b.ofItem? j.canonical, ← c.ofItem? k.canonical)) =
        some (a.canonical v.1, b.canonical v.2.1, c.canonical v.2.2) := by
      rw [iha hi, ihb hj, ihc hk]
      rfl
    exact hread
  | inventory =>
    cases h
    have hread : (do
        return (⟨← member? _ (integerItem v.gold).canonical,
          ← counts? (countsItem v.items).canonical⟩ : Inventory)) = some v := by
      rw [member?_integerItem, counts?_countsItem]
      rfl
    exact hread
  | guarded =>
    cases toItem_guarded h
    rfl

end PayloadType

/-! ### Frames -/

namespace Payload

variable {t : PayloadType} {v : t.Carrier} {body bytes : List UInt8}

/-- Bytes that are framed are fewer than 2 to the 32, and stand after their length. -/
theorem frame_eq_ok (h : frame body = .ok bytes) :
    body.length < 0x100000000 ∧ bytes = bigEndian headerSize body.length ++ body := by
  rw [frame] at h
  split_ifs at h with hlength
  cases h
  exact ⟨hlength, rfl⟩

/-- **A framed body is found again.** -/
theorem unframe_frame (h : frame body = .ok bytes) : unframe bytes = .ok body := by
  obtain ⟨hlength, rfl⟩ := frame_eq_ok h
  have hheader := length_bigEndian headerSize body.length
  have htake : (bigEndian headerSize body.length ++ body).take headerSize =
      bigEndian headerSize body.length := List.take_left' hheader
  have hdrop : (bigEndian headerSize body.length ++ body).drop headerSize = body :=
    List.drop_left' hheader
  have hdeclared : ofBigEndian (bigEndian headerSize body.length) = body.length :=
    ofBigEndian_bigEndian hlength
  rw [unframe, if_neg (by rw [List.length_append, hheader]; omega), htake, hdrop]
  simp only [hdeclared, if_true]

/-- **What is serialized is deserialized**, up to its canonical form, if it nests no deeper than the
reader goes. -/
theorem deserialize_serialize (hnesting : t.nesting v ≤ nestingLimit)
    (h : serialize t v = .ok bytes) : deserialize t bytes = .ok (t.canonical v) := by
  cases hitem : t.toItem v with
  | error e =>
    rw [serialize, hitem] at h
    cases h
  | ok item =>
    replace h : frame item.write = .ok bytes := by
      rw [serialize, hitem] at h
      exact h
    have hlength := (frame_eq_ok h).1
    have hread := read?_write ((PayloadType.toItem_fits hitem).mono hnesting) (by omega)
    have hpayload : (read? item.write).bind t.ofItem? = some (t.canonical v) := by
      rw [hread]
      exact PayloadType.ofItem?_toItem hitem
    rw [deserialize, unframe_frame h]
    simp only [bind, Except.bind, hpayload]
    rfl

end Payload

end SqlRecord
