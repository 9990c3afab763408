import SqlRecord.Proofs.Payload.RoundTrip

/-!
# Payloads restored exactly

A payload is read back as itself, with the canonical NaN for every NaN (`PayloadType.Restores`),
exactly if everything that is present in it is written as something (`PayloadType.IsExplicit`). A
type is exact (`PayloadType.isExact`) if it has no guarded texts and no optional values of an
optional type. Payloads of exact types are never refused, and all of them are read back as
themselves. Main statement: `Payload.serialize_restores`.
-/

namespace SqlRecord

open Cbor

namespace PayloadType

/-- The payload types of records: bytes, a text, texts, a whole number, floats, rows of a number, a
flag and perhaps a text, and inventories. -/
def ofRecords : List PayloadType :=
  [bytes, text, list text, integer .int64, list float,
    list (triple (integer .int32) flag (optional text)), inventory]

def isOptional : PayloadType → Bool
  | optional _ => true
  | _ => false

/-- Whether all payloads of a type have forms that tell them apart. A guarded text may be refused,
and an optional value in an optional one may be written as nothing. -/
def isExact : PayloadType → Bool
  | optional t => !t.isOptional && t.isExact
  | list t => t.isExact
  | triple a b c => a.isExact && b.isExact && c.isExact
  | guarded => false
  | _ => true

/-- Whether a payload is another one with canonical NaNs: a float is the same bit for bit, or the
canonical NaN in place of a NaN, and everything else is equal. -/
def Restores : (t : PayloadType) → t.Carrier → t.Carrier → Prop
  | float, x, y => y = if Floating.isNaN (f := .binary64) x then Floating.canonicalNaN else x
  | optional t, v, w => Option.Rel t.Restores v w
  | list t, vs, ws => List.Forall₂ t.Restores vs ws
  | triple a b c, v, w => a.Restores v.1 w.1 ∧ b.Restores v.2.1 w.2.1 ∧ c.Restores v.2.2 w.2.2
  | _, v, w => w = v

/-- Whether each value that is present in a payload is written as something. It is not where an
optional value is nothing inside an optional one that is present. -/
def IsExplicit : (t : PayloadType) → t.Carrier → Prop
  | optional _, none => True
  | optional t, some v => t.isNull v = false ∧ t.IsExplicit v
  | list t, vs => List.Forall t.IsExplicit vs
  | triple a b c, (x, y, z) => a.IsExplicit x ∧ b.IsExplicit y ∧ c.IsExplicit z
  | integer _, _ | float, _ | flag, _ | text, _ | inventory, _ | guarded, _ => True

/-- Flags inside so many lists. -/
def lists : Nat → PayloadType
  | 0 => flag
  | n + 1 => list (lists n)

/-- A flag inside so many lists. -/
def within : (n : Nat) → (lists n).Carrier
  | 0 => true
  | n + 1 => ([within n] : List (lists n).Carrier)

/-! ### Payloads with a form of their own -/

/-- **A payload is read back as itself exactly if it is explicit.** -/
theorem restores_canonical_iff {t : PayloadType} {v : t.Carrier} :
    t.Restores v (t.canonical v) ↔ t.IsExplicit v := by
  induction t with
  | optional t ih =>
    cases v with
    | none => exact iff_of_true .none trivial
    | some v =>
      have hcanonical : (optional t).canonical (some v) =
          if t.isNull v then (none : Option t.Carrier) else some (t.canonical v) := rfl
      have hrel : (optional t).Restores (some v) ((optional t).canonical (some v)) ↔
          t.isNull v = false ∧ t.Restores v (t.canonical v) := by
        rw [hcanonical]
        cases t.isNull v with
        | true => exact iff_of_false (fun h => nomatch h) (fun h => nomatch h.1)
        | false => exact ⟨fun h => ⟨rfl, by cases h; assumption⟩, fun h => .some h.2⟩
      exact hrel.trans (and_congr_right fun _ => ih)
  | list t ih =>
    have hitems : ∀ vs : List t.Carrier, List.Forall₂ t.Restores vs (vs.map t.canonical) ↔
        List.Forall t.IsExplicit vs := by
      intro vs
      rw [List.forall₂_map_right_iff, List.forall₂_same, List.forall_iff_forall_mem]
      exact forall₂_congr fun v _ => ih
    exact hitems v
  | triple a b c iha ihb ihc => exact and_congr iha (and_congr ihb ihc)
  | integer | float | flag | text | inventory | guarded => exact iff_of_true rfl trivial

/-- A payload restores at most one other. -/
theorem Restores.unique {t : PayloadType} {v w w' : t.Carrier} (h : t.Restores v w)
    (h' : t.Restores v w') : w = w' := by
  induction t with
  | optional t ih =>
    cases h with
    | none => cases h'; rfl
    | some h =>
      cases h' with
      | some h' => exact congrArg some (ih h h')
  | list t ih =>
    have hitems : ∀ {vs ws ws' : List t.Carrier}, List.Forall₂ t.Restores vs ws →
        List.Forall₂ t.Restores vs ws' → ws = ws' := by
      intro vs ws ws' h h'
      induction h generalizing ws' with
      | nil => cases h'; rfl
      | cons hv _ ihs =>
        cases h' with
        | cons hv' hvs' => rw [ih hv hv', ihs hvs']
    exact hitems h h'
  | triple a b c iha ihb ihc =>
    exact Prod.ext (iha h.1 h'.1) (Prod.ext (ihb h.2.1 h'.2.1) (ihc h.2.2 h'.2.2))
  | integer | float | flag | text | inventory | guarded => exact Eq.trans h (Eq.symm h')

/-! ### Exact types -/

/-- A value of a type that is not optional is never written as nothing. -/
theorem isNull_eq_false {t : PayloadType} (h : t.isOptional = false) (v : t.Carrier) :
    t.isNull v = false := by
  cases t <;> first | rfl | cases h

/-- If every value of a type has an item, so has every list of them. -/
theorem exists_mapM_toItem {t : PayloadType} (h : ∀ v, ∃ item, t.toItem v = .ok item)
    (vs : List t.Carrier) : ∃ items, vs.mapM t.toItem = .ok items := by
  induction vs with
  | nil => exact ⟨[], rfl⟩
  | cons v vs ih =>
    obtain ⟨item, hitem⟩ := h v
    obtain ⟨items, hitems⟩ := ih
    exact ⟨item :: items, by rw [List.mapM_cons, hitem, hitems]; rfl⟩

/-- **A payload of an exact type is not refused.** -/
theorem exists_toItem {t : PayloadType} (h : t.isExact = true) (v : t.Carrier) :
    ∃ item, t.toItem v = .ok item := by
  induction t with
  | optional t ih =>
    rw [isExact, Bool.and_eq_true] at h
    cases v with
    | none => exact ⟨.null, rfl⟩
    | some v => exact ih h.2 v
  | list t ih =>
    obtain ⟨items, hitems⟩ := exists_mapM_toItem (ih h) v
    have hlist : (list t).toItem v = (List.mapM t.toItem v >>= fun items => pure (.array items)) :=
      rfl
    exact ⟨.array items, by rw [hlist, hitems]; rfl⟩
  | triple a b c iha ihb ihc =>
    rw [isExact, Bool.and_eq_true, Bool.and_eq_true] at h
    obtain ⟨⟨ha, hb⟩, hc⟩ := h
    obtain ⟨x, y, z⟩ := v
    obtain ⟨i, hi⟩ := iha ha x
    obtain ⟨j, hj⟩ := ihb hb y
    obtain ⟨k, hk⟩ := ihc hc z
    exact ⟨.array [i, j, k], by rw [toItem, hi, hj, hk]; rfl⟩
  | guarded => cases h
  | integer | float | flag | text | inventory => exact ⟨_, rfl⟩

/-- Payloads of exact types are explicit. -/
theorem isExplicit_of_isExact {t : PayloadType} (h : t.isExact = true) (v : t.Carrier) :
    t.IsExplicit v := by
  induction t with
  | optional t ih =>
    rw [isExact, Bool.and_eq_true, Bool.not_eq_true'] at h
    obtain ⟨hoptional, hexact⟩ := h
    cases v with
    | none => trivial
    | some v => exact ⟨isNull_eq_false hoptional v, ih hexact v⟩
  | list t ih => exact List.forall_iff_forall_mem.mpr fun v _ => ih h v
  | triple a b c iha ihb ihc =>
    rw [isExact, Bool.and_eq_true, Bool.and_eq_true] at h
    exact ⟨iha h.1.1 v.1, ihb h.1.2 v.2.1, ihc h.2 v.2.2⟩
  | integer | float | flag | text | inventory | guarded => trivial

end PayloadType

namespace Payload

variable {t : PayloadType}

/-- A payload of an exact type is stored as the length of its body and the body, and read back. -/
theorem serialize_of_isExact (hexact : t.isExact = true) (hdepth : t.depth ≤ nestingLimit)
    (v : t.Carrier) :
    ∃ item, t.toItem v = .ok item ∧ (item.write.length < 2 ^ 32 →
      ∃ bytes, serialize t v = .ok bytes ∧
        bytes = bigEndian headerSize item.write.length ++ item.write ∧
        ∃ w, deserialize t bytes = .ok w ∧ t.Restores v w) := by
  obtain ⟨item, hitem⟩ := PayloadType.exists_toItem hexact v
  refine ⟨item, hitem, fun hlength => ?_⟩
  have hserialize :
      serialize t v = .ok (bigEndian headerSize item.write.length ++ item.write) := by
    rw [serialize, hitem]
    exact if_pos hlength
  exact ⟨_, hserialize, rfl, _,
    deserialize_serialize ((t.nesting_le_depth v).trans hdepth) hserialize,
    PayloadType.restores_canonical_iff.mpr (PayloadType.isExplicit_of_isExact hexact v)⟩

/-- **Payloads are stored behind their length and restored.** Every payload of the types of records
has a body. If that is shorter than four bytes can tell, then serializing succeeds and gives the
length in four bytes, most significant first, and the body; and deserializing these bytes gives the
payload back, with canonical NaNs. -/
theorem serialize_restores (ht : t ∈ PayloadType.ofRecords) (v : t.Carrier) :
    ∃ item, t.toItem v = .ok item ∧ (item.write.length < 2 ^ 32 →
      ∃ bytes, serialize t v = .ok bytes ∧
        (bytes.take 4).length = 4 ∧ ofBigEndian (bytes.take 4) = (bytes.drop 4).length ∧
        bytes.drop 4 = item.write ∧
        ∃ w, deserialize t bytes = .ok w ∧ t.Restores v w) := by
  have hexact : ∀ t ∈ PayloadType.ofRecords, t.isExact = true ∧ t.depth ≤ nestingLimit := by
    decide
  obtain ⟨item, hitem, hrestores⟩ :=
    serialize_of_isExact (hexact t ht).1 (hexact t ht).2 v
  refine ⟨item, hitem, fun hlength => ?_⟩
  obtain ⟨bytes, hbytes, rfl, w, hw, hrestored⟩ := hrestores hlength
  have hheader := length_bigEndian headerSize item.write.length
  have htake : (bigEndian headerSize item.write.length ++ item.write).take 4 =
      bigEndian headerSize item.write.length := List.take_left' hheader
  have hdrop : (bigEndian headerSize item.write.length ++ item.write).drop 4 = item.write :=
    List.drop_left' hheader
  refine ⟨_, hbytes, ?_, ?_, hdrop, w, hw, hrestored⟩
  · rw [htake, hheader]
    rfl
  · rw [htake, hdrop]
    exact ofBigEndian_bigEndian hlength

/-- A NaN with a sign and bits of its own, the negative zero, the least number above zero, which
takes eight bytes, and one and a half, which takes two. -/
def oddFloats : List Binary64 :=
  [⟨0xfff4000000000001⟩, ⟨0x8000000000000000⟩, ⟨1⟩, ⟨0x3ff8000000000000⟩]

/-- The NaN comes back as the canonical one, and the other floats as they are. -/
theorem serialize_restores_oddFloats :
    ∃ w, serialize (.list .float) oddFloats = .ok [0, 0, 0, 19, 0x84, 0xf9, 0x7e, 0, 0xf9, 0x80, 0,
        0xfb, 0, 0, 0, 0, 0, 0, 0, 1, 0xf9, 0x3e, 0] ∧
      deserialize (.list .float) [0, 0, 0, 19, 0x84, 0xf9, 0x7e, 0, 0xf9, 0x80, 0,
        0xfb, 0, 0, 0, 0, 0, 0, 0, 1, 0xf9, 0x3e, 0] = .ok w ∧
      (PayloadType.list .float).Restores oddFloats w := by
  have hserialize : serialize (.list .float) oddFloats = .ok [0, 0, 0, 19, 0x84, 0xf9, 0x7e, 0,
      0xf9, 0x80, 0, 0xfb, 0, 0, 0, 0, 0, 0, 0, 1, 0xf9, 0x3e, 0] := by
    decide +kernel
  obtain ⟨item, hitem, hrestores⟩ := serialize_restores (t := .list .float) (by decide) oddFloats
  cases hitem
  obtain ⟨bytes, hbytes, -, -, -, w, hw, hrestored⟩ := hrestores (by decide +kernel)
  cases hserialize.symm.trans hbytes
  exact ⟨w, hserialize, hw, hrestored⟩

/-! ### Payloads that are not restored -/

/-- The bytes of a flag that is present and nothing. -/
def hiddenNone : List UInt8 := [0, 0, 0, 1, 0xf6]

/-- A flag that is present and nothing is written as nothing, which is what it is read back as. -/
theorem deserialize_hiddenNone :
    serialize (.optional (.optional .flag)) (some none : Option (Option Bool)) = .ok hiddenNone ∧
      deserialize (.optional (.optional .flag)) hiddenNone = .ok (none : Option (Option Bool)) := by
  have hserialize : serialize (.optional (.optional .flag)) (some none : Option (Option Bool)) =
      .ok hiddenNone := rfl
  exact ⟨hserialize, deserialize_serialize (by decide) hserialize⟩

/-- The bytes of a flag inside more lists than the reader goes. -/
def deepFlag : List UInt8 := [0, 0, 0, 129] ++ (List.replicate 128 0x81 ++ [0xf5])

/-- A flag inside more lists than the reader goes is written and not read back. -/
theorem deserialize_deepFlag :
    serialize (.lists 128) (PayloadType.within 128) = .ok deepFlag ∧
      deserialize (.lists 128) deepFlag = .error .malformedBody := by
  have hbody : unframe deepFlag = .ok (List.replicate 128 0x81 ++ [0xf5]) := by decide +kernel
  have hread : read? (List.replicate 128 0x81 ++ [0xf5]) = none := by decide +kernel
  refine ⟨by decide +kernel, ?_⟩
  rw [deserialize, hbody]
  simp only [bind, Except.bind, hread]
  rfl

end Payload

end SqlRecord
