import SqlRecord.Cbor.Reader
import Mathlib

/-!
# CBOR items read back

The bytes of an item are read back as that item, whatever bytes follow, if its numbers have 64 bits
and it nests no deeper than the reader goes (`Cbor.Item.Fits`). Only a NaN comes back as another
one, the canonical NaN (`Cbor.Item.canonical`). Main statement: `Cbor.read?_write`.
-/

namespace SqlRecord

namespace Cbor

/-! ### Bytes -/

theorem length_bigEndian (width n : Nat) : (bigEndian width n).length = width := by
  induction width with
  | zero => rfl
  | succ width ih => rw [bigEndian, List.length_cons, ih]

/-- The bytes of a number, read after others, move those up and add the number. -/
theorem foldl_bigEndian (width n acc : Nat) :
    (bigEndian width n).foldl (fun n b => 256 * n + b.toNat) acc =
      acc * 256 ^ width + n % 256 ^ width := by
  induction width generalizing acc with
  | zero => simp [bigEndian, Nat.mod_one]
  | succ width ih =>
    have hbyte : (UInt8.ofNat (n / 256 ^ width)).toNat = n / 256 ^ width % 256 :=
      UInt8.toNat_ofNat'
    rw [bigEndian, List.foldl_cons, ih, hbyte, Nat.mod_pow_succ]
    ring

/-- **A number of no more than the given bytes reads back from them.** -/
theorem ofBigEndian_bigEndian {width n : Nat} (h : n < 256 ^ width) :
    ofBigEndian (bigEndian width n) = n := by
  rw [ofBigEndian, foldl_bigEndian, Nat.zero_mul, Nat.zero_add, Nat.mod_eq_of_lt h]

/-- A reader that takes as many bytes as are in front takes exactly these. -/
theorem splitBytes_append (content rest : List UInt8) :
    splitBytes content.length (content ++ rest) = some (content, rest) := by
  rw [splitBytes, if_pos (by simp), List.splitAt_eq, List.take_left, List.drop_left]

theorem text?_textBytes (s : String) : text? (textBytes s) = some s := by
  rw [text?, textBytes, Array.toArray_toList]
  exact dif_pos s.isValidUTF8

/-! ### Heads -/

/-- An argument of one of the four widths is read back from its bytes. -/
theorem argument_bigEndian {info width n : Nat}
    (h : (info, width) ∈ [(24, 1), (25, 2), (26, 4), (27, 8)]) (hn : n < 256 ^ width)
    (rest : List UInt8) : argument info (bigEndian width n ++ rest) = some (n, rest) := by
  have hsplit := splitBytes_append (bigEndian width n) rest
  rw [length_bigEndian] at hsplit
  simp only [List.mem_cons, Prod.mk.injEq, List.not_mem_nil, or_false] at h
  rcases h with ⟨rfl, rfl⟩ | ⟨rfl, rfl⟩ | ⟨rfl, rfl⟩ | ⟨rfl, rfl⟩ <;>
    simp [argument, hsplit, ofBigEndian_bigEndian hn]

/-- The upper three bits of an initial byte are its major type. -/
theorem majorType_ofNat {major info : Nat} (hmajor : major < 8) (hinfo : info < 32) :
    majorType (UInt8.ofNat (32 * major + info)) = major := by
  rw [majorType, UInt8.toNat_ofNat']
  omega

/-- The lower five bits of an initial byte are its additional information. -/
theorem additional_ofNat (major : Nat) {info : Nat} (hinfo : info < 32) :
    additional (UInt8.ofNat (32 * major + info)) = info := by
  rw [additional, UInt8.toNat_ofNat']
  omega

/-- Whether bytes are a head: a byte with the major type, and digits from which the argument is
read. -/
def IsHead (major n : Nat) (bytes : List UInt8) : Prop :=
  ∃ first digits, bytes = first :: digits ∧ majorType first = major ∧
    additional first ≠ indefinite ∧
    ∀ rest, argument (additional first) (digits ++ rest) = some (n, rest)

variable {major info width n : Nat}

/-- An argument below 24 stands in the initial byte. -/
theorem isHead_short (hmajor : major < 8) (hn : n < 24) :
    IsHead major n [UInt8.ofNat (32 * major + n)] := by
  have hadditional := additional_ofNat major (show n < 32 by omega)
  refine ⟨_, [], rfl, majorType_ofNat hmajor (by omega), ?_, fun rest => ?_⟩
  · rw [hadditional, indefinite]
    omega
  · rw [hadditional, argument]
    simp [hn]

/-- A wider argument stands in the bytes after the initial one. -/
theorem isHead_wide (hmajor : major < 8)
    (h : (info, width) ∈ [(24, 1), (25, 2), (26, 4), (27, 8)]) (hn : n < 256 ^ width) :
    IsHead major n (UInt8.ofNat (32 * major + info) :: bigEndian width n) := by
  have hinfo : info < 28 := by
    simp only [List.mem_cons, Prod.mk.injEq, List.not_mem_nil, or_false] at h
    omega
  have hadditional := additional_ofNat major (show info < 32 by omega)
  refine ⟨_, _, rfl, majorType_ofNat hmajor (by omega), ?_, fun rest => ?_⟩
  · rw [hadditional, indefinite]
    omega
  · rw [hadditional]
    exact argument_bigEndian h hn rest

/-- **A head is read back.** -/
theorem isHead_head (hmajor : major < 8) (hn : n < 2 ^ 64) : IsHead major n (head major n) := by
  rw [head]
  split_ifs with h₀ h₁ h₂ h₄
  · exact isHead_short hmajor h₀
  · exact isHead_wide hmajor (by simp) h₁
  · exact isHead_wide hmajor (by simp) h₂
  · exact isHead_wide hmajor (by simp) h₄
  · exact isHead_wide hmajor (by simp) hn

/-! ### Floats -/

theorem ofBits_toNat {f : Format} (x : Floating f) :
    (⟨BitVec.ofNat f.width x.bits.toNat⟩ : Floating f) = x := by
  rw [BitVec.ofNat_toNat, BitVec.setWidth_eq]

theorem splitBytes_bigEndian (width n : Nat) (rest : List UInt8) :
    splitBytes width (bigEndian width n ++ rest) = some (bigEndian width n, rest) := by
  have hsplit := splitBytes_append (bigEndian width n) rest
  rwa [length_bigEndian] at hsplit

/-- The narrowest exact form of a number is read as that number, and that of a NaN as the canonical
one. -/
theorem convert_half {x : Binary64}
    (h : (x.isNaN || (x.convert .binary16).convert .binary64 == x) = true) :
    (x.convert .binary16).convert .binary64 = x.canonical := by
  cases hnan : x.isNaN with
  | true =>
    have hdatum : x.datum = .nan := by
      rw [Floating.datum]
      exact if_pos (of_decide_eq_true hnan)
    rw [Floating.canonical, if_pos hnan, Floating.convert.eq_def .binary16, hdatum]
    decide
  | false =>
    rw [hnan, Bool.false_or, beq_iff_eq] at h
    rw [h, Floating.canonical, if_neg (by simp [hnan])]

/-- **A float is read back**, or the canonical NaN for a NaN. -/
theorem simple_writeFloat (x : Binary64) :
    ∃ info digits, writeFloat x = UInt8.ofNat (32 * 7 + info) :: digits ∧ info < 32 ∧
      ∀ rest, simple info (digits ++ rest) = some (.float x.canonical, rest) := by
  rw [writeFloat]
  by_cases hhalf : (x.isNaN || (x.convert .binary16).convert .binary64 == x) = true
  · have hlt : (x.convert .binary16).bits.toNat < 256 ^ 2 := (x.convert .binary16).bits.isLt
    refine ⟨25, _, if_pos hhalf, by decide, fun rest => ?_⟩
    simp only [simple, splitBytes_bigEndian, Option.bind_eq_bind, Option.bind_some,
      ofBigEndian_bigEndian hlt, ofBits_toNat, convert_half hhalf]
    rfl
  have hnan : x.isNaN = false := by simp_all
  have hcanonical : x.canonical = x := by rw [Floating.canonical, if_neg (by simp [hnan])]
  by_cases hsingle : ((x.convert .binary32).convert .binary64 == x) = true
  · have hlt : (x.convert .binary32).bits.toNat < 256 ^ 4 := (x.convert .binary32).bits.isLt
    refine ⟨26, _, (if_neg hhalf).trans (if_pos hsingle), by decide, fun rest => ?_⟩
    simp only [simple, splitBytes_bigEndian, Option.bind_eq_bind, Option.bind_some,
      ofBigEndian_bigEndian hlt, ofBits_toNat, beq_iff_eq.mp hsingle, hcanonical]
    rfl
  · have hlt : x.bits.toNat < 256 ^ 8 := x.bits.isLt
    refine ⟨27, _, (if_neg hhalf).trans (if_neg hsingle), by decide, fun rest => ?_⟩
    simp only [simple, splitBytes_bigEndian, Option.bind_eq_bind, Option.bind_some,
      ofBigEndian_bigEndian hlt, hcanonical]
    rw [ofBits_toNat]
    rfl

/-! ### Items -/

mutual

/-- The item with every NaN replaced by the canonical one. -/
def Item.canonical : Item → Item
  | .float x => .float x.canonical
  | .array items => .array (canonicalItems items)
  | .map entries => .map (canonicalEntries entries)
  | .tagged item => .tagged item.canonical
  | item => item

/-- The items with canonical NaNs. -/
def canonicalItems : List Item → List Item
  | [] => []
  | item :: items => item.canonical :: canonicalItems items

/-- The keys and values with canonical NaNs. -/
def canonicalEntries : List (Item × Item) → List (Item × Item)
  | [] => []
  | (key, value) :: entries => (key.canonical, value.canonical) :: canonicalEntries entries

end

mutual

/-- Whether the integers of an item have 64 bits, and it nests at most as deep as stated. -/
def Item.Fits (depth : Nat) : Item → Prop
  | .unsigned n => n < 2 ^ 64
  | .negative n => n < 2 ^ 64
  | .array items => 0 < depth ∧ FitItems (depth - 1) items
  | .map entries => 0 < depth ∧ FitEntries (depth - 1) entries
  | .tagged item => 0 < depth ∧ item.Fits (depth - 1)
  | _ => True

/-- Whether each of the items fits. -/
def FitItems (depth : Nat) : List Item → Prop
  | [] => True
  | item :: items => item.Fits depth ∧ FitItems depth items

/-- Whether each of the keys and values fits. -/
def FitEntries (depth : Nat) : List (Item × Item) → Prop
  | [] => True
  | (key, value) :: entries => key.Fits depth ∧ value.Fits depth ∧ FitEntries depth entries

end

/-! ### Round trip -/

/-- A string of a definite length is what stands after its head. -/
theorem stringContent_append {major : Nat} {first : UInt8} {digits content : List UInt8}
    (hdefinite : additional first ≠ indefinite)
    (hargument : ∀ rest, argument (additional first) (digits ++ rest) =
      some (content.length, rest)) (rest : List UInt8) :
    stringContent major (additional first) (digits ++ (content ++ rest)) =
      some (content, rest) := by
  rw [stringContent, if_neg hdefinite, hargument]
  exact splitBytes_append content rest

/-- Every item is written with one byte at least, its initial one. -/
theorem write_ne_nil (item : Item) : item.write ≠ [] := by
  have hhead : ∀ major n, head major n ≠ [] := fun major n => by
    rw [head]
    split_ifs <;> simp
  cases item with
  | bool b => cases b <;> simp [Item.write]
  | null => simp [Item.write]
  | undefined => simp [Item.write]
  | float x =>
    obtain ⟨info, digits, h, -⟩ := simple_writeFloat x
    simp [Item.write, h]
  | unsigned n => simpa [Item.write] using hhead 0 n
  | negative n => simpa [Item.write] using hhead 1 n
  | bytes content => simp [Item.write, hhead]
  | text content => simp [Item.write, hhead]
  | array items => simp [Item.write, hhead]
  | map entries => simp [Item.write, hhead]
  | tagged item => simp [Item.write, hhead]

/-- An item of major type seven is read by its additional information alone. -/
theorem readItem_simple (fuel depth : Nat) {first : UInt8} (bytes : List UInt8)
    (h : majorType first = 7) :
    readItem (fuel + 1) depth (first :: bytes) = simple (additional first) bytes := by
  rw [readItem, h]
  rfl

/-- There are no more items than bytes, so fuel for the bytes is enough for the items. -/
theorem length_items_le (items : List Item) : items.length ≤ (writeItems items).length := by
  induction items with
  | nil => exact Nat.zero_le _
  | cons item items ih =>
    have hpos := List.length_pos_iff.mpr (write_ne_nil item)
    rw [writeItems, List.length_cons, List.length_append]
    omega

/-- There are no more entries than bytes. -/
theorem length_entries_le (entries : List (Item × Item)) :
    entries.length ≤ (writeEntries entries).length := by
  induction entries with
  | nil => exact Nat.zero_le _
  | cons entry entries ih =>
    have hpos := List.length_pos_iff.mpr (write_ne_nil entry.1)
    rw [writeEntries, List.length_cons, List.length_append, List.length_append]
    omega

mutual

/-- **An item is read back, whatever follows it.** Every level of reading takes a byte of the item,
so that twice as much fuel as there are bytes is enough. -/
theorem readItem_write (fuel : Nat) {depth : Nat} {item : Item} (rest : List UInt8)
    (hfits : item.Fits depth) (hlength : item.write.length < 2 ^ 64)
    (hfuel : 2 * item.write.length ≤ fuel + 1) :
    readItem fuel depth (item.write ++ rest) = some (item.canonical, rest) := by
  have hpos := List.length_pos_iff.mpr (write_ne_nil item)
  obtain ⟨fuel, rfl⟩ : ∃ k, fuel = k + 1 := ⟨fuel - 1, by omega⟩
  match item with
  | .unsigned n =>
    obtain ⟨first, digits, hhead, hmajor, -, hargument⟩ := isHead_head (by decide : 0 < 8) hfits
    rw [Item.write, hhead, List.cons_append, readItem, hmajor]
    simp only [hargument, Option.map_some, Item.canonical]
  | .negative n =>
    obtain ⟨first, digits, hhead, hmajor, -, hargument⟩ := isHead_head (by decide : 1 < 8) hfits
    rw [Item.write, hhead, List.cons_append, readItem, hmajor]
    simp only [hargument, Option.map_some, Item.canonical]
  | .bytes content =>
    rw [Item.write, List.length_append] at hlength
    obtain ⟨first, digits, hhead, hmajor, hdefinite, hargument⟩ :=
      isHead_head (by decide : 2 < 8) (show content.length < 2 ^ 64 by omega)
    rw [Item.write, hhead, List.cons_append, List.cons_append, List.append_assoc, readItem, hmajor]
    simp only [stringContent_append hdefinite hargument, Option.map_some, Item.canonical]
  | .text content =>
    rw [Item.write, List.length_append] at hlength
    obtain ⟨first, digits, hhead, hmajor, hdefinite, hargument⟩ :=
      isHead_head (by decide : 3 < 8) (show (textBytes content).length < 2 ^ 64 by omega)
    rw [Item.write, hhead, List.cons_append, List.cons_append, List.append_assoc, readItem, hmajor]
    simp only [stringContent_append hdefinite hargument, Option.bind_eq_bind, Option.bind_some,
      text?_textBytes, Item.canonical]
    rfl
  | .array items =>
    rw [Item.write, List.length_append] at hlength hfuel
    have hitems := length_items_le items
    obtain ⟨first, digits, hhead, hmajor, hdefinite, hargument⟩ :=
      isHead_head (by decide : 4 < 8) (show items.length < 2 ^ 64 by omega)
    obtain ⟨hdepth, hfits⟩ := hfits
    rw [hhead, List.length_cons] at hfuel
    rw [Item.write, hhead, List.cons_append, List.cons_append, List.append_assoc, readItem, hmajor]
    simp only [if_neg hdepth.ne', if_neg hdefinite, hargument, Option.bind_eq_bind,
      Option.bind_some, readItems_write fuel rest hfits (by omega) (by omega), Item.canonical]
    rfl
  | .map entries =>
    rw [Item.write, List.length_append] at hlength hfuel
    have hentries := length_entries_le entries
    obtain ⟨first, digits, hhead, hmajor, hdefinite, hargument⟩ :=
      isHead_head (by decide : 5 < 8) (show entries.length < 2 ^ 64 by omega)
    obtain ⟨hdepth, hfits⟩ := hfits
    rw [hhead, List.length_cons] at hfuel
    rw [Item.write, hhead, List.cons_append, List.cons_append, List.append_assoc, readItem, hmajor]
    simp only [if_neg hdepth.ne', if_neg hdefinite, hargument, Option.bind_eq_bind,
      Option.bind_some, readEntries_write fuel rest hfits (by omega) (by omega), Item.canonical]
    rfl
  | .tagged item =>
    rw [Item.write, List.length_append] at hlength hfuel
    obtain ⟨first, digits, hhead, hmajor, -, hargument⟩ :=
      isHead_head (by decide : 6 < 8) (by decide : 0 < 2 ^ 64)
    obtain ⟨hdepth, hfits⟩ := hfits
    rw [hhead, List.length_cons] at hfuel
    rw [Item.write, hhead, List.cons_append, List.cons_append, List.append_assoc, readItem, hmajor]
    simp only [if_neg hdepth.ne', hargument, Option.bind_eq_bind, Option.bind_some,
      readItem_write fuel rest hfits (by omega) (by omega), Item.canonical]
    rfl
  | .bool false => exact readItem_simple fuel depth rest (by decide : majorType 0xf4 = 7)
  | .bool true => exact readItem_simple fuel depth rest (by decide : majorType 0xf5 = 7)
  | .null => exact readItem_simple fuel depth rest (by decide : majorType 0xf6 = 7)
  | .undefined => exact readItem_simple fuel depth rest (by decide : majorType 0xf7 = 7)
  | .float x =>
    obtain ⟨info, digits, hwrite, hinfo, hsimple⟩ := simple_writeFloat x
    rw [Item.write, hwrite, List.cons_append,
      readItem_simple fuel depth _ (majorType_ofNat (by decide) hinfo), additional_ofNat _ hinfo,
      hsimple, Item.canonical]

/-- The items of an array are read one after another, each up to the start of the next. -/
theorem readItems_write (fuel : Nat) {depth : Nat} {items : List Item} (rest : List UInt8)
    (hfits : FitItems depth items) (hlength : (writeItems items).length < 2 ^ 64)
    (hfuel : 2 * (writeItems items).length ≤ fuel) :
    readItems fuel depth items.length (writeItems items ++ rest) =
      some (canonicalItems items, rest) := by
  match items with
  | [] =>
    rw [List.length_nil, readItems, writeItems, canonicalItems, List.nil_append]
  | item :: items =>
    have hpos := List.length_pos_iff.mpr (write_ne_nil item)
    obtain ⟨hitem, hfits⟩ := hfits
    rw [writeItems, List.length_append] at hlength hfuel
    obtain ⟨fuel, rfl⟩ : ∃ k, fuel = k + 1 := ⟨fuel - 1, by omega⟩
    rw [writeItems, List.append_assoc, List.length_cons, readItems]
    simp only [readItem_write fuel _ hitem (by omega) (by omega), Option.bind_eq_bind,
      Option.bind_some, readItems_write fuel rest hfits (by omega) (by omega), canonicalItems]
    rfl

/-- The entries of a map are read one after another, each as its key and then its value. -/
theorem readEntries_write (fuel : Nat) {depth : Nat} {entries : List (Item × Item)}
    (rest : List UInt8) (hfits : FitEntries depth entries)
    (hlength : (writeEntries entries).length < 2 ^ 64)
    (hfuel : 2 * (writeEntries entries).length ≤ fuel) :
    readEntries fuel depth entries.length (writeEntries entries ++ rest) =
      some (canonicalEntries entries, rest) := by
  match entries with
  | [] =>
    rw [List.length_nil, readEntries, writeEntries, canonicalEntries, List.nil_append]
  | (key, value) :: entries =>
    have hpos := List.length_pos_iff.mpr (write_ne_nil key)
    obtain ⟨hkey, hvalue, hfits⟩ := hfits
    rw [writeEntries, List.length_append, List.length_append] at hlength hfuel
    obtain ⟨fuel, rfl⟩ : ∃ k, fuel = k + 1 := ⟨fuel - 1, by omega⟩
    rw [writeEntries, List.append_assoc, List.append_assoc, List.length_cons, readEntries]
    simp only [readItem_write fuel _ hkey (by omega) (by omega),
      readItem_write fuel _ hvalue (by omega) (by omega), Option.bind_eq_bind, Option.bind_some,
      readEntries_write fuel rest hfits (by omega) (by omega), canonicalEntries]
    rfl

end

/-- **The bytes of an item are read as that item**, with canonical NaNs. -/
theorem read?_write {item : Item} (hfits : item.Fits nestingLimit)
    (hlength : item.write.length < 2 ^ 64) : read? item.write = some item.canonical := by
  have h := readItem_write (2 * item.write.length + 2) [] hfits hlength (by omega)
  rw [List.append_nil] at h
  rw [read?, h]

end Cbor

end SqlRecord
