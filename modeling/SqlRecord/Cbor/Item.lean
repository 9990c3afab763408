import SqlRecord.Floating.Basic

/-!
# CBOR data items

The tree that a CBOR text describes, and its canonical bytes: `Item.write` uses the shortest head
for every length and integer and the narrowest float that holds a number exactly. The number of a
tag is not kept, for no payload depends on it; that an item was tagged is.
-/

namespace SqlRecord

namespace Cbor

/-- A CBOR data item. `negative n` denotes `-1 - n`. -/
inductive Item where
  | unsigned (n : Nat)
  | negative (n : Nat)
  | bytes (content : List UInt8)
  | text (content : String)
  | array (items : List Item)
  | map (entries : List (Item × Item))
  | tagged (item : Item)
  | bool (b : Bool)
  | null
  | undefined
  | float (x : Binary64)

namespace Item

/-- The item below any tags. -/
def untagged : Item → Item
  | tagged item => item.untagged
  | item => item

/-- The item of an integer. -/
def ofInt : Int → Item
  | .ofNat n => unsigned n
  | .negSucc n => negative n

end Item

/-- The `width` low bytes of `n`, most significant first. -/
def bigEndian : Nat → Nat → List UInt8
  | 0, _ => []
  | width + 1, n => UInt8.ofNat (n / 256 ^ width) :: bigEndian width n

/-- The number that a run of bytes denotes, most significant first. -/
def ofBigEndian (bytes : List UInt8) : Nat := bytes.foldl (fun n b => 256 * n + b.toNat) 0

/-- The shortest head with a major type and an argument. -/
def head (major argument : Nat) : List UInt8 :=
  let first := fun info => UInt8.ofNat (32 * major + info)
  if argument < 24 then [first argument]
  else if argument < 0x100 then first 24 :: bigEndian 1 argument
  else if argument < 0x10000 then first 25 :: bigEndian 2 argument
  else if argument < 0x100000000 then first 26 :: bigEndian 4 argument
  else first 27 :: bigEndian 8 argument

/-- The bytes of a text in UTF-8. -/
def textBytes (s : String) : List UInt8 := s.toUTF8.data.toList

/-- The bytes of a number in the narrowest format that holds it exactly. -/
def writeFloat (x : Binary64) : List UInt8 :=
  let half := x.convert .binary16
  let single := x.convert .binary32
  if x.isNaN || half.convert .binary64 == x then 0xf9 :: bigEndian 2 half.bits.toNat
  else if single.convert .binary64 == x then 0xfa :: bigEndian 4 single.bits.toNat
  else 0xfb :: bigEndian 8 x.bits.toNat

mutual

/-- The canonical bytes of an item. A tag is written as number zero. -/
def Item.write : Item → List UInt8
  | .unsigned n => head 0 n
  | .negative n => head 1 n
  | .bytes content => head 2 content.length ++ content
  | .text content => head 3 (textBytes content).length ++ textBytes content
  | .array items => head 4 items.length ++ writeItems items
  | .map entries => head 5 entries.length ++ writeEntries entries
  | .tagged item => head 6 0 ++ item.write
  | .bool false => [0xf4]
  | .bool true => [0xf5]
  | .null => [0xf6]
  | .undefined => [0xf7]
  | .float x => writeFloat x

/-- The bytes of the items one after the other. -/
def writeItems : List Item → List UInt8
  | [] => []
  | item :: items => item.write ++ writeItems items

/-- The bytes of the keys and values in turn. -/
def writeEntries : List (Item × Item) → List UInt8
  | [] => []
  | (key, value) :: entries => key.write ++ value.write ++ writeEntries entries

end

end Cbor

end SqlRecord
