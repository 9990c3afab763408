import SqlRecord.Cbor.Item

/-!
# Reading CBOR

`Cbor.read?` reads one data item that takes up all the bytes. Heads may be longer than needed, and
arrays, maps and strings may have no stated length. Arrays, maps and tags nest at most
`nestingLimit` deep. Every step of the reader takes at least one byte, so twice the number of
bytes bounds the depth of its recursion.
-/

namespace SqlRecord

namespace Cbor

/-- How deep arrays, maps and tags may nest. -/
def nestingLimit : Nat := 127

/-- The major type of a head's first byte. -/
def majorType (b : UInt8) : Nat := b.toNat / 32

/-- The low bits of a head's first byte: an argument below 24, or where the argument is. -/
def additional (b : UInt8) : Nat := b.toNat % 32

/-- The mark of an item without a stated length. -/
def indefinite : Nat := 31

/-- The byte that ends an item without a stated length. -/
def breakByte : UInt8 := 0xff

/-- The first `n` bytes and the rest, if there are that many. -/
def splitBytes (n : Nat) (bytes : List UInt8) : Option (List UInt8 × List UInt8) :=
  if n ≤ bytes.length then some (bytes.splitAt n) else none

/-- The argument of a head, from its low bits and the bytes after its first. -/
def argument (info : Nat) (bytes : List UInt8) : Option (Nat × List UInt8) := do
  if info < 24 then return (info, bytes)
  let width ← match info with
    | 24 => some 1
    | 25 => some 2
    | 26 => some 4
    | 27 => some 8
    | _ => none
  let (digits, rest) ← splitBytes width bytes
  return (ofBigEndian digits, rest)

/-- The content of a string without a stated length: chunks of the same major type, each of a
stated length, up to the break. -/
def chunks (major : Nat) : Nat → List UInt8 → Option (List UInt8 × List UInt8)
  | 0, _ => none
  | _, [] => none
  | fuel + 1, b :: bytes => do
    if b = breakByte then return ([], bytes)
    if majorType b ≠ major then none
    let (length, bytes) ← argument (additional b) bytes
    let (chunk, bytes) ← splitBytes length bytes
    let (more, bytes) ← chunks major fuel bytes
    return (chunk ++ more, bytes)

/-- The content of a string, with or without a stated length. -/
def stringContent (major info : Nat) (bytes : List UInt8) : Option (List UInt8 × List UInt8) :=
  if info = indefinite then chunks major (bytes.length + 1) bytes
  else do
    let (length, bytes) ← argument info bytes
    splitBytes length bytes

/-- The text that bytes are in UTF-8, if they are. -/
def text? (bytes : List UInt8) : Option String := String.fromUTF8? ⟨bytes.toArray⟩

/-- The item of a head of major type seven. -/
def simple (info : Nat) (bytes : List UInt8) : Option (Item × List UInt8) := do
  match info with
  | 20 => return (.bool false, bytes)
  | 21 => return (.bool true, bytes)
  | 22 => return (.null, bytes)
  | 23 => return (.undefined, bytes)
  | 25 =>
    let (digits, bytes) ← splitBytes 2 bytes
    return (.float (Floating.convert .binary64
      (⟨BitVec.ofNat _ (ofBigEndian digits)⟩ : Binary16)), bytes)
  | 26 =>
    let (digits, bytes) ← splitBytes 4 bytes
    return (.float (Floating.convert .binary64
      (⟨BitVec.ofNat _ (ofBigEndian digits)⟩ : Binary32)), bytes)
  | 27 =>
    let (digits, bytes) ← splitBytes 8 bytes
    return (.float ⟨BitVec.ofNat _ (ofBigEndian digits)⟩, bytes)
  | _ => none

mutual

/-- Reads one item; `depth` levels may still open. -/
def readItem (fuel depth : Nat) (bytes : List UInt8) : Option (Item × List UInt8) :=
  match fuel, bytes with
  | 0, _ => none
  | _, [] => none
  | fuel + 1, b :: bytes =>
    let info := additional b
    match majorType b with
    | 0 => (argument info bytes).map fun (n, bytes) => (.unsigned n, bytes)
    | 1 => (argument info bytes).map fun (n, bytes) => (.negative n, bytes)
    | 2 => (stringContent 2 info bytes).map fun (content, bytes) => (.bytes content, bytes)
    | 3 => do
      let (content, bytes) ← stringContent 3 info bytes
      return (.text (← text? content), bytes)
    | 4 => do
      if depth = 0 then none
      if info = indefinite then
        let (items, bytes) ← readItemsToBreak fuel (depth - 1) bytes
        return (.array items, bytes)
      let (count, bytes) ← argument info bytes
      let (items, bytes) ← readItems fuel (depth - 1) count bytes
      return (.array items, bytes)
    | 5 => do
      if depth = 0 then none
      if info = indefinite then
        let (entries, bytes) ← readEntriesToBreak fuel (depth - 1) bytes
        return (.map entries, bytes)
      let (count, bytes) ← argument info bytes
      let (entries, bytes) ← readEntries fuel (depth - 1) count bytes
      return (.map entries, bytes)
    | 6 => do
      if depth = 0 then none
      let (_, bytes) ← argument info bytes
      let (item, bytes) ← readItem fuel (depth - 1) bytes
      return (.tagged item, bytes)
    | _ => simple info bytes

/-- Reads a stated number of items. -/
def readItems (fuel depth count : Nat) (bytes : List UInt8) : Option (List Item × List UInt8) :=
  match fuel, count with
  | _, 0 => some ([], bytes)
  | 0, _ => none
  | fuel + 1, count + 1 => do
    let (item, bytes) ← readItem fuel depth bytes
    let (items, bytes) ← readItems fuel depth count bytes
    return (item :: items, bytes)

/-- Reads items up to the break. -/
def readItemsToBreak (fuel depth : Nat) (bytes : List UInt8) : Option (List Item × List UInt8) :=
  match fuel with
  | 0 => none
  | fuel + 1 => do
    if bytes.head? = some breakByte then return ([], bytes.tail)
    let (item, bytes) ← readItem fuel depth bytes
    let (items, bytes) ← readItemsToBreak fuel depth bytes
    return (item :: items, bytes)

/-- Reads a stated number of keys with their values. -/
def readEntries (fuel depth count : Nat) (bytes : List UInt8) :
    Option (List (Item × Item) × List UInt8) :=
  match fuel, count with
  | _, 0 => some ([], bytes)
  | 0, _ => none
  | fuel + 1, count + 1 => do
    let (key, bytes) ← readItem fuel depth bytes
    let (value, bytes) ← readItem fuel depth bytes
    let (entries, bytes) ← readEntries fuel depth count bytes
    return ((key, value) :: entries, bytes)

/-- Reads keys with their values up to the break. -/
def readEntriesToBreak (fuel depth : Nat) (bytes : List UInt8) :
    Option (List (Item × Item) × List UInt8) :=
  match fuel with
  | 0 => none
  | fuel + 1 => do
    if bytes.head? = some breakByte then return ([], bytes.tail)
    let (key, bytes) ← readItem fuel depth bytes
    let (value, bytes) ← readItem fuel depth bytes
    let (entries, bytes) ← readEntriesToBreak fuel depth bytes
    return ((key, value) :: entries, bytes)

end

/-- Reads one item that takes up all the bytes. -/
def read? (bytes : List UInt8) : Option Item :=
  match readItem (2 * bytes.length + 2) nestingLimit bytes with
  | some (item, []) => some item
  | _ => none

end Cbor

end SqlRecord
