import SqlRecord.Cbor.Reader
import SqlRecord.Error
import SqlRecord.Field.Integer
import SqlRecord.Payload.OrderedMap

/-!
# BLOB payloads

The structured values that a BLOB column can hold, as a small universe: `PayloadType` lists the
types, `PayloadType.Carrier` gives the values of each, and `toItem` and `ofItem?` relate these to
CBOR items by recursion on the type. Reading is lenient where the format is: tags do not matter, a
text may come as bytes, a whole number may stand for a float, and a record may come as a map by
names or by positions, or as an array.
-/

namespace SqlRecord

/-- What a player holds: an amount of gold and counted items by name. -/
structure Inventory where
  gold : IntegerType.uint32.Carrier
  items : OrderedMap IntegerType.uint16.Carrier

/-- The types of payloads. `guarded` is text of which one value is refused when written. -/
inductive PayloadType where
  | integer (t : IntegerType)
  | float
  | flag
  | text
  | optional (t : PayloadType)
  | list (t : PayloadType)
  | triple (a b c : PayloadType)
  | inventory
  | guarded
  deriving DecidableEq

namespace PayloadType

/-- Byte sequences, written as arrays of small integers. -/
def bytes : PayloadType := list (integer .uint8)

/-- The values of a payload type. -/
def Carrier : PayloadType → Type
  | integer t => t.Carrier
  | float => Binary64
  | flag => Bool
  | text => String
  | optional t => Option t.Carrier
  | list t => List t.Carrier
  | triple a b c => a.Carrier × b.Carrier × c.Carrier
  | inventory => Inventory
  | guarded => String

/-- The value of a payload that was never set. -/
def default : (t : PayloadType) → t.Carrier
  | integer t => t.zero
  | float => Floating.zero
  | flag => false
  | text => ""
  | optional _ => (none : Option _)
  | list _ => ([] : List _)
  | triple a b c => (a.default, b.default, c.default)
  | inventory => (⟨IntegerType.zero _, .empty⟩ : Inventory)
  | guarded => ""

/-! ### Writing -/

/-- The text that a guarded payload refuses. -/
def refusedText : String := "bad"

/-- The item of a whole number. -/
def integerItem {t : IntegerType} (n : t.Carrier) : Cbor.Item := .ofInt n.val

/-- The item of an inventory: a map by the names of its parts. -/
def inventoryItem (v : Inventory) : Cbor.Item :=
  .map [(.text "gold", integerItem v.gold),
    (.text "items", .map (v.items.entries.map fun (name, n) => (.text name, integerItem n)))]

/-- The item of a guarded text. -/
def guardedItem (s : String) : Except SerializeFault Cbor.Item :=
  if s = refusedText then .error (.refused "bad payload") else .ok (.text s)

/-- The item of a payload; only a refused text has none. -/
def toItem : (t : PayloadType) → t.Carrier → Except SerializeFault Cbor.Item
  | integer _, n => .ok (integerItem n)
  | float, x => .ok (.float x)
  | flag, b => .ok (.bool b)
  | text, s => .ok (.text s)
  | optional _, none => .ok .null
  | optional t, some v => t.toItem v
  | list t, vs => do return .array (← vs.mapM t.toItem)
  | triple a b c, (x, y, z) => do
    return .array [← a.toItem x, ← b.toItem y, ← c.toItem z]
  | inventory, v => .ok (inventoryItem v)
  | guarded, s => guardedItem s

/-! ### Reading -/

/-- The integer an item denotes. -/
def integer? (item : Cbor.Item) : Option Int :=
  match item.untagged with
  | .unsigned n => some n
  | .negative n => some (-1 - n)
  | _ => none

/-- The text an item denotes: a text, or bytes in UTF-8. -/
def text? (item : Cbor.Item) : Option String :=
  match item.untagged with
  | .text s => some s
  | .bytes content => Cbor.text? content
  | _ => none

/-- The number an item denotes; a whole number counts if it fits 64 bits. -/
def float? (item : Cbor.Item) : Option Binary64 :=
  match item.untagged with
  | .float x => some x
  | .unsigned n => some (.ofInt _ n)
  | .negative n => if n < 0x8000000000000000 then some (.ofInt _ (-1 - n)) else none
  | _ => none

/-- The items of an array. -/
def array? (item : Cbor.Item) : Option (List Cbor.Item) :=
  match item.untagged with
  | .array items => some items
  | _ => none

/-- The member of an integer type that an item denotes. -/
def member? (t : IntegerType) (item : Cbor.Item) : Option t.Carrier := do
  t.ofInt? (← integer? item)

/-- The counted items of an inventory; of equal names the last counts. -/
def counts? (item : Cbor.Item) : Option (OrderedMap IntegerType.uint16.Carrier) := do
  match item.untagged with
  | .map entries =>
    return .ofList (← entries.mapM fun (key, n) => return (← text? key, ← member? _ n))
  | _ => none

/-- The position of the part that a key of an inventory names; other names have position two. -/
def partOfKey (key : Cbor.Item) : Option Nat := do
  match key.untagged with
  | .unsigned n => return n
  | key =>
    let name ← text? key
    return if name = "gold" then 0 else if name = "items" then 1 else 2

/-- The single value among those of one part, if there is exactly one. -/
def single? (parts : List (Nat × Cbor.Item)) (i : Nat) : Option Cbor.Item :=
  match parts.filter (·.1 == i) with
  | [(_, item)] => some item
  | _ => none

/-- The inventory an item describes. -/
def inventory? (item : Cbor.Item) : Option Inventory := do
  match item.untagged with
  | .array [gold, items] => return ⟨← member? _ gold, ← counts? items⟩
  | .map entries =>
    let parts ← entries.mapM fun (key, part) => return (← partOfKey key, part)
    return ⟨← member? _ (← single? parts 0), ← counts? (← single? parts 1)⟩
  | _ => none

/-- The payload of a type that an item describes. -/
def ofItem? : (t : PayloadType) → Cbor.Item → Option t.Carrier
  | integer t, item => member? t item
  | float, item => float? item
  | flag, item => match item.untagged with
    | .bool b => some b
    | _ => none
  | text, item => text? item
  | optional _, .null => some none
  | optional t, item => (t.ofItem? item).map some
  | list t, item => do (← array? item).mapM t.ofItem?
  | triple a b c, item => do
    match ← array? item with
    | [x, y, z] => return (← a.ofItem? x, ← b.ofItem? y, ← c.ofItem? z)
    | _ => none
  | inventory, item => inventory? item
  | guarded, item => text? item

end PayloadType

end SqlRecord
