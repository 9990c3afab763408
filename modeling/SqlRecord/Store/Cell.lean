import SqlRecord.Cbor.Reader
import SqlRecord.Error
import SqlRecord.Store.Number

/-!
# Stored cells

What a table keeps in a cell. Text is kept as bytes, which need not be UTF-8, so reading a cell can
fail although storing it did not. The type of a column gives it an affinity, which decides what
becomes of a value stored in it, and how a comparison treats the other side.
-/

namespace SqlRecord

namespace Store

/-- The content of a stored cell. -/
inductive Cell where
  | null
  | integer (i : CellInt)
  | real (x : Binary64)
  | text (bytes : List UInt8)
  | blob (bytes : List UInt8)
  deriving DecidableEq

namespace Cell

/-- The cell of a value. A NaN is stored as nothing. -/
def ofValue : Value → Cell
  | .null => null
  | .integer i => integer i
  | .real x => if x.isNaN then null else real x
  | .text s => text (Cbor.textBytes s)
  | .blob bytes => blob bytes

/-- The value that a cell holds. -/
def toValue : Cell → Except CodecError Value
  | null => .ok .null
  | integer i => .ok (.integer i)
  | real x => .ok (.real x)
  | text bytes => match Cbor.text? bytes with
    | some s => .ok (.text s)
    | none => .error (.deserialize .invalidText)
  | blob bytes => .ok (.blob bytes)

/-- The cell of a number. -/
def ofNumber : Number → Cell
  | .integer i => integer i
  | .real x => real x

/-- The cell of a text in ASCII. -/
def ofText (cs : List Char) : Cell := text (cs.map fun c => UInt8.ofNat c.toNat)

/-- The bytes of a text as characters, of which only those of ASCII are meaningful. -/
def asciiText (bytes : List UInt8) : List Char := bytes.map fun b => Char.ofNat b.toNat

/-- A cell as a text. -/
def asText : Cell → Cell
  | null => null
  | integer i => ofText (Digits.ofInt i.val)
  | real x => ofText (realText x)
  | text bytes => text bytes
  | blob bytes => text bytes

/-! ### Order -/

/-- The order of two integers. -/
def compareInt (a b : Int) : Ordering := compare a b

/-- The place of a real among the reals. -/
def realRank (x : Binary64) : Int := if x.negative then -(x.magnitude : Int) else x.magnitude

/-- The order of an integer and a real. -/
def compareMixed (i : Int) (x : Binary64) : Ordering :=
  match x.datum with
  | .finite negative significand exponent =>
    let n : Int := significand * 2 ^ exponent.toNat
    compareInt (i * 2 ^ (-exponent).toNat) (if negative then -n else n)
  | .infinite true => .gt
  | _ => .lt

/-- The order of two runs of bytes, the shorter first where one begins the other. -/
def compareBytes : List UInt8 → List UInt8 → Ordering
  | [], [] => .eq
  | [], _ :: _ => .lt
  | _ :: _, [] => .gt
  | a :: as, b :: bs => (compare a b).then (compareBytes as bs)

/-- The order of the kinds of cells: nothing, numbers, texts, bytes. -/
def rank : Cell → Nat
  | null => 0
  | integer _ => 1
  | real _ => 1
  | text _ => 2
  | blob _ => 3

/-- The order in which cells are sorted; numbers are ordered as numbers. -/
def order : Cell → Cell → Ordering
  | integer a, integer b => compareInt a.val b.val
  | integer a, real b => compareMixed a.val b
  | real a, integer b => (compareMixed b.val a).swap
  | real a, real b => compareInt (realRank a) (realRank b)
  | text a, text b => compareBytes a b
  | blob a, blob b => compareBytes a b
  | a, b => compare a.rank b.rank

/-! ### Truth -/

/-- Whether a number is other than zero. -/
def isNonzero : Number → Bool
  | .integer i => i.val != 0
  | .real x => x.magnitude != 0

/-- The truth of a cell: unknown for nothing, else whether the number it holds or starts with is
other than zero. -/
def truth : Cell → Option Bool
  | null => none
  | integer i => some (i.val != 0)
  | real x => some (x.magnitude != 0)
  | text bytes | blob bytes =>
    some (((Number.scan? (asciiText bytes)).map fun (n, _) => isNonzero n).getD false)

/-- The cell of a truth value. -/
def ofTruth : Option Bool → Cell
  | none => null
  | some true => integer ⟨1, by decide, by decide⟩
  | some false => integer ⟨0, by decide, by decide⟩

end Cell

/-! ### Affinities -/

/-- What the declared type of a column prefers. -/
inductive Affinity where
  | keep
  | text
  | numeric
  | integer
  | real
  deriving DecidableEq

namespace Affinity

/-- Whether a text occurs in another. -/
def occurs (part : List Char) : List Char → Bool
  | [] => part.isEmpty
  | c :: cs => part.isPrefixOf (c :: cs) || occurs part cs

/-- The affinity of a declared type: decided by the first rule of which a part occurs in it. -/
def ofType (type : String) : Affinity :=
  let holds := fun parts : List String =>
    parts.any fun p => occurs p.toList (type.toList.map Char.toUpper)
  if holds ["INT"] then integer
  else if holds ["CHAR", "CLOB", "TEXT"] then text
  else if holds ["BLOB"] || type.isEmpty then keep
  else if holds ["REAL", "FLOA", "DOUB"] then real
  else numeric

/-- A cell as a number, if it is one or a text that reads as one. -/
def number? : Cell → Option Number
  | .integer i => some (.integer i)
  | .real x => some (.real x)
  | .text bytes => Number.ofWholeText? (Cell.asciiText bytes)
  | _ => none

/-- What becomes of a cell that meets an affinity. Whole numbers in a column of reals pass through
the integers, which have one zero. -/
def apply (a : Affinity) (c : Cell) : Cell :=
  match a with
  | keep => c
  | text => match c with
    | .integer _ | .real _ => c.asText
    | c => c
  | numeric | integer => match number? c with
    | some n => match n.toInteger? with
      | some i => .integer i
      | none => Cell.ofNumber n
    | none => c
  | real => match number? c with
    | some n => match n.toInteger? with
      | some i => .real (.ofInt _ i.val)
      | none => .real n.toReal
    | none => c

/-- Whether an affinity prefers numbers. -/
def isNumeric : Affinity → Bool
  | numeric | integer | real => true
  | _ => false

/-- The affinity that a comparison applies to a side, given that side's own and the other's; a
side that is no column has none of its own. -/
def forComparison (own other : Option Affinity) : Affinity :=
  match own, other with
  | some own, some other => if !own.isNumeric && other.isNumeric then numeric else keep
  | none, some other =>
    if other.isNumeric then numeric else if other = text then text else keep
  | _, none => keep

end Affinity

end Store

end SqlRecord
