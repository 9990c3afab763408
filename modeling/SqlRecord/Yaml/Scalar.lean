import SqlRecord.Numeral

/-!
# Plain YAML scalars

What a text means where it stands without quotes: nothing, a truth value, a number, or the text
itself. `Yaml.isPlainText` says when it is the text itself, so that only quotes could tell it from
the others; numbers with more digits than a double-precision number can approach are text.
-/

namespace SqlRecord

namespace Yaml

/-- Whether a text stands for nothing. -/
def isNothing (cs : List Char) : Bool :=
  ["", "~", "null", "Null", "NULL"].contains (String.ofList cs)

/-- The truth value that a text stands for. -/
def truth? (cs : List Char) : Option Bool :=
  let word := String.ofList cs
  if ["true", "True", "TRUE"].contains word then some true
  else if ["false", "False", "FALSE"].contains word then some false
  else none

/-- The value of digits to a base up to sixteen. -/
def digits? (base : Nat) (cs : List Char) : Option Nat :=
  if cs.isEmpty then none
  else cs.foldlM (fun n c => do
    let d ← Digits.hexValue? c
    if d < base then some (base * n + d) else none) 0

/-- A natural number: decimal without leading zeros, or to base sixteen, eight or two behind a
mark. -/
def natural? : List Char → Option Nat
  | '0' :: 'x' :: cs => digits? 16 cs
  | '0' :: 'o' :: cs => digits? 8 cs
  | '0' :: 'b' :: cs => digits? 2 cs
  | ['0'] => some 0
  | '0' :: _ => none
  | cs => digits? 10 cs

/-- The count that a text stands for: a natural number, perhaps behind a plus. A zero behind a minus
is an integer, but no count. -/
def count? : List Char → Option Nat
  | '+' :: cs => natural? cs
  | cs => natural? cs

/-- The integer that a text stands for: with a sign or without, and of at most 128 bits. -/
def integer? (cs : List Char) : Option Int :=
  let bounded := fun i : Int =>
    if -0x80000000000000000000000000000000 ≤ i ∧ i ≤ 0xffffffffffffffffffffffffffffffff then some i
    else none
  match cs with
  | '-' :: cs => natural? cs >>= fun n => bounded (-n)
  | cs => count? cs >>= fun n => bounded n

/-- A text without the sign it starts with. -/
def unsigned : List Char → List Char
  | '-' :: cs => cs
  | '+' :: cs => cs
  | cs => cs

/-- Whether a text is digits of which the first is a zero that is not needed. Such a text is no
number. -/
def hasSpareZero (cs : List Char) : Bool :=
  match unsigned cs with
  | '0' :: c :: cs => (c :: cs).all Char.isDigit
  | _ => false

/-- Whether a text stands for a real number. A numeral does if a finite double-precision number is
nearest to it. -/
def isReal (cs : List Char) : Bool :=
  let (numeral, rest) := Numeral.span (unsigned cs)
  [".inf", ".Inf", ".INF"].contains (String.ofList (unsigned cs)) ||
    [".nan", ".NaN", ".NAN"].contains (String.ofList cs) ||
    (rest.isEmpty && Numeral.hasDigits numeral &&
      (Numeral.nearest .binary64 false numeral).isFinite)

/-- Whether a text without quotes stands for itself, however it is read. -/
def isPlainText (cs : List Char) : Bool :=
  !isNothing cs && (truth? cs).isNone && (integer? cs).isNone && !hasSpareZero cs && !isReal cs

end Yaml

end SqlRecord
