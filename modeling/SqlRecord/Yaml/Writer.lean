import SqlRecord.Yaml.Scalar
import SqlRecord.Yaml.Text

/-!
# Writing YAML scalars

`Yaml.scalarText` writes a text as the value of a block mapping, in the first of four forms that
keeps it: plain, between single quotes, between double quotes with escapes, or, for a text of
several lines, as a literal block. A text that would be read as a number, a truth value or nothing
is never left plain.
-/

namespace SqlRecord

namespace Yaml

/-! ### What a text contains -/

/-- Whether a character is written as it stands. -/
def isPrintable (c : Char) : Bool :=
  let n := c.toNat
  c == '\n' || (0x20 ≤ n && n ≤ 0x7e) || (0xa0 ≤ n && n ≤ 0xfffd && n != 0xfeff) || 0x10000 ≤ n

/-- Whether a text starts with what marks the start or the end of a document. -/
def startsMark (cs : List Char) : Bool := "---".toList.isPrefixOf cs || "...".toList.isPrefixOf cs

/-- Whether the first character of a text means something else there. -/
def startsIndicator : List Char → Bool
  | [] => false
  | c :: cs =>
    ['#', ',', '[', ']', '{', '}', '&', '*', '!', '|', '>', '\'', '"', '%', '@',
      Char.ofNat 0x60].contains c ||
      (['?', ':', '-'].contains c && atGap cs)

/-- Whether a colon before a gap or a number sign after one occurs; `afterGap` tells whether the
character before was a gap. -/
def hasSeparator (afterGap : Bool) : List Char → Bool
  | [] => false
  | c :: cs =>
    (c == ':' && atGap cs) || (c == '#' && afterGap) || hasSeparator (atGap [c]) cs

/-- Whether a space and a line break meet, in the given order. -/
def hasPair (first second : Char → Bool) (cs : List Char) : Bool :=
  (cs.zip cs.tail).any fun (a, b) => first a && second b

def isSpace (c : Char) : Bool := c == ' '

/-- Whether a text can stand between single quotes. -/
def fitsSingle (cs : List Char) : Bool :=
  cs.all isPrintable && !hasPair isSpace isBreak cs && !hasPair isBreak isSpace cs

/-- Whether a text can stand without quotes. -/
def fitsPlain (cs : List Char) : Bool :=
  cs.all isPrintable && !cs.any isBreak && !startsMark cs && !startsIndicator cs &&
    !hasSeparator true cs && cs.head? != some ' ' && cs.getLast? != some ' '

/-- Whether a text can stand as a literal block. -/
def fitsLiteral (cs : List Char) : Bool :=
  cs.all isPrintable && !hasPair isSpace isBreak cs && cs.getLast? != some ' '

/-! ### The forms -/

/-- A text whose lines are two spaces deep, but for the empty ones; `atStart` tells that a line
starts. -/
def indented (atStart : Bool) : List Char → List Char
  | [] => []
  | c :: cs =>
    if isBreak c then c :: indented true cs
    else if atStart then ' ' :: ' ' :: c :: indented false cs
    else c :: indented false cs

/-- A text between single quotes, a quote inside written twice. Further lines are two spaces
deep, and so is the closing quote if it starts one. -/
def singleText (cs : List Char) : List Char :=
  '\'' :: indented false (cs.flatMap (fun c => if c = '\'' then ['\'', '\''] else [c]) ++ ['\''])

/-- The short escapes that are written, each for its character. -/
def writtenEscapes : List (Char × Char) :=
  shortEscapes.filter fun (e, _) => !([' ', '/', '\t'].contains e)

/-- The escape of a character by code point. -/
def codeEscape (c : Char) : List Char :=
  let n := c.toNat
  let digits := fun width => ((hexText width n).map Char.toUpper).toList
  if n ≤ 0xff then 'x' :: digits 2
  else if n ≤ 0xffff then 'u' :: digits 4
  else 'U' :: digits 8

/-- A character inside double quotes. -/
def escapedText (c : Char) : List Char :=
  if isPrintable c && !isBreak c && c != '"' && c != '\\' then [c]
  else '\\' :: match writtenEscapes.find? fun (_, d) => d == c with
    | some (e, _) => [e]
    | none => codeEscape c

/-- A text between double quotes. -/
def doubleText (cs : List Char) : List Char := '"' :: cs.flatMap escapedText ++ ['"']

/-- How a literal block says that it keeps the line breaks at its end. -/
def chompingText (cs : List Char) : List Char :=
  match cs.reverse with
  | [] => ['-']
  | [c] => if isBreak c then ['+'] else ['-']
  | c :: d :: _ => if !isBreak c then ['-'] else if isBreak d then ['+'] else []

/-- A text as a literal block. -/
def literalText (cs : List Char) : List Char :=
  let hint := match cs with
    | c :: _ => if c == ' ' || isBreak c then ['2'] else []
    | [] => []
  '|' :: hint ++ chompingText cs ++ '\n' :: indented true cs

/-- A text as the value of a key. -/
def scalarText (cs : List Char) : List Char :=
  if cs.contains '\n' then
    if fitsLiteral cs then literalText cs else doubleText cs
  else if fitsPlain cs && isPlainText cs then cs
  else if fitsSingle cs then singleText cs
  else doubleText cs

/-- A key with its value, up to the end of the line. A literal block may end it already. -/
def entryText (key : String) (value : List Char) : List Char :=
  let line := key.toList ++ ':' :: ' ' :: value
  if value.getLast?.any isBreak then line else line ++ ['\n']

end Yaml

end SqlRecord
