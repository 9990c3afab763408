import SqlRecord.Digits

/-!
# YAML texts between quotes

How YAML texts between single or double quotes are read. A line feed inside quotes is folded: with
the blanks around it, a single one is one blank, and in a longer run the first counts for nothing.
What an escape stands for takes no part in folding, so a quoted text is read as pieces first.
-/

namespace SqlRecord

namespace Yaml

/-- Whether a character separates words within a line. -/
def isBlank (c : Char) : Bool := c == ' ' || c == '\t'

/-- Whether a character ends a line: line feed, carriage return, and the three breaks beyond
ASCII. -/
def isBreak (c : Char) : Bool := [0x0a, 0x0d, 0x85, 0x2028, 0x2029].contains c.toNat

/-- Whether a text is at a blank, at a line break or at its end. -/
def atGap : List Char → Bool
  | [] => true
  | c :: _ => isBlank c || isBreak c

/-! ### Folding -/

/-- What stands between two words of a text: blanks, a line feed and further breaks, or breaks that
are kept; the last character is first. -/
inductive Gap where
  | blanks (cs : List Char)
  | folded (breaks : List Char)
  | kept (breaks : List Char)

namespace Gap

/-- The gap with one more blank. Blanks at a break are dropped. -/
def addBlank (c : Char) : Gap → Gap
  | blanks cs => blanks (c :: cs)
  | gap => gap

/-- The gap with one more break. Only a line feed that comes first is folded. -/
def addBreak (c : Char) : Gap → Gap
  | blanks _ => if c = '\n' then folded [] else kept [c]
  | folded breaks => folded (c :: breaks)
  | kept breaks => kept (c :: breaks)

/-- What a gap stands for. -/
def text : Gap → List Char
  | blanks cs => cs.reverse
  | folded [] => [' ']
  | folded breaks => breaks.reverse
  | kept breaks => breaks.reverse

end Gap

/-- A part of a quoted text: a character as it stands, the meaning of an escape, or an escaped line
break, which stands for nothing and hides the blanks after it. -/
inductive Piece where
  | plain (c : Char)
  | escaped (c : Char)
  | continued

/-- Folds the rest of a text after a gap. -/
def foldFrom (gap : Gap) : List Piece → List Char
  | [] => gap.text
  | .plain c :: pieces =>
    if isBreak c then foldFrom (gap.addBreak c) pieces
    else if isBlank c then foldFrom (gap.addBlank c) pieces
    else gap.text ++ c :: foldFrom (.blanks []) pieces
  | .escaped c :: pieces => gap.text ++ c :: foldFrom (.blanks []) pieces
  | .continued :: pieces => gap.text ++ foldFrom (.kept []) pieces

/-- A text with its line breaks folded. -/
def fold (pieces : List Piece) : List Char := foldFrom (.blanks []) pieces

/-- What a run of line breaks stands for. -/
def foldedBreaks (breaks : List Char) : List Char :=
  (breaks.foldl (fun (gap : Gap) c => gap.addBreak c) (Gap.blanks [])).text

/-! ### Quotes -/

/-- The same pieces with one more in front. -/
def consPiece (p : Piece) : Option (List Piece × List Char) → Option (List Piece × List Char)
  | some (pieces, rest) => some (p :: pieces, rest)
  | none => none

/-- The pieces of a single-quoted text after its opening quote, and what follows it. A quote
inside is written twice. -/
def singleQuoted? : List Char → Option (List Piece × List Char)
  | [] => none
  | '\'' :: '\'' :: cs => consPiece (.escaped '\'') (singleQuoted? cs)
  | '\'' :: cs => some ([], cs)
  | c :: cs => consPiece (.plain c) (singleQuoted? cs)

/-- The escapes of one character, and the character each stands for. -/
def shortEscapes : List (Char × Char) :=
  [('0', Char.ofNat 0), ('a', Char.ofNat 7), ('b', Char.ofNat 8), ('t', '\t'), ('\t', '\t'),
    ('n', '\n'), ('v', Char.ofNat 11), ('f', Char.ofNat 12), ('r', '\r'), ('e', Char.ofNat 27),
    (' ', ' '), ('"', '"'), ('/', '/'), ('\\', '\\'), ('N', Char.ofNat 0x85),
    ('_', Char.ofNat 0xa0), ('L', Char.ofNat 0x2028), ('P', Char.ofNat 0x2029)]

/-- The escapes by code point, and how many base-sixteen digits follow each. -/
def codeEscapes : List (Char × Nat) := [('x', 2), ('u', 4), ('U', 8)]

/-- The character of a code point, if there is one. -/
def codeChar? (n : Nat) : Option Char := if n.isValidChar then some (Char.ofNat n) else none

/-- The pieces of a double-quoted text after its opening quote, and what follows it. Inside an
escape by code point, `code` holds how many digits are still to come after the next one, and the
value of those before it. -/
def doubleQuoted? (code : Option (Nat × Nat)) : List Char → Option (List Piece × List Char)
  | [] => none
  | c :: cs =>
    match code with
    | some (more, value) =>
      match Digits.hexValue? c with
      | none => none
      | some digit =>
        match more with
        | more + 1 => doubleQuoted? (some (more, 16 * value + digit)) cs
        | 0 => match codeChar? (16 * value + digit) with
          | some d => consPiece (.escaped d) (doubleQuoted? none cs)
          | none => none
    | none =>
      if c = '"' then some ([], cs)
      else if c = '\\' then
        match cs with
        | [] => none
        | e :: cs =>
          match shortEscapes.lookup e, codeEscapes.lookup e with
          | some d, _ => consPiece (.escaped d) (doubleQuoted? none cs)
          | none, some digits => doubleQuoted? (some (digits - 1, 0)) cs
          | none, none =>
            if isBreak e then consPiece .continued (doubleQuoted? none cs) else none
      else consPiece (.plain c) (doubleQuoted? none cs)

/-- The text that starts with a quote, and what follows its end. -/
def quoted? : List Char → Option (List Char × List Char)
  | '"' :: cs => (doubleQuoted? none cs).map fun (pieces, rest) => (fold pieces, rest)
  | '\'' :: cs => (singleQuoted? cs).map fun (pieces, rest) => (fold pieces, rest)
  | _ => none

end Yaml

end SqlRecord
