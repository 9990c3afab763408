import SqlRecord.Identifier
import SqlRecord.Numeral

/-!
# SQL tokens

How SQL text is cut into tokens: words and quoted names, numbers, text and byte literals,
placeholders and symbols, with white space and comments between them. Statements end at a
semicolon. Each token is kept with its place, so that the text of a part of a statement can be
given as it was written.
-/

namespace SqlRecord

namespace Sql

/-- A token of SQL text. A word may be a keyword, a name between quotes is none; a placeholder
carries its mark. -/
inductive Token where
  | word (name : String)
  | name (name : String)
  | number (text : List Char)
  | text (content : List Char)
  | bytes (content : List UInt8)
  | placeholder (name : String)
  | symbol (text : String)
  deriving DecidableEq

/-- A token with the text from its first character on, and the number of characters after its
last. -/
structure Lexeme where
  token : Token
  source : List Char
  left : Nat

/-- The text from the first of a run of tokens to the last, as it was written. -/
def spanText : List Lexeme → String
  | [] => ""
  | first :: more =>
    let last := (first :: more).getLast?.getD first
    String.ofList (first.source.take (first.source.length - last.left))

/-! ### Characters -/

/-- The characters that separate tokens. -/
def isSpace (c : Char) : Bool := [' ', '\t', '\n', '\r', Char.ofNat 12].contains c

/-- The characters a word may start with: every character beyond ASCII counts as a letter. -/
def isWordStart (c : Char) : Bool := Identifier.isStart c || 0x80 ≤ c.toNat

/-- The characters a word may go on with. -/
def isWordPart (c : Char) : Bool := isWordStart c || c.isDigit || c == '$'

/-- Where in white space a reader is: between comments, or in one of either form. -/
inductive Gap where
  | open
  | line
  | block

/-- The text after white space and comments. -/
def skipGap : Gap → List Char → List Char
  | _, [] => []
  | .open, '-' :: '-' :: cs => skipGap .line cs
  | .open, '/' :: '*' :: cs => skipGap .block cs
  | .open, c :: cs => if isSpace c then skipGap .open cs else c :: cs
  | .line, c :: cs => skipGap (if c = '\n' then .open else .line) cs
  | .block, '*' :: '/' :: cs => skipGap .open cs
  | .block, _ :: cs => skipGap .block cs

/-! ### Single tokens -/

/-- The content up to a closing quote, and what follows the quote. A quote inside is written
twice. -/
def quoted? (quote : Char) : List Char → Option (List Char × List Char)
  | [] => none
  | c :: cs =>
    if c = quote then
      match cs with
      | d :: rest =>
        if d = quote then (quoted? quote rest).map fun (content, rest) => (quote :: content, rest)
        else some ([], d :: rest)
      | [] => some ([], [])
    else (quoted? quote cs).map fun (content, rest) => (c :: content, rest)

/-- The bytes that base-sixteen digits denote in pairs. -/
def hexBytes? : List Char → Option (List UInt8)
  | [] => some []
  | [_] => none
  | a :: b :: cs => do
    return UInt8.ofNat (16 * (← Digits.hexValue? a) + (← Digits.hexValue? b)) :: (← hexBytes? cs)

/-- The symbols of two characters. -/
def pairSymbols : List (Char × Char) :=
  [('=', '='), ('!', '='), ('<', '>'), ('<', '='), ('>', '='), ('<', '<'), ('>', '>'), ('|', '|')]

/-- The symbols of one character. -/
def singleSymbols : List Char :=
  ['(', ')', ',', ';', '+', '-', '*', '/', '%', '=', '<', '>', '&', '|', '~', '.']

/-- The symbol at the start of a text. -/
def symbol? : List Char → Option (Token × List Char)
  | [] => none
  | c :: cs =>
    let single := if singleSymbols.contains c then some (.symbol (String.singleton c), cs) else none
    match cs with
    | d :: rest =>
      if pairSymbols.contains (c, d) then some (.symbol (String.ofList [c, d]), rest) else single
    | [] => single

/-- The placeholder that starts with a mark: a question mark and digits, or another mark and a
name. -/
def placeholder? (mark : Char) (cs : List Char) : Option (Token × List Char) :=
  let name := cs.takeWhile (if mark = '?' then Char.isDigit else isWordPart)
  if name.isEmpty && mark != '?' then none
  else some (.placeholder (String.ofList (mark :: name)), cs.drop name.length)

/-- A number, which no word may follow directly. -/
def number? (cs : List Char) : Option (Token × List Char) :=
  let (text, rest) := Numeral.span cs
  match rest with
  | c :: _ => if isWordPart c then none else some (.number text, rest)
  | [] => some (.number text, rest)

/-- The token at the start of a text, and the text after it. -/
def token? (cs : List Char) : Option (Token × List Char) :=
  match cs with
  | [] => none
  | c :: rest =>
    if (c = 'x' || c = 'X') && rest.head? = some '\'' then do
      let (digits, rest) ← quoted? '\'' (rest.drop 1)
      return (.bytes (← hexBytes? digits), rest)
    else if isWordStart c then
      let word := cs.takeWhile isWordPart
      some (.word (String.ofList word), cs.drop word.length)
    else if c.isDigit || (c = '.' && rest.head?.any Char.isDigit) then number? cs
    else if c = '\'' then (quoted? c rest).map fun (content, rest) => (.text content, rest)
    else if c = '"' || c = Char.ofNat 0x60 then
      (quoted? c rest).map fun (content, rest) => (.name (String.ofList content), rest)
    else if [':', '@', '$', '?'].contains c then placeholder? c rest
    else symbol? cs

/-! ### Statements -/

/-- The tokens up to the end of a statement, and the text after it; `fuel` bounds their number. -/
def lexemesFuel : Nat → List Char → Option (List Lexeme × List Char)
  | 0, _ => none
  | fuel + 1, cs =>
    match skipGap .open cs with
    | [] => some ([], [])
    | cs =>
      match token? cs with
      | none => none
      | some (.symbol ";", rest) => some ([], rest)
      | some (token, rest) => do
        let (more, after) ← lexemesFuel fuel rest
        return (⟨token, cs, rest.length⟩ :: more, after)

/-- The tokens of the first statement of a text, without its semicolon, and the text after it.
A text ends before the first NUL. -/
def lexemes? (cs : List Char) : Option (List Lexeme × List Char) :=
  let cs := cs.takeWhile (· != Char.ofNat 0)
  lexemesFuel (cs.length + 1) cs

/-- The names of the placeholders among tokens. -/
def placeholders (ls : List Lexeme) : List String :=
  ls.filterMap fun l => match l.token with
    | .placeholder name => some name
    | _ => none

end Sql

end SqlRecord
