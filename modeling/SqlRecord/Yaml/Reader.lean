import SqlRecord.Yaml.Text

/-!
# Reading YAML mappings

Settings are written as one flat mapping in YAML, in block style (a key and a value per line) or
in flow style (between braces). `Yaml.mapping?` gives its keys and values in order. Plain and
quoted texts are told apart, because only a plain one can be a number, a truth value or nothing;
nested collections are recognized, but their content is not kept.
-/

namespace SqlRecord

namespace Yaml

/-- A key or a value of a flat mapping. -/
inductive Node where
  | plain (text : List Char)
  | quoted (text : List Char)
  | collection

/-! ### Lines -/

/-- The text with carriage returns and next-line characters as line feeds, and so with one
character for every line break. -/
def unifyBreaks : List Char → List Char
  | [] => []
  | '\r' :: '\n' :: cs => '\n' :: unifyBreaks cs
  | c :: cs => (if c = '\r' || c = Char.ofNat 0x85 then '\n' else c) :: unifyBreaks cs

/-- Whether a character may stand in a document: no control characters beside line breaks and
tabs, and no code points that are never characters. -/
def isAllowed (c : Char) : Bool :=
  let n := c.toNat
  c == '\t' || c == '\n' || (0x20 ≤ n && n ≤ 0x7e) || (0xa0 ≤ n && n ≤ 0xfffd) ||
    0x10000 ≤ n

/-- The lines of a text, each with the break that ends it; the last one may lack it. -/
def lines : List Char → List (List Char)
  | [] => []
  | c :: cs =>
    if isBreak c then [c] :: lines cs
    else match lines cs with
      | [] => [[c]]
      | line :: rest => (c :: line) :: rest

/-- Whether a line holds nothing but blanks. -/
def isEmptyLine (line : List Char) : Bool := line.all fun c => isBlank c || isBreak c

/-- What follows the end of the current line, if at most blanks and a comment are left on it. -/
def endLine? (cs : List Char) : Option (List Char) :=
  match cs.dropWhile isBlank with
  | [] => some []
  | c :: rest =>
    if isBreak c then some rest
    else if c = '#' then some ((rest.dropWhile (!isBreak ·)).drop 1)
    else none

/-- Whether a line holds nothing but a comment at most. -/
def isVoid (line : List Char) : Bool := (endLine? line).isSome

/-- The text from its first line that is not void. -/
def skipVoid (cs : List Char) : List Char := ((lines cs).dropWhile isVoid).flatten

/-- The number of spaces that a line starts with. -/
def depth (line : List Char) : Nat := (line.takeWhile (· == ' ')).length

/-- Whether a line is an item of a sequence. -/
def isItem : List Char → Bool
  | '-' :: cs => atGap cs
  | _ => false

/-- Whether a line is the given mark of a document's start or end. -/
def isMark (mark : List Char) (line : List Char) : Bool :=
  mark.isPrefixOf line && atGap (line.drop mark.length)

/-! ### Plain texts -/

/-- The characters that separate the parts of a flow collection. -/
def isFlowMark (c : Char) : Bool := [',', '[', ']', '{', '}'].contains c

/-- Whether a plain text can start here. -/
def startsPlain (flow : Bool) : List Char → Bool
  | [] => false
  | c :: cs =>
    if c = '-' then !atGap cs
    else if c = '?' || c = ':' then !flow && !atGap cs
    else !isBlank c && !isBreak c && !isFlowMark c &&
      !(['#', '&', '*', '!', '|', '>', '\'', '"', '%', '@', Char.ofNat 0x60].contains c)

/-- Splits off what can belong to a plain text: up to a colon before a gap, a comment after a
blank, and the end of the line or, in a flow collection, the end of the part. -/
def spanPlain (flow afterBlank : Bool) : List Char → List Char × List Char
  | [] => ([], [])
  | c :: cs =>
    if (c = ':' && atGap cs) || (c = '#' && afterBlank) ||
        (if flow then isFlowMark c else isBreak c) then ([], c :: cs)
    else
      let (text, rest) := spanPlain flow (isBlank c || isBreak c) cs
      (c :: text, rest)

/-- A text without the blanks and breaks at its end. -/
def trimRight (cs : List Char) : List Char :=
  (cs.reverse.dropWhile fun c => isBlank c || isBreak c).reverse

/-- A plain text in block style, and what follows its last line. It goes on over the lines that
are deeper than `indent`, up to a comment; no line of it may look like a key. -/
def plainBlock? (indent : Nat) : Nat → List Char → Option (List Char × List Char)
  | 0, _ => none
  | fuel + 1, cs =>
    let (text, rest) := spanPlain false true cs
    match rest with
    | ':' :: _ => none
    | '#' :: rest => some (trimRight text, (rest.dropWhile (!isBreak ·)).drop 1)
    | [] => some (trimRight text, [])
    | lineBreak :: rest =>
      let empty := (lines rest).takeWhile isEmptyLine
      let next := ((lines rest).drop empty.length).flatten
      let body := next.dropWhile isBlank
      if indent < depth next && body.head? != some '#' then do
        let (more, rest) ← plainBlock? indent fuel body
        let breaks := lineBreak :: empty.filterMap List.getLast?
        return (trimRight text ++ foldedBreaks breaks ++ more, rest)
      else some (trimRight text, rest)

/-! ### Literal blocks -/

/-- How the line breaks at the end of a literal block are kept. -/
inductive Chomping where
  | strip
  | clip
  | keep

/-- The indentation and the chomping that the head of a literal block asks for, and what follows
them. -/
def blockHead : List Char → Option Nat × Chomping × List Char
  | c :: d :: cs =>
    let digit := fun c : Char => if '1' ≤ c ∧ c ≤ '9' then some (c.toNat - '0'.toNat) else none
    let chomping := fun c : Char =>
      if c = '-' then some Chomping.strip else if c = '+' then some Chomping.keep else none
    match digit c, chomping c, digit d, chomping d with
    | some n, _, _, some k => (some n, k, cs)
    | some n, _, _, none => (some n, .clip, d :: cs)
    | _, some k, some n, _ => (some n, k, cs)
    | _, some k, none, _ => (none, k, d :: cs)
    | _, _, _, _ => (none, .clip, c :: d :: cs)
  | cs => (none, .clip, cs)

/-- A line without its indentation, as far as it is there. -/
def unindent : Nat → List Char → List Char
  | width + 1, ' ' :: cs => unindent width cs
  | _, cs => cs

/-- A literal block after its bar, and what follows it. Without a hint its first lines, up to the
first with content, tell how deep it is. -/
def literal? (indent : Nat) (cs : List Char) : Option (List Char × List Char) := do
  let (asked, chomping, cs) := blockHead cs
  let ls := lines (← endLine? cs)
  let isEmpty := fun line : List Char => line.all fun c => c == ' ' || isBreak c
  let first := ls.takeWhile isEmpty ++ (ls.dropWhile isEmpty).take 1
  let width := (asked.map (indent + ·)).getD ((first.map depth).foldl max (indent + 1))
  let body := ls.takeWhile fun line => width ≤ depth line || isEmpty line
  let rest := (ls.drop body.length).flatten
  let text := body.flatMap (unindent width)
  let breaks := text.reverse.takeWhile isBreak
  let held := text.take (text.length - breaks.length)
  match chomping with
  | .strip => return (held, rest)
  | .clip => return (if held.isEmpty then held else text.take (held.length + 1), rest)
  | .keep => return (text, rest)

/-! ### Block mappings -/

/-- What follows the bracket that closes the last of `opened` open collections. -/
def closeFlow? (opened : Nat) : List Char → Option (List Char)
  | [] => none
  | c :: cs =>
    if c = '[' || c = '{' then closeFlow? (opened + 1) cs
    else if c = ']' || c = '}' then if opened ≤ 1 then some cs else closeFlow? (opened - 1) cs
    else closeFlow? opened cs

/-- The key that a line starts with, and what follows its colon. -/
def key? (line : List Char) : Option (Node × List Char) :=
  let found := match quoted? line with
    | some (text, rest) => some (Node.quoted text, rest.dropWhile isBlank)
    | none =>
      if startsPlain false line then
        let (text, rest) := spanPlain false true line
        some (.plain (trimRight text), rest)
      else none
  match found with
  | some (key, ':' :: rest) => if atGap rest then some (key, rest) else none
  | _ => none

/-- The value that starts here, and what follows its last line. -/
def value? (indent : Nat) (cs : List Char) : Option (Node × List Char) := do
  match cs with
  | '|' :: cs =>
    let (text, rest) ← literal? indent cs
    return (.quoted text, rest)
  | '[' :: cs | '{' :: cs => return (.collection, ← endLine? (← closeFlow? 1 cs))
  | '"' :: _ | '\'' :: _ =>
    let (text, rest) ← quoted? cs
    return (.quoted text, ← endLine? rest)
  | cs =>
    if startsPlain false cs then
      let (text, rest) ← plainBlock? indent cs.length cs
      return (.plain text, rest)
    else none

/-- The value after the colon of a key at depth `indent`: on the same line, or on deeper lines
below. Nothing at all is an empty plain text. -/
def valueAfter? (indent : Nat) (cs : List Char) : Option (Node × List Char) :=
  match endLine? cs with
  | none => value? indent (cs.dropWhile isBlank)
  | some next =>
    let next := skipVoid next
    let line := next.drop (depth next)
    let below := fun (keep : List Char → Bool) =>
      some (Node.collection, ((lines next).dropWhile fun l => isVoid l || keep l).flatten)
    if line.isEmpty then some (.plain [], next)
    else if indent < depth next then
      if isItem line || (key? line).isSome then below fun l => indent < depth l
      else value? indent line
    else if depth next = indent && isItem line then
      below fun l => indent < depth l || (depth l = indent && isItem (l.drop indent))
    else some (.plain [], next)

/-- The keys and values of a block mapping whose keys stand at depth `indent`. -/
def blockEntries? (indent : Nat) : Nat → List Char → Option (List (Node × Node))
  | 0, _ => none
  | fuel + 1, cs =>
    let cs := skipVoid cs
    if cs.isEmpty then some []
    else if depth cs != indent then none
    else do
      let (key, rest) ← key? (cs.drop indent)
      let (value, rest) ← valueAfter? indent rest
      return (key, value) :: (← blockEntries? indent fuel rest)

/-! ### Flow mappings -/

/-- The text from its first character that is neither a gap nor in a comment. -/
def skipGaps (cs : List Char) : List Char :=
  let cs := skipVoid cs
  cs.dropWhile isBlank

/-- A key or value of a flow mapping, and what follows it. -/
def flowNode? (cs : List Char) : Option (Node × List Char) := do
  match cs with
  | '[' :: cs | '{' :: cs => return (.collection, ← closeFlow? 1 cs)
  | '"' :: _ | '\'' :: _ =>
    let (text, rest) ← quoted? cs
    return (.quoted text, rest)
  | cs =>
    if startsPlain true cs then
      let (text, rest) := spanPlain true true cs
      return (.plain (fold ((trimRight text).map .plain)), rest)
    else none

/-- The value after a key of a flow mapping; a key alone has an empty one. -/
def flowValue? (cs : List Char) : Option (Node × List Char) :=
  match cs with
  | ':' :: rest =>
    let rest := skipGaps rest
    match rest with
    | ',' :: _ | '}' :: _ => some (.plain [], rest)
    | _ => flowNode? rest
  | _ => some (.plain [], cs)

/-- The keys and values of a flow mapping after its opening brace, and what follows it. -/
def flowEntries? : Nat → List Char → Option (List (Node × Node) × List Char)
  | 0, _ => none
  | fuel + 1, cs =>
    match skipGaps cs with
    | '}' :: rest => some ([], rest)
    | cs => do
      let (key, rest) ← flowNode? cs
      let (value, rest) ← flowValue? (skipGaps rest)
      match skipGaps rest with
      | ',' :: rest =>
        let (entries, rest) ← flowEntries? fuel rest
        return ((key, value) :: entries, rest)
      | '}' :: rest => return ([(key, value)], rest)
      | _ => none

/-! ### Documents -/

/-- The lines of the only document of a text, without its marks, and whether the first of them
stood beside the starting mark. -/
def body? (ls : List (List Char)) : Option (List (List Char) × Bool) :=
  let ls := ls.dropWhile isVoid
  let start := "---".toList
  let stop := "...".toList
  let (inner, beside) := match ls with
    | first :: rest =>
      if isMark start first then
        let first := first.drop start.length
        if isVoid first then (rest, false) else (first :: rest, true)
      else (ls, false)
    | [] => (ls, false)
  let held := inner.takeWhile fun l => !isMark start l && !isMark stop l
  let after := (inner.drop held.length).dropWhile fun l => isMark stop l || isVoid l
  if after.isEmpty then some (held, beside) else none

/-- The entries of a text whose content is a mapping; a text without content is an empty one. -/
def mapping? (cs : List Char) : Option (List (Node × Node)) := do
  let cs := unifyBreaks (if cs.head? = some (Char.ofNat 0xfeff) then cs.drop 1 else cs)
  if !cs.all isAllowed then none
  else
    let (held, beside) ← body? (lines cs)
    let cs := skipVoid held.flatten
    match cs.dropWhile (· == ' ') with
    | [] => return []
    | '{' :: cs =>
      let (entries, rest) ← flowEntries? cs.length cs
      if (skipVoid rest).isEmpty then return entries else none
    | _ => if beside then none else blockEntries? (depth cs) (cs.length + 1) cs

end Yaml

end SqlRecord
