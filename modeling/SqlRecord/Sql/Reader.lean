import SqlRecord.Sql.Token

/-!
# Readers of SQL tokens

A reader takes tokens from the front of a list. Where it fails it takes none, so that
alternatives can be tried one after the other.
-/

namespace SqlRecord

namespace Sql

/-- A reader of tokens; where it fails it takes none. -/
abbrev Reader := StateT (List Lexeme) Option

namespace Reader

/-- Reads one token of a kind. -/
def one {α : Type} (f : Token → Option α) : Reader α := do
  match ← get with
  | [] => failure
  | l :: ls => match f l.token with
    | some a => set ls; return a
    | none => failure

/-- Reads a keyword, in any case. -/
def keyword (w : String) : Reader Unit :=
  one fun
    | .word name => if sameName name w then some () else none
    | _ => none

/-- Reads keywords one after the other. -/
def keywords (ws : List String) : Reader Unit := ws.forM keyword

/-- Reads a symbol. -/
def symbol (s : String) : Reader Unit :=
  one fun
    | .symbol t => if t = s then some () else none
    | _ => none

/-- Reads a name: a word that is no keyword, or anything between quotes. -/
def name : Reader String :=
  one fun
    | .word name => if Identifier.isKeyword name then none else some name
    | .name name => some name
    | _ => none

/-- Whether a reader succeeded; if not, nothing was read. -/
def succeeds (p : Reader Unit) : Reader Bool := (do p; return true) <|> return false

/-- Reads something if it is there. -/
def optional? {α : Type} (p : Reader α) : Reader (Option α) := some <$> p <|> return none

/-- Reads items between commas, at most as many as `fuel`. -/
def commaListFuel {α : Type} (p : Reader α) : Nat → Reader (List α)
  | 0 => failure
  | fuel + 1 => do
    let a ← p
    if ← succeeds (symbol ",") then return a :: (← commaListFuel p fuel) else return [a]

/-- Reads items between commas. -/
def commaList {α : Type} (p : Reader α) : Reader (List α) := do
  commaListFuel p ((← get).length + 1)

/-- Reads as many items as there are, at most `fuel`. -/
def manyFuel {α : Type} (p : Reader α) : Nat → Reader (List α)
  | 0 => return []
  | fuel + 1 => do
    match ← optional? p with
    | some a => return a :: (← manyFuel p fuel)
    | none => return []

/-- Reads as many items as there are. -/
def many {α : Type} (p : Reader α) : Reader (List α) := do manyFuel p (← get).length

/-- Reads something between parentheses. -/
def parenthesized {α : Type} (p : Reader α) : Reader α := do
  symbol "("
  let a ← p
  symbol ")"
  return a

/-- Reads a list of names between parentheses. -/
def names : Reader (List String) := parenthesized (commaList name)

/-- Reads something, with its text as it was written. -/
def withText {α : Type} (p : Reader α) : Reader (α × String) := do
  let before ← get
  let a ← p
  let after ← get
  return (a, spanText (before.take (before.length - after.length)))

end Reader

end Sql

end SqlRecord
