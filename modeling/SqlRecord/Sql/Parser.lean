import SqlRecord.Sql.Reader
import SqlRecord.Sql.Statement

/-!
# Reading SQL statements

`Statement.ofLexemes?` reads the tokens of one statement. Expressions are read by precedence: `OR`
binds least, then `AND`, `NOT`, equality and `IS`, and the comparisons by order.
-/

namespace SqlRecord

namespace Sql

namespace Reader

/-! ### Expressions -/

/-- Reads a constant that carries its value. -/
def plainConstant : Reader Store.Cell :=
  one fun
    | .number text => some (.ofNumber (.ofText false text))
    | .text content => some (.text (Cbor.textBytes (String.ofList content)))
    | .bytes content => some (.blob content)
    | _ => none

/-- Reads a number behind a sign. -/
def signedNumber : Reader Store.Cell := do
  let negative ← (do symbol "-"; return true) <|> (do symbol "+"; return false)
  one fun
    | .number text => some (.ofNumber (.ofText negative text))
    | _ => none

/-- Reads a constant. -/
def constant : Reader Store.Cell :=
  plainConstant <|> signedNumber <|> (do keyword "NULL"; return .null)

/-- The operators between two expressions, by how tightly they bind. -/
inductive Operator where
  | or
  | and
  | same (negated : Bool)
  | compare (op : Comparison)

namespace Operator

/-- The strength of `NOT`, which stands before its operand. -/
def notStrength : Nat := 3

def strength : Operator → Nat
  | or => 1
  | and => 2
  | same _ => 4
  | compare .eq => 4
  | compare .ne => 4
  | compare _ => 5

def apply : Operator → Term → Term → Term
  | or, a, b => .or a b
  | and, a, b => .and a b
  | same negated, a, b => .same negated a b
  | compare op, a, b => .compare op a b

/-- The operators that are symbols. -/
def symbols : List (String × Comparison) :=
  [("=", .eq), ("==", .eq), ("!=", .ne), ("<>", .ne), ("<", .lt), ("<=", .le), (">", .gt),
    (">=", .ge)]

/-- Reads an operator. -/
def read : Reader Operator :=
  (do keyword "OR"; return or) <|>
  (do keyword "AND"; return and) <|>
  (do keyword "IS"; return same (← succeeds (keyword "NOT"))) <|>
  one fun
    | .symbol s => (symbols.lookup s).map compare
    | _ => none

end Operator

mutual

/-- Reads an expression whose operators bind at least as tightly as `least`. -/
def termFuel : Nat → Nat → Reader Term
  | 0, _ => failure
  | fuel + 1, least => do
    let first ← (do keyword "NOT"; return .not (← termFuel fuel Operator.notStrength)) <|>
      operandFuel fuel
    extendFuel fuel least first

/-- Reads an operand. -/
def operandFuel : Nat → Reader Term
  | 0 => failure
  | fuel + 1 =>
    (.constant <$> constant) <|>
    (.placeholder <$> one fun
      | .placeholder name => some name
      | _ => none) <|>
    (do
      keywords ["CAST"]
      parenthesized do
        let e ← termFuel fuel 0
        keywords ["AS", "TEXT"]
        return .asText e) <|>
    (.column <$> name) <|>
    parenthesized (termFuel fuel 0)

/-- Goes on with the operators after an expression. -/
def extendFuel : Nat → Nat → Term → Reader Term
  | 0, _, _ => failure
  | fuel + 1, least, left => do
    match ← optional? do
      let op ← Operator.read
      if op.strength < least then failure else return op
    with
    | none => return left
    | some op => extendFuel fuel least (op.apply left (← termFuel fuel (op.strength + 1)))

end

/-- Reads an expression. -/
def term : Reader Term := do termFuel (4 * (← get).length + 4) 0

/-- Reads an expression behind a keyword, if the keyword is there. -/
def clause? (w : String) : Reader (Option Term) := do
  if ← succeeds (keyword w) then some <$> term else pure none

/-- Reads the direction of a sort if it is there, and whether it is the descending one. -/
def descends : Reader Bool :=
  (do keyword "DESC"; return true) <|> (do keyword "ASC"; return false) <|> return false

/-! ### Definitions -/

/-- Reads a rule of a column. -/
def columnRule : Reader ColumnRule :=
  (do
    keywords ["PRIMARY", "KEY"]
    let descending ← descends
    return .primaryKey descending (← succeeds (keyword "AUTOINCREMENT"))) <|>
  (do keyword "UNIQUE"; return .unique) <|>
  (do keywords ["NOT", "NULL"]; return .notNull) <|>
  (do
    keyword "DEFAULT"
    .default <$> ((.constant <$> constant) <|> parenthesized term)) <|>
  (do keyword "CHECK"; .check <$> parenthesized term)

/-- Reads the definition of a column. -/
def columnDefinition : Reader ColumnDefinition := do
  let column ← name
  let (_, type) ← withText do
    let _ ← many name
    optional? (parenthesized (commaList constant))
  return ⟨column, type, ← many columnRule⟩

/-- Reads a rule of a table. -/
def tableRule : Reader TableRule :=
  (do keywords ["PRIMARY", "KEY"]; .primaryKey <$> names) <|>
  (do keyword "UNIQUE"; .unique <$> names) <|>
  (do keyword "CHECK"; .check <$> parenthesized term)

/-- Reads a table definition from the name of the table on. -/
def tableDefinition : Reader TableDefinition := do
  let ((table, parts), text) ← withText do
    let table ← name
    let parts ← parenthesized (commaList ((.inl <$> tableRule) <|> (.inr <$> columnDefinition)))
    return (table, parts)
  return ⟨table, text, parts.filterMap Sum.getRight?, parts.filterMap Sum.getLeft?⟩

/-! ### Statements -/

/-- Reads the rows to insert. -/
def insertedRows : Reader (Option (List (List Term))) :=
  (do keywords ["DEFAULT", "VALUES"]; return none) <|>
  (do keyword "VALUES"; some <$> commaList (parenthesized (commaList term)))

/-- Reads what a query gives. -/
def results : Reader Results :=
  (do symbol "*"; return .all) <|>
  (do
    let (_, text) ← withText do
      let function ← name
      if sameName function "COUNT" then parenthesized (symbol "*") else failure
    return .count text) <|>
  (.terms <$> commaList (withText term))

/-- Reads one term of an ordering, and whether it descends. -/
def orderingTerm : Reader (Term × Bool) := do
  let e ← term
  return (e, ← descends)

/-- Reads a query after its first keyword. -/
def selection : Reader Selection := do
  let distinct ← succeeds (keyword "DISTINCT")
  let results ← results
  let table ← if ← succeeds (keyword "FROM") then some <$> name else pure none
  let condition ← clause? "WHERE"
  let ordering ← if ← succeeds (keywords ["ORDER", "BY"]) then commaList orderingTerm else pure []
  let limit ← clause? "LIMIT"
  let offset ← if limit.isSome then clause? "OFFSET" else pure none
  return ⟨distinct, results, table, condition, ordering, limit, offset⟩

/-- Reads an assignment. -/
def assignment : Reader (String × Term) := do
  let column ← name
  symbol "="
  return (column, ← term)

/-- Reads a statement. -/
def statement : Reader Statement :=
  (do
    keywords ["CREATE", "TABLE"]
    let lenient ← succeeds (keywords ["IF", "NOT", "EXISTS"])
    return .createTable lenient (← tableDefinition)) <|>
  (do
    keywords ["DROP", "TABLE"]
    let lenient ← succeeds (keywords ["IF", "EXISTS"])
    return .dropTable lenient (← name)) <|>
  (do
    let replaces ← (do keyword "REPLACE"; return true) <|> (do
      keyword "INSERT"
      succeeds (keywords ["OR", "REPLACE"]))
    keyword "INTO"
    let table ← name
    let columns ← optional? names
    return .insert replaces table columns (← insertedRows)) <|>
  (do keyword "SELECT"; .select <$> selection) <|>
  (do
    keyword "UPDATE"
    let table ← name
    keyword "SET"
    let assignments ← commaList assignment
    return .update table assignments (← clause? "WHERE")) <|>
  (do
    keywords ["DELETE", "FROM"]
    let table ← name
    return .delete table (← clause? "WHERE"))

end Reader

/-- The statement that tokens spell. -/
def Statement.ofLexemes? (ls : List Lexeme) : Option Statement :=
  match Reader.statement.run ls with
  | some (s, []) => some s
  | _ => none

end Sql

end SqlRecord
