import SqlRecord.Expr.Compile

/-!
# Table definitions

The text that creates a schema's table, the text that drops it, and the comparison of two
definitions up to layout: the case of ASCII letters and the amount of white space do not matter,
except inside text literals.
-/

namespace SqlRecord

namespace Schema

variable (s : Schema)

/-- The text of a constraint. -/
def constraintText : Constraint → Except Error String
  | .primaryKey => .ok "PRIMARY KEY"
  | .unique => .ok "UNIQUE"
  | .notNull => .ok "NOT NULL"
  | .default v => match Literal.ofValue v with
    | .ok text => .ok ("DEFAULT " ++ text)
    | .error e => .error (.codec e)
  | .check e => (s.compile e).map fun text => "CHECK" ++ parenthesize text
  | .autoincrement => .ok "AUTOINCREMENT"

/-- The text of a column: name, type, and constraints in declaration order. -/
def columnText (c : Column) : Except Error String :=
  (c.constraints.mapM s.constraintText).map fun texts =>
    " ".intercalate (c.name :: c.sqlType.name :: texts)

/-- The text that creates the table. -/
def createText : Except Error String :=
  (s.columns.mapM s.columnText).map fun texts =>
    "CREATE TABLE " ++ s.table ++ " " ++ parenthesize (", ".intercalate texts)

/-- The text that drops the table if it is there. -/
def dropText : String := "DROP TABLE IF EXISTS " ++ s.table

end Schema

namespace Definition

/-- The white space characters beyond ASCII, as inclusive ranges of code points. -/
def wideBlanks : List (Nat × Nat) :=
  [(0x85, 0x85), (0xa0, 0xa0), (0x1680, 0x1680), (0x2000, 0x200a), (0x2028, 0x2029),
    (0x202f, 0x202f), (0x205f, 0x205f), (0x3000, 0x3000)]

/-- Whether a character is white space in Unicode. -/
def isBlank (c : Char) : Bool :=
  c == ' ' || (9 ≤ c.toNat && c.toNat ≤ 13) ||
    wideBlanks.any fun (lo, hi) => lo ≤ c.toNat && c.toNat ≤ hi

/-- Normalizes the rest of a definition. `literal` tells that a text literal is open, `pending` that
white space was passed, and `started` that something was written before. -/
def normalizeFrom (literal pending started : Bool) : List Char → List Char
  | [] => []
  | c :: cs =>
    if literal then c :: normalizeFrom (c != '\'') false true cs
    else if isBlank c then normalizeFrom false started started cs
    else
      let rest := c.toLower :: normalizeFrom (c == '\'') false true cs
      if pending then ' ' :: rest else rest

/-- A definition with letters in lower case and each run of white space as one blank, outside text
literals, and no white space at its ends. -/
def normalize (cs : List Char) : List Char := normalizeFrom false false false cs

/-- Whether two definitions differ in layout only. -/
def same (a b : String) : Bool := normalize a.toList == normalize b.toList

end Definition

end SqlRecord
