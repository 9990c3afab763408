/-!
# Identifiers

Names of tables and columns stand unquoted in SQL text, so a name must be a plain word: ASCII
letters, digits and underscores, not starting with a digit, and no keyword in any case.
Keywords are looked up by binary search in a table in increasing order.
-/

namespace SqlRecord

/-- The same text with ASCII letters in lower case, which is how names are compared. -/
def foldCase (s : String) : List Char := s.toList.map Char.toLower

/-- Whether two names are equal ignoring the case of ASCII letters. -/
def sameName (a b : String) : Bool := foldCase a == foldCase b

namespace Identifier

/-- The keywords of SQL, in increasing order. -/
def keywords : Array String :=
  #["ABORT", "ACTION", "ADD", "AFTER", "ALL", "ALTER", "ALWAYS", "ANALYZE", "AND", "AS", "ASC",
    "ATTACH", "AUTOINCREMENT", "BEFORE", "BEGIN", "BETWEEN", "BY", "CASCADE", "CASE", "CAST",
    "CHECK", "COLLATE", "COLUMN", "COMMIT", "CONFLICT", "CONSTRAINT", "CREATE", "CROSS",
    "CURRENT", "CURRENT_DATE", "CURRENT_TIME", "CURRENT_TIMESTAMP", "DATABASE", "DEFAULT",
    "DEFERRABLE", "DEFERRED", "DELETE", "DESC", "DETACH", "DISTINCT", "DO", "DROP", "EACH",
    "ELSE", "END", "ESCAPE", "EXCEPT", "EXCLUDE", "EXCLUSIVE", "EXISTS", "EXPLAIN", "FAIL",
    "FILTER", "FIRST", "FOLLOWING", "FOR", "FOREIGN", "FROM", "FULL", "GENERATED", "GLOB",
    "GROUP", "GROUPS", "HAVING", "IF", "IGNORE", "IMMEDIATE", "IN", "INDEX", "INDEXED",
    "INITIALLY", "INNER", "INSERT", "INSTEAD", "INTERSECT", "INTO", "IS", "ISNULL", "JOIN", "KEY",
    "LAST", "LEFT", "LIKE", "LIMIT", "MATCH", "MATERIALIZED", "NATURAL", "NO", "NOT", "NOTHING",
    "NOTNULL", "NULL", "NULLS", "OF", "OFFSET", "ON", "OR", "ORDER", "OTHERS", "OUTER", "OVER",
    "PARTITION", "PLAN", "PRAGMA", "PRECEDING", "PRIMARY", "QUERY", "RAISE", "RANGE", "RECURSIVE",
    "REFERENCES", "REGEXP", "REINDEX", "RELEASE", "RENAME", "REPLACE", "RESTRICT", "RETURNING",
    "RIGHT", "ROLLBACK", "ROW", "ROWS", "SAVEPOINT", "SELECT", "SET", "TABLE", "TEMP",
    "TEMPORARY", "THEN", "TIES", "TO", "TRANSACTION", "TRIGGER", "UNBOUNDED", "UNION", "UNIQUE",
    "UPDATE", "USING", "VACUUM", "VALUES", "VIEW", "VIRTUAL", "WHEN", "WHERE", "WINDOW", "WITH",
    "WITHOUT"]

/-- Whether `name` is among the entries of a table from `lo` up to but not including `hi`, found
by halving; the entries must be in increasing order. -/
def search (table : Array String) (name : String) (lo hi : Nat) : Bool :=
  if lo < hi then
    let mid := (lo + hi) / 2
    let entry := table.getD mid ""
    if entry = name then true
    else if entry < name then search table name (mid + 1) hi
    else search table name lo mid
  else false
termination_by hi - lo

/-- Whether a name is a keyword in some case. -/
def isKeyword (name : String) : Bool :=
  search keywords (String.ofList (name.toList.map Char.toUpper)) 0 keywords.size

/-- The characters an identifier may start with. -/
def isStart (c : Char) : Bool := c.isAlpha || c == '_'

/-- The characters an identifier may go on with. -/
def isPart (c : Char) : Bool := c.isAlphanum || c == '_'

/-- Whether a run of characters is a plain word. -/
def isWord : List Char → Bool
  | [] => false
  | c :: cs => isStart c && cs.all isPart

/-- Whether a name may stand unquoted in SQL text. -/
def isValid (name : String) : Bool := isWord name.toList && !isKeyword name

end Identifier

end SqlRecord
