import SqlRecord.Schema.Basic

/-!
# Commands

A command is the statement that is being built, as a tree: an insert, a query with its clauses, a
count, an update or a delete. `Command.sql` writes it. The clauses a command has so far make up
its `Stage`, and the stage decides which clauses may follow (`Stage.next?`) and in which ways the
command can run.
-/

namespace SqlRecord

/-- Sort directions. -/
inductive Direction where
  | asc
  | desc
  deriving DecidableEq, Inhabited

namespace Direction

def token : Direction → String
  | asc => "ASC"
  | desc => "DESC"

end Direction

/-- The two ways to add a row: failing on a key that is taken, or taking its row's place. -/
inductive InsertVerb where
  | insert
  | replace
  deriving DecidableEq

namespace InsertVerb

def keyword : InsertVerb → String
  | insert => "INSERT"
  | replace => "REPLACE"

end InsertVerb

/-- The grouping of a query: columns, and the text of a condition on the groups. -/
structure Grouping where
  columns : List String
  condition : Option String
  deriving DecidableEq

/-- A query. The columns are none for all of them; conditions are texts of expressions. -/
structure Query where
  distinct : Bool
  columns : Option (List String)
  table : String
  condition : Option String
  grouping : Option Grouping
  ordering : Option (List String × Direction)
  window : Option (Nat × Nat)
  deriving DecidableEq

/-- The statement of a command. Inserted and updated columns stand with the texts of their
values. -/
inductive CommandBody where
  | insert (verb : InsertVerb) (table : String) (values : List (String × String))
  | query (q : Query)
  | count (table : String) (condition : Option String)
  | update (table : String) (values : List (String × String)) (condition : Option String)
  | delete (table : String) (condition : Option String)
  deriving DecidableEq

/-- A command: a statement and the parameters its text refers to. -/
structure Command where
  body : CommandBody
  params : List Parameter
  deriving DecidableEq

/-! ### Text -/

/-- A list of names or values. -/
def commaList (items : List String) : String := ", ".intercalate items

/-- A keyword and the text of a condition, if there is one. -/
def conditionText (keyword : String) : Option String → String
  | none => ""
  | some text => " " ++ keyword ++ " " ++ text

namespace Grouping

def text (g : Grouping) : String :=
  " GROUP BY " ++ commaList g.columns ++ conditionText "HAVING" g.condition

end Grouping

namespace Query

/-- A query for the given columns without any clause. -/
def plain (table : String) (columns : Option (List String)) : Query :=
  ⟨false, columns, table, none, none, none, none⟩

/-- The text of an ordering; the direction stands once, after the last column. -/
def orderingText : List String × Direction → String
  | (columns, direction) => " ORDER BY " ++ commaList columns ++ " " ++ direction.token

/-- The text of a window; an offset of zero is left out. -/
def windowText : Nat × Nat → String
  | (count, offset) =>
    " LIMIT " ++ natText count ++ if offset = 0 then "" else " OFFSET " ++ natText offset

/-- The text of an optional clause. -/
def clauseText {α : Type} (text : α → String) : Option α → String
  | none => ""
  | some a => text a

def text (q : Query) : String :=
  "SELECT " ++ (if q.distinct then "DISTINCT " else "") ++
    (q.columns.elim "*" commaList) ++ " FROM " ++ q.table ++
    conditionText "WHERE" q.condition ++ clauseText Grouping.text q.grouping ++
    clauseText orderingText q.ordering ++ clauseText windowText q.window

end Query

namespace CommandBody

/-- The SQL text of a statement. An insert that assigns nothing asks for the default values. -/
def sql : CommandBody → String
  | insert verb table [] => verb.keyword ++ " INTO " ++ table ++ " DEFAULT VALUES"
  | insert verb table values =>
    verb.keyword ++ " INTO " ++ table ++ " (" ++ commaList (values.map (·.1)) ++
      ") VALUES (" ++ commaList (values.map (·.2)) ++ ")"
  | query q => q.text
  | count table condition =>
    "SELECT COUNT(*) FROM " ++ table ++ conditionText "WHERE" condition
  | update table values condition =>
    "UPDATE " ++ table ++ " SET " ++
      commaList (values.map fun (column, value) => column ++ " = " ++ value) ++
      conditionText "WHERE" condition
  | delete table condition => "DELETE FROM " ++ table ++ conditionText "WHERE" condition

end CommandBody

namespace Command

def sql (c : Command) : String := c.body.sql

def statement (c : Command) : Statement := ⟨c.sql, c.params⟩

end Command

/-! ### Stages -/

/-- How far a command is built. -/
inductive Stage where
  | insert
  | select
  | distinct
  | queryFiltered
  | groupBy
  | having
  | orderBy
  | limit
  | count
  | countFiltered
  | update
  | delete
  | changeFiltered
  deriving DecidableEq

/-- The kinds of clauses. -/
inductive ClauseKind where
  | distinct
  | filter
  | groupBy
  | having
  | orderBy
  | limit
  deriving DecidableEq

namespace Stage

def name : Stage → String
  | insert => "Insert"
  | select => "Select"
  | distinct => "Distinct"
  | queryFiltered => "Where"
  | groupBy => "GroupBy"
  | having => "Having"
  | orderBy => "OrderBy"
  | limit => "Limit"
  | count => "Count"
  | countFiltered => "CountWhere"
  | update => "Update"
  | delete => "Delete"
  | changeFiltered => "Filtered"

/-- The stages of a query, in the order they can be reached. -/
def isQuery : Stage → Bool
  | select | distinct | queryFiltered | groupBy | having | orderBy | limit => true
  | _ => false

/-- The stages whose result can be read as a single value. -/
def isScalar : Stage → Bool
  | count | countFiltered => true
  | stage => stage.isQuery

/-- The stages that run without a result and report affected rows. -/
def isNonQuery : Stage → Bool
  | insert | update | delete | changeFiltered => true
  | _ => false

/-- The stage after a clause, for the clauses that a stage allows. -/
def next? : Stage → ClauseKind → Option Stage
  | select, .distinct => some distinct
  | select, .filter | distinct, .filter => some queryFiltered
  | count, .filter => some countFiltered
  | update, .filter | delete, .filter => some changeFiltered
  | select, .groupBy | distinct, .groupBy | queryFiltered, .groupBy => some groupBy
  | groupBy, .having => some having
  | select, .orderBy | distinct, .orderBy | queryFiltered, .orderBy | groupBy, .orderBy
  | having, .orderBy => some orderBy
  | select, .limit | distinct, .limit | queryFiltered, .limit | groupBy, .limit | having, .limit
  | orderBy, .limit => some limit
  | _, _ => none

end Stage

namespace Query

/-- The stage of a query: the last clause it has. -/
def stage (q : Query) : Stage :=
  if q.window.isSome then .limit
  else if q.ordering.isSome then .orderBy
  else match q.grouping with
    | some g => if g.condition.isSome then .having else .groupBy
    | none =>
      if q.condition.isSome then .queryFiltered
      else if q.distinct then .distinct
      else .select

end Query

namespace Command

/-- The stage of a command. -/
def stage (c : Command) : Stage :=
  match c.body with
  | .insert .. => .insert
  | .query q => q.stage
  | .count _ condition => if condition.isSome then .countFiltered else .count
  | .update _ _ condition => if condition.isSome then .changeFiltered else .update
  | .delete _ condition => if condition.isSome then .changeFiltered else .delete

end Command

end SqlRecord
