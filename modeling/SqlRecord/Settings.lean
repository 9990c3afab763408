import SqlRecord.Database.Error
import SqlRecord.Encoding
import SqlRecord.Field.Integer
import SqlRecord.Yaml.Reader
import SqlRecord.Yaml.Scalar
import SqlRecord.Yaml.Writer

/-!
# Settings

The settings of a database and their YAML text. Every key may be left out, unknown keys are
ignored, and a known key that stands twice, or with a value of another kind, spoils the whole
text.
-/

namespace SqlRecord

/-- The settings of a database. Without a path it lives in memory. -/
structure Settings where
  path : Option String
  bindMode : BindMode
  checkSchema : Bool
  createTables : Bool
  foreignKeys : Bool
  busyTimeout : Option IntegerType.uint64.Carrier
  deriving DecidableEq

namespace Settings

/-- The settings when nothing is set: in memory, values written inline, existing tables checked
and none created, foreign keys enforced, no waiting. -/
def default : Settings := ⟨none, .inline, true, false, true, none⟩

instance : Inhabited Settings := ⟨default⟩

/-! ### Values -/

/-- The text of a scalar. -/
def text? : Yaml.Node → Option (List Char)
  | .plain cs => some cs
  | .quoted cs => some cs
  | .collection => none

/-- The value of a key that may be nothing. -/
def optional? {α : Type} (read : Yaml.Node → Option α) (v : Yaml.Node) : Option (Option α) :=
  match v with
  | .plain cs => if Yaml.isNothing cs then some none else (read v).map some
  | _ => (read v).map some

/-- A truth value, which stands without quotes. -/
def bool? : Yaml.Node → Option Bool
  | .plain cs => Yaml.truth? cs
  | _ => none

/-- A count, which stands without quotes. -/
def count? : Yaml.Node → Option IntegerType.uint64.Carrier
  | .plain cs => Yaml.count? cs >>= fun n => IntegerType.ofInt? _ n
  | _ => none

/-- A bind mode, by its name. -/
def bindMode? (v : Yaml.Node) : Option BindMode := do
  let name := String.ofList (← text? v)
  if name = "inline" then some .inline
  else if name = "parameters" then some .parameters
  else none

/-! ### Reading -/

/-- The settings after one more entry, if its key is unknown or its value fits. -/
def set? (s : Settings) (key : List Char) (v : Yaml.Node) : Option Settings :=
  match String.ofList key with
  | "path" => do
    let path ← optional? text? v
    return { s with path := path.map String.ofList }
  | "bind_mode" => (bindMode? v).map fun bindMode => { s with bindMode }
  | "check_schema" => (bool? v).map fun checkSchema => { s with checkSchema }
  | "create_tables" => (bool? v).map fun createTables => { s with createTables }
  | "foreign_keys" => (bool? v).map fun foreignKeys => { s with foreignKeys }
  | "busy_timeout_ms" => (optional? count? v).map fun busyTimeout => { s with busyTimeout }
  | _ => some s

/-- The known keys, in the order they are written. -/
def keys : List String :=
  ["path", "bind_mode", "check_schema", "create_tables", "foreign_keys", "busy_timeout_ms"]

/-- The settings after further entries; `seen` holds the keys before. -/
def setAll? (s : Settings) (seen : List (List Char)) :
    List (Yaml.Node × Yaml.Node) → Option Settings
  | [] => some s
  | (key, v) :: entries => do
    let key ← text? key
    if seen.contains key && keys.contains (String.ofList key) then none
    else setAll? (← s.set? key v) (key :: seen) entries

/-- The settings that a text describes. -/
def read? (text : String) : Option Settings := do
  default.setAll? [] (← Yaml.mapping? text.toList)

/-- The settings in a file, given its text if the file is there. -/
def load (file : Option String) : Except DatabaseError Settings :=
  match file with
  | none => .error .file
  | some text => match read? text with
    | some s => .ok s
    | none => .error .settings

/-! ### Writing -/

/-- A truth value as text. -/
def boolText (b : Bool) : List Char := (if b then "true" else "false").toList

/-- The name of a bind mode. -/
def bindModeName : BindMode → String
  | .inline => "inline"
  | .parameters => "parameters"

/-- The values in the order of the keys. -/
def valueTexts (s : Settings) : List (List Char) :=
  [s.path.elim "null".toList fun p => Yaml.scalarText p.toList, (bindModeName s.bindMode).toList,
    boolText s.checkSchema, boolText s.createTables, boolText s.foreignKeys,
    s.busyTimeout.elim "null".toList fun n => Digits.ofInt n.val]

/-- The text of settings; every key is written. -/
def text (s : Settings) : String :=
  String.ofList ((keys.zip s.valueTexts).flatMap fun (key, value) => Yaml.entryText key value)

end Settings

end SqlRecord
