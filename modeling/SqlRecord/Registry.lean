import SqlRecord.Schema.Build

/-!
# Registries

A registry keeps one schema for each record type. A request works in three sections that are each
atomic: look the record up; build its schema, outside any lock; and publish the schema, unless
another request has published one in the meantime, in which case that one is the answer. An entry
is never replaced. Each built schema has a stamp of its own, which tells the stored one from
another with the same content, and keeps the type it was built for.
-/

namespace SqlRecord

/-- A built schema, the number of the record type it was built for, and the stamp that identifies
it. -/
structure Registered where
  record : Nat
  stamp : Nat
  schema : Schema

/-- The schemas of record types, each under the number of its type, and the count of schemas built
so far. -/
structure Registry where
  entries : List (Nat × Registered)
  built : Nat

namespace Registry

def empty : Registry := ⟨[], 0⟩

instance : Inhabited Registry := ⟨empty⟩

/-- The schema of a record type, if one is published. -/
def lookup (r : Registry) (record : Nat) : Option Registered := r.entries.lookup record

def contains (r : Registry) (record : Nat) : Bool := (r.lookup record).isSome

def size (r : Registry) : Nat := r.entries.length

/-- Builds the schema of a record type; a failed build leaves no trace. -/
def build (r : Registry) (record : Nat) (d : Declaration) :
    Except SchemaError Registered × Registry :=
  match d.build with
  | .ok schema => (.ok ⟨record, r.built, schema⟩, { r with built := r.built + 1 })
  | .error e => (.error e, r)

/-- Publishes a schema unless the record type has one already; the answer is the published one. -/
def publish (r : Registry) (record : Nat) (candidate : Registered) : Registered × Registry :=
  match r.lookup record with
  | some stored => (stored, r)
  | none => (candidate, { r with entries := r.entries ++ [(record, candidate)] })

/-- The schema of a record type, built by its declaration on first use. The declaration may itself
use the registry: `declare` gives it with the registry after that. -/
def getOrBuildWith (r : Registry) (record : Nat) (declare : Registry → Declaration × Registry) :
    Except SchemaError Registered × Registry :=
  match r.lookup record with
  | some stored => (.ok stored, r)
  | none =>
    let (declaration, r) := declare r
    match r.build record declaration with
    | (.error e, r) => (.error e, r)
    | (.ok candidate, r) =>
      let (stored, r) := r.publish record candidate
      (.ok stored, r)

/-- The schema of a record type, built from a declaration on first use. -/
def getOrBuild (r : Registry) (record : Nat) (d : Declaration) :
    Except SchemaError Registered × Registry :=
  r.getOrBuildWith record fun r => (d, r)

end Registry

end SqlRecord
