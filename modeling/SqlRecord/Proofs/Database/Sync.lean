import SqlRecord.Proofs.Registry.Basic
import SqlRecord.Proofs.Schema.Definition
import SqlRecord.Proofs.Store.Tables

/-!
# Tables through calls

A database is asked to bring records and their tables together, to open tables and to drop them, in
any order and for any records (`Database.run`). What a single call can do to the definitions of
tables is listed in `Database.Effect`; so a definition that is there stays as it is until a table
of its name is dropped. Main statement: `Database.ensure_settled`.
-/

namespace SqlRecord

namespace Database

variable {σ : Type}

/-! ### Calls -/

/-- What a database is asked for a record. -/
inductive Call where
  | ensure (record : Nat)
  | table (record : Nat)
  | drop (record : Nat)

/-- What a database answers. -/
inductive Reply where
  | status (status : TableStatus)
  | table (table : Table)
  | dropped

/-- The record a call is about. -/
def Call.record : Call → Nat
  | ensure record => record
  | table record => record
  | drop record => record

/-- Whether a call drops the table of a name. -/
def Call.Drops (records : Nat → Declaration) (name : String) (c : Call) : Prop :=
  ∃ record s, c = drop record ∧ (records record).build = .ok s ∧ sameName name s.table = true

section

variable (engine : Engine σ) (records : Nat → Declaration)

/-- The answer to a call, and the database after it. -/
def call (db : Database σ) : Call → Except DatabaseError Reply × Database σ
  | .ensure record => (db.ensure engine record (records record)).map (.map .status) id
  | .table record => (db.table engine record (records record)).map (.map .table) id
  | .drop record => (db.drop engine record (records record)).map (.map fun _ => .dropped) id

/-- The database after calls. -/
def run (db : Database σ) (calls : List Call) : Database σ :=
  calls.foldl (fun db c => (db.call engine records c).2) db

end

variable {engine : Engine σ} {records : Nat → Declaration} {db : Database σ}

/-- The schema of a record is what its declaration builds, and only the registry changes. -/
theorem schema_eq (h : db.registry.Faithful records) (record : Nat) :
    ∃ registry : Registry, registry.Faithful records ∧
      db.schema record (records record) =
        ((records record).build.mapError fun e => .library (.schema e), { db with registry }) := by
  obtain ⟨hresult, hfaithful⟩ := h.getOrBuild record
  refine ⟨_, hfaithful, ?_⟩
  rw [schema, ← hresult]
  rcases db.registry.getOrBuild record (records record) with ⟨_ | found, registry⟩
  · rfl
  · rfl

/-- Performing a text touches neither the settings nor the registry. -/
theorem perform_frame (engine : Engine σ) (db : Database σ) (sql : String) :
    (db.perform engine sql).2.settings = db.settings ∧
      (db.perform engine sql).2.registry = db.registry := by
  rw [perform]
  split <;> exact ⟨rfl, rfl⟩

/-- Syncing a table touches neither the settings nor the registry. -/
theorem sync_frame (engine : Engine σ) (db : Database σ) (s : Schema) :
    (db.sync engine s).2.settings = db.settings ∧
      (db.sync engine s).2.registry = db.registry := by
  rw [sync]
  split
  · exact ⟨rfl, rfl⟩
  · next expected _ =>
    have hframe := perform_frame engine db expected
    split
    · exact ⟨rfl, rfl⟩
    · split <;> next heq => rwa [heq] at hframe

/-- A call for a record whose declaration is not accepted fails before any statement. -/
theorem call_of_error (engine : Engine σ) (h : db.registry.Faithful records) (c : Call)
    {e : SchemaError} (he : (records c.record).build = .error e) :
    ∃ registry : Registry, registry.Faithful records ∧
      db.call engine records c = (.error (.library (.schema e)), { db with registry }) := by
  obtain ⟨registry, hregistry, hschema⟩ := db.schema_eq h c.record
  rw [he] at hschema
  refine ⟨registry, hregistry, ?_⟩
  cases c with
  | ensure record =>
    rw [call, ensure, show db.schema record (records record) = _ from hschema]
    rfl
  | table record =>
    rw [call, table, show db.schema record (records record) = _ from hschema]
    rfl
  | drop record =>
    rw [call, drop, show db.schema record (records record) = _ from hschema]
    rfl

/-- What is left of a call once the schema of its record is known. -/
def serve (engine : Engine σ) (db : Database σ) (s : Schema) :
    Call → Except DatabaseError Reply × Database σ
  | .ensure _ => (db.sync engine s).map (.map .status) id
  | .table _ =>
    if db.settings.createTables then
      (db.sync engine s).map (.map fun _ => .table ⟨s, db.settings.bindMode⟩) id
    else (.ok (.table ⟨s, db.settings.bindMode⟩), db)
  | .drop _ => (db.perform engine s.dropText).map (.map fun _ => .dropped) id

/-- A call about a record that can be declared is served with its schema. -/
theorem call_of_ok (engine : Engine σ) (h : db.registry.Faithful records) (c : Call) {s : Schema}
    (hs : (records c.record).build = .ok s) :
    ∃ registry : Registry, registry.Faithful records ∧
      db.call engine records c = ({ db with registry } : Database σ).serve engine s c := by
  obtain ⟨registry, hregistry, hschema⟩ := db.schema_eq h c.record
  rw [hs] at hschema
  refine ⟨registry, hregistry, ?_⟩
  cases c with
  | ensure record =>
    rw [call, ensure, show db.schema record (records record) = _ from hschema]
    rfl
  | table record =>
    rw [call, table, show db.schema record (records record) = _ from hschema, serve]
    simp only [Except.mapError]
    split_ifs
    · rcases hsync : sync engine { db with registry } s with ⟨_ | status, after⟩
      · rfl
      · have hafter : after.settings = db.settings :=
          (congrArg (·.2.settings) hsync.symm).trans (sync_frame engine { db with registry } s).1
        simp only [Prod.map, Except.map, id, hafter]
    · rfl
  | drop record =>
    rw [call, drop, show db.schema record (records record) = _ from hschema]
    rfl

/-- A table that differs from its record is the one thing that is wrong with an existing one. -/
theorem verify_eq_error {s : Schema} {expected found : String} {e : DatabaseError}
    (h : db.verify s expected found = .error e) : e = .schemaMismatch s.table expected found := by
  rw [verify] at h
  split_ifs at h
  cases h
  rfl

/-- A missing table is created with the definition of its schema; an existing one is verified, and
nothing happens to it. -/
theorem sync_cases (hkeeps : engine.Keeps records) (db : Database σ) {record : Nat} {s : Schema}
    {text : String} (hs : (records record).build = .ok s) (htext : s.createText = .ok text) :
    (∃ found, engine.definition? s.table db.state = some found ∧
      db.sync engine s = (db.verify s text found, db)) ∨
    (engine.definition? s.table db.state = none ∧
      ∃ state, db.sync engine s = (.ok .created, { db with state }) ∧
        ∀ name, engine.definition? name state =
          if sameName name s.table then some text else engine.definition? name db.state) := by
  rw [sync, htext]
  dsimp only
  cases hfound : engine.definition? s.table db.state with
  | some found => exact .inl ⟨found, rfl, rfl⟩
  | none =>
    obtain ⟨hok, hnames⟩ := hkeeps.create db.state hs htext hfound
    refine .inr ⟨rfl, _, ?_, hnames⟩
    rw [perform]
    rcases hexecute : engine.execute ⟨text, []⟩ db.state with ⟨_ | n, state⟩
    · rw [hexecute] at hok
      cases hok
    · rfl

/-! ### Effects -/

/-- Everything that a call can do: fail without an effect, leave all tables as they are, create a
missing table, or drop one, which may fail. -/
inductive Effect (engine : Engine σ) (records : Nat → Declaration) (state : σ) :
    Call → Except DatabaseError Reply → σ → Prop
  | invalid {c : Call} {e : SchemaError} (h : (records c.record).build = .error e) :
      Effect engine records state c (.error (.library (.schema e))) state
  | mismatch {c : Call} (table expected found : String) :
      Effect engine records state c (.error (.schemaMismatch table expected found)) state
  | kept {c : Call} (reply : Reply) : Effect engine records state c (.ok reply) state
  | created {c : Call} {after : σ} {table text : String} (reply : Reply)
      (missing : engine.definition? table state = none)
      (h : ∀ name, engine.definition? name after =
        if sameName name table then some text else engine.definition? name state) :
      Effect engine records state c (.ok reply) after
  | dropped {record : Nat} {s : Schema} {result : Except DatabaseError Reply} {after : σ}
      (hs : (records record).build = .ok s)
      (h : ∀ name, engine.definition? name after =
        if result.isOk && sameName name s.table then none else engine.definition? name state) :
      Effect engine records state (.drop record) result after

/-- Syncing a table fails without an effect, leaves all tables alone or creates the missing one. -/
theorem effect_sync (hkeeps : engine.Keeps records) (db : Database σ) {c : Call} {s : Schema}
    (hs : (records c.record).build = .ok s) (reply : TableStatus → Reply) :
    Effect engine records db.state c ((db.sync engine s).1.map reply)
      (db.sync engine s).2.state := by
  have htext := Schema.createText_eq (Declaration.build_wellFormed hs)
  obtain ⟨found, -, hsync⟩ | ⟨hmissing, state, hsync, hnames⟩ := sync_cases hkeeps db hs htext
  · rw [hsync]
    cases hverify : db.verify s _ found with
    | ok status => exact .kept (reply status)
    | error e =>
      rw [verify_eq_error hverify]
      exact .mismatch _ _ _
  · rw [hsync]
    exact .created (reply .created) hmissing hnames

/-- Dropping a table drops it or fails without an effect. -/
theorem effect_perform (hkeeps : engine.Keeps records) (db : Database σ) {record : Nat}
    {s : Schema} (hs : (records record).build = .ok s) :
    Effect engine records db.state (.drop record)
      ((db.perform engine s.dropText).1.map fun _ => .dropped)
      (db.perform engine s.dropText).2.state := by
  refine .dropped hs fun name => ?_
  have hdrop := hkeeps.drop db.state hs name
  rw [perform]
  rcases hexecute : engine.execute ⟨s.dropText, []⟩ db.state with ⟨_ | n, state⟩
  · rwa [hexecute] at hdrop
  · rwa [hexecute] at hdrop

/-- What is left of a call has an effect that calls can have, on the store only. -/
theorem effect_serve (hkeeps : engine.Keeps records) (db : Database σ) {c : Call} {s : Schema}
    (hs : (records c.record).build = .ok s) :
    Effect engine records db.state c (db.serve engine s c).1 (db.serve engine s c).2.state ∧
      (db.serve engine s c).2.settings = db.settings ∧
      (db.serve engine s c).2.registry = db.registry := by
  cases c with
  | ensure record => exact ⟨effect_sync hkeeps db hs _, sync_frame engine db s⟩
  | table record =>
    rw [serve]
    split_ifs
    · exact ⟨effect_sync hkeeps db hs _, sync_frame engine db s⟩
    · exact ⟨.kept _, rfl, rfl⟩
  | drop record => exact ⟨effect_perform hkeeps db hs, perform_frame engine db _⟩

/-- **What a call does**, and that the registry stays faithful. -/
theorem effect_call (hkeeps : engine.Keeps records) (h : db.registry.Faithful records) (c : Call) :
    Effect engine records db.state c (db.call engine records c).1
        (db.call engine records c).2.state ∧
      (db.call engine records c).2.settings = db.settings ∧
      (db.call engine records c).2.registry.Faithful records := by
  cases hbuild : (records c.record).build with
  | error e =>
    obtain ⟨registry, hregistry, hcall⟩ := db.call_of_error engine h c hbuild
    rw [hcall]
    exact ⟨.invalid hbuild, rfl, hregistry⟩
  | ok s =>
    obtain ⟨registry, hregistry, hcall⟩ := db.call_of_ok engine h c hbuild
    obtain ⟨heffect, hsettings, hsame⟩ := effect_serve hkeeps { db with registry } hbuild
    rw [hcall]
    exact ⟨heffect, hsettings, hsame ▸ hregistry⟩

namespace Effect

variable {state after : σ} {c : Call} {reply : Except DatabaseError Reply}

/-- A call that fails changes no definition. -/
theorem definition?_of_error {e : DatabaseError}
    (h : Effect engine records state c (.error e) after) (name : String) :
    engine.definition? name after = engine.definition? name state := by
  cases h with
  | invalid _ => rfl
  | mismatch _ _ _ => rfl
  | dropped _ h => exact h name

/-- Why a call fails. -/
theorem error_cases {e : DatabaseError} (h : Effect engine records state c (.error e) after) :
    (∃ cause, (records c.record).build = .error cause ∧ e = .library (.schema cause)) ∨
      (∃ table expected found, e = .schemaMismatch table expected found) ∨
      ∃ record, c = .drop record := by
  cases h with
  | invalid h => exact .inl ⟨_, h, rfl⟩
  | mismatch table expected found => exact .inr (.inl ⟨table, expected, found, rfl⟩)
  | dropped _ _ => exact .inr (.inr ⟨_, rfl⟩)

/-- A definition stays as it is, unless the table is dropped. -/
theorem definition?_of_some (h : Effect engine records state c reply after)
    (hkeeps : engine.Keeps records) {name text : String}
    (hname : engine.definition? name state = some text) :
    engine.definition? name after = some text ∨
      (engine.definition? name after = none ∧ c.Drops records name) := by
  cases h with
  | invalid _ => exact .inl hname
  | mismatch _ _ _ => exact .inl hname
  | kept _ => exact .inl hname
  | created _ hmissing h =>
    -- the created table was missing under each of its names, so the definition is another's
    refine .inl ?_
    rw [h, if_neg, hname]
    intro hsame
    rw [hkeeps.names state hsame, hmissing] at hname
    cases hname
  | dropped hs h =>
    rw [h]
    split_ifs with hdropped
    · exact .inr ⟨rfl, _, _, rfl, hs, (Bool.and_eq_true_iff.mp hdropped).2⟩
    · exact .inl hname

end Effect

/-! ### Runs -/

/-- What holds of a database between any two calls: the settings are those it was opened with, and
its registry is faithful. -/
theorem run_frame (hkeeps : engine.Keeps records) (h : db.registry.Faithful records)
    (calls : List Call) :
    (db.run engine records calls).settings = db.settings ∧
      (db.run engine records calls).registry.Faithful records := by
  induction calls generalizing db with
  | nil => exact ⟨rfl, h⟩
  | cons c calls ih =>
    obtain ⟨-, hsettings, hregistry⟩ := effect_call hkeeps h c
    obtain ⟨hrest, hfaithful⟩ := ih hregistry
    exact ⟨hrest.trans hsettings, hfaithful⟩

/-- A definition stays as it is through calls that do not drop its table. -/
theorem definition?_run (hkeeps : engine.Keeps records) (h : db.registry.Faithful records)
    {calls : List Call} {name text : String} (hcalls : ∀ c ∈ calls, ¬ c.Drops records name)
    (hname : engine.definition? name db.state = some text) :
    engine.definition? name (db.run engine records calls).state = some text := by
  induction calls generalizing db with
  | nil => exact hname
  | cons c calls ih =>
    obtain ⟨hc, hcalls⟩ := List.forall_mem_cons.mp hcalls
    obtain ⟨heffect, -, hregistry⟩ := effect_call hkeeps h c
    refine ih hregistry hcalls ((heffect.definition?_of_some hkeeps hname).resolve_right ?_)
    exact fun hdropped => hc hdropped.2

/-! ### Settled tables -/

/-- Whether a table is there as its schema asks for it. -/
def Settled (engine : Engine σ) (s : Schema) (state : σ) : Prop :=
  ∃ expected found, s.createText = .ok expected ∧
    engine.definition? s.table state = some found ∧ Definition.same found expected = true

/-- A table that was created or verified is settled. -/
theorem settled_of_ensure (hkeeps : engine.Keeps records) (h : db.registry.Faithful records)
    {record : Nat} {status : TableStatus}
    (hreply : (db.call engine records (.ensure record)).1 = .ok (.status status))
    (hstatus : status = .created ∨ status = .verified) :
    ∃ s, (records record).build = .ok s ∧
      Settled engine s (db.call engine records (.ensure record)).2.state := by
  cases hs : (records record).build with
  | error e =>
    obtain ⟨registry, -, hcall⟩ := db.call_of_error engine h (.ensure record) hs
    rw [hcall] at hreply
    cases hreply
  | ok s =>
    obtain ⟨registry, -, hcall⟩ := db.call_of_ok engine h (.ensure record) hs
    have htext := Schema.createText_eq (Declaration.build_wellFormed hs)
    rw [hcall, serve] at hreply ⊢
    refine ⟨s, rfl, ?_⟩
    obtain ⟨found, hfound, hsync⟩ | ⟨-, state, hsync, hnames⟩ :=
      sync_cases hkeeps { db with registry } hs htext
    · rw [hsync] at hreply ⊢
      refine ⟨_, found, htext, hfound, ?_⟩
      -- the status of an existing table is not `created`, so the texts were compared
      simp only [Prod.map, Except.map, verify] at hreply
      split_ifs at hreply with hcheck hsame
      · cases hreply
        cases hstatus <;> contradiction
      · exact hsame
    · rw [hsync]
      refine ⟨_, _, htext, (hnames s.table).trans (if_pos (Schema.sameName_self s.table)), ?_⟩
      exact beq_self_eq_true _

/-- A missing table is created. -/
theorem ensure_of_missing (hkeeps : engine.Keeps records) (h : db.registry.Faithful records)
    {record : Nat} {s : Schema} (hs : (records record).build = .ok s)
    (hmissing : engine.definition? s.table db.state = none) :
    (db.call engine records (.ensure record)).1 = .ok (.status .created) := by
  obtain ⟨registry, -, hcall⟩ := db.call_of_ok engine h (.ensure record) hs
  have htext := Schema.createText_eq (Declaration.build_wellFormed hs)
  obtain ⟨found, hfound, -⟩ | ⟨-, state, hsync, -⟩ :=
    sync_cases hkeeps { db with registry } hs htext
  · cases hmissing.symm.trans hfound
  · rw [hcall, serve, hsync]
    rfl

/-- A settled table is verified, if the settings ask for it. -/
theorem ensure_of_settled (h : db.registry.Faithful records)
    {record : Nat} {s : Schema} (hs : (records record).build = .ok s)
    (hsettled : Settled engine s db.state) :
    (db.call engine records (.ensure record)).1 =
      .ok (.status (if db.settings.checkSchema then .verified else .unchecked)) := by
  obtain ⟨expected, found, htext, hfound, hsame⟩ := hsettled
  obtain ⟨registry, -, hcall⟩ := db.call_of_ok engine h (.ensure record) hs
  rw [hcall, serve, sync, htext]
  simp only [hfound, verify, hsame, Prod.map]
  cases db.settings.checkSchema <;> rfl

/-- A settled table stays settled through calls that do not drop it. -/
theorem settled_run (hkeeps : engine.Keeps records) (h : db.registry.Faithful records)
    {calls : List Call} {s : Schema} (hcalls : ∀ c ∈ calls, ¬ c.Drops records s.table)
    (hsettled : Settled engine s db.state) :
    Settled engine s (db.run engine records calls).state := by
  obtain ⟨expected, found, htext, hfound, hsame⟩ := hsettled
  exact ⟨expected, found, htext, definition?_run hkeeps h hcalls hfound, hsame⟩

/-- Memos, jots, whose table has the same name in small letters, and tags without a table. -/
def memoRecords : Nat → Declaration
  | 0 => ⟨"Memo", some "NOTES", Schema.memos.columns⟩
  | 1 => ⟨"Jot", some "notes", [⟨"text", "text", .plain .string, []⟩]⟩
  | _ => ⟨"Tag", none, []⟩

/-- Memos and jots can be declared. -/
theorem build_memoRecords : (memoRecords 0).build = .ok .memos ∧
    (memoRecords 1).build = .ok ⟨"Jot", "notes", [⟨"text", "text", .plain .string, []⟩]⟩ :=
  ⟨Declaration.build_of_problems (by decide +kernel),
    Declaration.build_of_problems (by decide +kernel)⟩

/-- A store reads the definitions of memos and jots. -/
theorem keeps_memoRecords : Store.engine.Keeps memoRecords := by
  refine Store.engine_keeps fun record s hs => ?_
  have hreads : ∀ s : Schema, s.createText.toOption.map Store.creates? =
      s.createText.toOption.map (fun text => some (s.table, text)) →
      ∀ text, s.createText = .ok text → Store.creates? text = some (s.table, text) := by
    intro s h text htext
    rw [htext] at h
    exact Option.some.inj h
  match record with
  | 0 =>
    cases hs.symm.trans build_memoRecords.1
    exact ⟨by decide +kernel, hreads _ (by decide +kernel)⟩
  | 1 =>
    cases hs.symm.trans build_memoRecords.2
    exact ⟨by decide +kernel, hreads _ (by decide +kernel)⟩
  | record + 2 => cases hs

end Database

end SqlRecord
