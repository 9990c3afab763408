import SqlRecord.Proofs.Schema.Columns
import SqlRecord.Proofs.Sql.Grammar
import SqlRecord.Store.Engine

/-!
# Tables of a store

What a database expects of the engine that keeps its tables (`Engine.Keeps`). A store keeps them
wherever it reads the definitions of the records' tables as such, which is a matter of the texts
alone. Main statement: `Store.engine_keeps`.
-/

namespace SqlRecord

/-! ### Engines -/

/-- An engine that keeps the tables of records: a table is found by its name in any case, the
definition of a built schema is accepted where there is no table, and kept as it is, and what is
dropped is gone. Other tables are left alone, and all are by a drop that fails. -/
structure Engine.Keeps {σ : Type} (engine : Engine σ) (records : Nat → Declaration) : Prop where
  names : ∀ {a b : String} (state : σ), sameName a b = true →
    engine.definition? a state = engine.definition? b state
  create : ∀ {record : Nat} {s : Schema} {text : String} (state : σ),
    (records record).build = .ok s → s.createText = .ok text →
    engine.definition? s.table state = none →
      (engine.execute ⟨text, []⟩ state).1.isOk = true ∧
      ∀ name, engine.definition? name (engine.execute ⟨text, []⟩ state).2 =
        if sameName name s.table then some text else engine.definition? name state
  drop : ∀ {record : Nat} {s : Schema} (state : σ), (records record).build = .ok s →
    ∀ name, engine.definition? name (engine.execute ⟨s.dropText, []⟩ state).2 =
      if (engine.execute ⟨s.dropText, []⟩ state).1.isOk && sameName name s.table then none
      else engine.definition? name state

namespace Store

variable {s : Store}

/-! ### Definitions -/

theorem sameName_right {a b : String} (h : sameName a b = true) (name : String) :
    sameName name a = sameName name b := by
  rw [Bool.eq_iff_iff]
  exact ⟨fun ha => Sql.sameName_trans ha h, fun hb => Sql.sameName_trans hb (Sql.sameName_symm h)⟩

/-- A table is found by its name in any case. -/
theorem definition?_congr (s : Store) {a b : String} (h : sameName a b = true) :
    s.definition? a = s.definition? b := by
  simp only [definition?, find?, sameName_right h]

/-- The definitions after a table was added, of a name that had none. -/
theorem definition?_append (s : Store) {t : StoredTable} (hmissing : s.definition? t.name = none)
    (changes : Nat) (name : String) :
    (Store.mk (s.tables ++ [t]) changes).definition? name =
      if sameName name t.name then some t.definition else s.definition? name := by
  have happend : (Store.mk (s.tables ++ [t]) changes).definition? name =
      (s.definition? name).or (if sameName name t.name then some t.definition else none) := by
    rw [definition?, find?, List.find?_append, Option.map_or, List.find?_singleton,
      Schema.sameName_comm]
    split_ifs <;> rfl
  rw [happend]
  split_ifs with hname
  · rw [s.definition?_congr hname, hmissing, Option.none_or]
  · exact Option.or_none

/-- The definitions after the tables of a name were removed. -/
theorem definition?_filter (s : Store) (dropped : String) (changes : Nat) (name : String) :
    (Store.mk (s.tables.filter fun t => !sameName t.name dropped) changes).definition? name =
      if sameName name dropped then none else s.definition? name := by
  rw [definition?, find?, List.find?_filter]
  split_ifs with hname
  · rw [Option.map_eq_none_iff, List.find?_eq_none]
    intro t _
    simp [sameName_right hname]
  · refine congrArg (Option.map _) (congrFun (congrArg List.find? (funext fun t => ?_)) _)
    rw [Bool.eq_iff_iff, decide_eq_true_iff, Bool.not_eq_true']
    refine ⟨And.right, fun ht => ⟨?_, ht⟩⟩
    by_contra hdropped
    exact hname (Sql.sameName_trans (Sql.sameName_symm ht) (Bool.not_eq_false _ ▸ hdropped))

/-! ### Statements -/

/-- What running a text does that spells a statement without a result. -/
theorem execute_eq {text : String} {ls : List Sql.Lexeme} {rest : List Char}
    {statement : Sql.Statement} {after : Store} (hfirst : first? text.toList = some (ls, rest))
    (hstatement : Sql.Statement.ofLexemes? ls = some statement)
    (hadmits : s.admits statement = true) (hselect : ∀ q, statement ≠ .select q)
    (hrun : ∀ placeholder, s.run placeholder statement = (some [], after)) :
    s.execute ⟨text, []⟩ = (.ok after.changes, after) := by
  have hne : ls ≠ [] := by
    rintro rfl
    cases hstatement
  have hprepare : s.prepare? text = some (some statement, Sql.placeholders ls) := by
    rw [prepare?, hfirst]
    simp [resolve?, hstatement, hadmits]
  rw [execute, perform, hprepare]
  have hbind : bind (Sql.placeholders ls) [] = .ok fun _ => .null := rfl
  cases statement with
  | select q => exact absurd rfl (hselect q)
  | _ => simp only [hbind, hrun]

/-- The name and the definition of the table that a text creates. -/
def creates? (text : String) : Option (String × String) := do
  let (ls, _) ← first? text.toList
  match ← Sql.Statement.ofLexemes? ls with
  | .createTable false d => (StoredTable.ofDefinition? d).map fun t => (t.name, t.definition)
  | _ => none

/-- The name of the table that a text drops if it is there. -/
def drops? (text : String) : Option String := do
  let (ls, _) ← first? text.toList
  match ← Sql.Statement.ofLexemes? ls with
  | .dropTable true name => some name
  | _ => none

theorem name_ofDefinition? {d : Sql.TableDefinition} {t : StoredTable}
    (h : StoredTable.ofDefinition? d = some t) : t.name = d.name := by
  simp only [StoredTable.ofDefinition?, Option.bind_eq_bind, Option.bind_eq_some_iff] at h
  obtain ⟨keys, -, uniques, -, h⟩ := h
  split at h
  · cases h
  · exact congrArg StoredTable.name (Option.some.inj h).symm

/-- A table is created where there is none of its name. -/
theorem execute_of_creates? {text name definition : String}
    (h : creates? text = some (name, definition)) (hmissing : s.definition? name = none) :
    ∃ t : StoredTable, t.name = name ∧ t.definition = definition ∧
      s.execute ⟨text, []⟩ = (.ok s.changes, ⟨s.tables ++ [t], s.changes⟩) := by
  simp only [creates?, Option.bind_eq_bind, Option.bind_eq_some_iff] at h
  obtain ⟨⟨ls, rest⟩, hfirst, statement, hstatement, h⟩ := h
  split at h
  · next d =>
    obtain ⟨t, ht, hnames⟩ := Option.map_eq_some_iff.mp h
    cases hnames
    have hfind : s.find? d.name = none := by
      rwa [name_ofDefinition? ht, definition?, Option.map_eq_none_iff] at hmissing
    have hadmits : s.admits (.createTable false d) = true := by
      simp only [admits, hfind, ht, Option.isSome_some]
    have hrun : ∀ placeholder, s.run placeholder (.createTable false d) =
        (some [], ⟨s.tables ++ [t], s.changes⟩) := fun placeholder => by
      simp only [run, hfind, ht]
    exact ⟨t, rfl, rfl, execute_eq hfirst hstatement hadmits (fun q => nofun) hrun⟩
  · cases h

/-- A text that drops a table removes it and leaves the count of changes. -/
theorem execute_of_drops? (s : Store) {text name : String} (h : drops? text = some name) :
    s.execute ⟨text, []⟩ = (.ok s.changes,
      ⟨s.tables.filter fun t => !sameName t.name name, s.changes⟩) := by
  simp only [drops?, Option.bind_eq_bind, Option.bind_eq_some_iff] at h
  obtain ⟨⟨ls, rest⟩, hfirst, statement, hstatement, h⟩ := h
  split at h
  · cases h
    have hadmits : s.admits (.dropTable true name) = true := rfl
    exact execute_eq hfirst hstatement hadmits (fun q => nofun) fun placeholder => rfl
  · cases h

/-- **A store keeps the tables of records** whose definitions it reads as such. -/
theorem engine_keeps {records : Nat → Declaration}
    (h : ∀ record s, (records record).build = .ok s → drops? s.dropText = some s.table ∧
      ∀ text, s.createText = .ok text → creates? text = some (s.table, text)) :
    engine.Keeps records where
  names state hname := state.definition?_congr hname
  create {record s text} state hs htext hmissing := by
    obtain ⟨t, hname, hdefinition, hexecute⟩ :=
      execute_of_creates? ((h record s hs).2 text htext) hmissing
    have hadded : engine.execute ⟨text, []⟩ state =
      (.ok state.changes, ⟨state.tables ++ [t], state.changes⟩) := hexecute
    rw [hadded]
    refine ⟨rfl, fun name => ?_⟩
    rw [← hname, ← hdefinition]
    exact state.definition?_append (hname ▸ hmissing) _ name
  drop {record s} state hs name := by
    have hdropped : engine.execute ⟨s.dropText, []⟩ state = _ :=
      state.execute_of_drops? (h record s hs).1
    rw [hdropped]
    exact state.definition?_filter s.table _ name

end Store

end SqlRecord
