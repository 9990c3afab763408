import SqlRecord.Database.Basic
import SqlRecord.Proofs.Expr.Compile
import SqlRecord.Proofs.Sql.TableForm

/-!
# Definitions of schemas

The definition of a well-formed schema is the text of its form (`Schema.createText_eq`), and what
the form says determines the schema up to the case of names and to what conditions mean. Main
statement: `Schema.same_createText_iff`.
-/

namespace SqlRecord

open Sql

/-! ### Forms -/

namespace Schema

variable (s : Schema)

/-- What a constraint of a schema says, if it can be written. -/
def attribute? : Constraint → Option Attribute
  | .primaryKey => some .primaryKey
  | .unique => some .unique
  | .notNull => some .notNull
  | .default v => v.phrase?.map .default
  | .check e => (s.reading e).map .check
  | .autoincrement => some .autoincrement

/-- What a column says. -/
def columnForm (c : Column) : ColumnForm :=
  ⟨c.name, c.sqlType, c.constraints.filterMap s.attribute?⟩

/-- What the definition of a schema says. -/
def form : TableForm := ⟨s.table, s.columns.map s.columnForm⟩

variable {s}

/-- The constraints of a well-formed schema can be written. -/
theorem WellFormed.exists_attribute (hs : s.WellFormed) {c : Column} (hc : c ∈ s.columns)
    {k : Constraint} (hk : k ∈ c.constraints) : ∃ a, s.attribute? k = some a := by
  have hproblems := hs.constraints c hc k hk
  cases k with
  | default v =>
    have htext := Literal.ofValue_eq v
    rw [constraintProblems] at hproblems
    cases hv : v.phrase? with
    | some t => exact ⟨_, congrArg (Option.map Attribute.default) hv⟩
    | none =>
      rw [hv] at htext
      cases hvalue : Literal.ofValue v with
      | ok text =>
        rw [hvalue] at htext
        cases htext
      | error e =>
        rw [hvalue] at hproblems
        cases hproblems
  | check e =>
    rw [constraintProblems] at hproblems
    split_ifs at hproblems with haggregate
    cases he : s.compile e with
    | ok text =>
      obtain ⟨t, ht, -⟩ := (compile_eq_ok_iff hs).mp he
      exact ⟨_, congrArg (Option.map Attribute.check) ht⟩
    | error e =>
      rw [he] at hproblems
      cases e <;> cases hproblems
  | _ => exact ⟨_, rfl⟩

/-- The constraints of a built schema can be written. -/
theorem writable_attribute? (hs : s.WellFormed) {k : Constraint} {a : Attribute}
    (h : s.attribute? k = some a) : a.Writable := by
  cases k with
  | default v =>
    obtain ⟨t, ht, rfl⟩ := Option.map_eq_some_iff.mp h
    exact Value.writable_phrase? ht
  | check e =>
    obtain ⟨t, ht, rfl⟩ := Option.map_eq_some_iff.mp h
    exact writable_phrase? hs ht
  | _ =>
    cases h
    exact trivial

/-- The definition of a built schema can be written. -/
theorem WellFormed.writable_form (hs : s.WellFormed) : s.form.Writable := by
  refine ⟨Phrase.isWord_of_isValid hs.table_valid, by simpa [form] using hs.columns_ne_nil, ?_⟩
  rw [form, List.forall_mem_map]
  intro c hc
  refine ⟨Phrase.isWord_of_isValid (hs.name_valid c hc), ?_⟩
  intro a ha
  obtain ⟨k, -, hk⟩ := List.mem_filterMap.mp ha
  exact writable_attribute? hs hk

/-! ### Texts -/

/-- A constraint is written as the spelling of what it says. -/
theorem constraintText_eq (hs : s.WellFormed) {k : Constraint} {a : Attribute}
    (h : s.attribute? k = some a) : s.constraintText k = .ok (String.ofList (spell a.layout)) := by
  cases k with
  | default v =>
    obtain ⟨t, ht, rfl⟩ := Option.map_eq_some_iff.mp h
    have htext := Literal.ofValue_eq v
    rw [ht] at htext
    rw [constraintText]
    cases hvalue : Literal.ofValue v with
    | error e =>
      rw [hvalue] at htext
      cases htext
    | ok text =>
      rw [hvalue] at htext
      cases htext
      refine congrArg Except.ok ?_
      rw [← String.toList_inj]
      simp [Attribute.layout]
  | check e =>
    obtain ⟨t, ht, rfl⟩ := Option.map_eq_some_iff.mp h
    rw [constraintText, (compile_eq_ok_iff hs).mpr ⟨t, ht, rfl⟩]
    refine congrArg Except.ok ?_
    dsimp only
    rw [parenthesize_ofList, ← String.toList_inj]
    simp [Attribute.layout]
  | _ => cases h; rfl

theorem mapM_constraintText (hs : s.WellFormed) {ks : List Constraint}
    (h : ∀ k ∈ ks, ∃ a, s.attribute? k = some a) :
    ks.mapM s.constraintText =
      .ok ((ks.filterMap s.attribute?).map fun a => String.ofList (spell a.layout)) := by
  induction ks with
  | nil => rfl
  | cons k ks ih =>
    obtain ⟨⟨a, ha⟩, hks⟩ := List.forall_mem_cons.mp h
    rw [List.mapM_cons, constraintText_eq hs ha, ih hks, List.filterMap_cons_some ha]
    rfl

theorem mapM_eq_ok {α β ε : Type} {f : α → Except ε β} {g : α → β} {as : List α}
    (h : ∀ a ∈ as, f a = .ok (g a)) : as.mapM f = .ok (as.map g) := by
  induction as with
  | nil => rfl
  | cons a as ih =>
    obtain ⟨ha, has⟩ := List.forall_mem_cons.mp h
    rw [List.mapM_cons, ha, ih has]
    rfl

/-- A column is written as the spelling of what it says. -/
theorem columnText_eq (hs : s.WellFormed) {c : Column} (hc : c ∈ s.columns) :
    s.columnText c = .ok (String.ofList (spell (s.columnForm c).layout)) := by
  rw [columnText, mapM_constraintText hs fun k hk => hs.exists_attribute hc hk]
  refine congrArg Except.ok ?_
  rw [← String.toList_inj, String.toList_intercalate, String.toList_ofList, ColumnForm.layout,
    spell_separate]
  simp [columnForm, Function.comp_def]

/-- **A well-formed schema has a definition**: the text of its form. -/
theorem createText_eq (hs : s.WellFormed) :
    s.createText = .ok (String.ofList (spell s.form.layout)) := by
  rw [createText, mapM_eq_ok fun c hc => columnText_eq hs hc]
  refine congrArg Except.ok ?_
  rw [← String.toList_inj]
  simp [TableForm.layout, commas, spell_separate, parenthesize, form, String.toList_intercalate,
    Function.comp_def]

end Schema

/-! ### Agreement -/

/-- The sign and the rest of a phrase. -/
def unsigned : Phrase → Bool × Phrase
  | .before .negate t => (true, t)
  | t => (false, t)

/-- The sign and the absolute value of a literal. -/
def Value.parts : Value → Bool × Phrase
  | integer i => (decide (i.val < 0), .integer i.val.natAbs)
  | real x => (x.negative, .real x.abs)
  | text s => (false, .text s.toList)
  | null | blob _ => (false, .null)

/-- The literal of a value has the sign and the absolute value of the value. -/
theorem Value.unsigned_phrase? {v : Value} {t : Phrase} (h : v.phrase? = some t) :
    unsigned t = v.parts := by
  cases v with
  | null => cases h; rfl
  | integer i =>
    cases h
    rw [signed, parts]
    split_ifs with hneg <;> simp [unsigned, hneg]
  | real x =>
    rw [phrase?] at h
    split_ifs at h
    cases h
    rw [signed, parts]
    split_ifs with hneg <;> simp [unsigned, hneg]
  | text s => cases h; rfl
  | blob bytes => cases h

/-- A literal means one value only; reals are told from each other by their bits. -/
theorem Value.phrase?_inj {v w : Value} {t : Phrase} (hv : v.phrase? = some t)
    (hw : w.phrase? = some t) : v = w := by
  have hparts : v.parts = w.parts := (unsigned_phrase? hv).symm.trans (unsigned_phrase? hw)
  obtain ⟨hsign, hrest⟩ := Prod.mk.inj hparts
  cases v with
  | null =>
    cases w with
    | null => rfl
    | blob bytes => cases hw
    | _ => cases hrest
  | integer i =>
    cases w with
    | integer j =>
      have habs := Phrase.integer.inj hrest
      rw [decide_eq_decide] at hsign
      exact congrArg Value.integer (BoundedInt.ext (by omega))
    | _ => cases hrest
  | real x =>
    cases w with
    | real y => exact congrArg Value.real (Floating.ext_of_abs hsign (Phrase.real.inj hrest))
    | _ => cases hrest
  | text s =>
    cases w with
    | text s' => exact congrArg Value.text (String.toList_inj.mp (Phrase.text.inj hrest))
    | _ => cases hrest
  | blob bytes => cases hv

/-- There are no letters of names in a literal, so that it has no case to fold. -/
theorem Value.fold_phrase? {v : Value} {t : Phrase} (h : v.phrase? = some t) : t.fold = t := by
  obtain ⟨negative, a, rfl, ha⟩ := exists_signed h
  cases negative <;> cases ha <;> rfl

/-- When two constraints, each of its schema, agree: they are of one kind, defaults are equal, and
conditions mean the same up to the case of names. -/
inductive Constraint.Agree (s s' : Schema) : Constraint → Constraint → Prop
  | primaryKey : Agree s s' .primaryKey .primaryKey
  | unique : Agree s s' .unique .unique
  | notNull : Agree s s' .notNull .notNull
  | default (v : Value) : Agree s s' (.default v) (.default v)
  | check {e e' : Expr}
      (h : (s.reading e).map Phrase.fold = (s'.reading e').map Phrase.fold) :
      Agree s s' (.check e) (.check e')
  | autoincrement : Agree s s' .autoincrement .autoincrement

/-- When two columns agree: in name up to case, in type, and in their constraints one by one. -/
structure Column.Agree (s s' : Schema) (c c' : Column) : Prop where
  name : sameName c.name c'.name = true
  type : c.sqlType = c'.sqlType
  constraints : List.Forall₂ (Constraint.Agree s s') c.constraints c'.constraints

/-- When two schemas agree: in table name up to case, and in their columns one by one. -/
structure Schema.Agree (s s' : Schema) : Prop where
  table : sameName s.table s'.table = true
  columns : List.Forall₂ (Column.Agree s s') s.columns s'.columns

/-- Constraints agree exactly if they say the same up to the case of names: one case for each pair
of kinds, where only defaults and conditions carry anything. -/
theorem Constraint.agree_iff {s s' : Schema} {k k' : Constraint} {a a' : Attribute}
    (h : s.attribute? k = some a) (h' : s'.attribute? k' = some a') :
    Constraint.Agree s s' k k' ↔ a.fold = a'.fold := by
  constructor
  · intro hagree
    cases hagree with
    | check hmeaning =>
      obtain ⟨t, ht, rfl⟩ := Option.map_eq_some_iff.mp h
      obtain ⟨t', ht', rfl⟩ := Option.map_eq_some_iff.mp h'
      rw [ht, ht'] at hmeaning
      exact congrArg Attribute.check (Option.some.inj hmeaning)
    | default v => rw [Option.some.inj (h.symm.trans h')]
    | _ => cases h; cases h'; rfl
  · intro hfold
    cases k with
    | default v =>
      obtain ⟨t, ht, rfl⟩ := Option.map_eq_some_iff.mp h
      cases k' with
      | default w =>
        obtain ⟨t', ht', rfl⟩ := Option.map_eq_some_iff.mp h'
        have htt := Attribute.default.inj hfold
        rw [Value.fold_phrase? ht, Value.fold_phrase? ht'] at htt
        rw [← htt] at ht'
        rw [Value.phrase?_inj ht ht']
        exact .default w
      | check e =>
        obtain ⟨t', -, rfl⟩ := Option.map_eq_some_iff.mp h'
        cases hfold
      | _ => cases h'; cases hfold
    | check e =>
      obtain ⟨t, ht, rfl⟩ := Option.map_eq_some_iff.mp h
      cases k' with
      | default w =>
        obtain ⟨t', -, rfl⟩ := Option.map_eq_some_iff.mp h'
        cases hfold
      | check e' =>
        obtain ⟨t', ht', rfl⟩ := Option.map_eq_some_iff.mp h'
        refine .check ?_
        rw [ht, ht']
        exact congrArg some (Attribute.check.inj hfold)
      | _ => cases h'; cases hfold
    | primaryKey | unique | notNull | autoincrement =>
      -- a constraint of another kind has another form
      cases h
      cases k' with
      | default w =>
        obtain ⟨t', -, rfl⟩ := Option.map_eq_some_iff.mp h'
        cases hfold
      | check e' =>
        obtain ⟨t', -, rfl⟩ := Option.map_eq_some_iff.mp h'
        cases hfold
      | _ =>
        cases h'
        first | constructor | cases hfold

namespace Schema

variable {s s' : Schema}

theorem forall₂_iff_map_eq {α β γ : Type} {R : α → β → Prop} {f : α → γ} {g : β → γ}
    {as : List α} {bs : List β} (h : ∀ a ∈ as, ∀ b ∈ bs, R a b ↔ f a = g b) :
    List.Forall₂ R as bs ↔ as.map f = bs.map g := by
  induction as generalizing bs with
  | nil => cases bs <;> simp
  | cons a as ih =>
    cases bs with
    | nil => simp
    | cons b bs =>
      have hrest : ∀ a ∈ as, ∀ b ∈ bs, R a b ↔ f a = g b := fun a ha b hb =>
        h a (List.mem_cons_of_mem _ ha) b (List.mem_cons_of_mem _ hb)
      rw [List.forall₂_cons, h a List.mem_cons_self b List.mem_cons_self, ih hrest, List.map_cons,
        List.map_cons, List.cons.injEq]

/-- Lists of constraints agree one by one exactly if they say the same up to the case of names. -/
theorem agree_constraints_iff {ks ks' : List Constraint}
    (h : ∀ k ∈ ks, ∃ a, s.attribute? k = some a)
    (h' : ∀ k ∈ ks', ∃ a, s'.attribute? k = some a) :
    List.Forall₂ (Constraint.Agree s s') ks ks' ↔
      (ks.filterMap s.attribute?).map Attribute.fold =
        (ks'.filterMap s'.attribute?).map Attribute.fold := by
  induction ks generalizing ks' with
  | nil =>
    cases ks' with
    | nil => simp
    | cons k' ks' =>
      obtain ⟨a', ha'⟩ := h' k' List.mem_cons_self
      simp [List.filterMap_cons_some ha']
  | cons k ks ih =>
    obtain ⟨⟨a, ha⟩, hks⟩ := List.forall_mem_cons.mp h
    cases ks' with
    | nil => simp [List.filterMap_cons_some ha]
    | cons k' ks' =>
      obtain ⟨⟨a', ha'⟩, hks'⟩ := List.forall_mem_cons.mp h'
      rw [List.forall₂_cons, ih hks hks', Constraint.agree_iff ha ha',
        List.filterMap_cons_some ha, List.filterMap_cons_some ha', List.map_cons, List.map_cons,
        List.cons.injEq]

/-- Schemas agree exactly if their definitions say the same up to the case of names. -/
theorem agree_iff (hs : s.WellFormed) (hs' : s'.WellFormed) :
    s.Agree s' ↔ s.form.fold = s'.form.fold := by
  -- columns agree exactly if their forms are equal up to case
  have hcolumn : ∀ c ∈ s.columns, ∀ c' ∈ s'.columns, Column.Agree s s' c c' ↔
      (s.columnForm c).fold = (s'.columnForm c').fold := by
    intro c hc c' hc'
    have hconstraints := agree_constraints_iff (fun k hk => hs.exists_attribute hc hk)
      (fun k hk => hs'.exists_attribute hc' hk)
    simp only [ColumnForm.fold, columnForm, ColumnForm.mk.injEq, foldName_eq_iff,
      ← hconstraints]
    exact ⟨fun h => ⟨h.name, h.type, h.constraints⟩, fun h => ⟨h.1, h.2.1, h.2.2⟩⟩
  have hcolumns : List.Forall₂ (Column.Agree s s') s.columns s'.columns ↔
      (s.columns.map s.columnForm).map ColumnForm.fold =
        (s'.columns.map s'.columnForm).map ColumnForm.fold := by
    rw [List.map_map, List.map_map]
    exact forall₂_iff_map_eq hcolumn
  simp only [TableForm.fold, form, TableForm.mk.injEq, foldName_eq_iff, ← hcolumns]
  exact ⟨fun h => ⟨h.table, h.columns⟩, fun h => ⟨h.1, h.2⟩⟩

/-- A sync verifies a table exactly if schemas are checked and the definition that is found is the
same. -/
theorem sync_eq_verified_iff {σ : Type} {engine : Engine σ} {db : Database σ}
    {expected found : String} (hexpected : s.createText = .ok expected)
    (hfound : engine.definition? s.table db.state = some found) :
    (db.sync engine s).1 = .ok .verified ↔
      db.settings.checkSchema = true ∧ Definition.same found expected = true := by
  rw [Database.sync, hexpected]
  simp only [hfound, Database.verify]
  split_ifs with hcheck hsame <;> simp_all

/-- **Definitions are compared as equal exactly if the schemas agree.** Every built schema has a
definition. So wherever the definition of one schema is found in place of the table of another, the
table is verified only if the two agree. -/
theorem same_createText_iff {d d' : Declaration} (h : d.build = .ok s) (h' : d'.build = .ok s') :
    ∃ text text', s.createText = .ok text ∧ s'.createText = .ok text' ∧
      (Definition.same text text' = true ↔ s.Agree s') ∧
      ∀ {σ : Type} (engine : Engine σ) (db : Database σ),
        engine.definition? s'.table db.state = some text →
          ((db.sync engine s').1 = .ok .verified ↔
            db.settings.checkSchema = true ∧ s.Agree s') := by
  have hs := d.build_wellFormed h
  have hs' := d'.build_wellFormed h'
  have hsame : Definition.same (String.ofList (spell s.form.layout))
      (String.ofList (spell s'.form.layout)) = true ↔ s.Agree s' := by
    rw [TableForm.same_iff hs.writable_form hs'.writable_form, agree_iff hs hs']
  refine ⟨_, _, createText_eq hs, createText_eq hs', hsame, ?_⟩
  intro σ engine db hfound
  rw [sync_eq_verified_iff (createText_eq hs') hfound, hsame]

/-- A schema for a table whose name is that of notes in capitals, with one column. -/
def memos : Schema := ⟨"Memo", "NOTES", [⟨"ID", "id", .plain (.integer .int64), [.primaryKey]⟩]⟩

/-- The tables of notes and memos. -/
theorem same_createText_iff_notes :
    ∃ text text', notes.createText = .ok text ∧ memos.createText = .ok text' ∧
      (Definition.same text text' = true ↔ notes.Agree memos) ∧
      ∀ {σ : Type} (engine : Engine σ) (db : Database σ),
        engine.definition? "NOTES" db.state = some text →
          ((db.sync engine memos).1 = .ok .verified ↔
            db.settings.checkSchema = true ∧ notes.Agree memos) :=
  same_createText_iff build_notes
    (@Declaration.build_of_problems _ _ memos.columns (by decide +kernel))

end Schema

end SqlRecord
