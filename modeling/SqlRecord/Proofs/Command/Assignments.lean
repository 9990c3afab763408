import SqlRecord.Proofs.Command.Sentence
import SqlRecord.Proofs.Field.Constants

/-!
# Assigned columns

Inserts and updates write the values of columns: every column that is not generated, or those of the
fields that are named. One attempt to write the values (`Table.Written`) decides the outcome of all
of them: the texts and parameters stand column by column, or the first column without a cell is the
error. Main statement: `Table.start_writes`.
-/

namespace SqlRecord

/-- Whether columns are those of fields, in their order: different columns, none of them generated,
and one at least. -/
structure Schema.Names (s : Schema) (columns : List s.Index) (fields : List String) : Prop where
  ne_nil : columns ≠ []
  nodup : columns.Nodup
  writable : ∀ i ∈ columns, (s.column i).isAutoincrement = false
  fields : columns.map (fun i => (s.column i).field) = fields

/-! ### Values of columns -/

/-- A value that suits a column can be written for it in either mode. -/
theorem SqlType.Suits.exists_encode {type : SqlType} {v : Value} (h : type.Suits v) (name : String)
    (mode : BindMode) : ∃ e, encode name type v mode = .ok e := by
  by_cases htype : type = .blob
  · subst htype
    cases h with
    | null => exact ⟨_, rfl⟩
    | blob => exact ⟨_, rfl⟩
    | integer ht => rcases ht with ht | ht <;> cases ht
  · cases mode with
    | parameters =>
      refine ⟨⟨placeholder name, some v⟩, ?_⟩
      cases type <;> first | exact absurd rfl htype | rfl
    | inline =>
      obtain ⟨text, -, htext, -⟩ := h.inlineText htype
      exact ⟨_, encode_inline name htype htext⟩

namespace Table

variable (t : Table)

/-- Whether a text, perhaps with a parameter, is what the value of a record's column is written
as. -/
def Encodes (row : Record t.schema) (i : t.schema.Index) (e : Encoded) : Prop :=
  ∃ v, row.read i = .ok v ∧
    encode (t.schema.column i).name (t.schema.column i).sqlType v t.mode = .ok e

/-- What an attempt to write the values of columns gives: a text for each of them, or the error of
the first column whose value has no cell. -/
inductive Written (row : Record t.schema) (columns : List t.schema.Index) :
    Except Error (List Encoded) → Prop
  | values {encoded : List Encoded} (hencoded : List.Forall₂ (t.Encodes row) columns encoded) :
      Written row columns (.ok encoded)
  | refused {before after : List t.schema.Index} {i : t.schema.Index} {e : CodecError}
      (hcolumns : columns = before ++ i :: after) (hbefore : ∀ j ∈ before, ∃ v, row.read j = .ok v)
      (hfirst : row.read i = .error e) : Written row columns (.error (.codec e))

/-- The names of columns. -/
def namesOf (columns : List t.schema.Index) : List String :=
  columns.map fun i => (t.schema.column i).name

/-- The parameters of written values. -/
def parametersOf (encoded : List Encoded) : List Parameter :=
  encoded.flatMap fun e => e.param.toList.map fun v => ⟨e.sql, v⟩

/-- The statement that adds a row with the written values of columns. -/
def insertion (verb : InsertVerb) (columns : List t.schema.Index) (encoded : List Encoded) :
    Statement where
  sql := verb.keyword ++ " INTO " ++ t.schema.table ++
    if columns = [] then " DEFAULT VALUES"
    else " (" ++ ", ".intercalate (t.namesOf columns) ++ ") VALUES (" ++
      ", ".intercalate (encoded.map Encoded.sql) ++ ")"
  params := parametersOf encoded

/-- The statement that changes rows to the written values of columns. -/
def assignment (columns : List t.schema.Index) (encoded : List Encoded) : Statement where
  sql := "UPDATE " ++ t.schema.table ++ " SET " ++ ", ".intercalate
    (((t.namesOf columns).zip (encoded.map Encoded.sql)).map fun v => v.1 ++ " = " ++ v.2)
  params := parametersOf encoded

/-- Whether inserts and updates of fields write columns, each of them once. They share one attempt
to write the values; with no column there is a row of defaults to insert, and nothing to update. -/
def Writes (row : Record t.schema) (fields : Option (List String))
    (columns : List t.schema.Index) : Prop :=
  (t.namesOf columns).Nodup ∧ ∃ attempt, t.Written row columns attempt ∧
    (∀ verb, (t.start row (.insert verb fields)).map Command.statement =
      attempt.map (t.insertion verb columns)) ∧
    (t.start row (.update fields)).map Command.statement =
      if columns = [] then .error (.schema (.emptyFieldList t.schema.table))
      else attempt.map (t.assignment columns)

/-- Whether inserts and updates of fields fail because of the fields. -/
def Refuses (row : Record t.schema) (fields : Option (List String)) : Prop :=
  ∃ e, (∀ verb, t.start row (.insert verb fields) = .error (.schema e)) ∧
    t.start row (.update fields) = .error (.schema e)

/-- Whether inserts and updates are the same for two choices of fields. -/
def StartsAlike (row : Record t.schema) (fields fields' : Option (List String)) : Prop :=
  (∀ verb, t.start row (.insert verb fields) = t.start row (.insert verb fields')) ∧
    t.start row (.update fields) = t.start row (.update fields')

variable {t} {row : Record t.schema}

/-- The value of a column is written if it has a cell, and its error is given if it has none. -/
theorem encodeColumn_cases (row : Record t.schema) (i : t.schema.Index) :
    (∃ e, t.Encodes row i e ∧ t.encodeColumn row i = .ok e) ∨
      ∃ e, row.read i = .error e ∧ t.encodeColumn row i = .error (.codec e) := by
  rw [encodeColumn]
  cases hread : row.read i with
  | error e => exact .inr ⟨e, rfl, rfl⟩
  | ok v =>
    have hsuits : (t.schema.column i).sqlType.Suits v := FieldType.toValue_suits hread
    obtain ⟨e, he⟩ := hsuits.exists_encode (t.schema.column i).name t.mode
    dsimp only
    rw [he]
    exact .inl ⟨e, ⟨v, hread, he⟩, rfl⟩

/-- Values are written column by column, up to the first that has no cell. -/
theorem encodeColumns_written (row : Record t.schema) (columns : List t.schema.Index) :
    ∃ attempt, t.Written row columns attempt ∧
      t.encodeColumns row columns = attempt.map fun encoded =>
        ((t.namesOf columns).zip (encoded.map Encoded.sql), parametersOf encoded) := by
  induction columns with
  | nil => exact ⟨.ok [], .values .nil, rfl⟩
  | cons i columns ih =>
    rw [encodeColumns]
    rcases t.encodeColumn_cases row i with ⟨e, hencodes, he⟩ | ⟨e, hread, he⟩
    · rw [he]
      obtain ⟨attempt, hwritten, hrest⟩ := ih
      rw [hrest]
      cases hwritten with
      | values hencoded => exact ⟨.ok (e :: _), .values (.cons hencodes hencoded), rfl⟩
      | @refused before after j e' hcolumns hbefore hfirst =>
        obtain ⟨v, hv, -⟩ := hencodes
        refine ⟨.error (.codec e'), ?_, rfl⟩
        exact .refused (congrArg (i :: ·) hcolumns)
          (List.forall_mem_cons.mpr ⟨⟨v, hv⟩, hbefore⟩) hfirst
    · rw [he]
      exact ⟨.error (.codec e), .refused (List.nil_append _).symm nofun hread, rfl⟩

/-- There is one text for each column that is written. -/
theorem Written.length_eq {columns : List t.schema.Index} {encoded : List Encoded}
    (h : t.Written row columns (.ok encoded)) : encoded.length = columns.length := by
  cases h with
  | values hencoded => exact hencoded.length_eq.symm

/-! ### Statements -/

/-- The columns of an assignment and their texts are taken apart again. -/
theorem map_zip_namesOf {columns : List t.schema.Index} {encoded : List Encoded}
    (h : encoded.length = columns.length) :
    ((t.namesOf columns).zip (encoded.map Encoded.sql)).map Prod.fst = t.namesOf columns ∧
      ((t.namesOf columns).zip (encoded.map Encoded.sql)).map Prod.snd =
        encoded.map Encoded.sql := by
  rw [namesOf]
  constructor
  · rw [List.map_fst_zip]
    simp [h]
  · rw [List.map_snd_zip]
    simp [h]

/-- The statement of an insert spelled out from its columns and their texts. -/
theorem statement_insert (verb : InsertVerb) {columns : List t.schema.Index}
    {encoded : List Encoded} (h : encoded.length = columns.length) :
    Command.statement ⟨.insert verb t.schema.table
      ((t.namesOf columns).zip (encoded.map Encoded.sql)), parametersOf encoded⟩ =
      t.insertion verb columns encoded := by
  obtain ⟨hfst, hsnd⟩ := map_zip_namesOf h
  rw [Command.statement, insertion, Statement.mk.injEq]
  refine ⟨?_, rfl⟩
  cases columns with
  | nil =>
    rw [List.length_eq_zero_iff.mp h]
    rfl
  | cons i columns =>
    have hne : (t.namesOf (i :: columns)).zip (encoded.map Encoded.sql) ≠ [] := by
      intro hnil
      rw [hnil] at hfst
      cases hfst
    rw [Command.sql_insert verb hne, hfst, hsnd, if_neg (List.cons_ne_nil _ _)]
    simp only [String.append_assoc]

/-- The statement of an update spelled out from its columns and their texts. -/
theorem statement_update (columns : List t.schema.Index) (encoded : List Encoded) :
    Command.statement ⟨.update t.schema.table
      ((t.namesOf columns).zip (encoded.map Encoded.sql)) none, parametersOf encoded⟩ =
      t.assignment columns encoded := by
  rw [Command.statement, Command.sql_update]
  rfl

/-- **Fields that may be assigned are written.** -/
theorem writes_of_writable (hs : t.schema.WellFormed) {fields : Option (List String)}
    {columns : List t.schema.Index} (h : t.schema.writable fields = .ok columns) :
    t.Writes row fields columns := by
  have hnodup : (t.namesOf columns).Nodup := (Schema.writable_spec h).1.map hs.name_injective
  obtain ⟨attempt, hwritten, hencode⟩ := t.encodeColumns_written row columns
  have hassignable : t.assignable fields = .ok columns := by rw [assignable, h]
  refine ⟨hnodup, attempt, hwritten, fun verb => ?_, ?_⟩
  · simp only [start, hassignable, hencode, bind, Except.bind]
    cases attempt with
    | error e => rfl
    | ok encoded => exact congrArg Except.ok (statement_insert verb hwritten.length_eq)
  · simp only [start, hassignable, hencode, bind, Except.bind]
    cases columns with
    | nil => rfl
    | cons i columns =>
      cases attempt with
      | error e => rfl
      | ok encoded => exact congrArg Except.ok (statement_update _ encoded)

/-- Fields that may not be assigned fail every insert and update alike. -/
theorem refuses_of_writable {fields : Option (List String)} {e : SchemaError}
    (h : t.schema.writable fields = .error e) : t.Refuses row fields := by
  have hassignable : t.assignable fields = .error (.schema e) := by rw [assignable, h]
  refine ⟨e, fun verb => ?_, ?_⟩
  · simp only [start, hassignable, bind, Except.bind]
  · simp only [start, hassignable, bind, Except.bind]

/-- Inserts and updates depend on the columns that may be assigned, not on how they are named. -/
theorem startsAlike_of_writable {fields fields' : Option (List String)}
    (h : t.schema.writable fields = t.schema.writable fields') :
    t.StartsAlike row fields fields' := by
  have hassignable : t.assignable fields = t.assignable fields' := by rw [assignable, h, assignable]
  constructor
  · intro verb
    simp only [start, hassignable]
  · simp only [start, hassignable]

/-- **An insert or update writes the columns it is given, each with its value.** Without fields
these are all columns that are not generated, in declaration order, and naming their fields makes no
difference; with fields they are the columns of these fields in their order, unless a field is
unknown, repeated or generated, or there is none. -/
theorem start_writes {d : Declaration} {s : Schema} (hbuild : d.build = .ok s)
    (hfields : (s.columns.map Column.field).Nodup) (mode : BindMode) (row : Record s) :
    ∃ columns : List s.Index, columns.Pairwise (· < ·) ∧
      (∀ i, i ∈ columns ↔ (s.column i).isAutoincrement = false) ∧
      (Table.mk s mode).Writes row none columns ∧
      (columns ≠ [] → (Table.mk s mode).StartsAlike row
        (some (columns.map fun i => (s.column i).field)) none) ∧
      ∀ names,
        (∃ named, s.Names named names ∧ (Table.mk s mode).Writes row (some names) named) ∨
        (∀ named, ¬s.Names named names) ∧ (Table.mk s mode).Refuses row (some names) := by
  have hs := d.build_wellFormed hbuild
  have hall : s.writable none = .ok (s.indices.filter fun i => !(s.column i).isAutoincrement) := rfl
  have hmem (i : s.Index) :
      i ∈ (s.indices.filter fun i => !(s.column i).isAutoincrement) ↔
        (s.column i).isAutoincrement = false := by
    simp [Schema.indices]
  refine ⟨_, (List.pairwise_lt_finRange _).filter _, hmem, writes_of_writable hs hall,
    fun hne => startsAlike_of_writable ?_, fun names => ?_⟩
  · exact (Schema.writable_map_field hfields hne (Schema.writable_spec hall).1
      fun i hi => (hmem i).mp hi).trans hall.symm
  · cases hnames : s.writable (some names) with
    | ok named =>
      obtain ⟨hnodup, hwritable, -, hsome⟩ := Schema.writable_spec hnames
      obtain ⟨hne, hmap⟩ := hsome names rfl
      exact .inl ⟨named, ⟨hne, hnodup, hwritable, hmap⟩, writes_of_writable hs hnames⟩
    | error e =>
      refine .inr ⟨?_, refuses_of_writable hnames⟩
      rintro named ⟨hne, hnodup, hwritable, rfl⟩
      rw [Schema.writable_map_field hfields hne hnodup hwritable] at hnames
      cases hnames

/-- A note writes all of its columns but the key, which cannot be named for that. -/
theorem start_writes_notes :
    (Table.mk .notes .inline).Writes (.note "it's" none) none
        [⟨1, by decide⟩, ⟨2, by decide⟩, ⟨3, by decide⟩] ∧
      (Table.mk .notes .inline).Refuses (.note "it's" none) (some ["title", "key"]) := by
  obtain ⟨columns, hordered, hmem, hall, -, hnamed⟩ := start_writes Schema.build_notes
    (by decide +kernel) .inline (.note "it's" none)
  have hcolumns : columns = [⟨1, by decide⟩, ⟨2, by decide⟩, ⟨3, by decide⟩] :=
    hordered.eq_of_mem_iff (by decide) fun i => (hmem i).trans (by revert i; decide +kernel)
  refine ⟨hcolumns ▸ hall, ?_⟩
  rcases hnamed ["title", "key"] with ⟨named, ⟨-, -, hwritable, hfields⟩, -⟩ | ⟨-, hrefuses⟩
  · -- the key would be among the named columns
    have hmemKey : "key" ∈ named.map fun i => (Schema.notes.column i).field := by
      rw [hfields]
      exact List.mem_cons_of_mem _ (List.mem_singleton_self _)
    obtain ⟨i, hi, hkey⟩ := List.mem_map.mp hmemKey
    have hgenerated : ∀ i : Schema.notes.Index, (Schema.notes.column i).field = "key" →
        (Schema.notes.column i).isAutoincrement = true := by
      decide +kernel
    exact Bool.noConfusion ((hwritable i hi).symm.trans (hgenerated i hkey))
  · exact hrefuses

end Table

end SqlRecord
