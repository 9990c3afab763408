import SqlRecord.Proofs.Command.Chain
import SqlRecord.Proofs.Command.Tokens
import SqlRecord.Proofs.Encoding
import SqlRecord.Proofs.Expr.Constants
import SqlRecord.Proofs.Schema.Columns

/-!
# Sound commands

The invariant of building (`Table.Sound`): the text of a command can be read, its placeholders are
the names of its parameters, each once, and values reach the text only as the bind mode says. Main
statement: `Table.build_sound`.
-/

namespace SqlRecord

open Sql

/-! ### Names of parameters -/

theorem placeholder_injective {a b : String} (h : placeholder a = placeholder b) : a = b :=
  (String.append_right_inj "@").mp h

/-- A column's placeholder is none of the numbered ones, as names do not have their form. -/
theorem placeholder_ne_numbered (name : String) (n : Nat) :
    placeholder name ≠ ":p" ++ natText n := by
  intro h
  have := congrArg (fun s : String => s.toList.head?) h
  simp [placeholder] at this

/-! ### The invariant -/

/-- The columns that a query lists are names. -/
theorem areNames_columnNames {t : Table} (hs : t.schema.WellFormed) {fields names : List String}
    (h : t.columnNames fields = .ok names) : AreNames names := by
  obtain ⟨columns, hcolumns, rfl⟩ := Table.columnNames_eq_ok h
  refine ⟨by simpa using (Schema.resolve_spec hcolumns).2.1, ?_⟩
  exact List.forall_mem_map.mpr fun i _ => Phrase.isWord_of_isValid (hs.column_valid i)

/-- Whether a parameter is a payload that a record holds in a column of payloads. -/
def Record.IsPayload {s : Schema} (row : Record s) (p : Parameter) : Prop :=
  ∃ i bytes, (s.column i).sqlType = .blob ∧ row.read i = .ok (.blob bytes) ∧
    p = ⟨placeholder (s.column i).name, .blob bytes⟩

namespace Table

variable {t : Table} {row : Record t.schema}

/-- The text of a column has the form of the value that the column reads as. -/
theorem encodeColumn_form {i : t.schema.Index} {e : Encoded} (h : t.encodeColumn row i = .ok e) :
    ∃ v, row.read i = .ok v ∧
      e.Form (t.schema.column i).name (t.schema.column i).sqlType v t.mode := by
  rw [encodeColumn] at h
  split at h
  next => cases h
  next v hv =>
    split at h
    next e' he =>
      cases h
      exact ⟨v, hv, encode_form he⟩
    next => cases h

variable (row) in
/-- What holds of a command while it is built. Its text can be read, its placeholders are its
parameters, and later numbers are free. Values reach it only as the mode says. -/
structure Sound (c : Command) : Prop where
  readable : c.body.Readable
  placeholders : (c.body.texts.flatMap fun text => placeholdersOf (textTokens text)) =
    c.params.map Parameter.name
  nodup : (c.params.map Parameter.name).Nodup
  plain : ∀ p ∈ c.params, Token.IsPlain (.placeholder p.name)
  fresh : ∀ n, c.params.length < n → ":p" ++ natText n ∉ c.params.map Parameter.name
  payload : t.mode = .inline → ∀ p ∈ c.params, row.IsPayload p
  constants : t.mode = .parameters → ∀ text ∈ c.body.texts, constantsOf (textTokens text) = []

/-! ### Beginning -/

/-- A command without texts of values is sound without parameters. -/
theorem Sound.of_texts_nil {body : CommandBody} (hreadable : body.Readable)
    (htexts : body.texts = []) : Sound row ⟨body, []⟩ where
  readable := hreadable
  placeholders := by rw [htexts]; rfl
  nodup := List.nodup_nil
  plain := by simp
  fresh := by simp
  payload := by simp
  constants := by simp [htexts]

/-- The text of a column is readable, and its placeholder is there exactly if it has a parameter. -/
theorem encodeColumn_reads (hs : t.schema.WellFormed) {i : t.schema.Index} {e : Encoded}
    (h : t.encodeColumn row i = .ok e) :
    IsReadable e.sql ∧ placeholdersOf (textTokens e.sql) = e.param.toList.map (fun _ => e.sql) ∧
      (t.mode = .parameters → constantsOf (textTokens e.sql) = []) := by
  obtain ⟨v, -, hform⟩ := encodeColumn_form h
  exact hform.reads (Phrase.isWord_of_isValid (hs.column_valid i))

/-- The parameter of a column has the column's placeholder; among inline values it is a payload. -/
theorem encodeColumn_param {i : t.schema.Index} {e : Encoded} (h : t.encodeColumn row i = .ok e)
    {v : Value} (hv : v ∈ e.param) :
    e.sql = placeholder (t.schema.column i).name ∧
      (t.mode = .inline → row.IsPayload ⟨e.sql, v⟩) := by
  obtain ⟨w, hread, hform⟩ := encodeColumn_form h
  obtain ⟨hsql, rfl, hinline⟩ := hform.param hv
  refine ⟨hsql, fun hmode => ?_⟩
  obtain ⟨htype, bytes, rfl⟩ := hinline hmode
  exact ⟨i, bytes, htype, hread, by rw [hsql]⟩

/-- The texts of columns are readable. -/
theorem areReadable_encodeColumns (hs : t.schema.WellFormed) {columns : List t.schema.Index}
    {values : List (String × String)} {params : List Parameter}
    (h : t.encodeColumns row columns = .ok (values, params)) : AreReadable values := by
  obtain ⟨ps, rfl, hps, rfl, rfl⟩ := encodeColumns_eq_ok h
  refine List.forall_mem_map.mpr fun p hp => ?_
  exact ⟨Phrase.isWord_of_isValid (hs.column_valid p.1), (encodeColumn_reads hs (hps p hp)).1⟩

/-- What assigns encoded columns is sound. -/
theorem Sound.of_encodeColumns (hs : t.schema.WellFormed) {columns : List t.schema.Index}
    {values : List (String × String)} {params : List Parameter} {body : CommandBody}
    (hnodup : columns.Nodup) (h : t.encodeColumns row columns = .ok (values, params))
    (hreadable : body.Readable) (htexts : body.texts = values.map (·.2)) :
    Sound row ⟨body, params⟩ := by
  obtain ⟨ps, rfl, hps, rfl, rfl⟩ := encodeColumns_eq_ok h
  -- a parameter belongs to one of the columns and has its placeholder
  have hmem : ∀ q ∈ ps.flatMap (fun p => p.2.param.toList.map fun v => Parameter.mk p.2.sql v),
      ∃ p ∈ ps, q.name = placeholder (t.schema.column p.1).name ∧
        (t.mode = .inline → row.IsPayload q) := by
    intro q hq
    obtain ⟨p, hp, hq⟩ := List.mem_flatMap.mp hq
    obtain ⟨v, hv, rfl⟩ := List.mem_map.mp hq
    exact ⟨p, hp, encodeColumn_param (hps p hp) (Option.mem_toList.mp hv)⟩
  have hnames : (ps.flatMap fun p => p.2.param.toList.map fun v => Parameter.mk p.2.sql v).map
      Parameter.name = ps.flatMap fun p => p.2.param.toList.map fun _ => p.2.sql := by
    simp only [List.map_flatMap, List.map_map, Function.comp_def]
  constructor
  case readable => exact hreadable
  case placeholders =>
    dsimp only
    rw [hnames, htexts, List.map_map, List.flatMap_map]
    exact List.flatMap_congr fun p hp => (encodeColumn_reads hs (hps p hp)).2.1
  case nodup =>
    -- different columns have different placeholders, and a column has one at most
    rw [hnames, List.nodup_flatMap]
    refine ⟨fun p _ => ?_, ?_⟩
    · rcases p.2.param with _ | v <;> simp
    · have hdistinct : ps.Pairwise fun p q => p.1 ≠ q.1 := List.pairwise_map.mp hnodup
      refine hdistinct.imp_of_mem fun {p q} hp hq hpq => ?_
      intro name hname hname'
      simp only [List.mem_map, Option.mem_toList] at hname hname'
      obtain ⟨v, hv, rfl⟩ := hname
      obtain ⟨w, hw, hsql⟩ := hname'
      rw [(encodeColumn_param (hps p hp) hv).1, (encodeColumn_param (hps q hq) hw).1] at hsql
      exact hpq (hs.name_injective (placeholder_injective hsql)).symm
  case plain =>
    intro q hq
    obtain ⟨p, -, hname, -⟩ := hmem q hq
    rw [hname]
    exact Encoded.isPlain_placeholder (Phrase.isWord_of_isValid (hs.column_valid p.1))
  case fresh =>
    intro n _ hn
    obtain ⟨q, hq, hname⟩ := List.mem_map.mp hn
    obtain ⟨p, -, hplaceholder, -⟩ := hmem q hq
    exact placeholder_ne_numbered _ n (hplaceholder.symm.trans hname)
  case payload =>
    intro hmode q hq
    obtain ⟨p, -, -, hpayload⟩ := hmem q hq
    exact hpayload hmode
  case constants =>
    intro hmode text htext
    dsimp only at htext
    rw [htexts, List.map_map] at htext
    obtain ⟨p, hp, rfl⟩ := List.mem_map.mp htext
    exact (encodeColumn_reads hs (hps p hp)).2.2 hmode

/-- Every command is sound when it is started. -/
theorem Starts.sound (hs : t.schema.WellFormed) {entry : Entry} {c : Command}
    (h : t.Starts row entry c) : Sound row c := by
  have htable := Phrase.isWord_of_isValid hs.table_valid
  have hquery : ∀ columns, (∀ names ∈ columns, AreNames names) →
      Sound row ⟨.query (.plain t.schema.table columns), []⟩ := fun columns hcolumns =>
    .of_texts_nil ⟨htable, hcolumns, nofun, nofun, nofun⟩ rfl
  cases h with
  | insert hcolumns hvalues =>
    have hreadable := areReadable_encodeColumns hs hvalues
    exact .of_encodeColumns hs ((Schema.writable_spec hcolumns).1) hvalues ⟨htable, hreadable⟩ rfl
  | all => exact hquery none nofun
  | select hnames =>
    refine hquery _ ?_
    rintro names ⟨⟩
    exact areNames_columnNames hs hnames
  | count => exact .of_texts_nil ⟨htable, nofun⟩ rfl
  | update hne hcolumns hvalues =>
    have hreadable := areReadable_encodeColumns hs hvalues
    -- the list of values is as long as that of columns, so it is not empty
    obtain ⟨ps, rfl, -, rfl, -⟩ := encodeColumns_eq_ok hvalues
    refine .of_encodeColumns hs ((Schema.writable_spec hcolumns).1) hvalues
      ⟨htable, ?_, hreadable, nofun⟩ (List.append_nil _)
    simpa using hne
  | delete => exact .of_texts_nil ⟨htable, nofun⟩ rfl

/-! ### Clauses -/

namespace Sound

variable {body body' : CommandBody} {params params' : List Parameter}

/-- A clause that adds no text keeps a command sound. -/
theorem of_texts_eq (h : Sound row ⟨body, params⟩) (hreadable : body'.Readable)
    (htexts : body'.texts = body.texts) : Sound row ⟨body', params⟩ where
  readable := hreadable
  placeholders := (congrArg _ htexts).trans h.placeholders
  nodup := h.nodup
  plain := h.plain
  fresh := h.fresh
  payload := h.payload
  constants hmode text htext := h.constants hmode text (htexts ▸ htext)

/-- A clause that adds the text of a condition keeps a command sound. -/
theorem of_condition (hs : t.schema.WellFormed) (h : Sound row ⟨body, params⟩) {e : Expr}
    {text : String} (hcondition : t.condition e params = .ok (text, params'))
    (hreadable : IsReadable text → body'.Readable)
    (htexts : body'.texts = body.texts ++ [text]) : Sound row ⟨body', params'⟩ := by
  obtain ⟨htext, values, rfl, hplaceholders, hconstants, hinline⟩ :=
    Schema.compileIn_spec hs (condition_eq_ok hcondition)
  constructor
  case readable => exact hreadable htext
  case placeholders =>
    have hbody := h.placeholders
    dsimp only at hbody ⊢
    rw [htexts, List.flatMap_append, hbody, List.flatMap_singleton, hplaceholders, List.map_append]
  case nodup =>
    dsimp only
    rw [List.map_append]
    -- the numbers that are added are free before
    refine h.nodup.append (nodup_numbered _ _) fun name hname hnumbered => ?_
    obtain ⟨i, -, rfl⟩ := mem_map_name_numbered.mp hnumbered
    exact h.fresh _ (by dsimp only; omega) hname
  case plain =>
    intro p hp
    rcases List.mem_append.mp hp with hp | hp
    · exact h.plain p hp
    · obtain ⟨i, -, hname⟩ := mem_map_name_numbered.mp (List.mem_map_of_mem hp)
      rw [← hname]
      exact isPlain_placeholder _
  case fresh =>
    intro n hn hmem
    dsimp only at hn hmem
    rw [List.length_append, length_numbered] at hn
    rw [List.map_append, List.mem_append] at hmem
    -- a number above the new count is above the old one, and above those that are added
    rcases hmem with hmem | hmem
    · exact h.fresh n (by dsimp only; omega) hmem
    · obtain ⟨i, hi, hname⟩ := mem_map_name_numbered.mp hmem
      have := numbered_name_injective hname
      omega
  case payload =>
    intro hmode p hp
    rw [hinline hmode] at hp
    refine h.payload hmode p ?_
    simpa [numbered] using hp
  case constants =>
    intro hmode text' htext'
    dsimp only at htext'
    rw [htexts, List.mem_append, List.mem_singleton] at htext'
    rcases htext' with htext' | rfl
    · exact h.constants hmode text' htext'
    · exact hconstants hmode

end Sound

/-- A clause takes sound commands to sound commands, as the numbers of its placeholders go on from
those before. -/
theorem Extends.sound (hs : t.schema.WellFormed) {clause : Clause} {c c' : Command}
    (h : t.Extends clause c c') (hc : Sound row c) : Sound row c' := by
  cases h with
  | distinct =>
    have hq : Query.Readable _ := hc.readable
    exact hc.of_texts_eq ⟨hq.table, hq.columns, hq.condition, hq.grouping, hq.ordering⟩ rfl
  | filterQuery hcondition hnone hgrouping =>
    have hq : Query.Readable _ := hc.readable
    refine hc.of_condition hs hcondition (fun htext => ?_) ?_
    · refine ⟨hq.table, hq.columns, ?_, hq.grouping, hq.ordering⟩
      rintro text ⟨⟩
      exact htext
    · simp [CommandBody.texts, hnone, hgrouping]
  | filterCount hcondition =>
    refine hc.of_condition hs hcondition (fun htext => ⟨hc.readable.1, ?_⟩) rfl
    rintro text ⟨⟩
    exact htext
  | filterUpdate hcondition =>
    obtain ⟨htable, hne, hvalues, -⟩ := hc.readable
    refine hc.of_condition hs hcondition (fun htext => ⟨htable, hne, hvalues, ?_⟩) ?_
    · rintro text ⟨⟩
      exact htext
    · simp [CommandBody.texts]
  | filterDelete hcondition =>
    refine hc.of_condition hs hcondition (fun htext => ⟨hc.readable.1, ?_⟩) rfl
    rintro text ⟨⟩
    exact htext
  | groupBy hnames hgrouping =>
    have hq : Query.Readable _ := hc.readable
    refine hc.of_texts_eq ⟨hq.table, hq.columns, hq.condition, ?_, hq.ordering⟩ ?_
    · rintro g ⟨⟩
      exact ⟨areNames_columnNames hs hnames, by simp⟩
    · simp [CommandBody.texts, hgrouping]
  | having hcondition hgrouping =>
    have hq : Query.Readable _ := hc.readable
    refine hc.of_condition hs hcondition (fun htext => ?_) ?_
    · refine ⟨hq.table, hq.columns, hq.condition, ?_, hq.ordering⟩
      rintro g ⟨⟩
      refine ⟨(hq.grouping _ hgrouping).1, ?_⟩
      rintro text ⟨⟩
      exact htext
    · simp [CommandBody.texts, hgrouping]
  | orderBy hnames =>
    have hq : Query.Readable _ := hc.readable
    refine hc.of_texts_eq ⟨hq.table, hq.columns, hq.condition, hq.grouping, ?_⟩ rfl
    rintro o ⟨⟩
    exact areNames_columnNames hs hnames
  | limit =>
    have hq : Query.Readable _ := hc.readable
    exact hc.of_texts_eq ⟨hq.table, hq.columns, hq.condition, hq.grouping, hq.ordering⟩ rfl

/-- **Every command that is built is sound.** -/
theorem build_sound (hs : t.schema.WellFormed) {entry : Entry} {clauses : List Clause}
    {c : Command} (h : t.build row entry clauses = .ok c) : Sound row c :=
  build_induction (fun h => h.sound hs) (fun h => h.sound hs) h

end Table

end SqlRecord
