import SqlRecord.Command.Basic
import SqlRecord.Proofs.Sql.Layout

/-!
# Tokens of commands

The tokens of a command are those of its parts: keywords, names and the texts of values and
conditions. Main statement: `CommandBody.Readable.reads`, by which the text of a command reads as
these tokens if the texts it is made of can be read.
-/

namespace SqlRecord

open Sql

/-! ### Tokens -/

/-- The tokens of a list of names. -/
def nameTokens (names : List String) : List Token :=
  [.symbol ","].intercalate (names.map fun name => [.word name])

/-- The tokens of an optional condition. -/
def conditionTokens (keyword : String) : Option String → List Token
  | none => []
  | some text => .word keyword :: textTokens text

namespace Grouping

def tokens (g : Grouping) : List Token :=
  .word "GROUP" :: .word "BY" :: (nameTokens g.columns ++ conditionTokens "HAVING" g.condition)

end Grouping

namespace Query

def orderingTokens (o : List String × Direction) : List Token :=
  .word "ORDER" :: .word "BY" :: (nameTokens o.1 ++ [.word o.2.token])

def windowTokens (w : Nat × Nat) : List Token :=
  .word "LIMIT" :: .number (Digits.ofNat w.1) ::
    if w.2 = 0 then [] else [.word "OFFSET", .number (Digits.ofNat w.2)]

/-- The tokens of a query before its window. -/
def frontTokens (q : Query) : List Token :=
  .word "SELECT" :: ((if q.distinct then [.word "DISTINCT"] else []) ++
    (q.columns.elim [.symbol "*"] nameTokens ++ (.word "FROM" :: .word q.table ::
      (conditionTokens "WHERE" q.condition ++ (q.grouping.elim [] Grouping.tokens ++
        q.ordering.elim [] orderingTokens)))))

def tokens (q : Query) : List Token := q.frontTokens ++ q.window.elim [] windowTokens

end Query

namespace CommandBody

/-- The tokens of the values that are assigned, each after its column. -/
def assignmentTokens (values : List (String × String)) : List Token :=
  [.symbol ","].intercalate
    (values.map fun v => .word v.1 :: .symbol "=" :: textTokens v.2)

/-- The tokens of the values of an insert. -/
def valueTokens (values : List (String × String)) : List Token :=
  [.symbol ","].intercalate (values.map fun v => textTokens v.2)

/-- The tokens of a statement. -/
def tokens : CommandBody → List Token
  | insert verb table values =>
    .word verb.keyword :: .word "INTO" :: .word table ::
      if values.isEmpty then [.word "DEFAULT", .word "VALUES"]
      else .symbol "(" :: (nameTokens (values.map (·.1)) ++ (.symbol ")" :: .word "VALUES" ::
        .symbol "(" :: (valueTokens values ++ [.symbol ")"])))
  | query q => q.tokens
  | count table condition =>
    .word "SELECT" :: .word "COUNT" :: .symbol "(" :: .symbol "*" :: .symbol ")" ::
      .word "FROM" :: .word table :: conditionTokens "WHERE" condition
  | update table values condition =>
    .word "UPDATE" :: .word table :: .word "SET" ::
      (assignmentTokens values ++ conditionTokens "WHERE" condition)
  | delete table condition =>
    .word "DELETE" :: .word "FROM" :: .word table :: conditionTokens "WHERE" condition

end CommandBody

/-- The tokens of a list of names, read from its front. -/
theorem nameTokens_cons {c : String} {names : List String} (h : names ≠ []) :
    nameTokens (c :: names) = .word c :: .symbol "," :: nameTokens names := by
  obtain ⟨d, names, rfl⟩ := List.exists_cons_of_ne_nil h
  rw [nameTokens, nameTokens, List.map_cons, List.map_cons, List.intercalate_cons_cons]
  rfl

theorem length_le_nameTokens (names : List String) : names.length ≤ (nameTokens names).length := by
  induction names with
  | nil => exact Nat.zero_le _
  | cons c names ih =>
    by_cases hnames : names = []
    · subst hnames
      exact le_refl 1
    · rw [nameTokens_cons hnames, List.length_cons, List.length_cons, List.length_cons]
      omega

/-! ### Readable commands -/

/-- Whether names are words and there is one at least. -/
def AreNames (names : List String) : Prop :=
  names ≠ [] ∧ ∀ name ∈ names, Identifier.isWord name.toList = true

/-- Whether the names of a query are words and its conditions can be read. -/
structure Query.Readable (q : Query) : Prop where
  table : Identifier.isWord q.table.toList = true
  columns : ∀ names ∈ q.columns, AreNames names
  condition : ∀ text ∈ q.condition, IsReadable text
  grouping : ∀ g ∈ q.grouping, AreNames g.columns ∧ ∀ text ∈ g.condition, IsReadable text
  ordering : ∀ o ∈ q.ordering, AreNames o.1

/-- Whether columns are words and the texts of their values can be read. -/
def AreReadable (values : List (String × String)) : Prop :=
  ∀ v ∈ values, Identifier.isWord v.1.toList = true ∧ IsReadable v.2

/-- Whether the names of a statement are words and its texts can be read. -/
def CommandBody.Readable : CommandBody → Prop
  | insert _ table values => Identifier.isWord table.toList = true ∧ AreReadable values
  | query q => q.Readable
  | count table condition | delete table condition =>
    Identifier.isWord table.toList = true ∧ ∀ text ∈ condition, IsReadable text
  | update table values condition =>
    Identifier.isWord table.toList = true ∧ values ≠ [] ∧ AreReadable values ∧
      ∀ text ∈ condition, IsReadable text

/-! ### Reading -/

/-- A text that is empty or goes on after a blank. -/
def ReadsAfter (cs : List Char) (ts : List Token) : Prop :=
  cs = [] ∧ ts = [] ∨ ∃ ds, cs = ' ' :: ds ∧ Reads ds ts

/-- A text is read with what comes after a blank, if anything does. -/
theorem Sql.Reads.append {cs ds : List Char} {ts us : List Token} (hc : Reads cs ts)
    (hd : ReadsAfter ds us) : Reads (cs ++ ds) (ts ++ us) := by
  rcases hd with ⟨rfl, rfl⟩ | ⟨ds, rfl, hd⟩
  · rwa [List.append_nil, List.append_nil]
  · exact hc.gap hd

theorem ReadsAfter.intro {cs ds : List Char} {ts : List Token} (h : Reads ds ts)
    (hcs : cs = ' ' :: ds) : ReadsAfter cs ts := .inr ⟨ds, hcs, h⟩

/-- Of two texts that go on after a blank, the second may follow the first. -/
theorem ReadsAfter.append {cs ds : List Char} {ts us : List Token} (hc : ReadsAfter cs ts)
    (hd : ReadsAfter ds us) : ReadsAfter (cs ++ ds) (ts ++ us) := by
  rcases hc with ⟨rfl, rfl⟩ | ⟨cs, rfl, hc⟩
  · exact hd
  · exact .inr ⟨cs ++ ds, rfl, hc.append hd⟩

theorem ReadsAfter.tokens? {cs : List Char} {ts : List Token} (h : ReadsAfter cs ts) :
    Sql.tokens? cs = some ts := by
  rcases h with ⟨rfl, rfl⟩ | ⟨ds, rfl, h⟩
  · exact Sql.tokens?_nil
  · rw [Sql.tokens?_blank, h.tokens?]

/-- A list of names reads as the names with commas between them. -/
theorem reads_names {names : List String} (h : AreNames names) :
    Reads (commaList names).toList (nameTokens names) := by
  rw [commaList, String.toList_intercalate]
  exact Reads.commas h.1 fun name hname => .word (h.2 name hname)

/-- A condition reads as its keyword and its tokens, or is not there. -/
theorem readsAfter_condition {w : String} (hw : Identifier.isWord w.toList = true)
    {condition : Option String} (h : ∀ text ∈ condition, IsReadable text) :
    ReadsAfter (conditionText w condition).toList (conditionTokens w condition) := by
  cases condition with
  | none => exact .inl ⟨rfl, rfl⟩
  | some text => exact .intro ((Reads.word hw).gap (h text rfl)) (by simp [conditionText])

/-- Groups read as their columns and the condition on them. -/
theorem readsAfter_grouping {g : Grouping} (hcolumns : AreNames g.columns)
    (hcondition : ∀ text ∈ g.condition, IsReadable text) :
    ReadsAfter g.text.toList g.tokens := by
  have hnames := (Reads.word (w := "GROUP") (by decide)).gap
    ((Reads.word (w := "BY") (by decide)).gap (reads_names hcolumns))
  have hhaving := readsAfter_condition (w := "HAVING") (by decide) hcondition
  exact .intro (hnames.append hhaving) (by simp [Grouping.text])

theorem reads_number (n : Nat) : Reads (natText n).toList [.number (Digits.ofNat n)] := by
  have h := Reads.token (t := .number (Digits.ofNat n))
    (Literal.isUnsignedNumeric_iff.mpr (.inl (Digits.isDigits_ofNat n)))
  rwa [natText, String.toList_ofList]

/-- An ordering reads as its columns and their direction. -/
theorem readsAfter_ordering {o : List String × Direction} (h : AreNames o.1) :
    ReadsAfter (Query.orderingText o).toList (Query.orderingTokens o) := by
  have hnames := (Reads.word (w := "ORDER") (by decide)).gap
    ((Reads.word (w := "BY") (by decide)).gap ((reads_names h).gap
      (Reads.word (w := o.2.token) (by cases o.2 <;> decide))))
  exact .intro hnames (by simp [Query.orderingText])

/-- A window reads as its two numbers, each after its keyword. -/
theorem readsAfter_window (w : Nat × Nat) :
    ReadsAfter (Query.windowText w).toList (Query.windowTokens w) := by
  have hlimit := (Reads.word (w := "LIMIT") (by decide)).gap (reads_number w.1)
  have hoffset : ReadsAfter (if w.2 = 0 then "" else " OFFSET " ++ natText w.2).toList
      (if w.2 = 0 then [] else [.word "OFFSET", .number (Digits.ofNat w.2)]) := by
    split_ifs
    · exact .inl ⟨rfl, rfl⟩
    · exact .intro ((Reads.word (w := "OFFSET") (by decide)).gap (reads_number w.2)) (by simp)
  exact .intro (hlimit.append hoffset) (by simp [Query.windowText])

/-- An optional clause. -/
theorem readsAfter_clause {α : Type} {text : α → String} {tokens : α → List Token} {o : Option α}
    (h : ∀ a ∈ o, ReadsAfter (text a).toList (tokens a)) :
    ReadsAfter (Query.clauseText text o).toList (o.elim [] tokens) := by
  cases o with
  | none => exact .inl ⟨rfl, rfl⟩
  | some a => exact h a rfl

/-- A query reads as its tokens if its names are words and its conditions can be read. -/
theorem Query.Readable.reads {q : Query} (h : q.Readable) : Reads q.text.toList q.tokens := by
  have hcolumns : Reads (q.columns.elim "*" commaList).toList
      (q.columns.elim [.symbol "*"] nameTokens) := by
    cases hq : q.columns with
    | none => exact Reads.symbol (s := "*") (by decide)
    | some names => exact reads_names (h.columns names hq)
  -- the text of `DISTINCT` ends with the blank after it
  have hdistinct : Reads ((if q.distinct then "DISTINCT " else "").toList ++
      (q.columns.elim "*" commaList).toList)
      ((if q.distinct then [.word "DISTINCT"] else []) ++
        q.columns.elim [.symbol "*"] nameTokens) := by
    split_ifs
    · exact ((Reads.word (w := "DISTINCT") (by decide)).gap hcolumns).of_eq (by simp) rfl
    · exact hcolumns
  have hfrom := (Reads.word (w := "FROM") (by decide)).gap (Reads.word h.table)
  have hclauses := (readsAfter_condition (w := "WHERE") (by decide) h.condition).append
    ((readsAfter_clause (o := q.grouping) fun g hg =>
      readsAfter_grouping (h.grouping g hg).1 (h.grouping g hg).2).append
    ((readsAfter_clause (o := q.ordering) fun o ho => readsAfter_ordering (h.ordering o ho)).append
    (readsAfter_clause (o := q.window) fun w _ => readsAfter_window w)))
  have hall := ((Reads.word (w := "SELECT") (by decide)).gap (hdistinct.gap hfrom)).append hclauses
  exact hall.of_eq (by simp [Query.text]) (by simp [Query.tokens, Query.frontTokens])

namespace CommandBody

variable (verb : InsertVerb) (table : String) (values : List (String × String))
  (condition : Option String)

theorem sql_insert_nil :
    (insert verb table []).sql = verb.keyword ++ " INTO " ++ table ++ " DEFAULT VALUES" := rfl

theorem sql_insert_cons (v : String × String) :
    (insert verb table (v :: values)).sql =
      verb.keyword ++ " INTO " ++ table ++ " (" ++ commaList ((v :: values).map (·.1)) ++
        ") VALUES (" ++ commaList ((v :: values).map (·.2)) ++ ")" := rfl

theorem sql_count : (count table condition).sql =
    "SELECT COUNT(*) FROM " ++ table ++ conditionText "WHERE" condition := rfl

theorem sql_update : (update table values condition).sql =
    "UPDATE " ++ table ++ " SET " ++ commaList (values.map fun (c, v) => c ++ " = " ++ v) ++
      conditionText "WHERE" condition := rfl

theorem sql_delete : (delete table condition).sql =
    "DELETE FROM " ++ table ++ conditionText "WHERE" condition := rfl

variable {verb table values condition}

/-- An insert reads as its tokens, with values and without. -/
theorem reads_insert (htable : Identifier.isWord table.toList = true)
    (hvalues : AreReadable values) :
    Reads (insert verb table values).sql.toList (insert verb table values).tokens := by
  have hverb := Reads.word (w := verb.keyword) (by cases verb <;> decide)
  have hinto := hverb.gap ((Reads.word (w := "INTO") (by decide)).gap (Reads.word htable))
  cases values with
  | nil =>
    have hdefault := hinto.gap ((Reads.word (w := "DEFAULT") (by decide)).gap
      (Reads.word (w := "VALUES") (by decide)))
    exact hdefault.of_eq (by simp [sql_insert_nil]) (by simp [tokens])
  | cons v values =>
    have hnames : AreNames ((v :: values).map (·.1)) := by
      refine ⟨by simp, List.forall_mem_map.mpr fun v hv => (hvalues v hv).1⟩
    have htexts : Reads (commaList ((v :: values).map (·.2))).toList
        (valueTokens (v :: values)) := by
      rw [commaList, String.toList_intercalate, List.map_map]
      exact Reads.commas (by simp) fun v hv => (hvalues v hv).2
    have hall := hinto.gap ((reads_names hnames).enclose.gap
      ((Reads.word (w := "VALUES") (by decide)).gap htexts.enclose))
    exact hall.of_eq (by simp [sql_insert_cons]) (by simp [tokens])

/-- A count reads as its tokens. -/
theorem reads_count (htable : Identifier.isWord table.toList = true)
    (hcondition : ∀ text ∈ condition, IsReadable text) :
    Reads (count table condition).sql.toList (count table condition).tokens := by
  have hcount := (Reads.symbol (s := "*") (by decide)).call (w := "COUNT") (by decide)
  have hall := ((Reads.word (w := "SELECT") (by decide)).gap (hcount.gap
    ((Reads.word (w := "FROM") (by decide)).gap (Reads.word htable)))).append
      (readsAfter_condition (w := "WHERE") (by decide) hcondition)
  exact hall.of_eq (by simp [sql_count]) (by simp [tokens])

/-- An update reads as its tokens if it assigns at least one column. -/
theorem reads_update (htable : Identifier.isWord table.toList = true) (hne : values ≠ [])
    (hvalues : AreReadable values) (hcondition : ∀ text ∈ condition, IsReadable text) :
    Reads (update table values condition).sql.toList (update table values condition).tokens := by
  have hassignments : Reads (commaList (values.map fun (c, v) => c ++ " = " ++ v)).toList
      (assignmentTokens values) := by
    rw [commaList, String.toList_intercalate, List.map_map]
    refine Reads.commas hne fun v hv => ?_
    have hassign := (Reads.word (hvalues v hv).1).gap
      ((Reads.symbol (s := "=") (by decide)).gap (hvalues v hv).2)
    exact hassign.of_eq (by simp) rfl
  have hall := ((Reads.word (w := "UPDATE") (by decide)).gap ((Reads.word htable).gap
    ((Reads.word (w := "SET") (by decide)).gap hassignments))).append
      (readsAfter_condition (w := "WHERE") (by decide) hcondition)
  exact hall.of_eq (by simp [sql_update]) (by simp [tokens])

/-- A delete reads as its tokens. -/
theorem reads_delete (htable : Identifier.isWord table.toList = true)
    (hcondition : ∀ text ∈ condition, IsReadable text) :
    Reads (delete table condition).sql.toList (delete table condition).tokens := by
  have hall := ((Reads.word (w := "DELETE") (by decide)).gap
    ((Reads.word (w := "FROM") (by decide)).gap (Reads.word htable))).append
      (readsAfter_condition (w := "WHERE") (by decide) hcondition)
  exact hall.of_eq (by simp [sql_delete]) (by simp [tokens])

/-- **The text of a command reads as its tokens.** -/
theorem Readable.reads {b : CommandBody} (h : b.Readable) : Reads b.sql.toList b.tokens := by
  cases b with
  | insert verb table values => exact reads_insert h.1 h.2
  | query q => exact Query.Readable.reads h
  | count table condition => exact reads_count h.1 h.2
  | update table values condition => exact reads_update h.1 h.2.1 h.2.2.1 h.2.2.2
  | delete table condition => exact reads_delete h.1 h.2

end CommandBody

/-! ### Texts and windows -/

/-- The texts of values and conditions in a statement, from left to right. -/
def CommandBody.texts : CommandBody → List String
  | insert _ _ values => values.map (·.2)
  | query q => q.condition.toList ++ (q.grouping.bind Grouping.condition).toList
  | count _ condition | delete _ condition => condition.toList
  | update _ values condition => values.map (·.2) ++ condition.toList

/-- The window of a statement, if it is a query with one. -/
def CommandBody.window : CommandBody → Option (Nat × Nat)
  | query q => q.window
  | _ => none

section

variable {α : Type} {f : Token → Option α} (hf : SkipsWords f)

include hf

theorem filterMap_commas {β : Type} (g : β → List Token) (items : List β) :
    ([Token.symbol ","].intercalate (items.map g)).filterMap f =
      items.flatMap fun b => (g b).filterMap f := by
  induction items with
  | nil => rfl
  | cons b items ih =>
    cases items with
    | nil => simp
    | cons b' items =>
      rw [List.map_cons, List.map_cons, List.intercalate_cons_cons, ← List.map_cons,
        List.filterMap_append, List.filterMap_append, ih, hf.filterMap_symbol, List.filterMap_nil,
        List.append_nil]
      simp only [List.flatMap_cons]

theorem filterMap_nameTokens (names : List String) : (nameTokens names).filterMap f = [] := by
  rw [nameTokens, filterMap_commas hf]
  exact List.flatMap_eq_nil_iff.mpr fun name _ => hf.filterMap_word name []

theorem filterMap_conditionTokens (keyword : String) (condition : Option String) :
    (conditionTokens keyword condition).filterMap f =
      condition.toList.flatMap fun text => (textTokens text).filterMap f := by
  cases condition with
  | none => rfl
  | some text => simp [conditionTokens, hf.filterMap_word]

/-- What skips words and symbols finds in assignments what it finds in the values. -/
theorem filterMap_assignmentTokens (values : List (String × String)) :
    (CommandBody.assignmentTokens values).filterMap f =
      (values.map (·.2)).flatMap fun text => (textTokens text).filterMap f := by
  rw [CommandBody.assignmentTokens, filterMap_commas hf, List.flatMap_map]
  simp only [hf.filterMap_word, hf.filterMap_symbol]

theorem filterMap_valueTokens (values : List (String × String)) :
    (CommandBody.valueTokens values).filterMap f =
      (values.map (·.2)).flatMap fun text => (textTokens text).filterMap f := by
  rw [CommandBody.valueTokens, filterMap_commas hf, List.flatMap_map]

/-- What skips words and symbols finds in a query, before the window, what it finds in its
conditions. -/
theorem filterMap_frontTokens (q : Query) :
    q.frontTokens.filterMap f =
      (CommandBody.query q).texts.flatMap fun text => (textTokens text).filterMap f := by
  have hdistinct : (if q.distinct then [Token.word "DISTINCT"] else []).filterMap f = [] := by
    split_ifs
    · exact hf.filterMap_word _ []
    · rfl
  have hcolumns : (q.columns.elim [.symbol "*"] nameTokens).filterMap f = [] := by
    cases q.columns with
    | none => exact hf.filterMap_symbol _ []
    | some names => exact filterMap_nameTokens hf names
  have hgrouping : (q.grouping.elim [] Grouping.tokens).filterMap f =
      (q.grouping.bind Grouping.condition).toList.flatMap
        fun text => (textTokens text).filterMap f := by
    cases q.grouping with
    | none => rfl
    | some g =>
      simp [Grouping.tokens, hf.filterMap_word, filterMap_nameTokens hf,
        filterMap_conditionTokens hf]
  have hordering : (q.ordering.elim [] Query.orderingTokens).filterMap f = [] := by
    cases q.ordering with
    | none => rfl
    | some o =>
      simp [Query.orderingTokens, hf.filterMap_word, filterMap_nameTokens hf]
  simp only [Query.frontTokens, CommandBody.texts, hf.filterMap_word, List.filterMap_append,
    hdistinct, hcolumns, filterMap_conditionTokens hf, hgrouping, hordering, List.nil_append,
    List.append_nil, List.flatMap_append]

end

/-- **Before its window a statement has no atoms but those of its texts.** -/
theorem CommandBody.exists_front (b : CommandBody) :
    ∃ front, b.tokens = front ++ b.window.elim [] Query.windowTokens ∧
      ∀ {α : Type} {f : Token → Option α}, SkipsWords f →
        front.filterMap f = b.texts.flatMap fun text => (textTokens text).filterMap f := by
  cases b with
  | query q => exact ⟨q.frontTokens, rfl, fun hf => filterMap_frontTokens hf q⟩
  | insert verb table values =>
    refine ⟨_, (List.append_nil _).symm, fun hf => ?_⟩
    cases values with
    | nil => simp [tokens, texts, hf.filterMap_word]
    | cons v values =>
      simp [tokens, texts, hf.filterMap_word, hf.filterMap_symbol, filterMap_nameTokens hf,
        filterMap_valueTokens hf]
  | count table condition =>
    refine ⟨_, (List.append_nil _).symm, fun hf => ?_⟩
    simp [tokens, texts, hf.filterMap_word, hf.filterMap_symbol, filterMap_conditionTokens hf]
  | update table values condition =>
    refine ⟨_, (List.append_nil _).symm, fun hf => ?_⟩
    simp [tokens, texts, hf.filterMap_word, filterMap_assignmentTokens hf,
      filterMap_conditionTokens hf]
  | delete table condition =>
    refine ⟨_, (List.append_nil _).symm, fun hf => ?_⟩
    simp [tokens, texts, hf.filterMap_word, filterMap_conditionTokens hf]

end SqlRecord
