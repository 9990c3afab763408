import SqlRecord.Proofs.Sql.Phrase
import SqlRecord.Value

/-!
# Forms of table definitions

What a table definition says, apart from its layout: names, types and constraints, with the
expressions of constraints as phrases. Main statement: `TableForm.same_iff`, by which two
definitions are compared as equal exactly if they say the same up to the case of names.
-/

namespace SqlRecord

namespace Sql

/-- A constraint with its expression as a phrase. -/
inductive Attribute where
  | primaryKey
  | unique
  | notNull
  | default (t : Phrase)
  | check (t : Phrase)
  | autoincrement
  deriving DecidableEq

/-- A column of a definition. -/
structure ColumnForm where
  name : String
  type : SqlType
  attributes : List Attribute

/-- A table definition. -/
structure TableForm where
  name : String
  columns : List ColumnForm

/-! ### Layouts -/

namespace Attribute

def layout : Attribute → List Piece
  | primaryKey => [.word "PRIMARY", .gap, .word "KEY"]
  | unique => [.word "UNIQUE"]
  | notNull => [.word "NOT", .gap, .word "NULL"]
  | default t => .word "DEFAULT" :: .gap :: t.layout
  | check t => .word "CHECK" :: enclose t.layout
  | autoincrement => [.word "AUTOINCREMENT"]

/-- The same constraint with the letters of names in lower case. -/
def fold : Attribute → Attribute
  | default t => default t.fold
  | check t => check t.fold
  | a => a

/-- The constraints that are written: a default is an operand. -/
def Writable : Attribute → Prop
  | default t => t.Writable ∧ t.isBare = false
  | check t => t.Writable
  | _ => True

theorem Writable.spaced {a : Attribute} (h : a.Writable) : Spaced a.layout := by
  cases a with
  | primaryKey => exact .word_gap (by decide) (.word (by decide))
  | unique => exact .word (by decide)
  | notNull => exact .word_gap (by decide) (.word (by decide))
  | default t => exact .word_gap (by decide) h.1.spaced
  | check t => exact .call (by decide) (Phrase.Writable.spaced h)
  | autoincrement => exact .word (by decide)

/-- Folding a constraint first makes no difference once its layout is folded. -/
theorem foldLayout_layout (a : Attribute) : foldLayout a.layout = foldLayout a.fold.layout := by
  cases a with
  | default t => simp [layout, fold, t.foldLayout_layout]
  | check t => simp [layout, fold, t.foldLayout_layout]
  | _ => rfl

/-- The tokens of a constraint in lower case. -/
def tokens (a : Attribute) : List Token := (tokensOf a.layout).map Token.fold

/-- A constraint begins with a word. -/
theorem exists_tokens_cons (a : Attribute) : ∃ w ts, a.tokens = .word w :: ts := by
  cases a <;> exact ⟨_, _, rfl⟩

theorem tokens_default (t : Phrase) :
    (default t).tokens = .word "default" :: (tokensOf t.layout).map Token.fold := rfl

theorem tokens_check (t : Phrase) :
    (check t).tokens = .word "check" :: (tokensOf (enclose t.layout)).map Token.fold := rfl

/-- **Constraints are told from each other**, whatever follows that is no parenthesis. -/
theorem fold_eq_of_append {a b : Attribute} (ha : a.Writable) (hb : b.Writable)
    {rest rest' : List Token} (hrest : Category.primary.Stops rest)
    (hrest' : Category.primary.Stops rest') (h : a.tokens ++ rest = b.tokens ++ rest') :
    a.fold = b.fold ∧ rest = rest' := by
  -- after equal keywords, operands are told from each other by the grammar
  have hoperand : ∀ {ts us : List Token} {t u : Phrase}, Derives .primary ts t →
      Derives .primary us u → ts.map Token.fold ++ rest = us.map Token.fold ++ rest' →
        t.fold = u.fold ∧ rest = rest' := by
    intro ts us t u ht hu heq
    obtain ⟨hts, htu⟩ := ht.fold.prefix_unique hu.fold hrest hrest' heq
    rw [hts] at heq
    exact ⟨htu, List.append_cancel_left heq⟩
  cases a with
  | primaryKey =>
    cases b with
    | primaryKey => exact ⟨rfl, List.append_cancel_left h⟩
    | _ => exact absurd (List.cons.inj h).1 (by decide)
  | unique =>
    cases b with
    | unique => exact ⟨rfl, List.append_cancel_left h⟩
    | _ => exact absurd (List.cons.inj h).1 (by decide)
  | notNull =>
    cases b with
    | notNull => exact ⟨rfl, List.append_cancel_left h⟩
    | _ => exact absurd (List.cons.inj h).1 (by decide)
  | default t =>
    cases b with
    | default u =>
      rw [tokens_default, tokens_default] at h
      obtain ⟨htu, hrest⟩ := hoperand (ha.1.derives_primary ha.2) (hb.1.derives_primary hb.2)
        (List.cons.inj h).2
      exact ⟨congrArg default htu, hrest⟩
    | _ => exact absurd (List.cons.inj h).1 (by decide)
  | check t =>
    cases b with
    | check u =>
      rw [tokens_check, tokens_check, tokensOf_enclose, tokensOf_enclose] at h
      obtain ⟨htu, hrest⟩ := hoperand (.enclose (Phrase.Writable.derives_sentence ha))
        (.enclose (Phrase.Writable.derives_sentence hb)) (List.cons.inj h).2
      exact ⟨congrArg check htu, hrest⟩
    | _ => exact absurd (List.cons.inj h).1 (by decide)
  | autoincrement =>
    cases b with
    | autoincrement => exact ⟨rfl, List.append_cancel_left h⟩
    | _ => exact absurd (List.cons.inj h).1 (by decide)

/-- There is no comma in a constraint. -/
theorem Writable.comma_notMem {a : Attribute} (h : a.Writable) : .symbol "," ∉ a.tokens := by
  rw [tokens, symbol_mem_map_fold_iff]
  cases a with
  | default t => simpa [layout] using (h.1.derives_primary h.2).comma_notMem
  | check t => simpa [layout] using (Phrase.Writable.derives_sentence h).comma_notMem
  | _ => decide

/-- Lists of constraints are told from each other. -/
theorem map_fold_eq_of_flatMap {as bs : List Attribute} (ha : ∀ a ∈ as, a.Writable)
    (hb : ∀ b ∈ bs, b.Writable) (h : as.flatMap tokens = bs.flatMap tokens) :
    as.map fold = bs.map fold := by
  -- constraints begin with words, so no parenthesis follows the one before
  have hstops : ∀ as : List Attribute, Category.primary.Stops (as.flatMap tokens) := by
    intro as
    cases as with
    | nil => exact nofun
    | cons a as =>
      obtain ⟨w, ts, hts⟩ := a.exists_tokens_cons
      rw [List.flatMap_cons, hts]
      rintro t ⟨⟩
      simp
  induction as generalizing bs with
  | nil =>
    cases bs with
    | nil => rfl
    | cons b bs =>
      obtain ⟨w, ts, hts⟩ := b.exists_tokens_cons
      rw [List.flatMap_cons, hts] at h
      cases h
  | cons a as ih =>
    cases bs with
    | nil =>
      obtain ⟨w, ts, hts⟩ := a.exists_tokens_cons
      rw [List.flatMap_cons, hts] at h
      cases h
    | cons b bs =>
      obtain ⟨ha, has⟩ := List.forall_mem_cons.mp ha
      obtain ⟨hb, hbs⟩ := List.forall_mem_cons.mp hb
      obtain ⟨hfold, hrest⟩ := fold_eq_of_append ha hb (hstops as) (hstops bs) h
      rw [List.map_cons, List.map_cons, hfold, ih has hbs hrest]

end Attribute

namespace ColumnForm

def layout (c : ColumnForm) : List Piece :=
  separate [.gap] ([.word c.name] :: [.word c.type.name] :: c.attributes.map Attribute.layout)

/-- The same column with the letters of names in lower case. -/
def fold (c : ColumnForm) : ColumnForm :=
  ⟨foldName c.name, c.type, c.attributes.map Attribute.fold⟩

structure Writable (c : ColumnForm) : Prop where
  name : Identifier.isWord c.name.toList = true
  attributes : ∀ a ∈ c.attributes, a.Writable

theorem Writable.spaced {c : ColumnForm} (h : c.Writable) : Spaced c.layout := by
  refine spaced_gaps (by simp) ?_
  simp only [List.forall_mem_cons, List.forall_mem_map]
  exact ⟨.word h.name, .word (by cases c.type <;> decide), fun a ha => (h.attributes a ha).spaced⟩

theorem nil_intercalate {α : Type} (xs : List (List α)) : [].intercalate xs = xs.flatten := by
  induction xs with
  | nil => rfl
  | cons x xs ih =>
    cases xs with
    | nil => simp
    | cons y xs =>
      rw [List.intercalate_cons_cons, ih, List.append_nil]
      rfl

/-- The tokens of a column in lower case. -/
def tokens (c : ColumnForm) : List Token := (tokensOf c.layout).map Token.fold

/-- The tokens of a column are its name, its type and those of its constraints. -/
theorem tokens_eq (c : ColumnForm) :
    c.tokens = .word (foldName c.name) ::
      .word (foldName c.type.name) :: c.attributes.flatMap Attribute.tokens := by
  have hnil : tokensOf [.gap] = [] := rfl
  rw [tokens, layout, tokensOf_separate, hnil, nil_intercalate]
  simp only [List.map_cons, List.flatten_cons, List.map_append, List.map_map]
  rw [List.map_flatten, List.map_map]
  rfl

theorem foldLayout_layout (c : ColumnForm) : foldLayout c.layout = foldLayout c.fold.layout := by
  have hattributes : (c.attributes.map Attribute.layout).map foldLayout =
      (c.fold.attributes.map Attribute.layout).map foldLayout := by
    rw [fold, List.map_map, List.map_map, List.map_map]
    exact List.map_congr_left fun a _ => a.foldLayout_layout
  rw [layout, layout, foldLayout_separate, foldLayout_separate, List.map_cons, List.map_cons,
    List.map_cons, List.map_cons, hattributes]
  simp [fold]

/-- Types have names that differ in more than case. -/
theorem type_eq_of_fold {t u : SqlType} (h : foldName t.name = foldName u.name) : t = u := by
  cases t <;> cases u <;> first | rfl | exact absurd h (by decide)

/-- Columns are told from each other. -/
theorem fold_eq_of_tokens {c d : ColumnForm} (hc : c.Writable) (hd : d.Writable)
    (h : c.tokens = d.tokens) : c.fold = d.fold := by
  rw [tokens_eq, tokens_eq] at h
  obtain ⟨hname, h⟩ := List.cons.inj h
  obtain ⟨htype, h⟩ := List.cons.inj h
  rw [fold, fold, Token.word.inj hname, type_eq_of_fold (Token.word.inj htype),
    Attribute.map_fold_eq_of_flatMap hc.attributes hd.attributes h]

/-- No comma stands in a column. -/
theorem Writable.comma_notMem {c : ColumnForm} (h : c.Writable) :
    .symbol "," ∉ c.tokens := by
  rw [tokens_eq]
  simp only [List.mem_cons, reduceCtorEq, false_or, List.mem_flatMap, not_exists, not_and]
  exact fun a ha => (h.attributes a ha).comma_notMem

end ColumnForm

namespace TableForm

def layout (f : TableForm) : List Piece :=
  .word "CREATE" :: .gap :: .word "TABLE" :: .gap :: .word f.name :: .gap ::
    enclose (commas (f.columns.map ColumnForm.layout))

/-- The same definition with the letters of names in lower case. -/
def fold (f : TableForm) : TableForm := ⟨foldName f.name, f.columns.map ColumnForm.fold⟩

structure Writable (f : TableForm) : Prop where
  name : Identifier.isWord f.name.toList = true
  columns_ne_nil : f.columns ≠ []
  columns : ∀ c ∈ f.columns, c.Writable

/-- The layout of a definition is spaced. -/
theorem Writable.spaced {f : TableForm} (h : f.Writable) : Spaced f.layout := by
  have hcolumns : Spaced (commas (f.columns.map ColumnForm.layout)) := by
    refine spaced_commas (by simpa using h.columns_ne_nil) ?_
    rw [List.forall_mem_map]
    exact fun c hc => (h.columns c hc).spaced
  exact .word_gap (by decide) (.word_gap (by decide) (.word_gap h.name (.enclose hcolumns)))

/-- Folding a definition first makes no difference once its layout is folded. -/
theorem foldLayout_layout (f : TableForm) : foldLayout f.layout = foldLayout f.fold.layout := by
  have hcolumns : (f.columns.map ColumnForm.layout).map foldLayout =
      (f.fold.columns.map ColumnForm.layout).map foldLayout := by
    rw [fold, List.map_map, List.map_map, List.map_map]
    exact List.map_congr_left fun c _ => c.foldLayout_layout
  simp only [layout, foldLayout_word_cons, foldLayout_gap_cons, foldLayout_enclose, commas,
    foldLayout_separate, hcolumns]
  simp [fold]

/-- The tokens of a definition are its name and, in parentheses, those of its columns with commas. -/
theorem tokens_eq (f : TableForm) : (tokensOf f.layout).map Token.fold =
    .word "create" :: .word "table" :: .word (foldName f.name) :: .symbol "(" ::
      ([.symbol ","].intercalate (f.columns.map ColumnForm.tokens) ++ [.symbol ")"]) := by
  have hcolumns : (tokensOf (commas (f.columns.map ColumnForm.layout))).map Token.fold =
      [.symbol ","].intercalate (f.columns.map ColumnForm.tokens) := by
    have h := map_separate (f := fun ps => (tokensOf ps).map Token.fold) rfl
      (fun ps qs => by rw [tokensOf_append, List.map_append]) [.symbol ",", .gap]
      (f.columns.map ColumnForm.layout)
    rw [List.map_map] at h
    exact h
  rw [← hcolumns]
  simp only [layout, tokensOf_word_cons, tokensOf_gap_cons, tokensOf_enclose, List.map_cons,
    List.map_append]
  rfl

/-- The columns of a definition stand between its commas. -/
theorem Writable.splitOn_columns {f : TableForm} (h : f.Writable) :
    ([.symbol ","].intercalate (f.columns.map ColumnForm.tokens)).splitOn (.symbol ",") =
      f.columns.map ColumnForm.tokens := by
  refine List.splitOn_intercalate _ ?_ (by simpa using h.columns_ne_nil)
  rw [List.forall_mem_map]
  exact fun c hc => (h.columns c hc).comma_notMem

/-- Columns with the same tokens are the same up to the case of names. -/
theorem map_fold_eq_of_map_tokens {cs ds : List ColumnForm} (hc : ∀ c ∈ cs, c.Writable)
    (hd : ∀ d ∈ ds, d.Writable) (h : cs.map ColumnForm.tokens = ds.map ColumnForm.tokens) :
    cs.map ColumnForm.fold = ds.map ColumnForm.fold := by
  induction cs generalizing ds with
  | nil => rw [List.map_eq_nil_iff.mp h.symm]
  | cons c cs ih =>
    cases ds with
    | nil => cases h
    | cons d ds =>
      obtain ⟨hc, hcs⟩ := List.forall_mem_cons.mp hc
      obtain ⟨hd, hds⟩ := List.forall_mem_cons.mp hd
      obtain ⟨h, hrest⟩ := List.cons.inj h
      rw [List.map_cons, List.map_cons, ColumnForm.fold_eq_of_tokens hc hd h, ih hcs hds hrest]

/-- Definitions are told from each other: a comma ends a column, and a column is read from its
words. -/
theorem fold_eq_of_tokens {f g : TableForm} (hf : f.Writable) (hg : g.Writable)
    (h : (tokensOf f.layout).map Token.fold = (tokensOf g.layout).map Token.fold) :
    f.fold = g.fold := by
  rw [tokens_eq, tokens_eq] at h
  simp only [List.cons.injEq, true_and, Token.word.injEq] at h
  obtain ⟨hname, h⟩ := h
  have hsplit := congrArg (List.splitOn (.symbol ",")) (List.append_cancel_right h)
  rw [hf.splitOn_columns, hg.splitOn_columns] at hsplit
  rw [fold, fold, hname, map_fold_eq_of_map_tokens hf.columns hg.columns hsplit]

/-- **Two definitions are compared as equal exactly if they say the same** up to the case of
names. -/
theorem same_iff {f g : TableForm} (hf : f.Writable) (hg : g.Writable) :
    Definition.same (String.ofList (spell f.layout)) (String.ofList (spell g.layout)) = true ↔
      f.fold = g.fold := by
  rw [Definition.same, beq_iff_eq, String.toList_ofList, String.toList_ofList,
    normalize_spell hf.spaced, normalize_spell hg.spaced]
  constructor
  · intro h
    -- equal texts read as equal tokens
    have htokens := tokens?_spell hf.spaced.foldLayout
    rw [h, tokens?_spell hg.spaced.foldLayout, Option.some_inj, tokensOf_foldLayout,
      tokensOf_foldLayout] at htokens
    exact fold_eq_of_tokens hf hg htokens.symm
  · intro h
    rw [f.foldLayout_layout, h, ← g.foldLayout_layout]

end TableForm

end Sql

end SqlRecord
