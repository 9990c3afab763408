import SqlRecord.Proofs.Command.Alike

/-!
# Values in commands

Values do not steer the structure of a command: what two runs may differ in is hidden from its
text, or stands between quotes. Main statement: `Table.build_structure`.
-/

namespace SqlRecord

open Sql

/-! ### Records that differ in values -/

namespace Record

variable {s : Schema}

/-- Whether each column that can be stored is `NULL` in both records or in neither. -/
def SameNull (row row' : Record s) : Prop :=
  ∀ i v w, row.read i = .ok v → row'.read i = .ok w → v.SameNull w

/-- Whether two records store the same but for the content of texts in columns of texts. -/
def SameButText (row row' : Record s) : Prop :=
  ∀ i, row.read i = row'.read i ∨ (s.column i).sqlType = .text ∧
    ∃ text text', row.read i = .ok (.text text) ∧ row'.read i = .ok (.text text')

/-- Whether two records store the same but for the content of payloads. -/
def SameButPayload (row row' : Record s) : Prop :=
  ∀ i, row.read i = row'.read i ∨
    ∃ bytes bytes', row.read i = .ok (.blob bytes) ∧ row'.read i = .ok (.blob bytes')

end Record

namespace Table

variable {t : Table} {row row' : Record t.schema} {T : String → String → Prop}
  {R : Value → Value → Prop}

/-! ### Values that are hidden -/

/-- Columns that read as the same cell are written alike. -/
theorem encodeColumn_congr {i : t.schema.Index} (h : row.read i = row'.read i) :
    t.encodeColumn row i = t.encodeColumn row' i := by
  rw [encodeColumn, encodeColumn, h]

/-- A relation of texts that holds of the texts of phrases that `m` makes equal is observed. -/
theorem observes_of_hides (hs : t.schema.WellFormed) {m : Phrase → Phrase}
    (hm : Hides t.mode R m)
    (hT : ∀ {u v : Phrase}, m u = m v → u.Writable → v.Writable →
      T (String.ofList (spell u.layout)) (String.ofList (spell v.layout)))
    (hcolumn : ∀ {i e e'}, t.encodeColumn row i = .ok e → t.encodeColumn row' i = .ok e' →
      T e.sql e'.sql ∧ e.param.isSome = e'.param.isSome) : t.Observes T R row row' where
  column := hcolumn
  condition he hlength h h' := by
    obtain ⟨hps, u, v, huv, hu, hv, rfl, rfl⟩ :=
      he.compileIn hs hm hlength (condition_eq_ok h) (condition_eq_ok h')
    exact ⟨hT huv hu hv, hps⟩

/-- Phrases with the same mask are spelled alike but for the content of texts. -/
theorem sameMasked_of_mask_eq {u v : Phrase} (h : u.mask = v.mask) (hu : u.Writable)
    (hv : v.Writable) :
    SameMasked (String.ofList (spell u.layout)) (String.ofList (spell v.layout)) := by
  have htokens : ∀ {u : Phrase}, u.Writable →
      maskedTokens (String.ofList (spell u.layout)) = tokensOf u.mask.layout := by
    intro u hu
    rw [maskedTokens, hu.reads.textTokens_eq, Phrase.map_mask_tokensOf_layout]
  rw [SameMasked, htokens hu, htokens hv, h]

theorem sameMasked_quote (s s' : String) : SameMasked (Literal.quote s) (Literal.quote s') := by
  rw [SameMasked, maskedTokens, maskedTokens, (reads_quote s).textTokens_eq,
    (reads_quote s').textTokens_eq]
  rfl

/-- With parameters a run shows which values are `NULL`. -/
theorem observes_sameNull (hs : t.schema.WellFormed) (hmode : t.mode = .parameters)
    (h : row.SameNull row') : t.Observes Eq Value.SameNull row row' := by
  refine observes_of_hides hs (hmode ▸ hides_parameters)
    (fun huv _ _ => congrArg (fun u : Phrase => String.ofList (spell u.layout)) huv) ?_
  intro i e e' he he'
  obtain ⟨v, hv, hform⟩ := encodeColumn_form he
  obtain ⟨w, hw, hform'⟩ := encodeColumn_form he'
  rw [hmode] at hform hform'
  exact hform.congr_isNull hform' (h i v w hv hw)

/-- Without parameters a run shows the content of texts between quotes only. -/
theorem observes_sameButText (hs : t.schema.WellFormed) (hmode : t.mode = .inline)
    (h : row.SameButText row') : t.Observes SameMasked Value.SameButText row row' := by
  refine observes_of_hides hs (hmode ▸ hides_text) sameMasked_of_mask_eq ?_
  intro i e e' he he'
  -- a column stores the same in both records, or a text that is encoded between quotes
  rcases h i with hread | ⟨htype, text, text', hread, hread'⟩
  · rw [encodeColumn_congr hread] at he
    cases he.symm.trans he'
    exact ⟨rfl, rfl⟩
  · obtain ⟨v, hv, hform⟩ := encodeColumn_form he
    obtain ⟨w, hw, hform'⟩ := encodeColumn_form he'
    cases hread.symm.trans hv
    cases hread'.symm.trans hw
    rw [htype, hmode] at hform hform'
    obtain ⟨a, rfl⟩ := hform.of_text
    obtain ⟨b, rfl⟩ := hform'.of_text
    exact ⟨sameMasked_quote a b, rfl⟩

/-- No run shows the content of a payload. -/
theorem observes_sameButPayload (hs : t.schema.WellFormed) (h : row.SameButPayload row') :
    t.Observes Eq Eq row row' := by
  refine observes_of_hides hs (hides_eq t.mode)
    (fun huv _ _ => congrArg (fun u : Phrase => String.ofList (spell u.layout)) huv) ?_
  intro i e e' he he'
  -- a column stores the same in both records, or a payload that is encoded as a placeholder
  rcases h i with hread | ⟨bytes, bytes', hread, hread'⟩
  · rw [encodeColumn_congr hread] at he
    cases he.symm.trans he'
    exact ⟨rfl, rfl⟩
  · obtain ⟨v, hv, hform⟩ := encodeColumn_form he
    obtain ⟨w, hw, hform'⟩ := encodeColumn_form he'
    cases hread.symm.trans hv
    cases hread'.symm.trans hw
    exact hform.congr_blob hform'

/-- **Values do not steer the structure of a command.** Two runs of a chain over a built schema
that differ in values end in the same text where values are parameters and are `NULL` in both runs
or in neither, and where payloads differ. Where values are inline and texts differ, the tokens
differ in the content of texts. -/
theorem build_structure {d : Declaration} {s : Schema} {mode : BindMode} {row row' : Record s}
    {entry : Entry} {clauses clauses' : List Clause} {c c' : Command} (hbuild : d.build = .ok s)
    (h : (Table.mk s mode).build row entry clauses = .ok c)
    (h' : (Table.mk s mode).build row' entry clauses' = .ok c') :
    (mode = .parameters → row.SameNull row' →
      List.Forall₂ (Clause.Alike Value.SameNull) clauses clauses' → c.sql = c'.sql) ∧
    (mode = .inline → row.SameButText row' →
      List.Forall₂ (Clause.Alike Value.SameButText) clauses clauses' →
      ∃ ts ts', tokens? c.sql.toList = some ts ∧ tokens? c'.sql.toList = some ts' ∧
        ts.map Token.mask = ts'.map Token.mask) ∧
    (row.SameButPayload row' → clauses = clauses' → c.sql = c'.sql) := by
  have hs := d.build_wellFormed hbuild
  refine ⟨fun hmode hrow hclauses => ?_, fun hmode hrow hclauses => ?_, ?_⟩
  · have hobserves := observes_sameNull (t := ⟨s, mode⟩) hs hmode hrow
    exact congrArg CommandBody.sql (build_alike hobserves hclauses h h').eq
  · have hobserves := observes_sameButText (t := ⟨s, mode⟩) hs hmode hrow
    refine ⟨c.body.tokens, c'.body.tokens, ?_, ?_, ?_⟩
    · exact (build_sound (t := ⟨s, mode⟩) hs h).readable.reads.tokens?
    · exact (build_sound (t := ⟨s, mode⟩) hs h').readable.reads.tokens?
    · exact (build_alike hobserves hclauses h h').map_mask_tokens
  · rintro hrow rfl
    have hobserves := observes_sameButPayload (t := ⟨s, mode⟩) hs hrow
    have hclauses : List.Forall₂ (Clause.Alike Eq) clauses clauses :=
      List.forall₂_same.mpr fun clause _ => .refl (fun _ => rfl) clause
    exact congrArg CommandBody.sql (build_alike hobserves hclauses h h').eq

/-! ### Two runs over notes -/

/-- Notes with the same payload store the same but for the title. -/
theorem note_sameButText (a b : String) (body : Option PayloadType.bytes.Carrier) :
    (Record.note a body).SameButText (.note b body) := by
  intro i
  by_cases hi : i = ⟨1, by decide⟩
  · rw [hi]
    exact .inr ⟨rfl, a, b, rfl, rfl⟩
  · left
    simp only [Record.read, Record.note, Record.set, dif_neg hi]

theorem note_sameNull (a b : String) (body : Option PayloadType.bytes.Carrier) :
    (Record.note a body).SameNull (.note b body) := by
  intro i v w hv hw
  rcases note_sameButText a b body i with hread | ⟨-, text, text', hread, hread'⟩
  · rw [hread, hw] at hv
    cases hv
    rfl
  · cases hread.symm.trans hv
    cases hread'.symm.trans hw
    rfl

theorem note_sameButPayload (title : String) :
    (Record.note title (some [])).SameButPayload (.note title (some [IntegerType.zero _])) := by
  intro i
  by_cases hi : i = ⟨3, by decide⟩
  · rw [hi]
    exact .inr ⟨[0, 0, 0, 1, 128], [0, 0, 0, 2, 129, 0], rfl, rfl⟩
  · left
    simp only [Record.read, Record.note, Record.set, dif_neg hi]

/-- The filter of the runs below: the notes whose title is a text. -/
def titled (title : String) : Clause :=
  .filter (.binary .eq (.column "title") (.literal (.text title)))

/-- Filters by titles that are related are alike. -/
theorem titled_alike {R : Value → Value → Prop} {a b : String} (h : R (.text a) (.text b)) :
    List.Forall₂ (Clause.Alike R) [titled a] [titled b] :=
  .cons (.filter (.binary _ (.column _) (.literal h))) .nil

/-- An update of the titles and payloads of the notes with a title. -/
def retitle (mode : BindMode) (title : String) (body : Option PayloadType.bytes.Carrier)
    (old : String) : Except BuildFault Command :=
  (Table.mk .notes mode).build (.note title body) (.update (some ["title", "body"])) [titled old]

/-- Titles that spell quotes, comments and placeholders, and payloads of two lengths. -/
theorem build_structure_notes :
    (∃ c c', retitle .parameters "new" (some []) "old" = .ok c ∧
      retitle .parameters "it's :p3" (some []) "--" = .ok c' ∧ c.sql = c'.sql) ∧
    (∃ c c' ts ts', retitle .inline "new" (some []) "old" = .ok c ∧
      retitle .inline "it's :p3" (some []) "--" = .ok c' ∧
      tokens? c.sql.toList = some ts ∧ tokens? c'.sql.toList = some ts' ∧
      ts.map Token.mask = ts'.map Token.mask) ∧
    ∃ c c', retitle .inline "new" (some []) "old" = .ok c ∧
      retitle .inline "new" (some [IntegerType.zero _]) "old" = .ok c' ∧ c.sql = c'.sql := by
  have hbound : retitle .parameters "new" (some []) "old" =
      .ok ⟨.update "notes" [("title", "@title"), ("body", "@body")] (some "title = :p3"),
        [⟨"@title", .text "new"⟩, ⟨"@body", .blob [0, 0, 0, 1, 128]⟩, ⟨":p3", .text "old"⟩]⟩ := by
    decide +kernel
  have hbound' : retitle .parameters "it's :p3" (some []) "--" =
      .ok ⟨.update "notes" [("title", "@title"), ("body", "@body")] (some "title = :p3"),
        [⟨"@title", .text "it's :p3"⟩, ⟨"@body", .blob [0, 0, 0, 1, 128]⟩,
          ⟨":p3", .text "--"⟩]⟩ := by
    decide +kernel
  have hinline : retitle .inline "new" (some []) "old" =
      .ok ⟨.update "notes" [("title", "'new'"), ("body", "@body")] (some "title = 'old'"),
        [⟨"@body", .blob [0, 0, 0, 1, 128]⟩]⟩ := by
    decide +kernel
  have hquoted : retitle .inline "it's :p3" (some []) "--" =
      .ok ⟨.update "notes" [("title", "'it''s :p3'"), ("body", "@body")] (some "title = '--'"),
        [⟨"@body", .blob [0, 0, 0, 1, 128]⟩]⟩ := by
    decide +kernel
  have hpayload : retitle .inline "new" (some [IntegerType.zero _]) "old" =
      .ok ⟨.update "notes" [("title", "'new'"), ("body", "@body")] (some "title = 'old'"),
        [⟨"@body", .blob [0, 0, 0, 2, 129, 0]⟩]⟩ := by
    decide +kernel
  refine ⟨⟨_, _, hbound, hbound', ?_⟩, ?_, ⟨_, _, hinline, hpayload, ?_⟩⟩
  · exact (build_structure Schema.build_notes hbound hbound').1 rfl (note_sameNull _ _ _)
      (titled_alike rfl)
  · obtain ⟨ts, ts', hts, hts', hmask⟩ := (build_structure Schema.build_notes hinline hquoted).2.1
      rfl (note_sameButText _ _ _) (titled_alike (.inr ⟨_, _, rfl, rfl⟩))
    exact ⟨_, _, ts, ts', hinline, hquoted, hts, hts', hmask⟩
  · exact (build_structure Schema.build_notes hinline hpayload).2.2 (note_sameButPayload _) rfl

end Table

end SqlRecord
