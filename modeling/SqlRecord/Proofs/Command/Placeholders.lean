import SqlRecord.Proofs.Command.Sound
import SqlRecord.Proofs.Store.Binding

/-!
# Placeholders of commands

The placeholders of a command are the names of its parameters, in order and each once, so that
binding the parameters leaves none of them out. Main statement: `Table.build_binds`.
-/

namespace SqlRecord

open Sql

/-- Whether there is no text among tokens, and no number but after `LIMIT` or `OFFSET`. -/
def ConstantsInWindow (ts : List Token) : Prop :=
  ∀ before t after, ts = before ++ t :: after → t.constant?.isSome →
    (∃ cs, t = .number cs) ∧
      (before.getLast? = some (.word "LIMIT") ∨ before.getLast? = some (.word "OFFSET"))

/-- The only constants of a window are its two numbers. -/
theorem constantsInWindow_window (window : Option (Nat × Nat)) :
    ConstantsInWindow (window.elim [] Query.windowTokens) := by
  intro before t after h ht
  cases window with
  | none => simp at h
  | some w =>
    -- there are two tokens or four, and every second one is a number
    rw [Option.elim_some, Query.windowTokens] at h
    split_ifs at h
    · rcases before with _ | ⟨a, _ | ⟨b, before⟩⟩
      · cases h
        cases ht
      · cases h
        exact ⟨⟨_, rfl⟩, .inl rfl⟩
      · simp at h
    · rcases before with _ | ⟨a, _ | ⟨b, _ | ⟨c, _ | ⟨d, before⟩⟩⟩⟩
      · cases h
        cases ht
      · cases h
        exact ⟨⟨_, rfl⟩, .inl rfl⟩
      · cases h
        cases ht
      · cases h
        exact ⟨⟨_, rfl⟩, .inr rfl⟩
      · simp at h

/-- Tokens without constants may stand in front of the window. -/
theorem ConstantsInWindow.append {front ts : List Token} (hfront : constantsOf front = [])
    (h : ConstantsInWindow ts) : ConstantsInWindow (front ++ ts) := by
  intro before t after heq ht
  have hfront : ∀ u ∈ front, u.constant? = none := List.filterMap_eq_nil_iff.mp hfront
  -- a constant does not stand in front, so what is before it ends in the window
  rcases List.append_eq_append_iff.mp heq with ⟨mid, rfl, hts⟩ | ⟨mid, rfl, hts⟩
  · obtain ⟨hnumber, hlast⟩ := h mid t after hts ht
    have hmid : mid ≠ [] := by
      rintro rfl
      simp at hlast
    rw [List.getLast?_append_of_ne_nil _ hmid]
    exact ⟨hnumber, hlast⟩
  · cases mid with
    | nil =>
      obtain ⟨-, hlast⟩ := h [] t after hts.symm ht
      simp at hlast
    | cons u mid =>
      cases hts
      rw [hfront t (by simp)] at ht
      cases ht

/-- A window has no placeholders. -/
theorem filterMap_window (window : Option (Nat × Nat)) :
    (window.elim [] Query.windowTokens).filterMap Token.placeholder? = [] := by
  cases window with
  | none => rfl
  | some w =>
    rw [Option.elim_some, Query.windowTokens]
    split_ifs <;> rfl

/-- A plain placeholder can be bound. -/
theorem Store.isBindable_of_isPlain {name : String} (h : Token.IsPlain (.placeholder name)) :
    Store.IsBindable name := by
  obtain ⟨mark, cs, hname, hmark, -, hcs⟩ := h
  have hnul : Char.ofNat 0 ∉ cs := fun hmem => absurd (hcs _ hmem) (by decide)
  constructor
  · rw [String.contains_char_eq, decide_eq_false_iff_not, hname]
    rcases List.mem_pair.mp hmark with rfl | rfl <;> simpa using hnul
  · rintro rfl
    cases hname
    exact absurd hmark (by decide)

namespace Table

/-- **Every placeholder of a command is bound, and nothing else is.** The placeholders of its text
are the names of its parameters, in order and each once. Where values are inline only payloads are
parameters; where they are not, the text has no constants but those of its window. -/
theorem build_binds {d : Declaration} {s : Schema} {mode : BindMode} {row : Record s}
    {entry : Entry} {clauses : List Clause} {c : Command} (hbuild : d.build = .ok s)
    (h : (Table.mk s mode).build row entry clauses = .ok c) :
    ∃ ts, tokens? c.sql.toList = some ts ∧ placeholdersOf ts = c.params.map Parameter.name ∧
      (c.params.map Parameter.name).Nodup ∧
      (mode = .inline → ∀ p ∈ c.params, row.IsPayload p) ∧
      (mode = .parameters → ConstantsInWindow ts) ∧
      ∃ f, Store.bind (placeholdersOf ts) c.params = .ok f ∧
        ∀ p ∈ c.params, f p.name = Store.Cell.ofValue p.value := by
  have hsound := build_sound (t := ⟨s, mode⟩) (d.build_wellFormed hbuild) h
  have hreads := hsound.readable.reads
  obtain ⟨front, htokens, hfront⟩ := c.body.exists_front
  -- the placeholders of the statement are those of its texts, as the window has none
  have hplaceholders : placeholdersOf c.body.tokens = c.params.map Parameter.name := by
    rw [placeholdersOf, htokens, List.filterMap_append, hfront skipsWords_placeholder?,
      filterMap_window, List.append_nil]
    exact hsound.placeholders
  refine ⟨c.body.tokens, hreads.tokens?, hplaceholders, hsound.nodup, hsound.payload, ?_, ?_⟩
  · intro hmode
    rw [htokens]
    refine .append ?_ (constantsInWindow_window _)
    rw [constantsOf, hfront skipsWords_constant?]
    exact List.flatMap_eq_nil_iff.mpr fun text htext => hsound.constants hmode text htext
  · refine Store.exists_bind (fun p hp => ⟨?_, ?_⟩) hsound.nodup
    · exact Store.isBindable_of_isPlain (hsound.plain p hp)
    · rw [hplaceholders]
      exact List.mem_map_of_mem hp

/-- A payload behind its placeholder, next to a text that spells others. -/
theorem build_binds_notes :
    ∃ c, (Table.mk .notes .inline).build
        (.note "it's @body, :p1" (some [])) (.update none)
        [.filter (.binary .eq (.column "key") (.literal (.integer ⟨-5, by decide, by decide⟩)))] =
          .ok c ∧
      ∃ ts, tokens? c.sql.toList = some ts ∧ placeholdersOf ts = c.params.map Parameter.name ∧
        (c.params.map Parameter.name).Nodup ∧
        ∃ f, Store.bind (placeholdersOf ts) c.params = .ok f ∧
          ∀ p ∈ c.params, f p.name = Store.Cell.ofValue p.value := by
  have hbuild : (Table.mk .notes .inline).build
      (.note "it's @body, :p1" (some [])) (.update none)
      [.filter (.binary .eq (.column "key") (.literal (.integer ⟨-5, by decide, by decide⟩)))] =
        .ok ⟨.update "notes" [("title", "'it''s @body, :p1'"), ("weight", "NULL"),
          ("body", "@body")] (some "id = -5"), [⟨"@body", .blob [0, 0, 0, 1, 128]⟩]⟩ := by
    decide +kernel
  obtain ⟨ts, hts, hnames, hnodup, -, -, hbind⟩ := build_binds Schema.build_notes hbuild
  exact ⟨_, hbuild, ts, hts, hnames, hnodup, hbind⟩

end Table

end SqlRecord
