import SqlRecord.Proofs.Expr.Compile
import SqlRecord.Proofs.Sql.Constants

/-!
# Constants of conditions

The text of a condition can be read, and its placeholders are those of the constants that it binds
(`Schema.compileIn_spec`).
-/

namespace SqlRecord

open Sql

/-! ### Numbered placeholders -/

/-- Numbered placeholders tell their numbers. -/
theorem numbered_name_injective {m n : Nat} (h : ":p" ++ natText m = ":p" ++ natText n) :
    m = n := by
  rw [String.append_right_inj, natText, natText, String.ofList_inj] at h
  exact Digits.ofNat_injective h

/-- Parameters that are numbered on have the names from the next number up. -/
theorem map_name_numbered (n : Nat) (values : List Value) :
    (numbered n values).map Parameter.name =
      (List.range values.length).map fun i => ":p" ++ natText (n + i + 1) := by
  refine List.ext_getElem (by simp [numbered]) fun i h _ => ?_
  simp [numbered]

theorem mem_map_name_numbered {n : Nat} {values : List Value} {name : String} :
    name ∈ (numbered n values).map Parameter.name ↔
      ∃ i, i < values.length ∧ ":p" ++ natText (n + i + 1) = name := by
  rw [map_name_numbered]
  simp only [List.mem_map, List.mem_range]

/-- No two numbered parameters have one name. -/
theorem nodup_numbered (n : Nat) (values : List Value) :
    ((numbered n values).map Parameter.name).Nodup := by
  rw [map_name_numbered]
  refine List.Nodup.map ?_ List.nodup_range
  intro i j h
  have := numbered_name_injective h
  omega

/-! ### Placeholders and constants -/

namespace Value

/-- A constant that is bound is a placeholder, with the name of its parameter. -/
theorem atoms_phraseIn?_parameters {n : Nat} {v : Value} {t : Phrase}
    (h : v.phraseIn? .parameters n = some t) :
    t.atoms = (numbered n ((Expr.literal v).bound .parameters)).map fun p =>
      .placeholder p.name := by
  cases v with
  | null =>
    cases h
    rw [Expr.bound_null]
    rfl
  | blob bytes => cases h
  | integer i | real x | text s =>
    cases h
    rw [Expr.bound_literal rfl]
    rfl

/-- A literal has no placeholder. -/
theorem placeholders_phraseIn?_inline {n : Nat} {v : Value} {t : Phrase}
    (h : v.phraseIn? .inline n = some t) : placeholdersOf t.atoms = [] := by
  have hphrase : v.phrase? = some t := by
    cases v with
    | blob bytes => cases h
    | _ => exact h
  obtain ⟨negative, a, rfl, ha⟩ := exists_signed hphrase
  cases negative <;> cases ha <;> rfl

end Value

namespace Schema

variable {s : Schema}

theorem atoms_columnName?_map {field : String} {f : String → Phrase} {t : Phrase}
    (hf : ∀ c, (f c).atoms = []) (h : (s.columnName? field).map f = some t) : t.atoms = [] := by
  obtain ⟨c, -, rfl⟩ := Option.map_eq_some_iff.mp h
  exact hf c

/-- An aggregate has neither constants nor placeholders. -/
theorem atoms_aggregate {mode : BindMode} {n : Nat} {func : Aggregate} {field : Option String}
    {t : Phrase} (h : s.phrase? mode n (.aggregate func field) = some t) : t.atoms = [] := by
  cases field with
  | some field => exact atoms_columnName?_map (fun _ => rfl) h
  | none =>
    rw [phrase?] at h
    split_ifs at h
    cases h
    rfl

/-- With parameters the atoms of a condition are the placeholders of the constants it binds. -/
theorem atoms_phrase?_parameters {n : Nat} {e : Expr} {t : Phrase}
    (h : s.phrase? .parameters n e = some t) :
    t.atoms = (numbered n (e.bound .parameters)).map fun p => .placeholder p.name := by
  induction e generalizing n t with
  | column field => exact atoms_columnName?_map (fun _ => rfl) h
  | literal v => exact Value.atoms_phraseIn?_parameters h
  | binary op left right ihl ihr =>
    simp only [phrase?, Option.bind_eq_bind, Option.bind_eq_some_iff] at h
    obtain ⟨c, -, l, hl, r, hr, ht⟩ := h
    cases ht
    rw [Phrase.atoms, ihl hl, ihr hr, Expr.bound, numbered_append, List.map_append]
  | unary op e ih =>
    obtain ⟨t, ht, rfl⟩ := Option.map_eq_some_iff.mp h
    exact ih (t := t) ht
  | aggregate func field => exact atoms_aggregate h

/-- Without parameters a condition has no placeholder. -/
theorem placeholders_phrase?_inline {n : Nat} {e : Expr} {t : Phrase}
    (h : s.phrase? .inline n e = some t) : placeholdersOf t.atoms = [] := by
  induction e generalizing n t with
  | column field => rw [atoms_columnName?_map (fun _ => rfl) h]; rfl
  | literal v => exact Value.placeholders_phraseIn?_inline h
  | binary op left right ihl ihr =>
    simp only [phrase?, Option.bind_eq_bind, Option.bind_eq_some_iff] at h
    obtain ⟨c, -, l, hl, r, hr, ht⟩ := h
    cases ht
    have hl : l.atoms.filterMap Token.placeholder? = [] := ihl hl
    have hr : r.atoms.filterMap Token.placeholder? = [] := ihr hr
    rw [placeholdersOf, Phrase.atoms, List.filterMap_append, hl, hr, List.append_nil]
  | unary op e ih =>
    obtain ⟨t, ht, rfl⟩ := Option.map_eq_some_iff.mp h
    exact ih (t := t) ht
  | aggregate func field => rw [atoms_aggregate h]; rfl

/-- **The text of a condition can be read.** Its placeholders are, in order, the names of the
parameters it adds, which are numbered; with parameters it holds no constant, and without it adds
none. -/
theorem compileIn_spec (hs : s.WellFormed) {mode : BindMode} {e : Expr}
    {params params' : List Parameter} {text : String}
    (h : s.compileIn mode e params = (.ok text, params')) :
    IsReadable text ∧ ∃ values, params' = params ++ numbered params.length values ∧
      placeholdersOf (textTokens text) =
        (numbered params.length values).map Parameter.name ∧
      (mode = .parameters → constantsOf (textTokens text) = []) ∧
      (mode = .inline → values = []) := by
  obtain ⟨t, ht, rfl, rfl⟩ := (compileIn_eq_ok_iff hs).mp h
  have hreads := (writable_phrase? hs ht).reads
  refine ⟨hreads.isReadable, e.bound mode, rfl, ?_⟩
  rw [hreads.textTokens_eq, placeholdersOf,
    Phrase.filterMap_tokensOf_layout skipsWords_placeholder?, constantsOf,
    Phrase.filterMap_tokensOf_layout skipsWords_constant?]
  -- the atoms are placeholders of bound constants in one mode, constants in the other
  cases mode with
  | parameters =>
    rw [atoms_phrase?_parameters ht, List.filterMap_map, List.filterMap_map]
    exact ⟨congrFun List.filterMap_eq_map _, fun _ => List.filterMap_eq_nil_iff.mpr fun _ _ => rfl,
      nofun⟩
  | inline =>
    rw [e.bound_inline]
    exact ⟨placeholders_phrase?_inline ht, nofun, fun _ => rfl⟩

end Schema

end SqlRecord
