import SqlRecord.Proofs.Expr.Constants

/-!
# Expressions that differ in constants

Two expressions are `Expr.Alike` if they are the same but for their constants, which are related in
pairs. Where a mode hides what the relation allows to differ (`Hides`), the texts of the two differ
in nothing else (`Expr.Alike.compileIn`).
-/

namespace SqlRecord

open Sql

/-- Whether two expressions are the same but for their constants, which are related in pairs. -/
inductive Expr.Alike (R : Value → Value → Prop) : Expr → Expr → Prop
  | column (field : String) : Alike R (.column field) (.column field)
  | literal {v w : Value} (h : R v w) : Alike R (.literal v) (.literal w)
  | binary (op : BinaryOp) {left right left' right' : Expr} (hl : Alike R left left')
      (hr : Alike R right right') : Alike R (.binary op left right) (.binary op left' right')
  | unary (op : UnaryOp) {e e' : Expr} (h : Alike R e e') : Alike R (.unary op e) (.unary op e')
  | aggregate (func : Aggregate) (field : Option String) :
      Alike R (.aggregate func field) (.aggregate func field)

/-- Whether both values are `NULL` or neither is. -/
def Value.SameNull (v w : Value) : Prop := v.isNull = w.isNull

/-- Whether two values are the same but for the content of a text. -/
def Value.SameButText (v w : Value) : Prop := v = w ∨ ∃ s s', v = .text s ∧ w = .text s'

/-- Whether a function on phrases hides what a relation allows to differ between the constants of
expressions in a mode. -/
structure Hides (mode : BindMode) (R : Value → Value → Prop) (m : Phrase → Phrase) : Prop where
  before : ∀ op t, m (.before op t) = .before op (m t)
  between : ∀ c l r, m (.between c l r) = .between c (m l) (m r)
  isNull : ∀ {v w}, R v w → v.isNull = w.isNull
  phraseIn? : ∀ {n v w t u}, R v w → v.phraseIn? mode n = some t → w.phraseIn? mode n = some u →
    m t = m u

/-! ### What is hidden -/

/-- Nothing is hidden between constants that are equal. -/
theorem hides_eq (mode : BindMode) : Hides mode Eq id where
  before _ _ := rfl
  between _ _ _ := rfl
  isNull h := congrArg Value.isNull h
  phraseIn? h ht hu := Option.some.inj (ht.symm.trans ((congrArg _ h).trans hu))

/-- With parameters a constant shows only whether it is `NULL`. -/
theorem hides_parameters : Hides .parameters Value.SameNull id where
  before _ _ := rfl
  between _ _ _ := rfl
  isNull h := h
  phraseIn? {n v w t u} h ht hu := by
    have hbound : ∀ {v : Value} {t : Phrase}, v.phraseIn? .parameters n = some t →
        t = if v.isNull then .null else .placeholder (":p" ++ natText (n + 1)) := by
      intro v t ht
      cases v <;> cases ht <;> rfl
    rw [hbound ht, hbound hu, h]

/-- The content of a text stands between quotes. -/
theorem hides_text : Hides .inline Value.SameButText Phrase.mask where
  before _ _ := rfl
  between _ _ _ := rfl
  isNull h := by
    rcases h with rfl | ⟨s, s', rfl, rfl⟩ <;> rfl
  phraseIn? h ht hu := by
    rcases h with rfl | ⟨s, s', rfl, rfl⟩
    · rw [Option.some.inj (ht.symm.trans hu)]
    · cases ht
      cases hu
      rfl

namespace Expr.Alike

variable {R : Value → Value → Prop} {e e' : Expr}

/-- An expression is like itself under a reflexive relation of constants. -/
theorem refl (h : ∀ v, R v v) (e : Expr) : e.Alike R e := by
  induction e with
  | column field => exact .column field
  | literal v => exact .literal (h v)
  | binary op left right ihl ihr => exact .binary op ihl ihr
  | unary op e ih => exact .unary op ih
  | aggregate func field => exact .aggregate func field

theorem isNull_eq (hR : ∀ {v w}, R v w → v.isNull = w.isNull) (h : e.Alike R e') :
    e.isNull = e'.isNull := by
  have hnull : ∀ v : Value, (Expr.literal v).isNull = v.isNull := fun v => by cases v <;> rfl
  cases h with
  | literal h => rw [hnull, hnull, hR h]
  | _ => rfl

/-- Expressions that are alike bind as many constants. -/
theorem length_bound (mode : BindMode) (hR : ∀ {v w}, R v w → v.isNull = w.isNull)
    (h : e.Alike R e') : (e.bound mode).length = (e'.bound mode).length := by
  induction h with
  | column field => rfl
  | literal h =>
    rw [bound, bound, hR h]
    split_ifs <;> rfl
  | binary op _ _ ihl ihr => rw [bound, bound, List.length_append, List.length_append, ihl, ihr]
  | unary op _ ih => exact ih
  | aggregate func field => rfl

/-- What expressions mean that are alike is the same where the difference is hidden. -/
theorem phrase? {s : Schema} {mode : BindMode} {m : Phrase → Phrase} (hm : Hides mode R m)
    (h : e.Alike R e') {n : Nat} {t u : Phrase} (ht : s.phrase? mode n e = some t)
    (hu : s.phrase? mode n e' = some u) : m t = m u := by
  induction h generalizing n t u with
  | column field => rw [Option.some.inj (ht.symm.trans hu)]
  | literal h => exact hm.phraseIn? h ht hu
  | binary op hl hr ihl ihr =>
    simp only [Schema.phrase?, Option.bind_eq_bind, Option.bind_eq_some_iff] at ht hu
    obtain ⟨c, hc, l, hl', r, hr', ht⟩ := ht
    obtain ⟨c', hc', l', hl'', r', hr'', hu⟩ := hu
    -- connectives depend on operands being `NULL`, numbers on how many constants were bound
    rw [hl.isNull_eq hm.isNull, hr.isNull_eq hm.isNull, hc'] at hc
    rw [hl.length_bound mode hm.isNull] at hr'
    cases hc
    cases ht
    cases hu
    rw [hm.between, hm.between, ihl hl' hl'', ihr hr' hr'']
  | unary op _ ih =>
    obtain ⟨t', ht', rfl⟩ := Option.map_eq_some_iff.mp ht
    obtain ⟨u', hu', rfl⟩ := Option.map_eq_some_iff.mp hu
    rw [hm.before, hm.before, ih ht' hu']
  | aggregate func field => rw [Option.some.inj (ht.symm.trans hu)]

/-- **Conditions that are alike have texts that differ in what is hidden only**, and add the same
number of parameters. -/
theorem compileIn {s : Schema} (hs : s.WellFormed) {mode : BindMode} {m : Phrase → Phrase}
    (hm : Hides mode R m) (h : e.Alike R e') {params params' ps ps' : List Parameter}
    {text text' : String} (hlength : params.length = params'.length)
    (hcompile : s.compileIn mode e params = (.ok text, ps))
    (hcompile' : s.compileIn mode e' params' = (.ok text', ps')) :
    ps.length = ps'.length ∧ ∃ t u, m t = m u ∧ t.Writable ∧ u.Writable ∧
      text = String.ofList (spell t.layout) ∧ text' = String.ofList (spell u.layout) := by
  obtain ⟨t, ht, rfl, rfl⟩ := (Schema.compileIn_eq_ok_iff hs).mp hcompile
  obtain ⟨u, hu, rfl, rfl⟩ := (Schema.compileIn_eq_ok_iff hs).mp hcompile'
  refine ⟨?_, t, u, h.phrase? hm ht (hlength ▸ hu), Schema.writable_phrase? hs ht,
    Schema.writable_phrase? hs hu, rfl, rfl⟩
  rw [List.length_append, List.length_append, length_numbered, length_numbered, hlength,
    h.length_bound mode hm.isNull]

end Expr.Alike

end SqlRecord
