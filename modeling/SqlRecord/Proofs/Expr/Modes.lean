import SqlRecord.Proofs.Expr.Compile

/-!
# Conditions in both modes

The bind mode does not change what a condition means. Whether and how writing an expression fails
depends neither on the mode nor on the parameters before it (`Schema.emit_failsWith`), and where it
succeeds, the meaning with bound constants becomes the meaning with literals once every placeholder
is replaced by its parameter (`Schema.fill?_phrase?`). Main statement:
`Schema.compile_modes_agree`.
-/

namespace SqlRecord

open Sql

/-- Whether the reals among the constants of an expression are finite. -/
def Expr.HasFiniteReals : Expr → Prop
  | literal (.real x) => x.isFinite = true
  | binary _ left right => left.HasFiniteReals ∧ right.HasFiniteReals
  | unary _ operand => operand.HasFiniteReals
  | _ => True

/-! ### Failures -/

namespace Emitter

variable {α β : Type}

/-- The error of an emitter, if it fails. -/
def failure? (m : Emitter α) (params : List Parameter) : Option Error :=
  match (m.run.run params).1 with
  | .ok _ => none
  | .error e => some e

/-- Whether an emitter fails with an error, or with none, whatever the parameters before it. -/
def FailsWith (m : Emitter α) (e? : Option Error) : Prop := ∀ params, m.failure? params = e?

theorem failsWith_pure (a : α) : FailsWith (pure a : Emitter α) none := fun _ => rfl

theorem failsWith_throw (e : Error) : FailsWith (throw e : Emitter α) (some e) := fun _ => rfl

/-- Of two emitters in a row the first that fails decides. -/
theorem FailsWith.bind {m : Emitter α} {f : α → Emitter β} {e? f? : Option Error}
    (hm : FailsWith m e?) (hf : ∀ a, FailsWith (f a) f?) : FailsWith (m >>= f) (e?.or f?) := by
  intro params
  have hm := hm params
  rw [failure?, run_bind]
  rw [failure?] at hm
  rcases hrun : m.run.run params with ⟨e | a, params'⟩
  · rw [hrun] at hm
    rw [← hm]
    rfl
  · rw [hrun] at hm
    rw [← hm]
    exact hf a params'

end Emitter

/-- A constant that is no infinite real fails alike in both modes: only a payload does. -/
theorem failsWith_emitLiteral {v : Value} (h : (Expr.literal v).HasFiniteReals) :
    ∃ e?, ∀ mode, (emitLiteral mode v).FailsWith e? := by
  cases v with
  | blob bytes => exact ⟨_, fun mode => Emitter.failsWith_throw _⟩
  | null => exact ⟨_, fun mode => Emitter.failsWith_pure _⟩
  | integer i =>
    refine ⟨none, fun mode params => ?_⟩
    cases mode <;> rfl
  | text s =>
    refine ⟨none, fun mode params => ?_⟩
    cases mode <;> rfl
  | real x =>
    refine ⟨none, fun mode params => ?_⟩
    cases mode with
    | parameters => rfl
    | inline =>
      have hliteral : Literal.ofValue (.real x) = .ok (String.ofList x.realText) :=
        Literal.ofReal_eq_ok_iff.mpr ⟨h, rfl⟩
      rw [emitLiteral, hliteral]
      · rfl
      all_goals simp

namespace Schema

variable (s : Schema)

/-- Whether a field has a column does not depend on the parameters. -/
theorem failsWith_emitColumn (field : String) : ∃ e?, (s.emitColumn field).FailsWith e? := by
  rw [emitColumn]
  cases s.indexOf field with
  | ok i => exact ⟨_, Emitter.failsWith_pure _⟩
  | error e => exact ⟨_, Emitter.failsWith_throw _⟩

theorem failsWith_emitAggregate (func : Aggregate) (field : Option String) :
    ∃ e?, (s.emitAggregate func field).FailsWith e? := by
  cases field with
  | some field =>
    obtain ⟨e?, h⟩ := s.failsWith_emitColumn field
    exact ⟨_, h.bind fun _ => Emitter.failsWith_pure _⟩
  | none =>
    rw [emitAggregate]
    split_ifs
    · exact ⟨_, Emitter.failsWith_pure _⟩
    · exact ⟨_, Emitter.failsWith_throw _⟩

/-- **Whether and how an expression fails depends on no mode**, and on no parameters before it. -/
theorem emit_failsWith {e : Expr} (h : e.HasFiniteReals) :
    ∃ e?, ∀ mode, (s.emit mode e).FailsWith e? := by
  induction e with
  | column field =>
    obtain ⟨e?, hcolumn⟩ := s.failsWith_emitColumn field
    exact ⟨e?, fun _ => hcolumn⟩
  | literal v => exact failsWith_emitLiteral h
  | binary op left right ihl ihr =>
    simp only [emit]
    cases op.token? with
    | none => exact ⟨_, fun _ => Emitter.failsWith_throw _⟩
    | some token =>
      obtain ⟨l?, hl⟩ := ihl h.1
      obtain ⟨r?, hr⟩ := ihr h.2
      exact ⟨_, fun mode => (hl mode).bind fun _ => (hr mode).bind fun _ =>
        Emitter.failsWith_pure _⟩
  | unary op e ih =>
    obtain ⟨e?, he⟩ := ih h
    exact ⟨_, fun mode => (he mode).bind fun _ => Emitter.failsWith_pure _⟩
  | aggregate func field =>
    obtain ⟨e?, haggregate⟩ := s.failsWith_emitAggregate func field
    exact ⟨e?, fun _ => haggregate⟩

end Schema

/-! ### Placeholders -/

/-- The number of a placeholder `:p1`, `:p2`, …. -/
def placeholderNumber? (name : String) : Option Nat :=
  match name.toList with
  | ':' :: 'p' :: digits => Digits.value? digits
  | _ => none

/-- The value that a numbered placeholder stands for: that of the parameter at this place, counted
from one. -/
def boundValue? (params : List Parameter) (name : String) : Option Value :=
  match placeholderNumber? name with
  | some (n + 1) => params[n]?.map Parameter.value
  | _ => none

/-- What a phrase means with every placeholder replaced by the literal of its value. -/
def Sql.Phrase.fill? (params : List Parameter) : Phrase → Option Phrase
  | placeholder p => (boundValue? params p).bind Value.phrase?
  | before op e => (e.fill? params).map (before op)
  | between c l r => do return between c (← l.fill? params) (← r.fill? params)
  | t => some t

/-- The number of a numbered placeholder is read back. -/
theorem placeholderNumber?_numbered (n : Nat) :
    placeholderNumber? (":p" ++ natText n) = some n := by
  have hlist : (":p" ++ natText n).toList = ':' :: 'p' :: Digits.ofNat n := by simp [natText]
  rw [placeholderNumber?, hlist]
  exact Digits.value?_ofNat n

/-- A numbered placeholder stands for the parameter at its place. -/
theorem boundValue?_numbered {params : List Parameter} {n : Nat} {p : Parameter}
    (h : params[n]? = some p) :
    boundValue? params (":p" ++ natText (n + 1)) = some p.value := by
  rw [boundValue?, placeholderNumber?_numbered]
  simp [h]

namespace Schema

variable {s : Schema}

/-- A constant that is bound at its place among the parameters reads as its literal. -/
theorem fill?_phraseIn? {n : Nat} {v : Value} {u : Phrase} {params : List Parameter}
    (hfinite : (Expr.literal v).HasFiniteReals) (h : v.phraseIn? .parameters n = some u)
    (hparams : ∀ p ∈ numbered n ((Expr.literal v).bound .parameters), params[n]? = some p) :
    ∃ t, v.phraseIn? .inline 0 = some t ∧ u.fill? params = some t := by
  -- a constant that is bound has a literal, and is the only parameter it adds
  have hbound : ∀ {v : Value} {t : Phrase}, v.isNull = false → v.phrase? = some t →
      (∀ p ∈ numbered n ((Expr.literal v).bound .parameters), params[n]? = some p) →
      (Phrase.placeholder (":p" ++ natText (n + 1))).fill? params = some t := by
    intro v t hnull ht hparams
    rw [Expr.bound_literal hnull] at hparams
    have hp := hparams ⟨":p" ++ natText (n + 1), v⟩ (by simp [numbered])
    rw [Phrase.fill?, boundValue?_numbered hp]
    exact ht
  cases v with
  | null => cases h; exact ⟨.null, rfl, rfl⟩
  | blob bytes => cases h
  | integer i => cases h; exact ⟨_, rfl, hbound rfl rfl hparams⟩
  | text cs => cases h; exact ⟨_, rfl, hbound rfl rfl hparams⟩
  | real x =>
    have hx : x.isFinite = true := hfinite
    have hphrase : (Value.real x).phrase? = some (signed x.negative (.real x.abs)) := if_pos hx
    cases h
    exact ⟨_, hphrase, hbound rfl hphrase hparams⟩

/-- **With its placeholders replaced a condition means the same as with literals**, if the constants
it binds stand at their places among the parameters. -/
theorem fill?_phrase? {n : Nat} {e : Expr} {u : Phrase} (before after : List Parameter)
    (hfinite : e.HasFiniteReals) (h : s.phrase? .parameters n e = some u)
    (hlength : before.length = n) :
    ∃ t, s.reading e = some t ∧
      u.fill? (before ++ numbered n (e.bound .parameters) ++ after) = some t := by
  induction e generalizing n u before after with
  | column field =>
    obtain ⟨c, hc, rfl⟩ := Option.map_eq_some_iff.mp h
    exact ⟨.column c, h, rfl⟩
  | literal v =>
    refine fill?_phraseIn? hfinite h fun p hp => ?_
    rw [Expr.bound] at hp ⊢
    split_ifs at hp ⊢
    · simp only [numbered, List.mapIdx_cons, List.mapIdx_nil, List.mem_singleton] at hp ⊢
      simp [← hlength, hp]
    · simp [numbered] at hp
  | binary op left right ihl ihr =>
    simp only [phrase?, Option.bind_eq_bind, Option.bind_eq_some_iff] at h
    obtain ⟨c, hc, l, hl, r, hr, hu⟩ := h
    cases hu
    -- the constants of one operand stand before or after those of the other
    obtain ⟨lt, hlt, hlfill⟩ := ihl before
      (numbered (n + (left.bound .parameters).length) (right.bound .parameters) ++ after)
      hfinite.1 hl hlength
    obtain ⟨rt, hrt, hrfill⟩ := ihr (before ++ numbered n (left.bound .parameters))
      after hfinite.2 hr (by rw [List.length_append, length_numbered, hlength])
    refine ⟨.between c lt rt, ?_, ?_⟩
    · rw [reading] at hlt hrt
      simp only [reading, phrase?, hc, hlt, phrase?_inline, hrt]
      rfl
    · rw [Expr.bound, numbered_append]
      simp only [List.append_assoc] at hlfill hrfill ⊢
      rw [Phrase.fill?, hlfill, hrfill]
      rfl
  | unary op e ih =>
    obtain ⟨u, hu, rfl⟩ := Option.map_eq_some_iff.mp h
    obtain ⟨t, ht, hfill⟩ := ih before after hfinite hu hlength
    rw [reading] at ht
    refine ⟨.before op t, ?_, ?_⟩
    · rw [reading, phrase?, ht]
      rfl
    · rw [Expr.bound, Phrase.fill?, hfill]
      rfl
  | aggregate func field =>
    cases field with
    | some field =>
      obtain ⟨c, hc, rfl⟩ := Option.map_eq_some_iff.mp h
      exact ⟨_, h, rfl⟩
    | none =>
      have hcount := h
      rw [phrase?] at h
      split_ifs at h
      cases h
      exact ⟨_, hcount, rfl⟩

end Schema

/-! ### Both modes -/

/-- Whether a text reads as a condition with a meaning, and with no other. -/
def Sql.IsReading (text : String) (t : Phrase) : Prop :=
  ∃ ts, tokens? text.toList = some ts ∧ Derives .sentence ts t ∧
    ∀ u, Derives .sentence ts u → u = t

/-- The spelling of a phrase that can be written has the phrase as its only reading. -/
theorem Sql.Phrase.Writable.isReading {t : Phrase} (h : t.Writable) :
    IsReading (String.ofList (spell t.layout)) t :=
  ⟨_, h.reads.tokens?, h.derives_sentence, fun _ hu => hu.unique h.derives_sentence⟩

namespace Schema

variable {s : Schema}

theorem failure?_eq_some_iff {α : Type} {m : Emitter α} {params : List Parameter} {e : Error} :
    m.failure? params = some e ↔ (m.run.run params).1 = .error e := by
  rw [Emitter.failure?]
  rcases (m.run.run params).1 with _ | _ <;> simp

/-- **The bind mode does not change the meaning of a condition.** In both modes an expression whose
reals are finite fails with the same error, or its two texts read as conditions that are the same
once every placeholder is replaced by the literal of the parameter it numbers. -/
theorem compile_modes_agree {d : Declaration} {s : Schema} {e : Expr} (hbuild : d.build = .ok s)
    (hfinite : e.HasFiniteReals) (params : List Parameter) :
    (∃ error, s.compile e = .error error ∧ (s.compileBound e params).1 = .error error) ∨
      ∃ text bound params' t u, s.compile e = .ok text ∧
        s.compileBound e params = (.ok bound, params') ∧ IsReading text t ∧ IsReading bound u ∧
        u.fill? params' = some t := by
  have hs := d.build_wellFormed hbuild
  obtain ⟨e?, he⟩ := s.emit_failsWith hfinite
  cases e? with
  | some error =>
    exact .inl ⟨error, failure?_eq_some_iff.mp (he .inline []),
      failure?_eq_some_iff.mp (he .parameters params)⟩
  | none =>
    obtain ⟨bound, params', hbound⟩ : ∃ bound params', s.compileBound e params =
        (.ok bound, params') := by
      have hnone := he .parameters params
      rw [Emitter.failure?] at hnone
      rcases hrun : (s.emit .parameters e).run.run params with ⟨error | bound, params'⟩
      · rw [hrun] at hnone
        cases hnone
      · exact ⟨bound, params', hrun⟩
    obtain ⟨u, hu, rfl, rfl⟩ := (emit_eq_ok_iff hs).mp hbound
    obtain ⟨t, ht, hfill⟩ := fill?_phrase? params [] hfinite hu rfl
    rw [List.append_nil] at hfill
    exact .inr ⟨_, _, _, t, u, (compile_eq_ok_iff hs).mpr ⟨t, ht, rfl⟩, hbound,
      (writable_phrase? hs ht).isReading, (writable_phrase? hs hu).isReading, hfill⟩

/-- A minus over a negative constant takes parentheses as a literal, but not once it is bound. -/
theorem compile_modes_agree_notes :
    ∃ params t u, IsReading "(-(-5) > id) AND (title = 'it''s')" t ∧
      IsReading "(-:p2 > id) AND (title = :p3)" u ∧ u.fill? params = some t := by
  let e : Expr := .binary .and
    (.binary .gt (.unary .negate (.literal (.integer ⟨-5, by decide, by decide⟩)))
      (.column "key"))
    (.binary .eq (.column "title") (.literal (.text "it's")))
  have htext : notes.compile e = .ok "(-(-5) > id) AND (title = 'it''s')" := by decide +kernel
  have hbound : (notes.compileBound e [⟨"@body", .blob []⟩]).1 =
      .ok "(-:p2 > id) AND (title = :p3)" := by decide +kernel
  rcases compile_modes_agree build_notes (show e.HasFiniteReals by simp [e, Expr.HasFiniteReals])
    [⟨"@body", .blob []⟩] with ⟨error, h, -⟩ | ⟨text, bound, params, t, u, h, h', ht, hu, hfill⟩
  · rw [htext] at h
    cases h
  · rw [htext] at h
    rw [h'] at hbound
    cases h
    cases hbound
    exact ⟨params, t, u, ht, hu, hfill⟩

end Schema

end SqlRecord
