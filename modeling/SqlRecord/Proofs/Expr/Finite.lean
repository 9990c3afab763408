import SqlRecord.Proofs.Expr.Compile

/-!
# Reals that are not finite in conditions

A real that is not finite has no literal, so with inline values a condition that has one among its
constants is refused; with parameters it is bound like any other constant. A condition is compared
with the one that has zeros in the place of such reals (`Expr.finitize`): apart from a refusal of
such a real, both fail alike, or have the same text with parameters that differ in these reals alone
(`Schema.compileIn_finitize`). The reals that are not finite among the parameters are those among
the constants (`Schema.nonFinites_compileIn`).
-/

namespace SqlRecord

/-! ### Values -/

namespace Value

/-- The real that a value is, if it is one that is not finite. -/
def nonFinite? : Value → Option Binary64
  | real x => if x.isFinite then none else some x
  | _ => none

/-- The value, with zero for a real that is not finite. -/
def finitize : Value → Value
  | real x => real (if x.isFinite then x else .zero)
  | v => v

/-- A value that is finite is left alone. -/
theorem finitize_of_nonFinite? {v : Value} (h : v.nonFinite? = none) : v.finitize = v := by
  cases v with
  | real x =>
    rw [nonFinite?] at h
    split_ifs at h with hx
    rw [finitize, if_pos hx]
  | _ => rfl

@[simp] theorem storageClass_finitize (v : Value) :
    v.finitize.storageClass = v.storageClass := by cases v <;> rfl

end Value

namespace Parameter

/-- The parameter, with zero for a real that is not finite. -/
def finitize (p : Parameter) : Parameter := { p with value := p.value.finitize }

end Parameter

/-- The reals among parameters that are not finite. -/
def nonFinites (params : List Parameter) : List Binary64 := params.filterMap (·.value.nonFinite?)

theorem nonFinites_append (params params' : List Parameter) :
    nonFinites (params ++ params') = nonFinites params ++ nonFinites params' :=
  List.filterMap_append

theorem nonFinites_singleton (p : Parameter) : nonFinites [p] = p.value.nonFinite?.toList := by
  cases h : p.value.nonFinite? <;> simp [nonFinites, h]

/-- Parameters that are all finite are kept. -/
theorem map_finitize_of_nonFinites {params : List Parameter} (h : nonFinites params = []) :
    params.map .finitize = params := by
  have hid : ∀ p ∈ params, p.finitize = id p := fun p hp => by
    rw [Parameter.finitize, Value.finitize_of_nonFinite? (List.filterMap_eq_nil_iff.mp h p hp), id]
  rw [List.map_congr_left hid, List.map_id]

/-! ### Expressions -/

namespace Expr

/-- The reals among the constants that are not finite, from left to right. -/
def nonFinites : Expr → List Binary64
  | literal v => v.nonFinite?.toList
  | binary _ left right => left.nonFinites ++ right.nonFinites
  | unary _ operand => operand.nonFinites
  | column _ | aggregate _ _ => []

/-- The expression with zeros for the reals that are not finite. -/
def finitize : Expr → Expr
  | literal v => literal v.finitize
  | binary op left right => binary op left.finitize right.finitize
  | unary op operand => unary op operand.finitize
  | e => e

@[simp] theorem isNull_finitize (e : Expr) : e.finitize.isNull = e.isNull := by
  cases e with
  | literal v => cases v <;> rfl
  | _ => rfl

@[simp] theorem needsParentheses_finitize (e : Expr) :
    e.finitize.needsParentheses = e.needsParentheses := by cases e <;> rfl

end Expr

/-- Whether an error refuses a real that is not finite. -/
def Error.IsNonFinite (e : Error) : Prop :=
  ∃ x : Binary64, x.isFinite = false ∧ e = .codec (.unsupported (.nonFinite x))

/-! ### Emitting -/

namespace Emitter

variable {α β : Type}

/-- Whether the second emitter does with finite parameters what the first one does, unless the first
one refuses a real that is not finite. -/
def Finitizes (m m' : Emitter α) : Prop :=
  ∀ params, (∃ e, (m.run.run params).1 = .error e ∧ e.IsNonFinite) ∨
    m'.run.run (params.map .finitize) =
      ((m.run.run params).1, (m.run.run params).2.map .finitize)

theorem Finitizes.pure (a : α) : Finitizes (Pure.pure a : Emitter α) (Pure.pure a) :=
  fun _ => .inr rfl

theorem Finitizes.throw (e : Error) : Finitizes (throw e : Emitter α) (MonadExcept.throw e) :=
  fun _ => .inr rfl

/-- A composition does with finite parameters what it does, if both of its steps do. -/
theorem Finitizes.bind {m m' : Emitter α} {f f' : α → Emitter β} (hm : m.Finitizes m')
    (hf : ∀ a, (f a).Finitizes (f' a)) : (m >>= f).Finitizes (m' >>= f') := by
  intro params
  have hparams := hm params
  rw [run_bind, run_bind]
  rcases hrun : m.run.run params with ⟨e | a, params₁⟩
  · rw [hrun] at hparams
    rcases hparams with ⟨_, he, hnonFinite⟩ | hrun'
    · cases he
      exact .inl ⟨e, rfl, hnonFinite⟩
    · rw [hrun']
      exact .inr rfl
  · rw [hrun] at hparams
    rcases hparams with ⟨_, he, -⟩ | hrun'
    · cases he
    · rw [hrun']
      exact hf a params₁

/-- Whether an emitter that succeeds adds these reals that are not finite to the parameters, and
with inline values none. -/
def Binds (mode : BindMode) (m : Emitter α) (xs : List Binary64) : Prop :=
  ∀ params a params', m.run.run params = (.ok a, params') →
    nonFinites params' = nonFinites params ++ xs ∧ (mode = .inline → xs = [])

theorem Binds.pure {mode : BindMode} (a : α) : Binds mode (Pure.pure a) [] := by
  intro params b params' h
  cases h
  exact ⟨(List.append_nil _).symm, fun _ => rfl⟩

theorem Binds.throw {mode : BindMode} (e : Error) (xs : List Binary64) :
    Binds mode (throw e : Emitter α) xs := by
  intro params b params' h
  cases h

/-- A composition binds the reals that are not finite of its first step and then of its second. -/
theorem Binds.bind {mode : BindMode} {m : Emitter α} {f : α → Emitter β} {xs ys : List Binary64}
    (hm : m.Binds mode xs) (hf : ∀ a, (f a).Binds mode ys) : (m >>= f).Binds mode (xs ++ ys) := by
  intro params b params' h
  rw [run_bind] at h
  rcases hrun : m.run.run params with ⟨e | a, params₁⟩
  · rw [hrun] at h
    cases h
  · rw [hrun] at h
    obtain ⟨hxs, hxs_nil⟩ := hm _ _ _ hrun
    obtain ⟨hys, hys_nil⟩ := hf a _ _ _ h
    refine ⟨by rw [hys, hxs, List.append_assoc], fun hmode => ?_⟩
    rw [hxs_nil hmode, hys_nil hmode]
    rfl

end Emitter

/-! ### Constants -/

/-- With parameters, a constant that is neither `NULL` nor a payload is bound under the next
number. -/
theorem run_emitLiteral_parameters {v : Value} (hnull : v.storageClass ≠ .null)
    (hblob : v.storageClass ≠ .blob) (params : List Parameter) :
    (emitLiteral .parameters v).run.run params = (.ok (":p" ++ natText (params.length + 1)),
      params ++ [⟨":p" ++ natText (params.length + 1), v⟩]) := by
  cases v with
  | null => exact absurd rfl hnull
  | blob bytes => exact absurd rfl hblob
  | _ => rfl

/-- With inline values, a constant that is no payload is written as a literal. -/
theorem run_emitLiteral_inline {v : Value} (hblob : v.storageClass ≠ .blob)
    (params : List Parameter) :
    (emitLiteral .inline v).run.run params = ((Literal.ofValue v).mapError .codec, params) := by
  cases v with
  | blob bytes => exact absurd rfl hblob
  | real x =>
    rw [emitLiteral]
    · cases Literal.ofValue (.real x) <;> rfl
    all_goals nofun
  | _ => rfl

/-- A real that is not finite has no literal. -/
theorem Literal.ofValue_nonFinite (v : Value) :
    (∃ x : Binary64, x.isFinite = false ∧
      Literal.ofValue v = .error (.unsupported (.nonFinite x))) ∨ v.nonFinite? = none := by
  cases v with
  | real x =>
    cases hx : x.isFinite with
    | true => exact .inr (if_pos hx)
    | false => exact .inl ⟨x, hx, if_neg (by simp [hx])⟩
  | _ => exact .inr rfl

/-- A constant is emitted as if it were finite, or refused because it is not. -/
theorem finitizes_emitLiteral (mode : BindMode) (v : Value) :
    (emitLiteral mode v).Finitizes (emitLiteral mode v.finitize) := by
  intro params
  by_cases hblob : v.storageClass = .blob
  · cases v <;> cases hblob
    exact .inr rfl
  have hblob' : v.finitize.storageClass ≠ .blob := by rwa [Value.storageClass_finitize]
  cases mode with
  | inline =>
    rw [run_emitLiteral_inline hblob, run_emitLiteral_inline hblob']
    rcases Literal.ofValue_nonFinite v with ⟨x, hx, hliteral⟩ | hv
    · rw [hliteral]
      exact .inl ⟨_, rfl, x, hx, rfl⟩
    · rw [Value.finitize_of_nonFinite? hv]
      exact .inr rfl
  | parameters =>
    by_cases hnull : v.storageClass = .null
    · cases v <;> cases hnull
      exact .inr rfl
    have hnull' : v.finitize.storageClass ≠ .null := by rwa [Value.storageClass_finitize]
    rw [run_emitLiteral_parameters hnull hblob, run_emitLiteral_parameters hnull' hblob']
    simp [Parameter.finitize]

/-- A constant binds itself if it is a real that is not finite. -/
theorem binds_emitLiteral (mode : BindMode) (v : Value) :
    (emitLiteral mode v).Binds mode v.nonFinite?.toList := by
  intro params text params' h
  by_cases hblob : v.storageClass = .blob
  · cases v <;> cases hblob
    cases h
  cases mode with
  | inline =>
    rw [run_emitLiteral_inline hblob] at h
    rcases Literal.ofValue_nonFinite v with ⟨x, -, hliteral⟩ | hv
    · rw [hliteral] at h
      cases h
    · obtain ⟨-, rfl⟩ := Prod.mk.inj h
      rw [hv]
      exact ⟨(List.append_nil _).symm, fun _ => rfl⟩
  | parameters =>
    refine ⟨?_, nofun⟩
    by_cases hnull : v.storageClass = .null
    · cases v <;> cases hnull
      cases h
      exact (List.append_nil _).symm
    rw [run_emitLiteral_parameters hnull hblob] at h
    cases h
    rw [nonFinites_append, nonFinites_singleton]

namespace Schema

variable (s : Schema)

theorem finitizes_emitColumn (field : String) :
    (s.emitColumn field).Finitizes (s.emitColumn field) := by
  rw [emitColumn]
  cases s.indexOf field with
  | ok i => exact .pure _
  | error e => exact .throw _

theorem binds_emitColumn (mode : BindMode) (field : String) :
    (s.emitColumn field).Binds mode [] := by
  rw [emitColumn]
  cases s.indexOf field with
  | ok i => exact .pure _
  | error e => exact .throw _ _

theorem finitizes_emitAggregate (func : Aggregate) (field : Option String) :
    (s.emitAggregate func field).Finitizes (s.emitAggregate func field) := by
  cases field with
  | some field => exact (s.finitizes_emitColumn field).bind fun _ => .pure _
  | none =>
    rw [emitAggregate]
    split_ifs
    · exact .pure _
    · exact .throw _

theorem binds_emitAggregate (mode : BindMode) (func : Aggregate) (field : Option String) :
    (s.emitAggregate func field).Binds mode [] := by
  cases field with
  | some field => exact (s.binds_emitColumn mode field).bind fun _ => .pure _
  | none =>
    rw [emitAggregate]
    split_ifs
    · exact .pure _
    · exact .throw _ _

/-- **Writing a condition sees its reals that are not finite only to refuse or to bind them.** -/
theorem finitizes_emit (mode : BindMode) (e : Expr) :
    (s.emit mode e).Finitizes (s.emit mode e.finitize) := by
  induction e with
  | column field => exact s.finitizes_emitColumn field
  | literal v => exact finitizes_emitLiteral mode v
  | binary op left right ihl ihr =>
    rw [Expr.finitize, emit, emit]
    cases op.token? with
    | none => exact .throw _
    | some token =>
      refine ihl.bind fun l => ihr.bind fun r => ?_
      simp only [operandText, binaryToken, Expr.needsParentheses_finitize, Expr.isNull_finitize]
      exact .pure _
  | unary op operand ih =>
    rw [Expr.finitize, emit, emit]
    refine ih.bind fun text => ?_
    simp only [operandText, Expr.needsParentheses_finitize]
    exact .pure _
  | aggregate func field => exact s.finitizes_emitAggregate func field

/-- **A condition that is written binds its reals that are not finite.** -/
theorem binds_emit (mode : BindMode) (e : Expr) : (s.emit mode e).Binds mode e.nonFinites := by
  induction e with
  | column field => exact s.binds_emitColumn mode field
  | literal v => exact binds_emitLiteral mode v
  | binary op left right ihl ihr =>
    rw [emit, Expr.nonFinites]
    cases op.token? with
    | none => exact .throw _ _
    | some token =>
      have hpair := ihl.bind fun l => ihr.bind fun r => Emitter.Binds.pure (binaryText op
        (binaryToken op token left right) (operandText left l) (operandText right r))
      rwa [List.append_nil] at hpair
  | unary op operand ih =>
    have hoperand := ih.bind fun text =>
      Emitter.Binds.pure (unaryText op (operandText operand text))
    rwa [List.append_nil] at hoperand
  | aggregate func field => exact s.binds_emitAggregate mode func field

/-! ### Compiling -/

/-- **Compiling a condition sees its reals that are not finite only to refuse or to bind them.** -/
theorem compileIn_finitize (mode : BindMode) (e : Expr) (params : List Parameter) :
    (∃ err, (s.compileIn mode e params).1 = .error err ∧ err.IsNonFinite) ∨
      s.compileIn mode e.finitize (params.map .finitize) =
        ((s.compileIn mode e params).1, (s.compileIn mode e params).2.map .finitize) := by
  cases mode with
  | parameters => exact s.finitizes_emit .parameters e params
  | inline =>
    -- with inline values the parameters do not take part
    refine (s.finitizes_emit .inline e []).imp_right fun hrun => ?_
    have htext := congrArg Prod.fst hrun
    exact congrArg (fun text => (text, params.map Parameter.finitize)) htext

/-- **A condition that compiles binds its reals that are not finite**; with inline values it has
none. -/
theorem nonFinites_compileIn {mode : BindMode} {e : Expr} {params params' : List Parameter}
    {text : String} (h : s.compileIn mode e params = (.ok text, params')) :
    nonFinites params' = nonFinites params ++ e.nonFinites ∧
      (mode = .inline → e.nonFinites = []) := by
  cases mode with
  | parameters => exact s.binds_emit .parameters e params text params' h
  | inline =>
    obtain ⟨htext, rfl⟩ := Prod.mk.inj h
    have hnil := (s.binds_emit .inline e [] text _ (Prod.ext htext rfl)).2 rfl
    exact ⟨by rw [hnil, List.append_nil], fun _ => hnil⟩

end Schema

end SqlRecord
