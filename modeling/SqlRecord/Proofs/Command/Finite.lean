import SqlRecord.Proofs.Command.Values
import SqlRecord.Proofs.Expr.Finite
import SqlRecord.Proofs.Field.Lossless

/-!
# Reals that are not finite in commands

A record with a real that is not finite in an assigned column builds no command, in either mode. A
condition with such a constant builds none with inline values only: with parameters the constant is
bound. A chain is compared with the one that has zeros for all these reals, so that a chain with
another fault fails by that fault. Main statement: `Table.build_nonFinite`.
-/

namespace SqlRecord

/-! ### Computations that refuse -/

/-- Whether one computation is refused with an error of a kind, or else another one gives the same
up to a function on results. -/
def UnlessRefused {ε α : Type} (P : ε → Prop) (g : α → α) (m m' : Except ε α) : Prop :=
  (∃ e, m = .error e ∧ P e) ∨ m' = m.map g

namespace UnlessRefused

variable {ε δ α β : Type} {P : ε → Prop} {g : α → α} {k : β → β} {m m' : Except ε α}

theorem refl (m : Except ε α) : UnlessRefused P id m m := .inr (by cases m <;> rfl)

theorem ok {a a' : α} (h : a' = g a) : UnlessRefused P g (.ok a) (.ok a') := .inr (congrArg _ h)

/-- Refusals carry over from the first step of a composition and from the second. -/
theorem bind {f f' : α → Except ε β} (hm : UnlessRefused P g m m')
    (hf : ∀ a, m = .ok a → UnlessRefused P k (f a) (f' (g a))) :
    UnlessRefused P k (m >>= f) (m' >>= f') := by
  rcases hm with ⟨e, rfl, he⟩ | rfl
  · exact .inl ⟨e, rfl, he⟩
  · cases m with
    | error e => exact .inr rfl
    | ok a => exact hf a rfl

/-- Wrapping the errors of both sides keeps them side by side. -/
theorem mapError {Q : δ → Prop} {w : ε → δ} (hm : UnlessRefused P g m m')
    (hw : ∀ e, P e → Q (w e)) : UnlessRefused Q g (m.mapError w) (m'.mapError w) := by
  rcases hm with ⟨e, rfl, he⟩ | rfl
  · exact .inl ⟨w e, rfl, hw e he⟩
  · cases m <;> exact .inr rfl

end UnlessRefused

theorem mapError_eq_ok {ε δ α : Type} {w : ε → δ} {m : Except ε α} {a : α}
    (h : m.mapError w = .ok a) : m = .ok a := by
  cases m <;> cases h
  rfl

/-! ### Fields -/

namespace NativeType

/-- Whether a value is a real that is not finite. -/
def IsNonFinite : (t : NativeType) → t.Carrier → Prop
  | float32, x => Floating.isFinite (f := .binary32) x = false
  | float64, x => Floating.isFinite (f := .binary64) x = false
  | _, _ => False

/-- The value, with zero for a real that is not finite. -/
def finitize : (t : NativeType) → t.Carrier → t.Carrier
  | float32, x => if Floating.isFinite (f := .binary32) x then x else float32.default
  | float64, x => if Floating.isFinite (f := .binary64) x then x else float64.default
  | _, v => v

/-- **A real that is not finite is refused**; other values have no zero in their place. -/
theorem toValue_nonFinite {t : NativeType} (v : t.Carrier) :
    (∃ x : Binary64, x.isFinite = false ∧ t.toValue v = .error (.unsupported (.nonFinite x))) ∨
      ¬t.IsNonFinite v ∧ t.finitize v = v := by
  have hreal : ∀ {x : Binary64}, x.isFinite = false →
      ∃ y : Binary64, y.isFinite = false ∧ realValue x = .error (.unsupported (.nonFinite y)) :=
    fun {x} hx => ⟨x, hx, if_neg (by simp [hx])⟩
  cases t with
  | float32 =>
    cases hx : Floating.isFinite (f := .binary32) v with
    | false => exact .inl (hreal ((Floating.isFinite_convert v).trans hx))
    | true => exact .inr ⟨by simp [IsNonFinite, hx], if_pos hx⟩
  | float64 =>
    cases hx : Floating.isFinite (f := .binary64) v with
    | false => exact .inl (hreal hx)
    | true => exact .inr ⟨by simp [IsNonFinite, hx], if_pos hx⟩
  | _ => exact .inr ⟨id, rfl⟩

end NativeType

namespace FieldType

/-- Whether a value is a real that is not finite. -/
def IsNonFinite : (t : FieldType) → t.Carrier → Prop
  | plain t, v => t.IsNonFinite v
  | optional _, none => False
  | optional t, some v => t.IsNonFinite v

/-- The value, with zero for a real that is not finite. -/
def finitize : (t : FieldType) → t.Carrier → t.Carrier
  | plain t, v => t.finitize v
  | optional _, none => none
  | optional t, some v => some (t.finitize v)

/-- A value that is not finite is refused for that, and any other is left alone by `finitize`. -/
theorem toValue_nonFinite {t : FieldType} (v : t.Carrier) :
    (∃ x : Binary64, x.isFinite = false ∧ t.toValue v = .error (.unsupported (.nonFinite x))) ∨
      ¬t.IsNonFinite v ∧ t.finitize v = v := by
  cases t with
  | plain t => exact t.toValue_nonFinite v
  | optional t =>
    cases v with
    | none => exact .inr ⟨id, rfl⟩
    | some v => exact (t.toValue_nonFinite v).imp_right fun h => ⟨h.1, congrArg some h.2⟩

end FieldType

/-- What a field is stored as is no real that is not finite. -/
theorem SqlType.Suits.nonFinite? {t : SqlType} {v : Value} (h : t.Suits v) :
    v.nonFinite? = none := by
  cases h with
  | real hfinite => exact if_pos hfinite
  | _ => rfl

/-- The record with zeros for reals that are not finite. -/
def Record.finitize {s : Schema} (row : Record s) : Record s :=
  fun i => (s.column i).type.finitize (row i)

/-! ### Clauses and commands -/

namespace Clause

/-- The reals among the constants that are not finite. -/
def nonFinites : Clause → List Binary64
  | filter predicate | having predicate => predicate.nonFinites
  | _ => []

/-- The clause with zeros for the reals that are not finite. -/
def finitize : Clause → Clause
  | filter predicate => filter predicate.finitize
  | having predicate => having predicate.finitize
  | clause => clause

@[simp] theorem kind_finitize (clause : Clause) : clause.finitize.kind = clause.kind := by
  cases clause <;> rfl

end Clause

namespace Command

/-- The command with zeros for the parameters that are not finite. -/
def finitize (c : Command) : Command := { c with params := c.params.map .finitize }

@[simp] theorem stage_finitize (c : Command) : c.finitize.stage = c.stage := rfl

end Command

/-- Whether a fault refuses a real that is not finite. -/
def BuildFault.IsNonFinite : BuildFault → Prop
  | illegal _ => False
  | failed cause => cause.IsNonFinite

namespace Table

variable {t : Table} {row : Record t.schema}

variable (t) in
/-- The columns that a beginning assigns. -/
def assigned : Entry → List t.schema.Index
  | .insert _ fields | .update fields => (t.schema.writable fields).toOption.getD []
  | _ => []

/-! ### Beginning -/

/-- A column is encoded as if its value were finite, or refused because it is not. -/
theorem encodeColumn_finitize (row : Record t.schema) (i : t.schema.Index) :
    UnlessRefused Error.IsNonFinite id (t.encodeColumn row i) (t.encodeColumn row.finitize i) := by
  rcases FieldType.toValue_nonFinite (row i) with ⟨x, hx, hvalue⟩ | ⟨-, hrow⟩
  · exact .inl ⟨.codec (.unsupported (.nonFinite x)), by rw [encodeColumn, Record.read, hvalue],
      x, hx, rfl⟩
  · have hread : row.finitize.read i = row.read i := congrArg _ hrow
    rw [encodeColumn_congr hread]
    exact .refl _

/-- Columns are encoded as if their values were finite, or one is refused because it is not. -/
theorem encodeColumns_finitize (row : Record t.schema) (columns : List t.schema.Index) :
    UnlessRefused Error.IsNonFinite id (t.encodeColumns row columns)
      (t.encodeColumns row.finitize columns) := by
  induction columns with
  | nil => exact .refl _
  | cons i columns ih =>
    exact (encodeColumn_finitize row i).bind fun e _ => ih.bind fun p _ => .refl _

/-- An entry starts the command it would start for the finite row, or is refused. -/
theorem start_finitize (row : Record t.schema) (entry : Entry) :
    UnlessRefused Error.IsNonFinite id (t.start row entry) (t.start row.finitize entry) := by
  cases entry with
  | insert verb fields =>
    refine (UnlessRefused.refl _).bind fun columns _ => ?_
    exact (encodeColumns_finitize row columns).bind fun p _ => .refl _
  | update fields =>
    refine (UnlessRefused.refl _).bind fun columns _ => ?_
    dsimp only [id]
    split_ifs
    · exact .refl _
    · exact (encodeColumns_finitize row columns).bind fun p _ => .refl _
  | select fields => cases fields <;> exact .refl _
  | _ => exact .refl _

/-- A column that is encoded has a finite value, and so has its parameter. -/
theorem encodeColumn_eq_ok {i : t.schema.Index} {e : Encoded} (h : t.encodeColumn row i = .ok e) :
    ¬(t.schema.column i).type.IsNonFinite (row i) ∧ ∀ v ∈ e.param, v.nonFinite? = none := by
  obtain ⟨v, hread, hform⟩ := encodeColumn_form h
  constructor
  · rcases FieldType.toValue_nonFinite (row i) with ⟨x, -, hvalue⟩ | ⟨hrow, -⟩
    · cases hread.symm.trans hvalue
    · exact hrow
  · intro w hw
    obtain ⟨-, rfl, -⟩ := hform.param hw
    exact (FieldType.toValue_suits hread).nonFinite?

/-- The values that are assigned are finite. -/
theorem encodeColumns_nonFinites {columns : List t.schema.Index} {values : List (String × String)}
    {params : List Parameter} (h : t.encodeColumns row columns = .ok (values, params)) :
    (∀ i ∈ columns, ¬(t.schema.column i).type.IsNonFinite (row i)) ∧ nonFinites params = [] := by
  obtain ⟨ps, rfl, hps, -, rfl⟩ := encodeColumns_eq_ok h
  constructor
  · intro i hi
    obtain ⟨p, hp, rfl⟩ := List.mem_map.mp hi
    exact (encodeColumn_eq_ok (hps p hp)).1
  · refine List.filterMap_eq_nil_iff.mpr fun q hq => ?_
    obtain ⟨p, hp, hq⟩ := List.mem_flatMap.mp hq
    obtain ⟨v, hv, rfl⟩ := List.mem_map.mp hq
    exact (encodeColumn_eq_ok (hps p hp)).2 v (Option.mem_toList.mp hv)

/-- A command that is started assigns finite values, and its parameters are finite. -/
theorem Starts.nonFinites {entry : Entry} {c : Command} (h : t.Starts row entry c) :
    (∀ i ∈ t.assigned entry, ¬(t.schema.column i).type.IsNonFinite (row i)) ∧
      nonFinites c.params = [] := by
  cases h with
  | insert hcolumns hvalues =>
    rw [assigned, hcolumns]
    exact encodeColumns_nonFinites hvalues
  | update _ hcolumns hvalues =>
    rw [assigned, hcolumns]
    exact encodeColumns_nonFinites hvalues
  | _ => exact ⟨by simp [assigned], rfl⟩

/-! ### Clauses -/

/-- A condition is compiled as if its constants were finite, or refused because one is not. -/
theorem condition_finitize (e : Expr) (params : List Parameter) :
    UnlessRefused Error.IsNonFinite (fun p => (p.1, p.2.map .finitize)) (t.condition e params)
      (t.condition e.finitize (params.map .finitize)) := by
  rw [UnlessRefused, condition, condition]
  have hcompile := t.schema.compileIn_finitize t.mode e params
  rcases hrun : t.schema.compileIn t.mode e params with ⟨err | text, params'⟩ <;>
    rw [hrun] at hcompile
  · rcases hcompile with ⟨_, ⟨⟩, herr⟩ | hcompile
    · exact .inl ⟨err, rfl, herr⟩
    · rw [hcompile]
      exact .inr rfl
  · rcases hcompile with ⟨_, ⟨⟩, -⟩ | hcompile
    rw [hcompile]
    exact .inr rfl

/-- A clause is added as if its constants were finite, or refused because one is not. -/
theorem add_finitize (c : Command) (clause : Clause) :
    UnlessRefused Error.IsNonFinite Command.finitize (t.add c clause)
      (t.add c.finitize clause.finitize) := by
  cases clause with
  | filter e => exact (condition_finitize e c.params).bind fun p _ => .ok rfl
  | having e => exact (condition_finitize e c.params).bind fun p _ => .ok rfl
  | groupBy fields => exact (UnlessRefused.refl _).bind fun columns _ => .ok rfl
  | orderBy fields direction => exact (UnlessRefused.refl _).bind fun columns _ => .ok rfl
  | _ => exact .ok rfl

/-- A clause extends a command as if both were finite, or is refused because a constant is not. -/
theorem extend_finitize (c : Command) (clause : Clause) :
    UnlessRefused BuildFault.IsNonFinite Command.finitize (t.extend c clause)
      (t.extend c.finitize clause.finitize) := by
  rw [extend, extend, Command.stage_finitize, Clause.kind_finitize]
  cases c.stage.next? clause.kind with
  | none => exact .inr rfl
  | some _ => exact (add_finitize c clause).mapError fun _ he => he

/-- A clause adds its constants that are not finite to the parameters, and has none when they are
written inline. -/
theorem Extends.nonFinites {clause : Clause} {c c' : Command} (h : t.Extends clause c c') :
    nonFinites c'.params = nonFinites c.params ++ clause.nonFinites ∧
      (t.mode = .inline → clause.nonFinites = []) := by
  cases h with
  | filterQuery hcondition | filterCount hcondition | filterUpdate hcondition
  | filterDelete hcondition | having hcondition =>
    exact t.schema.nonFinites_compileIn (condition_eq_ok hcondition)
  | _ => exact ⟨(List.append_nil _).symm, fun _ => rfl⟩

/-! ### Building -/

/-- A run of clauses goes as it would with finite constants, or is refused at one that is not. -/
theorem foldlM_extend_finitize (clauses : List Clause) (c : Command) :
    UnlessRefused BuildFault.IsNonFinite Command.finitize (clauses.foldlM t.extend c)
      ((clauses.map .finitize).foldlM t.extend c.finitize) := by
  induction clauses generalizing c with
  | nil => exact .ok rfl
  | cons clause clauses ih =>
    rw [List.map_cons, List.foldlM_cons, List.foldlM_cons]
    exact (extend_finitize c clause).bind fun c' _ => ih c'

/-- **Building sees reals that are not finite only to refuse or to bind them.** -/
theorem build_finitize (row : Record t.schema) (entry : Entry) (clauses : List Clause) :
    UnlessRefused BuildFault.IsNonFinite Command.finitize (t.build row entry clauses)
      (t.build row.finitize entry (clauses.map .finitize)) := by
  have hstart : UnlessRefused BuildFault.IsNonFinite id ((t.start row entry).mapError .failed)
      ((t.start row.finitize entry).mapError .failed) :=
    (start_finitize row entry).mapError fun _ he => he
  refine hstart.bind fun c hc => ?_
  -- a beginning has finite parameters, so that there is nothing to replace in them
  have hfinite := (start_eq_ok (mapError_eq_ok hc)).nonFinites.2
  have hc : c.finitize = c := by rw [Command.finitize, map_finitize_of_nonFinites hfinite]
  have hrest := foldlM_extend_finitize (t := t) clauses c
  rwa [hc] at hrest

/-- A run of clauses adds the constants that are not finite in the order of the clauses. -/
theorem foldlM_extend_nonFinites {clauses : List Clause} {c c' : Command}
    (h : clauses.foldlM t.extend c = .ok c') :
    nonFinites c'.params = nonFinites c.params ++ clauses.flatMap Clause.nonFinites ∧
      (t.mode = .inline → ∀ clause ∈ clauses, clause.nonFinites = []) := by
  induction clauses generalizing c with
  | nil =>
    cases h
    exact ⟨(List.append_nil _).symm, by simp⟩
  | cons clause clauses ih =>
    rw [List.foldlM_cons] at h
    obtain ⟨c₁, hstep, hrun⟩ := bind_eq_ok h
    obtain ⟨hparams, hclause⟩ := (extend_eq_ok hstep).nonFinites
    obtain ⟨hrest, hclauses⟩ := ih hrun
    refine ⟨?_, fun hmode => List.forall_mem_cons.mpr ⟨hclause hmode, hclauses hmode⟩⟩
    rw [hrest, hparams, List.append_assoc, List.flatMap_cons]

/-- **A command that is built has no real that is not finite among its assigned values**, and
among its constants with parameters only, where they are bound. -/
theorem build_nonFinites {entry : Entry} {clauses : List Clause} {c : Command}
    (h : t.build row entry clauses = .ok c) :
    (∀ i ∈ t.assigned entry, ¬(t.schema.column i).type.IsNonFinite (row i)) ∧
      (t.mode = .inline → ∀ clause ∈ clauses, clause.nonFinites = []) ∧
      nonFinites c.params = clauses.flatMap Clause.nonFinites := by
  obtain ⟨c₀, hstart, hrun⟩ := build_eq_ok h
  obtain ⟨hassigned, hnil⟩ := hstart.nonFinites
  obtain ⟨hparams, hclauses⟩ := foldlM_extend_nonFinites hrun
  exact ⟨hassigned, hclauses, by rw [hparams, hnil, List.nil_append]⟩

/-- **A real that is not finite is refused in assigned values, and in constants that are written
inline.** The chain fails by its refusal, or by a fault that is there without it. The parameters of
a command that is built have no such reals but those of its conditions, which are bound as they
are. -/
theorem build_nonFinite (t : Table) (row : Record t.schema) (entry : Entry)
    (clauses : List Clause) :
    ((∃ i ∈ t.assigned entry, (t.schema.column i).type.IsNonFinite (row i)) ∨
        (t.mode = .inline ∧ ∃ clause ∈ clauses, clause.nonFinites ≠ []) →
      ∃ fault, t.build row entry clauses = .error fault ∧ (fault.IsNonFinite ∨
        t.build row.finitize entry (clauses.map .finitize) = .error fault)) ∧
    ∀ c, t.build row entry clauses = .ok c →
      nonFinites c.params = clauses.flatMap Clause.nonFinites := by
  refine ⟨fun h => ?_, fun c hc => (build_nonFinites hc).2.2⟩
  have hfinitize := build_finitize row entry clauses
  cases hrun : t.build row entry clauses with
  | error fault =>
    refine ⟨fault, rfl, ?_⟩
    rw [hrun] at hfinitize
    exact hfinitize.imp_left fun ⟨_, hfault, hnonFinite⟩ => Except.error.inj hfault ▸ hnonFinite
  | ok c =>
    obtain ⟨hassigned, hinline, -⟩ := build_nonFinites hrun
    rcases h with ⟨i, hi, hvalue⟩ | ⟨hmode, clause, hclause, hne⟩
    · exact absurd hvalue (hassigned i hi)
    · exact absurd (hinline hmode clause hclause) hne

/-! ### Notes and their weights -/

/-- A note whose weight is minus infinity. -/
def weightless : Record .notes :=
  (Record.default .notes).set ⟨2, by decide⟩ (some (.ofMagnitude true Format.binary64.infinity))

/-- The condition that notes are heavier than a real. -/
def heavier (x : Binary64) : Clause :=
  .filter (.binary .gt (.column "weight") (.literal (.real x)))

/-- An update of a weight to an infinity, with parameters, and a condition on a NaN in both modes,
which fails with inline values only. -/
theorem build_nonFinite_notes :
    (∃ fault, (Table.mk .notes .parameters).build weightless (.update (some ["weight"]))
      [heavier .zero] = .error fault ∧ fault.IsNonFinite) ∧
    (∃ fault, (Table.mk .notes .inline).build (.default .notes) (.select none)
      [heavier .canonicalNaN] = .error fault ∧ fault.IsNonFinite) ∧
    ∃ c, (Table.mk .notes .parameters).build (.default .notes) (.select none)
      [heavier .canonicalNaN] = .ok c ∧ nonFinites c.params = [.canonicalNaN] := by
  have hweight : (Schema.notes.column ⟨2, by decide⟩).type.IsNonFinite
      (weightless ⟨2, by decide⟩) := by
    change Floating.isFinite (.ofMagnitude true Format.binary64.infinity : Binary64) = false
    decide +kernel
  refine ⟨?_, ?_, ?_⟩
  · obtain ⟨fault, hrun, hfault | hzero⟩ := (build_nonFinite (.mk .notes .parameters) weightless
      (.update (some ["weight"])) [heavier .zero]).1 (.inl ⟨_, by decide +kernel, hweight⟩)
    · exact ⟨fault, hrun, hfault⟩
    · -- with a weight of zero the chain succeeds
      have hok : ((Table.mk .notes .parameters).build weightless.finitize
        (.update (some ["weight"])) ([heavier .zero].map .finitize)).toOption.isSome = true := by
        decide +kernel
      rw [hzero] at hok
      cases hok
  · obtain ⟨fault, hrun, hfault | hzero⟩ := (build_nonFinite (.mk .notes .inline)
      (.default .notes) (.select none) [heavier .canonicalNaN]).1
      (.inr ⟨rfl, _, List.mem_singleton_self _, by decide +kernel⟩)
    · exact ⟨fault, hrun, hfault⟩
    · -- with a zero for the constant the chain succeeds
      have hok : ((Table.mk .notes .inline).build (Record.finitize (.default .notes)) (.select none)
        ([heavier .canonicalNaN].map .finitize)).toOption.isSome = true := by decide +kernel
      rw [hzero] at hok
      cases hok
  · have hrun : (Table.mk .notes .parameters).build (.default .notes) (.select none)
        [heavier .canonicalNaN] =
      .ok ⟨.query ⟨false, none, "notes", some "weight > :p1", none, none, none⟩,
        [⟨":p1", .real .canonicalNaN⟩]⟩ := by decide +kernel
    exact ⟨_, hrun, ((build_nonFinite _ _ _ _).2 _ hrun).trans (by decide +kernel)⟩

/-- With parameters a NaN among the constants is bound. -/
theorem build_binds_nan :
    ∃ c, (Table.mk .notes .parameters).build (.default .notes) (.select none)
        [heavier .canonicalNaN] = .ok c ∧ c.sql = "SELECT * FROM notes WHERE weight > :p1" ∧
      c.params = [⟨":p1", .real .canonicalNaN⟩] ∧
      (Floating.canonicalNaN : Binary64).isFinite = false := by
  refine ⟨⟨.query ⟨false, none, "notes", some "weight > :p1", none, none, none⟩,
    [⟨":p1", .real .canonicalNaN⟩]⟩, ?_, ?_, rfl, ?_⟩ <;> decide +kernel

end Table

end SqlRecord
