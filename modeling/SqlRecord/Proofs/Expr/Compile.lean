import SqlRecord.Proofs.Expr.Reading

/-!
# Texts of expressions

The text that `Schema.emit` writes is that of what the expression means (`Schema.success_emit`), so
it is read back without the precedence of operators. Main statement: `Schema.compile_reads_back`.
-/

namespace SqlRecord

open Sql

/-! ### Emitting -/

namespace Emitter

variable {α β : Type}

/-- The result of an emitter and the parameter list after it, if it does not fail. -/
def success (m : Emitter α) (params : List Parameter) : Option (α × List Parameter) :=
  match m.run.run params with
  | (.ok a, params) => some (a, params)
  | (.error _, _) => none

theorem success_pure (a : α) (params : List Parameter) :
    success (pure a : Emitter α) params = some (a, params) := rfl

/-- An emitter goes on with the parameters that the one before it leaves. -/
theorem run_bind (m : Emitter α) (f : α → Emitter β) (params : List Parameter) :
    (m >>= f).run.run params = match m.run.run params with
      | (.ok a, params) => (f a).run.run params
      | (.error e, params) => (.error e, params) := by
  change (ExceptT.bindCont f (m.run.run params).1).run (m.run.run params).2 = _
  rcases m.run.run params with ⟨_ | _, params⟩ <;> rfl

/-- A composition of emitters succeeds if both do, the second after the parameters of the first. -/
theorem success_bind (m : Emitter α) (f : α → Emitter β) (params : List Parameter) :
    success (m >>= f) params = (success m params).bind fun (a, params) => success (f a) params := by
  rw [success, success, run_bind]
  rcases m.run.run params with ⟨_ | _, params⟩ <;> rfl

end Emitter

/-- The numbers of further parameters go on from those before. -/
theorem numbered_append (n : Nat) (vs ws : List Value) :
    numbered n (vs ++ ws) = numbered n vs ++ numbered (n + vs.length) ws := by
  rw [numbered, List.mapIdx_append]
  simp [numbered, Nat.add_comm, Nat.add_left_comm]

theorem length_numbered (n : Nat) (vs : List Value) : (numbered n vs).length = vs.length :=
  List.length_mapIdx

theorem success_ofExcept (r : Except CodecError String) (params : List Parameter) :
    Emitter.success (match r with
      | .ok text => return text
      | .error e => throw (.codec e)) params = r.toOption.map fun text => (text, params) := by
  cases r <;> rfl

/-- The text of a constant is that of what it means. -/
theorem success_emitLiteral (mode : BindMode) (v : Value) (params : List Parameter) :
    (emitLiteral mode v).success params = (v.phraseIn? mode params.length).map fun t =>
      (String.ofList (spell t.layout),
        params ++ numbered params.length ((Expr.literal v).bound mode)) := by
  have hnone : numbered params.length [] = [] := rfl
  have hone : ∀ v, numbered params.length [v] = [⟨":p" ++ natText (params.length + 1), v⟩] :=
    fun v => rfl
  have hinline : ∀ v, (Literal.ofValue v).toOption.map (fun text => (text, params)) =
      v.phrase?.map fun t => (String.ofList (spell t.layout), params ++ []) := by
    intro v
    rw [Literal.ofValue_eq, Option.map_map, List.append_nil]
    rfl
  cases mode with
  | inline =>
    rw [Expr.bound_inline, hnone]
    cases v with
    | null => rw [List.append_nil]; rfl
    | blob bytes => rfl
    | integer i => exact (success_ofExcept _ params).trans (hinline (.integer i))
    | real x => exact (success_ofExcept _ params).trans (hinline (.real x))
    | text s => exact (success_ofExcept _ params).trans (hinline (.text s))
  | parameters =>
    have hplaceholder : ∀ p : String,
        String.ofList (spell (Phrase.placeholder p).layout) = p := by
      intro p
      simp [Phrase.layout, Token.spelling]
    cases v with
    | null =>
      rw [Expr.bound_null, hnone, List.append_nil]
      rfl
    | blob bytes => rfl
    | integer i =>
      rw [Expr.bound_literal rfl, hone]
      exact congrArg some (Prod.ext (hplaceholder _).symm rfl)
    | real x =>
      rw [Expr.bound_literal rfl, hone]
      exact congrArg some (Prod.ext (hplaceholder _).symm rfl)
    | text s =>
      rw [Expr.bound_literal rfl, hone]
      exact congrArg some (Prod.ext (hplaceholder _).symm rfl)

theorem parenthesize_ofList (ps : List Piece) :
    parenthesize (String.ofList (spell ps)) = String.ofList (spell (enclose ps)) := by
  rw [← String.toList_inj, spell_enclose]
  simp [parenthesize]

/-- An operand is spelled as its phrase, in parentheses if it needs them. -/
theorem operandText_eq {e : Expr} {t : Phrase} (h : t.isBare = e.needsParentheses)
    (ps : List Piece) :
    operandText e (String.ofList (spell ps)) = String.ofList (spell (t.wrap ps)) := by
  rw [operandText, Phrase.wrap, h]
  split_ifs
  · exact parenthesize_ofList ps
  · rfl

/-- The text of an operator is that of the connective it stands for, which is `IS` beside `NULL`. -/
theorem binaryToken_eq {op : BinaryOp} {token : String} {left right : Expr} {c : Connective}
    (htoken : op.token? = some token)
    (hc : connective? op (left.isNull || right.isNull) = some c) :
    binaryToken op token left right = String.ofList (spell c.layout) := by
  have hplain : ∀ h, String.ofList (spell (Connective.operator op h).layout) = token := by
    intro h
    have hget : op.token?.get h = token := by simp [htoken]
    rw [Connective.layout, Connective.tokens, hget]
    split_ifs <;> simp [Token.spelling]
  rw [connective?] at hc
  rw [binaryToken.eq_def]
  split_ifs at hc with heq hne hsome
  · cases hc
    rw [if_pos heq.1, heq.2]
    rfl
  · cases hc
    rw [if_pos hne.1, hne.2]
    rfl
  · cases hc
    rw [hplain hsome]
    split_ifs with hnull
    · split
      · exact absurd ⟨hnull, rfl⟩ heq
      · exact absurd ⟨hnull, rfl⟩ hne
      · rfl
    · rfl

/-- The text of two operands around an operator is the layout of the connective between theirs. -/
theorem binaryText_eq {op : BinaryOp} {c : Connective} {null : Bool}
    (hc : connective? op null = some c) (ps qs : List Piece) :
    binaryText op (String.ofList (spell c.layout)) (String.ofList (spell ps))
      (String.ofList (spell qs)) = String.ofList (spell (Phrase.betweenLayout c ps qs)) := by
  have hall : String.ofList (spell ps) ++ " " ++ String.ofList (spell c.layout) ++ " " ++
      String.ofList (spell qs) =
        String.ofList (spell (ps ++ .gap :: (c.layout ++ .gap :: qs))) := by
    rw [← String.toList_inj]
    simp
  rw [binaryText, Phrase.betweenLayout, Schema.isBare_connective? hc, hall]
  split_ifs
  · rfl
  · exact parenthesize_ofList _

/-- The text of an operator before its operand is the layout of both. -/
theorem unaryText_eq (op : UnaryOp) {ps : List Piece} (h : Spaced ps) :
    unaryText op (String.ofList (spell ps)) =
      String.ofList (spell (Phrase.beforeLayout op ps)) := by
  rw [← String.toList_inj]
  simp only [unaryText, String.toList_ofList, h.head?_spell_eq_minus_iff]
  cases op with
  | not => simp [Phrase.beforeLayout, UnaryOp.token]
  | bitNot => simp [Phrase.beforeLayout, UnaryOp.token]
  | negate =>
    by_cases hhead : ps.head? = some (.symbol "-") <;>
      simp [Phrase.beforeLayout, hhead, UnaryOp.token]

namespace Schema

variable {s : Schema}

/-- A field is written as the column it maps to, or is not written. -/
theorem success_emitColumn (s : Schema) (field : String) (params : List Parameter) :
    (s.emitColumn field).success params = (s.columnName? field).map fun c => (c, params) := by
  rw [emitColumn, columnName?, indexOf]
  cases s.indexOf? field <;> rfl

/-- **The text of an expression is that of what it means**, and the constants that it binds are
appended to the parameters. -/
theorem success_emit (hs : s.WellFormed) (mode : BindMode) (e : Expr) (params : List Parameter) :
    (s.emit mode e).success params = (s.phrase? mode params.length e).map fun t =>
      (String.ofList (spell t.layout), params ++ numbered params.length (e.bound mode)) := by
  induction e generalizing params with
  | column field =>
    rw [emit, success_emitColumn, phrase?, Option.map_map]
    congr 1
    funext c
    simp [Phrase.layout, Expr.bound, numbered]
  | literal v => exact success_emitLiteral mode v params
  | binary op left right ihl ihr =>
    rw [emit, phrase?]
    cases htoken : op.token? with
    | none =>
      -- an operator without a spelling fails whatever its operands are
      have hc : connective? op (left.isNull || right.isNull) = none := by
        cases op <;> cases htoken <;> simp [connective?, BinaryOp.token?]
      rw [hc]
      rfl
    | some token =>
      obtain ⟨c, hc⟩ : ∃ c, connective? op (left.isNull || right.isNull) = some c := by
        rw [connective?]
        split_ifs with heq hne hsome
        · exact ⟨_, rfl⟩
        · exact ⟨_, rfl⟩
        · exact ⟨_, rfl⟩
        · exact absurd (by rw [htoken]; rfl) hsome
      simp only [Emitter.success_bind, ihl, hc]
      cases hl : s.phrase? mode params.length left with
      | none => rfl
      | some l =>
        -- the right operand is written after the parameters of the left one
        simp only [Option.map_some, Option.bind_some, ihr, List.length_append, length_numbered]
        cases hr : s.phrase? mode (params.length + (left.bound mode).length) right with
        | none => rfl
        | some r =>
          simp only [Option.map_some, Option.bind_some, Emitter.success_pure, Option.bind_eq_bind,
            Option.pure_def]
          rw [binaryToken_eq htoken hc, operandText_eq (isBare_phrase? hl),
            operandText_eq (isBare_phrase? hr), binaryText_eq hc, Expr.bound, numbered_append,
            List.append_assoc]
          rfl
  | unary op e ih =>
    rw [emit, phrase?, Emitter.success_bind, ih]
    cases ht : s.phrase? mode params.length e with
    | none => rfl
    | some t =>
      -- a minus in front shows in the text of a spaced operand, where `unaryText` looks for it
      have hspaced := Phrase.spaced_wrap (t := t) (writable_phrase? hs ht).spaced
      simp only [Option.map_some, Option.bind_some, Emitter.success_pure]
      rw [operandText_eq (isBare_phrase? ht), unaryText_eq op hspaced]
      rfl
  | aggregate func field =>
    rw [emit]
    cases field with
    | some field =>
      rw [emitAggregate, phrase?, Emitter.success_bind, success_emitColumn]
      cases s.columnName? field with
      | none => rfl
      | some c =>
        simp only [Option.map_some, Option.bind_some, Emitter.success_pure]
        have htext : func.name ++ parenthesize c =
            String.ofList (spell (Phrase.call func (some c)).layout) := by
          rw [← String.toList_inj]
          simp [parenthesize, Phrase.layout, Phrase.argument, Token.spelling]
        rw [htext]
        simp [Expr.bound, numbered]
    | none =>
      rw [emitAggregate, phrase?]
      split_ifs with hfunc
      · rw [hfunc]
        simp [Emitter.success_pure, Expr.bound, numbered, Phrase.layout, Phrase.argument,
          Token.spelling, Aggregate.name]
      · rfl

/-- The result of an emitter that does not fail is what its run gives. -/
theorem success_eq_some_iff {α : Type} {m : Emitter α} {params params' : List Parameter} {a : α} :
    m.success params = some (a, params') ↔ m.run.run params = (.ok a, params') := by
  rw [Emitter.success]
  rcases m.run.run params with ⟨_ | _, _⟩
  · exact ⟨nofun, nofun⟩
  · exact ⟨fun h => by cases h; rfl, fun h => by cases h; rfl⟩

/-- An expression is emitted exactly as the spelling of its phrase, with the constants it binds
appended. -/
theorem emit_eq_ok_iff (hs : s.WellFormed) {mode : BindMode} {e : Expr}
    {params params' : List Parameter} {text : String} :
    (s.emit mode e).run.run params = (.ok text, params') ↔
      ∃ t, s.phrase? mode params.length e = some t ∧ text = String.ofList (spell t.layout) ∧
        params' = params ++ numbered params.length (e.bound mode) := by
  rw [← success_eq_some_iff, success_emit hs, Option.map_eq_some_iff]
  simp only [Prod.mk.injEq, eq_comm]

/-- Compiling succeeds exactly if the expression means something. -/
theorem compile_eq_ok_iff (hs : s.WellFormed) {e : Expr} {text : String} :
    s.compile e = .ok text ↔
      ∃ t, s.reading e = some t ∧ text = String.ofList (spell t.layout) := by
  have hemit : s.compile e = .ok text ↔
      ∃ params, (s.emit .inline e).run.run [] = (.ok text, params) := by
    rw [compile]
    rcases (s.emit .inline e).run.run [] with ⟨r, params⟩
    exact ⟨fun h => ⟨params, congrArg (·, params) h⟩, fun ⟨_, h⟩ => congrArg Prod.fst h⟩
  simp only [hemit, emit_eq_ok_iff hs]
  constructor
  · rintro ⟨_, t, ht, htext, -⟩
    exact ⟨t, ht, htext⟩
  · rintro ⟨t, ht, htext⟩
    exact ⟨_, t, ht, htext, rfl⟩

/-- An expression compiles exactly to the spelling of its phrase, with the constants it binds
appended. -/
theorem compileIn_eq_ok_iff (hs : s.WellFormed) {mode : BindMode} {e : Expr}
    {params params' : List Parameter} {text : String} :
    s.compileIn mode e params = (.ok text, params') ↔
      ∃ t, s.phrase? mode params.length e = some t ∧ text = String.ofList (spell t.layout) ∧
        params' = params ++ numbered params.length (e.bound mode) := by
  cases mode with
  | parameters => exact emit_eq_ok_iff hs
  | inline =>
    have hnumbered : params ++ numbered params.length (e.bound .inline) = params := by
      rw [e.bound_inline]
      exact List.append_nil params
    rw [compileIn, Prod.mk.injEq, compile_eq_ok_iff hs, phrase?_inline, hnumbered,
      eq_comm (a := params)]
    simp only [← and_assoc, exists_and_right]

end Schema

/-! ### Reading back -/

/-- **The text of an expression means the expression.** Its tokens are a sentence of the grammar,
in which no two operators meet, and their one derivation is what the expression means over the
schema. -/
theorem Schema.compile_reads_back {d : Declaration} {s : Schema} {e : Expr} {text : String}
    (hbuild : d.build = .ok s) (hcompile : s.compile e = .ok text) :
    ∃ ts t, tokens? text.toList = some ts ∧ s.reading e = some t ∧ Derives .sentence ts t ∧
      ∀ u, Derives .sentence ts u → u = t := by
  have hs := d.build_wellFormed hbuild
  obtain ⟨t, ht, rfl⟩ := (compile_eq_ok_iff hs).mp hcompile
  have hwritable := writable_phrase? hs ht
  refine ⟨tokensOf t.layout, t, hwritable.reads.tokens?, ht, hwritable.derives_sentence, ?_⟩
  intro u hu
  exact hu.unique hwritable.derives_sentence

/-- A condition on notes with a `NOT` over `IS NOT`, and a minus over a negative constant. -/
theorem Schema.compile_reads_back_notes :
    ∃ ts t, tokens? "(NOT (weight IS NOT NULL)) AND (-(-5) > id)".toList = some ts ∧
      notes.reading (.binary .and
        (.unary .not (.binary .ne (.column "weight") (.literal .null)))
        (.binary .gt (.unary .negate (.literal (.integer ⟨-5, by decide, by decide⟩)))
          (.column "key"))) = some t ∧
      Derives .sentence ts t ∧ ∀ u, Derives .sentence ts u → u = t :=
  compile_reads_back build_notes (by decide +kernel)

end SqlRecord
