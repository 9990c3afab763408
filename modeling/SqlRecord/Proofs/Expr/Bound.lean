import SqlRecord.Proofs.Expr.Constants
import SqlRecord.Proofs.Expr.Offence

/-!
# Parameters of expressions

Binding the constants of an expression appends parameters to those there are, whether or not the
expression has a text: one for each constant among the parts in front of the first that offends,
numbered on from the parameters before it. Main statement: `Schema.compileBound_spec`.
-/

namespace SqlRecord

open Sql

/-- The constant that a part of an expression binds: `NULL` is written out, and a payload cannot
be bound. -/
def Expr.scalar? : Expr → Option Value
  | literal .null | literal (.blob _) => none
  | literal v => some v
  | _ => none

namespace Emitter

variable {α β : Type} {m : Emitter α} {f : α → Emitter β} {values values' : List Value}

/-- Whether an emitter appends a parameter for each of some values, numbered on from the parameters
before them, whether or not it fails. -/
def Adds (m : Emitter α) (values : List Value) : Prop :=
  ∀ params, (m.run.run params).2 = params ++ numbered params.length values

theorem adds_pure (a : α) : Adds (pure a : Emitter α) [] := fun params =>
  (List.append_nil params).symm

theorem adds_throw (e : Error) : Adds (throw e : Emitter α) [] := fun params =>
  (List.append_nil params).symm

/-- After an emitter that succeeds the next one appends to what was appended. -/
theorem Adds.bind (hm : m.Adds values) (hsucceeds : m.FailsWith none)
    (hf : ∀ a, (f a).Adds values') : (m >>= f).Adds (values ++ values') := by
  intro params
  have hm := hm params
  have hnone := hsucceeds params
  rw [failure?] at hnone
  rw [run_bind]
  rcases hrun : m.run.run params with ⟨e | a, params'⟩
  · rw [hrun] at hnone
    cases hnone
  · rw [hrun] at hm
    dsimp only at hm ⊢
    rw [hf a params', hm, numbered_append, List.length_append, length_numbered, List.append_assoc]

/-- After an emitter that fails there is nothing to append. -/
theorem Adds.bind_of_fails {e : Error} (hm : m.Adds values) (hfails : m.FailsWith (some e)) :
    (m >>= f).Adds values := by
  intro params
  have hm := hm params
  have herror := hfails params
  rw [failure?] at herror
  rw [run_bind]
  rcases hrun : m.run.run params with ⟨e | a, params'⟩
  · rw [hrun] at hm
    exact hm
  · rw [hrun] at herror
    cases herror

/-- What is done with a result appends nothing. -/
theorem Adds.bind_pure (hm : m.Adds values) (f : α → β) :
    (m >>= fun a => pure (f a)).Adds values := by
  intro params
  have hm := hm params
  rw [run_bind]
  rcases hrun : m.run.run params with ⟨e | a, params'⟩
  all_goals
    rw [hrun] at hm
    exact hm

end Emitter

/-- A constant is bound by one parameter, unless it is `NULL` or a payload. -/
theorem adds_emitLiteral (v : Value) :
    (emitLiteral .parameters v).Adds (Expr.literal v).scalar?.toList := by
  cases v with
  | null => exact Emitter.adds_pure _
  | blob bytes => exact Emitter.adds_throw _
  | _ => exact fun params => rfl

namespace Schema

/-! ### The parts that are reached -/

variable (s : Schema)

/-- The parts in front of the first that cannot be written with parameters. -/
def reached (nodes : List Expr) : List Expr :=
  nodes.takeWhile fun node => (s.nodeError? .parameters node).isNone

variable {s} {nodes before after : List Expr} {node : Expr} {error : Error}

/-- Nothing is reached if the first part cannot be written. -/
theorem reached_cons_of_some (h : s.nodeError? .parameters node = some error) :
    s.reached (node :: nodes) = [] := by
  rw [reached, List.takeWhile_cons, h]
  rfl

theorem reached_cons_of_none (h : s.nodeError? .parameters node = none) :
    s.reached (node :: nodes) = node :: s.reached nodes := by
  rw [reached, List.takeWhile_cons, h]
  rfl

/-- Parts that can be written are all reached, and then those after them. -/
theorem reached_append_of_none (h : before.findSome? (s.nodeError? .parameters) = none) :
    s.reached (before ++ after) = before ++ s.reached after :=
  List.takeWhile_append_of_pos fun node hnode =>
    Option.isNone_iff_eq_none.mpr (List.findSome?_eq_none_iff.mp h node hnode)

theorem reached_eq_self (h : nodes.findSome? (s.nodeError? .parameters) = none) :
    s.reached nodes = nodes := by
  rw [← List.append_nil nodes, reached_append_of_none h]
  rfl

/-- The first part that offends is where the list ends. -/
theorem reached_of_split (hbefore : ∀ n ∈ before, ∀ error, ¬s.Offends .parameters n error)
    (hoffends : s.Offends .parameters node error) :
    s.reached (before ++ node :: after) = before := by
  rw [reached_append_of_none, reached_cons_of_some (nodeError?_eq_some_iff.mpr hoffends),
    List.append_nil]
  exact List.findSome?_eq_none_iff.mpr fun n hn => nodeError?_eq_none_iff.mpr (hbefore n hn)

/-- Nothing is reached behind a part that offends. -/
theorem reached_append_of_some (h : before.findSome? (s.nodeError? .parameters) = some error) :
    s.reached (before ++ after) = s.reached before := by
  obtain ⟨front, node, back, rfl, hnode, hfront⟩ := List.findSome?_eq_some_iff.mp h
  have hoffends := nodeError?_eq_some_iff.mp hnode
  have hbefore : ∀ n ∈ front, ∀ error, ¬s.Offends .parameters n error := fun n hn =>
    nodeError?_eq_none_iff.mp (hfront n hn)
  rw [List.append_assoc, List.cons_append, reached_of_split hbefore hoffends,
    reached_of_split hbefore hoffends]

/-! ### Writing expressions -/

/-- The name of a column appends no parameter. -/
theorem adds_emitColumn (field : String) : (s.emitColumn field).Adds [] := by
  rw [emitColumn]
  cases s.indexOf field with
  | ok i => exact Emitter.adds_pure _
  | error e => exact Emitter.adds_throw _

theorem adds_emitAggregate (func : Aggregate) (field : Option String) :
    (s.emitAggregate func field).Adds [] := by
  cases field with
  | some field => exact (adds_emitColumn field).bind_pure _
  | none =>
    rw [emitAggregate]
    split_ifs
    · exact Emitter.adds_pure _
    · exact Emitter.adds_throw _

/-- A part without a constant adds nothing, whether or not it is reached. -/
theorem filterMap_reached_singleton (node : Expr) (h : node.scalar? = none) :
    (s.reached [node]).filterMap Expr.scalar? = [] := by
  cases hnode : s.nodeError? .parameters node with
  | none =>
    rw [reached_cons_of_none hnode]
    exact List.filterMap_cons_none h
  | some error => rw [reached_cons_of_some hnode, List.filterMap_nil]

/-- **Writing an expression appends the constants of the parts it gets to.** -/
theorem adds_emit (e : Expr) :
    (s.emit .parameters e).Adds ((s.reached e.nodes).filterMap Expr.scalar?) := by
  induction e with
  | column field =>
    rw [Expr.nodes, filterMap_reached_singleton _ rfl]
    exact adds_emitColumn field
  | literal v =>
    have hvalue : (s.reached [.literal v]).filterMap Expr.scalar? =
        (Expr.literal v).scalar?.toList := by
      cases v <;> rfl
    rw [Expr.nodes, hvalue]
    exact adds_emitLiteral v
  | binary op left right ihl ihr =>
    rw [emit, Expr.nodes]
    cases htoken : op.token? with
    | none =>
      rw [reached_cons_of_some (by rw [nodeError?, htoken]; rfl)]
      exact Emitter.adds_throw _
    | some token =>
      rw [reached_cons_of_none (by rw [nodeError?, htoken]; rfl), List.filterMap_cons_none rfl]
      have hleft := s.failsWith_emit .parameters left
      -- the right operand is not reached where the left one fails
      cases hfind : left.nodes.findSome? (s.nodeError? .parameters) with
      | none =>
        rw [hfind] at hleft
        rw [reached_eq_self hfind] at ihl
        rw [reached_append_of_none hfind, List.filterMap_append]
        exact ihl.bind hleft fun _ => ihr.bind_pure _
      | some error =>
        rw [hfind] at hleft
        rw [reached_append_of_some hfind]
        exact ihl.bind_of_fails hleft
  | unary op operand ih =>
    rw [emit, Expr.nodes, reached_cons_of_none rfl, List.filterMap_cons_none rfl]
    exact ih.bind_pure _
  | aggregate func field =>
    rw [Expr.nodes, filterMap_reached_singleton _ rfl]
    exact adds_emitAggregate func field

/-- **The parameters of an expression.** Whether or not an expression has a text, its constants are
appended to the parameters before them, one for each number and text among the parts in front of
the first that offends, from left to right and as they are; that at the place `n`, counted from
one, has the name `:p` with `n` after it. Where an expression over a schema that is built has a
text, all its parts are reached, and the names that were appended are the placeholders of the text,
in their order and each once. -/
theorem compileBound_spec (s : Schema) (e : Expr) (params : List Parameter) :
    ∃ visited : List Expr,
      (s.compileBound e params).2 =
        params ++ numbered params.length (visited.filterMap Expr.scalar?) ∧
      (∀ n v, (visited.filterMap Expr.scalar?)[n]? = some v →
        (s.compileBound e params).2[params.length + n]? =
          some ⟨":p" ++ natText (params.length + n + 1), v⟩) ∧
      (∀ text, (s.compileBound e params).1 = .ok text → visited = e.nodes) ∧
      (∀ error, (s.compileBound e params).1 = .error error →
        ∃ node after, e.nodes = visited ++ node :: after ∧
          (∀ n ∈ visited, ∀ error, ¬s.Offends .parameters n error) ∧
          s.Offends .parameters node error) ∧
      ∀ d : Declaration, d.build = .ok s → ∀ text, (s.compileBound e params).1 = .ok text →
        ∃ ts, tokens? text.toList = some ts ∧
          placeholdersOf ts =
            (numbered params.length (visited.filterMap Expr.scalar?)).map Parameter.name ∧
          (placeholdersOf ts).Nodup := by
  have hadds := s.adds_emit e params
  refine ⟨s.reached e.nodes, hadds, ?_, ?_, ?_, ?_⟩
  · intro n v hv
    rw [compileBound, hadds, List.getElem?_append_right (Nat.le_add_right _ _),
      Nat.add_sub_cancel_left, numbered, List.getElem?_mapIdx, hv]
    rfl
  · intro text htext
    refine reached_eq_self ?_
    rw [← s.failsWith_emit .parameters e params, Emitter.failure?]
    rw [compileBound] at htext
    rw [htext]
  · intro error herror
    obtain ⟨before, node, after, hnodes, hbefore, hoffends⟩ := emit_eq_error_iff.mp herror
    rw [hnodes, reached_of_split hbefore hoffends]
    exact ⟨node, after, rfl, hbefore, hoffends⟩
  · intro d hbuild text htext
    have hcompile : s.compileIn .parameters e params = (.ok text, (s.compileBound e params).2) :=
      Prod.ext htext rfl
    obtain ⟨hreadable, values, hvalues, hplaceholders, -⟩ :=
      compileIn_spec (d.build_wellFormed hbuild) hcompile
    rw [← List.append_cancel_left (hvalues.symm.trans hadds)]
    refine ⟨_, hreadable.tokens?, hplaceholders, ?_⟩
    rw [hplaceholders]
    exact nodup_numbered _ _

/-- A constant in front of an unmapped field stays among the parameters, and the next expression
numbers its own on from there. -/
theorem compileBound_spec_notes :
    let five : Expr := .literal (.integer ⟨5, by decide, by decide⟩)
    let params := (notes.compileBound (.binary .gt five (.binary .add (.column "x") five)) []).2
    params = [⟨":p1", .integer ⟨5, by decide, by decide⟩⟩] ∧
      ∃ ts, tokens? "(id = :p2) AND (title IS NULL)".toList = some ts ∧
        placeholdersOf ts = [":p2"] := by
  intro five params
  have hparams : params = [⟨":p1", .integer ⟨5, by decide, by decide⟩⟩] := by decide +kernel
  refine ⟨hparams, ?_⟩
  let e : Expr := .binary .and (.binary .eq (.column "key") five)
    (.binary .eq (.column "title") (.literal .null))
  have htext : (notes.compileBound e params).1 = .ok "(id = :p2) AND (title IS NULL)" := by
    decide +kernel
  obtain ⟨visited, -, -, hall, -, hplaceholders⟩ := compileBound_spec notes e params
  obtain ⟨ts, hts, hnames, -⟩ := hplaceholders _ build_notes _ htext
  refine ⟨ts, hts, hnames.trans ?_⟩
  rw [hall _ htext, hparams]
  decide +kernel

end Schema

end SqlRecord
