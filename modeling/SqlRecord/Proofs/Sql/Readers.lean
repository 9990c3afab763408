import SqlRecord.Proofs.Sql.Grammar
import SqlRecord.Proofs.Sql.Tokens
import SqlRecord.Sql.Parser

/-!
# Readers of columns

A reader that fails takes nothing, so that an alternative begins where it began. Main statements:
`Reader.run_term_column`, by which a word that is no keyword is read as a column, and
`lexemes?_of_tokens?`, by which readers see the tokens of a text without a semicolon.
-/

namespace SqlRecord

namespace Sql

namespace Reader

variable {α β : Type} {p q : Reader α} {f : α → Reader β} {a : α} {l : Lexeme}
variable {ls ls' : List Lexeme}

/-! ### Steps of readers -/

theorem run_one_cons (f : Token → Option α) (l : Lexeme) (ls : List Lexeme) :
    (one f).run (l :: ls) = (f l.token).map fun a => (a, ls) := by
  cases h : f l.token <;>
    simp [one, h, StateT.run, bind, StateT.bind, get, getThe, MonadStateOf.get, StateT.get, pure,
      failure, StateT.failure, set, StateT.set, StateT.pure]

/-- A composition fails if its first reader does. -/
theorem run_bind_of_eq_none (h : p.run ls = none) : (p >>= f).run ls = none := by
  rw [StateT.run_bind, h]
  rfl

/-- A composition goes on after its first reader where that stopped. -/
theorem run_bind_of_eq_some (h : p.run ls = some (a, ls')) : (p >>= f).run ls = (f a).run ls' := by
  rw [StateT.run_bind, h]
  rfl

theorem run_orElse_of_eq_none (h : p.run ls = none) : (p <|> q).run ls = q.run ls := by
  change (p.run ls <|> q.run ls) = q.run ls
  rw [h]
  rfl

theorem run_orElse_of_eq_some (h : p.run ls = some (a, ls')) :
    (p <|> q).run ls = some (a, ls') := by
  change (p.run ls <|> q.run ls) = some (a, ls')
  rw [h]
  rfl

/-- A keyword is read from a word that is the same up to case. -/
theorem run_keyword_word {w v : String} (hl : l.token = .word v) :
    (keyword w).run (l :: ls) = if sameName v w then some ((), ls) else none := by
  rw [keyword, run_one_cons, hl]
  dsimp only
  split_ifs <;> rfl

theorem run_keyword_self {w : String} (hl : l.token = .word w) :
    (keyword w).run (l :: ls) = some ((), ls) := by
  rw [run_keyword_word hl, if_pos (foldName_eq_iff.mp rfl)]

theorem run_keyword_symbol {w s : String} (hl : l.token = .symbol s) :
    (keyword w).run (l :: ls) = none := by
  rw [keyword, run_one_cons, hl]
  rfl

theorem run_symbol_self {s : String} (hl : l.token = .symbol s) :
    (symbol s).run (l :: ls) = some ((), ls) := by
  rw [symbol, run_one_cons, hl]
  dsimp only
  rw [if_pos rfl]
  rfl

theorem run_symbol_word {s v : String} (hl : l.token = .word v) :
    (symbol s).run (l :: ls) = none := by
  rw [symbol, run_one_cons, hl]
  rfl

theorem run_succeeds {p : Reader Unit} (h : p.run ls = some ((), ls')) :
    (succeeds p).run ls = some (true, ls') := by
  rw [succeeds, run_orElse_of_eq_some]
  exact run_bind_of_eq_some h

/-! ### Columns -/

variable {c : String}

/-- A word that is no keyword is not read as one. -/
theorem run_keyword_column (hl : l.token = .word c) (hc : Identifier.isKeyword c = false)
    {w : String} (hw : Identifier.isKeyword w = true) : (keyword w).run (l :: ls) = none := by
  rw [run_keyword_word hl, if_neg]
  intro hsame
  rw [isKeyword_of_sameName hsame, hw] at hc
  cases hc

theorem run_constant_column (hl : l.token = .word c) (hc : Identifier.isKeyword c = false) :
    constant.run (l :: ls) = none := by
  have hplain : plainConstant.run (l :: ls) = none := by
    rw [plainConstant, run_one_cons, hl]
    rfl
  have hsigned : signedNumber.run (l :: ls) = none := by
    rw [signedNumber]
    refine run_bind_of_eq_none ?_
    rw [run_orElse_of_eq_none (run_bind_of_eq_none (run_symbol_word hl)),
      run_bind_of_eq_none (run_symbol_word hl)]
  rw [constant, run_orElse_of_eq_none hplain, run_orElse_of_eq_none hsigned,
    run_bind_of_eq_none (run_keyword_column hl hc (by decide +kernel))]

/-- The name of a column is read as an operand, with any fuel. -/
theorem run_operandFuel_column (hl : l.token = .word c) (hc : Identifier.isKeyword c = false)
    (fuel : Nat) : (operandFuel (fuel + 1)).run (l :: ls) = some (.column c, ls) := by
  have hcast : (keywords ["CAST"]).run (l :: ls) = none :=
    run_bind_of_eq_none (run_keyword_column hl hc (by decide +kernel))
  have hname : name.run (l :: ls) = some (c, ls) := by
    rw [name, run_one_cons, hl]
    simp [hc]
  rw [operandFuel, run_orElse_of_eq_none, run_orElse_of_eq_none,
    run_orElse_of_eq_none (run_bind_of_eq_none hcast), run_orElse_of_eq_some]
  · rw [StateT.run_map, hname]
    rfl
  · rw [StateT.run_map, run_one_cons, hl]
    rfl
  · rw [StateT.run_map, run_constant_column hl hc]
    rfl

/-- A column with no operator behind it is read as it stands. -/
theorem run_term_column (hl : l.token = .word c) (hc : Identifier.isKeyword c = false)
    (hstop : Operator.read.run ls = none) : term.run (l :: ls) = some (.column c, ls) := by
  have hnot : (keyword "NOT").run (l :: ls) = none := run_keyword_column hl hc (by decide +kernel)
  have hextend (fuel : Nat) :
      (extendFuel (fuel + 1) 0 (.column c)).run ls = some (.column c, ls) := by
    have hnone : (optional? do
        let op ← Operator.read
        if op.strength < 0 then failure else return op).run ls = some (none, ls) := by
      rw [optional?, run_orElse_of_eq_none]
      · rfl
      · rw [StateT.run_map, run_bind_of_eq_none hstop]
        rfl
    rw [extendFuel, run_bind_of_eq_some hnone]
    rfl
  have hterm (fuel : Nat) : (termFuel (fuel + 2) 0).run (l :: ls) = some (.column c, ls) := by
    rw [termFuel]
    refine (run_bind_of_eq_some ?_).trans (hextend fuel)
    rw [run_orElse_of_eq_none (run_bind_of_eq_none hnot), run_operandFuel_column hl hc]
  have hfuel : 4 * (l :: ls).length + 4 = 4 * ls.length + 6 + 2 := by
    rw [List.length_cons]
    omega
  have hrun : term.run (l :: ls) = (termFuel (4 * (l :: ls).length + 4) 0).run (l :: ls) := rfl
  rw [hrun, hfuel, hterm]

end Reader

/-! ### Tokens of statements -/

/-- A text that is read whole is one statement, if it has no semicolon. -/
theorem lexemesFuel_of_tokens? {cs : List Char} {ts : List Token} {fuel : Nat}
    (h : tokens? cs = some ts) (hsemicolon : .symbol ";" ∉ ts) (hfuel : cs.length < fuel) :
    ∃ ls, lexemesFuel fuel cs = some (ls, []) ∧ ls.map Lexeme.token = ts := by
  induction fuel generalizing cs ts with
  | zero => cases hfuel
  | succ fuel ih =>
    rw [tokens?_eq] at h
    rw [lexemesFuel]
    have hgap := skipGap_length_le .open cs
    cases hcs : skipGap .open cs with
    | nil =>
      rw [hcs] at h
      cases h
      exact ⟨[], rfl, rfl⟩
    | cons c rest =>
      rw [hcs] at h hgap
      dsimp only at h ⊢
      cases htoken : token? (c :: rest) with
      | none =>
        rw [htoken] at h
        cases h
      | some result =>
        obtain ⟨t, after⟩ := result
        rw [htoken] at h
        dsimp only at h
        split_ifs at h with hafter
        obtain ⟨ts, hts, rfl⟩ := Option.map_eq_some_iff.mp h
        rw [List.mem_cons, not_or] at hsemicolon
        rw [List.length_cons] at hgap
        obtain ⟨ls, hls, htokens⟩ := ih hts hsemicolon.2 (by omega)
        refine ⟨⟨t, c :: rest, after.length⟩ :: ls, ?_, by rw [List.map_cons, htokens]⟩
        split
        next heq => cases heq
        next heq =>
          cases heq
          exact absurd rfl hsemicolon.1
        next heq =>
          cases heq
          rw [hls]
          rfl

/-- A statement without semicolons and NULs is read to its end, as the tokens it has. -/
theorem lexemes?_of_tokens? {cs : List Char} {ts : List Token} (h : tokens? cs = some ts)
    (hsemicolon : .symbol ";" ∉ ts) (hnul : Char.ofNat 0 ∉ cs) :
    ∃ ls, lexemes? cs = some (ls, []) ∧ ls.map Lexeme.token = ts := by
  have hwhole : cs.takeWhile (· != Char.ofNat 0) = cs := by
    rw [List.takeWhile_eq_self_iff]
    exact fun c hc => bne_iff_ne.mpr (ne_of_mem_of_not_mem hc hnul)
  rw [lexemes?, hwhole]
  exact lexemesFuel_of_tokens? h hsemicolon (Nat.lt_succ_self _)

end Sql

end SqlRecord
