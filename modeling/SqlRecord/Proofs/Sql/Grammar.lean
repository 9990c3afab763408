import SqlRecord.Expr.Basic
import SqlRecord.Proofs.Floating.RoundTrip
import SqlRecord.Proofs.Sql.Folding

/-!
# The grammar of conditions

Conditions are read by the grammar

    E ::= P | NOT P | P op P
    P ::= - P | ~ P | atom | FUNC(column or *) | (E)

in which no two operators stand side by side, so that reading needs no precedence. Keywords and
function names are read in any case. Main statement: `Derives.unique`, by which tokens have one
derivation at most.
-/

namespace SqlRecord

theorem UnaryOp.token_injective : Function.Injective UnaryOp.token := by
  intro op op' h
  cases op <;> cases op' <;> first | rfl | exact absurd h (by decide)

theorem UnaryOp.token_ne_paren (op : UnaryOp) : op.token ≠ "(" := by
  cases op <;> decide

namespace Sql

/-- What stands between two operands: an operator that has a spelling, `IS` or `IS NOT`. -/
inductive Connective where
  | operator (op : BinaryOp) (h : op.token?.isSome = true)
  | is
  | isNot
  deriving DecidableEq

/-- What a condition means: its derivation without the parentheses. -/
inductive Phrase where
  | null
  | integer (n : Nat)
  | real (x : Binary64)
  | text (content : List Char)
  | placeholder (name : String)
  | column (name : String)
  | call (func : Aggregate) (column : Option String)
  | before (op : UnaryOp) (operand : Phrase)
  | between (op : Connective) (left right : Phrase)
  deriving DecidableEq

namespace Connective

/-- The tokens of a connective. -/
def tokens : Connective → List Token
  | operator op h =>
    [if op.isLogical then .word (op.token?.get h) else .symbol (op.token?.get h)]
  | is => [.word "IS"]
  | isNot => [.word "IS", .word "NOT"]

/-- Whether tokens spell a connective, in any case. -/
def Spelled (c : Connective) (ts : List Token) : Prop :=
  ts.map Token.fold = c.tokens.map Token.fold

end Connective

namespace Token

/-- What a token means as an operand. A word is a name unless it is a keyword, and a number with a
point or an exponent is a real. -/
def atom? : Token → Option Phrase
  | word w =>
    if sameName w "NULL" then some .null
    else if Identifier.isKeyword w then none
    else some (.column w)
  | number cs =>
    some (if Literal.isDigits cs then .integer (Digits.value cs)
      else .real (Numeral.nearest .binary64 false cs))
  | text cs => some (.text cs)
  | placeholder p => some (.placeholder p)
  | _ => none

/-- What a token means as the argument of an aggregate: a column, or all rows. -/
def argument? : Token → Option (Option String)
  | word w => if Identifier.isKeyword w then none else some (some w)
  | symbol s => if s = "*" then some none else none
  | _ => none

end Token

/-- The categories of the grammar: `E` and `P`. -/
inductive Category where
  | sentence
  | primary

/-- The derivations of the grammar. -/
inductive Derives : Category → List Token → Phrase → Prop
  | primary {ts a} (h : Derives .primary ts a) : Derives .sentence ts a
  | not {w ts a} (hw : sameName w "NOT" = true) (h : Derives .primary ts a) :
      Derives .sentence (.word w :: ts) (.before .not a)
  | between {c ts os us a b} (hl : Derives .primary ts a) (hc : Connective.Spelled c os)
      (hr : Derives .primary us b) : Derives .sentence (ts ++ (os ++ us)) (.between c a b)
  | sign {op ts a} (hop : op ≠ UnaryOp.not) (h : Derives .primary ts a) :
      Derives .primary (.symbol op.token :: ts) (.before op a)
  | atom {t a} (h : t.atom? = some a) : Derives .primary [t] a
  | call {w func t arg} (hw : sameName w (Aggregate.name func) = true)
      (ht : t.argument? = some arg) :
      Derives .primary [.word w, .symbol "(", t, .symbol ")"] (.call func arg)
  | enclose {ts a} (h : Derives .sentence ts a) :
      Derives .primary (.symbol "(" :: (ts ++ [.symbol ")"])) a

/-! ### Words of the grammar -/

/-- Whether a token is the word `NOT`, which begins no operand. -/
def Token.isNot : Token → Bool
  | word w => sameName w "NOT"
  | _ => false

/-- Whether a name is a keyword does not depend on its case. -/
theorem isKeyword_of_sameName {w k : String} (h : sameName w k = true) :
    Identifier.isKeyword w = Identifier.isKeyword k := by
  rw [← Identifier.isKeyword_foldName w, foldName_eq_iff.mpr h, Identifier.isKeyword_foldName]

theorem isKeyword_not : Identifier.isKeyword "NOT" = true := by decide +kernel

theorem isKeyword_aggregate (func : Aggregate) : Identifier.isKeyword func.name = false := by
  cases func <;> decide +kernel

theorem sameName_trans {a b c : String} (hab : sameName a b = true) (hbc : sameName b c = true) :
    sameName a c = true :=
  foldName_eq_iff.mp ((foldName_eq_iff.mpr hab).trans (foldName_eq_iff.mpr hbc))

theorem sameName_symm {a b : String} (h : sameName a b = true) : sameName b a = true :=
  foldName_eq_iff.mp (foldName_eq_iff.mpr h).symm

/-- Aggregates have names that differ in more than case. -/
theorem aggregate_eq_of_sameName {f g : Aggregate} (h : sameName f.name g.name = true) : f = g := by
  cases f <;> cases g <;> first | rfl | exact absurd h (by decide)

/-- An operand is not empty, and no `NOT` begins it. -/
theorem Derives.exists_cons {ts : List Token} {a : Phrase} (h : Derives .primary ts a) :
    ∃ t rest, ts = t :: rest ∧ t.isNot = false := by
  cases h with
  | sign => exact ⟨_, _, rfl, rfl⟩
  | enclose => exact ⟨_, _, rfl, rfl⟩
  | @atom t a ht =>
    refine ⟨t, [], rfl, ?_⟩
    cases t with
    | word w =>
      -- `NOT` is a keyword other than `NULL`, and such a word is no operand
      by_contra hnot
      rw [Bool.not_eq_false] at hnot
      have hnull : sameName w "NULL" = false := by
        by_contra hnull
        rw [Bool.not_eq_false] at hnull
        exact absurd (sameName_trans (sameName_symm hnot) hnull) (by decide)
      have hkey : Identifier.isKeyword w = true :=
        (isKeyword_of_sameName hnot).trans isKeyword_not
      simp [Token.atom?, hnull, hkey] at ht
    | name => rfl
    | number => rfl
    | text => rfl
    | bytes => rfl
    | placeholder => rfl
    | symbol => rfl
  | @call w func t arg hw ht =>
    refine ⟨_, _, rfl, ?_⟩
    by_contra hnot
    rw [Bool.not_eq_false] at hnot
    have := isKeyword_of_sameName (sameName_trans (sameName_symm hw) hnot)
    rw [isKeyword_aggregate, isKeyword_not] at this
    cases this

/-! ### Connectives -/

namespace Connective

/-- The tokens of a connective tell it from all others. -/
theorem tokens_injective {c d : Connective}
    (h : c.tokens.map Token.fold = d.tokens.map Token.fold) : c = d := by
  cases c with
  | operator op hop =>
    cases d with
    | operator op' hop' =>
      cases op <;> cases hop <;> cases op' <;> cases hop' <;>
        first | rfl | exact absurd h (by decide)
    | is => cases op <;> cases hop <;> exact absurd h (by decide)
    | isNot => cases op <;> cases hop <;> exact absurd h (by decide)
  | is =>
    cases d with
    | operator op hop => cases op <;> cases hop <;> exact absurd h (by decide)
    | is => rfl
    | isNot => exact absurd h (by decide)
  | isNot =>
    cases d with
    | operator op hop => cases op <;> cases hop <;> exact absurd h (by decide)
    | is => exact absurd h (by decide)
    | isNot => rfl

/-- A connective is spelled by one token, or it is `IS NOT`. -/
theorem Spelled.cases {c : Connective} {os : List Token} (h : c.Spelled os) :
    (∃ o, os = [o]) ∨ c = .isNot ∧ ∃ o n, os = [o, n] ∧ n.isNot = true := by
  have hlength := congrArg List.length h
  rw [List.length_map, List.length_map] at hlength
  cases c with
  | operator => exact .inl (List.length_eq_one_iff.mp hlength)
  | is => exact .inl (List.length_eq_one_iff.mp hlength)
  | isNot =>
    obtain ⟨o, n, rfl⟩ := List.length_eq_two.mp hlength
    refine .inr ⟨rfl, o, n, rfl, ?_⟩
    have hn : n.fold = .word (foldName "NOT") := by
      have := congrArg (·[1]?) h
      simpa [Spelled, tokens, Token.fold] using this
    cases n with
    | word w => exact foldName_eq_iff.mp (Token.word.inj hn)
    | _ => cases hn

/-- Connectives in front of operands are told from each other. -/
theorem Spelled.unique {c d : Connective} {os ps rest rest' : List Token} (hc : c.Spelled os)
    (hd : d.Spelled ps) (hrest : ∀ t ∈ rest.head?, t.isNot = false)
    (hrest' : ∀ t ∈ rest'.head?, t.isNot = false) (h : os ++ rest = ps ++ rest') :
    os = ps ∧ c = d := by
  have hsame : os = ps := by
    rcases hc.cases with ⟨o, rfl⟩ | ⟨-, o, n, rfl, hn⟩ <;>
      rcases hd.cases with ⟨p, rfl⟩ | ⟨-, p, m, rfl, hm⟩
    · exact congrArg (fun t => [t]) (List.cons.inj h).1
    -- `IS` before an operand is not `IS NOT`, since no operand begins with `NOT`
    · have hhead : rest = m :: rest' := (List.cons.inj h).2
      exact absurd (hrest m (by rw [hhead]; rfl)) (by simp [hm])
    · have hhead : n :: rest = rest' := (List.cons.inj h).2
      exact absurd (hrest' n (by rw [← hhead]; rfl)) (by simp [hn])
    · exact (List.append_inj h rfl).1
  refine ⟨hsame, tokens_injective (hc.symm.trans ?_)⟩
  rw [hsame]
  exact hd

/-- No connective ends a sentence or opens a parenthesis. -/
theorem Spelled.exists_cons {c : Connective} {os : List Token} (h : c.Spelled os) :
    ∃ o rest, os = o :: rest ∧ o ≠ .symbol "(" ∧ o ≠ .symbol ")" := by
  obtain ⟨o, rest, rfl⟩ : ∃ o rest, os = o :: rest := by
    rcases h.cases with ⟨o, rfl⟩ | ⟨-, o, n, rfl, -⟩
    · exact ⟨o, [], rfl⟩
    · exact ⟨o, [n], rfl⟩
  have hhead : c.tokens.head?.map Token.fold = some o.fold := by
    rw [← List.head?_map, ← h]
    rfl
  refine ⟨o, rest, rfl, ?_, ?_⟩
  all_goals
    rintro rfl
    cases c with
    | operator op hop => cases op <;> cases hop <;> exact absurd hhead (by decide)
    | is => exact absurd hhead (by decide)
    | isNot => exact absurd hhead (by decide)

end Connective

/-! ### Derivations are unique -/

/-- What may follow a phrase of a category: a closing parenthesis after a sentence, and no opening
one after an operand. -/
def Category.Stops : Category → List Token → Prop
  | sentence, rest => ∀ t ∈ rest.head?, t = .symbol ")"
  | primary, rest => ∀ t ∈ rest.head?, t ≠ .symbol "("

/-- What may follow a sentence may also follow an operand. -/
theorem Category.Stops.primary {rest : List Token} (h : sentence.Stops rest) :
    Category.primary.Stops rest := by
  intro t ht
  rw [h t ht]
  decide

/-- A connective may follow an operand. -/
theorem Category.stops_primary_append {os ts : List Token} {c : Connective} (h : c.Spelled os) :
    Category.primary.Stops (os ++ ts) := by
  obtain ⟨o, rest, rfl, hopen, -⟩ := h.exists_cons
  rintro t ⟨⟩
  exact hopen

/-- An operand does not begin with `NOT`. -/
theorem Derives.head?_isNot {ts rest : List Token} {a : Phrase} (h : Derives .primary ts a) :
    ∀ t ∈ (ts ++ rest).head?, t.isNot = false := by
  obtain ⟨t, more, rfl, ht⟩ := h.exists_cons
  rintro u ⟨⟩
  exact ht

/-- After an operand, a sentence ends or goes on with a connective, and these differ. -/
theorem Category.Stops.ne_append {rest os ts : List Token} {c : Connective}
    (h : sentence.Stops rest) (hc : c.Spelled os) : rest ≠ os ++ ts := by
  rintro rfl
  obtain ⟨o, more, rfl, -, hclose⟩ := hc.exists_cons
  exact hclose (h o rfl)

/-- Two phrases of one category at the start of the same tokens are the same phrase. -/
theorem Derives.prefix_unique {k : Category} {ts us rest rest' : List Token} {a b : Phrase}
    (h : Derives k ts a) (h' : Derives k us b) (hrest : k.Stops rest) (hrest' : k.Stops rest')
    (heq : ts ++ rest = us ++ rest') : ts = us ∧ a = b := by
  -- induction on the first derivation; the other is of a form that can begin with the same token
  induction h generalizing us b rest rest' with
  | @primary ts a h ih =>
    cases h' with
    | primary h' => exact ih h' hrest.primary hrest'.primary heq
    | not hw h' =>
      -- no operand begins with `NOT`
      have := h.head?_isNot (.word _) (by rw [heq]; rfl)
      exact absurd this (by simp [Token.isNot, hw])
    | between hl hc hr =>
      -- the operands are the same, but a sentence stops where the other has a connective
      rw [List.append_assoc, List.append_assoc] at heq
      obtain ⟨rfl, -⟩ := ih hl hrest.primary (Category.stops_primary_append hc) heq
      exact absurd (List.append_cancel_left heq) (hrest.ne_append hc)
  | @not w ts a hw h ih =>
    cases h' with
    | primary h' =>
      have := h'.head?_isNot (.word w) (by rw [← heq]; rfl)
      exact absurd this (by simp [Token.isNot, hw])
    | not hw' h' =>
      obtain ⟨hword, heq⟩ := List.cons.inj heq
      obtain ⟨rfl, rfl⟩ := ih h' hrest.primary hrest'.primary heq
      exact ⟨by rw [hword], rfl⟩
    | between hl hc hr =>
      rw [List.append_assoc] at heq
      have := hl.head?_isNot (.word w) (by rw [← heq]; rfl)
      exact absurd this (by simp [Token.isNot, hw])
  | @between c ts os vs a d hl hc hr ihl ihr =>
    rw [List.append_assoc, List.append_assoc] at heq
    cases h' with
    | primary h' =>
      obtain ⟨rfl, -⟩ := ihl h' (Category.stops_primary_append hc) hrest'.primary heq
      exact absurd (List.append_cancel_left heq).symm (hrest'.ne_append hc)
    | not hw' h' =>
      have := hl.head?_isNot (.word _) (by rw [heq]; rfl)
      exact absurd this (by simp [Token.isNot, hw'])
    | between hl' hc' hr' =>
      -- the operands on the left are the same, then the connectives, then the operands on the right
      rw [List.append_assoc, List.append_assoc] at heq
      obtain ⟨rfl, rfl⟩ := ihl hl' (Category.stops_primary_append hc)
        (Category.stops_primary_append hc') heq
      have heq := List.append_cancel_left heq
      obtain ⟨rfl, rfl⟩ := hc.unique hc' hr.head?_isNot hr'.head?_isNot heq
      obtain ⟨rfl, rfl⟩ := ihr hr' hrest.primary hrest'.primary (List.append_cancel_left heq)
      exact ⟨rfl, rfl⟩
  | @sign op ts a hop h ih =>
    cases h' with
    | sign hop' h' =>
      obtain ⟨hsymbol, heq⟩ := List.cons.inj heq
      obtain ⟨rfl, rfl⟩ := ih h' hrest hrest' heq
      rw [UnaryOp.token_injective (Token.symbol.inj hsymbol)]
      exact ⟨rfl, rfl⟩
    | atom ht =>
      rw [← (List.cons.inj heq).1] at ht
      cases ht
    | call => exact absurd (List.cons.inj heq).1 (by simp)
    | enclose => exact absurd (Token.symbol.inj (List.cons.inj heq).1) op.token_ne_paren
  | @atom t a ht =>
    cases h' with
    | sign =>
      rw [(List.cons.inj heq).1] at ht
      cases ht
    | atom ht' =>
      obtain ⟨rfl, -⟩ := List.cons.inj heq
      exact ⟨rfl, Option.some.inj (ht.symm.trans ht')⟩
    | call =>
      -- a word before an opening parenthesis is the name of a function
      have hhead : rest = .symbol "(" :: _ := (List.cons.inj heq).2
      exact absurd rfl (hrest (.symbol "(") (by rw [hhead]; rfl))
    | enclose =>
      rw [(List.cons.inj heq).1] at ht
      cases ht
  | @call w func t arg hw ht =>
    cases h' with
    | sign => exact absurd (List.cons.inj heq).1 (by simp)
    | atom =>
      have hhead : .symbol "(" :: _ = rest' := (List.cons.inj heq).2
      exact absurd rfl (hrest' (.symbol "(") (by rw [← hhead]; rfl))
    | @call w' func' t' arg' hw' ht' =>
      simp only [List.cons_append, List.nil_append, List.cons.injEq, Token.word.injEq,
        true_and] at heq
      obtain ⟨rfl, rfl, -⟩ := heq
      have hfunc := aggregate_eq_of_sameName (sameName_trans (sameName_symm hw) hw')
      have harg := Option.some.inj (ht.symm.trans ht')
      exact ⟨rfl, by rw [hfunc, harg]⟩
    | enclose => exact absurd (List.cons.inj heq).1 (by simp)
  | @enclose ts a h ih =>
    cases h' with
    | sign => exact absurd (Token.symbol.inj (List.cons.inj heq).1).symm (UnaryOp.token_ne_paren _)
    | atom ht =>
      rw [← (List.cons.inj heq).1] at ht
      cases ht
    | call => exact absurd (List.cons.inj heq).1 (by simp)
    | enclose h' =>
      -- in parentheses, a sentence stops before the closing one
      simp only [List.cons_append, List.append_assoc, List.cons.injEq, true_and] at heq
      obtain ⟨rfl, rfl⟩ := ih h' (by rintro t ⟨⟩; rfl) (by rintro t ⟨⟩; rfl) heq
      exact ⟨rfl, rfl⟩

/-- **Derivations are unique**: tokens have at most one reading. -/
theorem Derives.unique {k : Category} {ts : List Token} {a b : Phrase} (h : Derives k ts a)
    (h' : Derives k ts b) : a = b := by
  have hstops : k.Stops [] := by
    cases k <;> rintro t ⟨⟩
  exact (h.prefix_unique h' hstops hstops rfl).2

/-! ### Commas -/

theorem Connective.Spelled.comma_notMem {c : Connective} {os : List Token} (h : c.Spelled os) :
    .symbol "," ∉ os := by
  intro hmem
  have hfold : Token.symbol "," ∈ c.tokens.map Token.fold := by
    rw [← h]
    exact List.mem_map_of_mem (f := Token.fold) hmem
  cases c with
  | operator op hop => cases op <;> cases hop <;> exact absurd hfold (by decide)
  | is => exact absurd hfold (by decide)
  | isNot => exact absurd hfold (by decide)

/-- No comma stands in a phrase. -/
theorem Derives.comma_notMem {k : Category} {ts : List Token} {a : Phrase} (h : Derives k ts a) :
    .symbol "," ∉ ts := by
  induction h with
  | primary _ ih => exact ih
  | not _ _ ih => simpa using ih
  | between _ hc _ ihl ihr =>
    rw [List.mem_append, List.mem_append]
    rintro (h | h | h)
    · exact ihl h
    · exact hc.comma_notMem h
    · exact ihr h
  | @sign op ts a _ _ ih =>
    rw [List.mem_cons]
    rintro (h | h)
    · exact absurd (Token.symbol.inj h) (by cases op <;> decide)
    · exact ih h
  | atom ht =>
    rw [List.mem_singleton]
    rintro rfl
    cases ht
  | call _ ht =>
    simp only [List.mem_cons, List.not_mem_nil, or_false, reduceCtorEq, false_or]
    rintro (h | rfl | h)
    · exact absurd h (by decide)
    · cases ht
    · exact absurd h (by decide)
  | enclose _ ih =>
    rw [List.mem_cons, List.mem_append, List.mem_singleton]
    rintro (h | h | h)
    · exact absurd h (by decide)
    · exact ih h
    · exact absurd h (by decide)

end Sql

end SqlRecord
