import SqlRecord.Proofs.Schema.Definition
import SqlRecord.Proofs.Schema.Rules

/-!
# Key clauses of definitions

The rules for declarations count the columns that are keys and look for one generated key in a
column, but a column may repeat a constraint. Exactly then does the definition of a built schema
hold a second `PRIMARY KEY`, or an `AUTOINCREMENT` that does not directly follow one. Main
statement: `Schema.keysInOrder_iff`.
-/

namespace SqlRecord

open Sql

/-! ### Patterns in lists -/

/-- Whether an element stands in a list only directly after a pattern, where `before` precedes the
list. -/
def Follows {α : Type} (pattern : List α) (a : α) (before l : List α) : Prop :=
  ∀ front back, l = front ++ a :: back → pattern <:+ before ++ front

namespace Follows

variable {α : Type} {pattern before l xs ys : List α} {a b : α}

theorem of_notMem (h : a ∉ l) : Follows pattern a before l := by
  rintro front back rfl
  simp at h

/-- In a list of two parts the pattern may reach from the first into the second. -/
theorem append_iff :
    Follows pattern a before (xs ++ ys) ↔
      Follows pattern a before xs ∧ Follows pattern a (before ++ xs) ys := by
  constructor
  · intro h
    constructor
    · rintro front back rfl
      exact h front (back ++ ys) (by simp)
    · rintro front back rfl
      simpa using h (xs ++ front) back (by simp)
  · rintro ⟨hx, hy⟩ front back heq
    -- the element is in the second list, or in the first
    rcases List.append_eq_append_iff.mp heq with ⟨front, rfl, rfl⟩ | ⟨rest, rfl, hrest⟩
    · simpa using hy front back rfl
    · cases rest with
      | nil => simpa using hy [] back (by simpa using hrest.symm)
      | cons c rest =>
        obtain ⟨rfl, -⟩ := List.cons.inj hrest
        exact hx front rest rfl

theorem singleton_iff : Follows pattern a before [b] ↔ (b = a → pattern <:+ before) := by
  constructor
  · rintro h rfl
    simpa using h [] [] rfl
  · intro h front back heq
    obtain ⟨rfl, hb, -⟩ : front = [] ∧ b = a ∧ back = [] := by
      cases front <;> simp_all
    simpa using h hb

/-- An element that only stands directly after another is not more frequent than the other. -/
theorem count_le [DecidableEq α] (hne : a ≠ b) (h : Follows [a] b [] l) :
    l.count b + (if l.getLast? = some a then 1 else 0) ≤ l.count a := by
  induction l using List.reverseRecOn with
  | nil => simp
  | append_singleton l c ih =>
    rw [append_iff, singleton_iff, List.nil_append] at h
    obtain ⟨hl, hc⟩ := h
    have ih := ih hl
    rw [List.count_append, List.count_append, List.count_singleton, List.count_singleton,
      List.getLast?_concat]
    by_cases hca : c = a
    · subst hca
      simp [hne] at ih ⊢
      omega
    · by_cases hcb : c = b
      · -- what is counted here stands after the other, which was not counted for it yet
        have hlast : l.getLast? = some a := by
          obtain ⟨front, rfl⟩ := hc hcb
          simp
        subst hcb
        simp [hca, hlast] at ih ⊢
        omega
      · simp [hca, hcb] at ih ⊢
        omega

/-- Where an element stands directly after another at least once, and the other is there once, it
stands nowhere else exactly if it is there once too. -/
theorem iff_count_le [DecidableEq α] (hne : a ≠ b) (hpair : b ∈ l → [a, b] <:+: l)
    (hone : l.count a ≤ 1) : Follows [a] b [] l ↔ l.count b ≤ 1 := by
  constructor
  · intro h
    have := h.count_le hne
    omega
  · intro hcount
    by_cases hb : b ∈ l
    · obtain ⟨u, v, rfl⟩ := hpair hb
      obtain ⟨hu, hv⟩ : u.count b = 0 ∧ v.count b = 0 := by
        simp only [List.count_append, List.count_cons, List.count_nil, beq_self_eq_true, if_true,
          beq_iff_eq, if_neg hne] at hcount
        omega
      have hfront : b ∉ u ++ [a] := by simpa [hne.symm] using List.count_eq_zero.mp hu
      have hback : b ∉ v := List.count_eq_zero.mp hv
      intro front back heq
      have hsplit : (u ++ [a]) ++ b :: v = front ++ b :: back := by simpa using heq
      obtain ⟨rfl, -⟩ := (List.append_cons_inj_of_notMem hfront hback).mp hsplit
      exact ⟨u, by simp⟩
    · exact of_notMem hb

end Follows

namespace Sql

/-- The tokens of a key clause in lower case. -/
def keyTokens : List Token := [.word "primary", .word "key"]

/-- How often a key clause stands among tokens in lower case. -/
def keyClauses (ts : List Token) : Nat := (ts.zip ts.tail).count (.word "primary", .word "key")

/-- Whether among the tokens of a definition `PRIMARY KEY` stands once at most, and `AUTOINCREMENT`
only directly after it, in any case. -/
structure KeysInOrder (ts : List Token) : Prop where
  once : keyClauses (ts.map Token.fold) ≤ 1
  generated : Follows keyTokens (.word "autoincrement") [] (ts.map Token.fold)

/-- Key clauses are counted by pairs of neighbours. -/
theorem keyClauses_cons_cons (t u : Token) (ts : List Token) :
    keyClauses (t :: u :: ts) =
      keyClauses (u :: ts) + if (t, u) == (.word "primary", .word "key") then 1 else 0 :=
  List.count_cons

/-- No key clause lies across two parts of which the second does not begin with `KEY`. -/
theorem keyClauses_append {ts us : List Token} (h : us.head? ≠ some (.word "key")) :
    keyClauses (ts ++ us) = keyClauses ts + keyClauses us := by
  induction ts with
  | nil => exact (Nat.zero_add _).symm
  | cons t ts ih =>
    cases ts with
    | nil =>
      cases us with
      | nil => rfl
      | cons u us =>
        have hu : u ≠ .word "key" := by simpa using h
        have hzero : keyClauses [t] = 0 := rfl
        rw [List.singleton_append, keyClauses_cons_cons, hzero]
        simp [hu]
    | cons u ts =>
      rw [List.cons_append, List.cons_append, keyClauses_cons_cons, ← List.cons_append, ih,
        keyClauses_cons_cons]
      omega

/-- Without the word `PRIMARY` there is no key clause. -/
theorem keyClauses_eq_zero {ts : List Token} (h : .word "primary" ∉ ts) : keyClauses ts = 0 := by
  rw [keyClauses, List.count_eq_zero]
  exact fun hmem => h (List.of_mem_zip hmem).1

/-! ### Words of keys -/

/-- The words of key clauses in lower case. -/
def keyWords : List String := ["primary", "key", "autoincrement"]

/-- No name is a word of key clauses, which are keywords. -/
theorem foldName_ne_of_mem_keyWords {name w : String} (hname : Identifier.isKeyword name = false)
    (hw : w ∈ keyWords) : foldName name ≠ w := by
  rintro rfl
  have hall : ∀ w ∈ keyWords, Identifier.isKeyword w = true := by decide +kernel
  have hkeyword := hall _ hw
  rw [Identifier.isKeyword_foldName, hname] at hkeyword
  cases hkeyword

/-- Words of the grammar are not those of key clauses. -/
theorem foldName_ne_of_sameName {word name w : String} (hword : sameName word name = true)
    (hname : ∀ w ∈ keyWords, foldName name ≠ w) (hw : w ∈ keyWords) : foldName word ≠ w := by
  rw [foldName_eq_iff.mpr hword]
  exact hname w hw

/-- **No word of key clauses stands in a condition.** -/
theorem Derives.keyWord_notMem {k : Category} {ts : List Token} {a : Phrase} (h : Derives k ts a)
    {w : String} (hw : w ∈ keyWords) : .word w ∉ ts.map Token.fold := by
  have hargument : ∀ {name : String}, Identifier.isKeyword name = false →
      Token.word w ≠ (Token.word name).fold := fun hname heq =>
    foldName_ne_of_mem_keyWords hname hw (Token.word.inj heq).symm
  induction h with
  | primary _ ih => exact ih
  | not hnot _ ih =>
    rw [List.map_cons, List.mem_cons]
    rintro (heq | h)
    · exact foldName_ne_of_sameName hnot (by decide) hw (Token.word.inj heq).symm
    · exact ih h
  | @between c _ os _ _ _ _ hc _ ihl ihr =>
    rw [List.map_append, List.map_append, hc, List.mem_append, List.mem_append]
    have hconnective : ∀ w ∈ keyWords, Token.word w ∉ c.tokens.map Token.fold := by
      cases c with
      | operator op hop => cases op <;> cases hop <;> decide
      | is => decide
      | isNot => decide
    rintro (h | h | h)
    · exact ihl h
    · exact hconnective w hw h
    · exact ihr h
  | sign _ _ ih =>
    rw [List.map_cons, List.mem_cons]
    rintro (heq | h)
    · cases heq
    · exact ih h
  | @atom t _ ht =>
    rw [List.map_singleton, List.mem_singleton]
    cases t with
    | word name =>
      rw [Token.atom?] at ht
      split_ifs at ht with hnull hkeyword
      · exact fun heq => foldName_ne_of_sameName hnull (by decide) hw (Token.word.inj heq).symm
      · exact hargument (by simpa using hkeyword)
    | _ => exact Token.noConfusion
  | @call name func t _ hname ht =>
    simp only [List.map_cons, List.map_nil, List.mem_cons, List.not_mem_nil, or_false]
    rintro (heq | heq | heq | heq)
    · refine foldName_ne_of_sameName hname ?_ hw (Token.word.inj heq).symm
      cases func <;> decide
    · cases heq
    · cases t with
      | word name =>
        rw [Token.argument?] at ht
        split_ifs at ht with hkeyword
        exact hargument (by simpa using hkeyword) heq
      | _ => cases heq
    · cases heq
  | enclose _ ih =>
    rw [List.map_cons, List.map_append, List.mem_cons, List.mem_append]
    rintro (heq | h | h)
    · cases heq
    · exact ih h
    · simp [Token.fold] at h

/-! ### Constraints -/

namespace Attribute

variable {a : Attribute} {as : List Attribute}

/-- The words of key clauses stand in no other constraints. -/
theorem Writable.keyWord_notMem (h : a.Writable) (hkey : a ≠ .primaryKey)
    (hauto : a ≠ .autoincrement) {w : String} (hw : w ∈ keyWords) : .word w ∉ a.tokens := by
  cases a with
  | primaryKey => exact absurd rfl hkey
  | autoincrement => exact absurd rfl hauto
  | unique | notNull =>
    revert w
    decide
  | default t =>
    rw [tokens_default, List.mem_cons]
    rintro (heq | hmem)
    · revert heq w
      decide
    · exact (h.1.derives_primary h.2).keyWord_notMem hw hmem
  | check t =>
    have hderives : Derives .primary (tokensOf (enclose t.layout)) t := by
      rw [tokensOf_enclose]
      exact .enclose (Phrase.Writable.derives_sentence h)
    rw [tokens_check, List.mem_cons]
    rintro (heq | hmem)
    · revert heq w
      decide
    · exact hderives.keyWord_notMem hw hmem

theorem head?_tokens_ne (a : Attribute) : a.tokens.head? ≠ some (.word "key") := by
  cases a <;> exact fun h => absurd (Token.word.inj (Option.some.inj h)) (by decide)

theorem head?_flatMap_tokens_ne (as : List Attribute) :
    (as.flatMap tokens).head? ≠ some (.word "key") := by
  cases as with
  | nil => nofun
  | cons a as =>
    obtain ⟨w, ts, hts⟩ := a.exists_tokens_cons
    have hhead := a.head?_tokens_ne
    rw [List.flatMap_cons, hts]
    rwa [hts] at hhead

/-- Of the constraints only a key has a key clause, and has one. -/
theorem Writable.keyClauses_tokens (h : a.Writable) :
    keyClauses a.tokens = if a = .primaryKey then 1 else 0 := by
  by_cases hkey : a = .primaryKey
  · subst hkey
    rfl
  · rw [if_neg hkey]
    refine keyClauses_eq_zero ?_
    by_cases hauto : a = .autoincrement
    · subst hauto
      decide
    · exact h.keyWord_notMem hkey hauto (by decide)

/-- Constraints have as many key clauses as there are primary keys among them. -/
theorem keyClauses_flatMap (h : ∀ a ∈ as, a.Writable) :
    keyClauses (as.flatMap tokens) = as.count .primaryKey := by
  induction as with
  | nil => rfl
  | cons a as ih =>
    obtain ⟨ha, has⟩ := List.forall_mem_cons.mp h
    rw [List.flatMap_cons, keyClauses_append (head?_flatMap_tokens_ne as), ih has,
      ha.keyClauses_tokens, List.count_cons, Nat.add_comm]
    simp

/-- A key clause ends constraints exactly if a primary key does. -/
theorem keyTokens_suffix_iff {before : List Token} (h : ∀ a ∈ as, a.Writable)
    (hbefore : before.getLast? ≠ some (.word "key")) :
    keyTokens <:+ before ++ as.flatMap tokens ↔ [.primaryKey] <:+ as := by
  have hlast : ∀ {ts : List Token}, keyTokens <:+ ts → ts.getLast? = some (.word "key") := by
    rintro ts ⟨front, rfl⟩
    simp [keyTokens]
  rcases List.eq_nil_or_concat as with rfl | ⟨as, a, rfl⟩
  · refine ⟨fun hsuffix => absurd (hlast (by simpa using hsuffix)) hbefore, fun hsuffix => ?_⟩
    simp at hsuffix
  · rw [List.concat_eq_append] at h ⊢
    have ha := h a (by simp)
    by_cases hkey : a = .primaryKey
    · subst hkey
      refine iff_of_true ⟨before ++ as.flatMap tokens, ?_⟩ ⟨as, rfl⟩
      rw [List.flatMap_append, List.append_assoc]
      rfl
    · refine iff_of_false (fun hsuffix => ?_) fun hsuffix => ?_
      · -- the last token is one of the last constraint
        obtain ⟨w, ts, hts⟩ := a.exists_tokens_cons
        have hne : a.tokens ≠ [] := by simp [hts]
        have hend := hlast hsuffix
        rw [List.flatMap_append, List.flatMap_singleton, ← List.append_assoc,
          List.getLast?_append_of_ne_nil _ hne] at hend
        have hmem := List.mem_of_getLast? hend
        by_cases hauto : a = .autoincrement
        · subst hauto
          exact absurd hmem (by decide)
        · exact ha.keyWord_notMem hkey hauto (by decide) hmem
      · obtain ⟨front, hfront⟩ := hsuffix
        exact hkey (by simpa using (List.append_inj' hfront rfl).2.symm)

/-- **Among the tokens of constraints `AUTOINCREMENT` stands directly after key clauses only**
exactly if it does so among the constraints. -/
theorem follows_flatMap_iff {before : List Token} (h : ∀ a ∈ as, a.Writable)
    (hbefore : before.getLast? ≠ some (.word "key")) :
    Follows keyTokens (.word "autoincrement") before (as.flatMap tokens) ↔
      Follows [.primaryKey] .autoincrement [] as := by
  induction as using List.reverseRecOn with
  | nil => exact iff_of_true (.of_notMem List.not_mem_nil) (.of_notMem List.not_mem_nil)
  | append_singleton as a ih =>
    have has : ∀ a ∈ as, a.Writable := fun b hb => h b (List.mem_append_left _ hb)
    have hsingle :
        Follows keyTokens (.word "autoincrement") (before ++ as.flatMap tokens) a.tokens ↔
          Follows [.primaryKey] .autoincrement as [a] := by
      rw [Follows.singleton_iff]
      by_cases hauto : a = .autoincrement
      · subst hauto
        have htokens : autoincrement.tokens = [.word "autoincrement"] := rfl
        rw [htokens, Follows.singleton_iff, keyTokens_suffix_iff has hbefore]
        simp
      · refine iff_of_true (.of_notMem ?_) fun heq => absurd heq hauto
        by_cases hkey : a = .primaryKey
        · subst hkey
          decide
        · exact (h a (by simp)).keyWord_notMem hkey hauto (by decide)
    rw [List.flatMap_append, List.flatMap_singleton, Follows.append_iff, Follows.append_iff, ih has,
      hsingle, List.nil_append]

end Attribute

/-! ### Tables -/

namespace ColumnForm

variable {c : ColumnForm} {cs : List ColumnForm}

/-- The columns whose constraints are written and whose names are no keywords. -/
structure Named (c : ColumnForm) : Prop extends c.Writable where
  notKeyword : Identifier.isKeyword c.name = false

/-- A column begins with words that are not those of key clauses. -/
theorem Named.exists_tokens (h : c.Named) :
    ∃ front, c.tokens = front ++ c.attributes.flatMap Attribute.tokens ∧ front ≠ [] ∧
      ∀ w ∈ keyWords, .word w ∉ front := by
  have htype : ∀ w ∈ keyWords, foldName c.type.name ≠ w := by
    cases c.type <;> decide
  refine ⟨[.word (foldName c.name), .word (foldName c.type.name)], c.tokens_eq, by simp, ?_⟩
  intro w hw
  simp [(foldName_ne_of_mem_keyWords h.notKeyword hw).symm, (htype w hw).symm]

/-- No column begins with the second word of a key clause. -/
theorem Named.head?_tokens_ne (h : c.Named) : c.tokens.head? ≠ some (.word "key") := by
  obtain ⟨front, htokens, hne, hfront⟩ := h.exists_tokens
  rw [htokens, List.head?_append_of_ne_nil _ hne]
  exact fun hhead => hfront "key" (by decide) (List.mem_of_mem_head? hhead)

/-- A column has a key clause for each constraint that makes it a key. -/
theorem Named.keyClauses_tokens (h : c.Named) :
    keyClauses c.tokens = c.attributes.count .primaryKey := by
  obtain ⟨front, htokens, -, hfront⟩ := h.exists_tokens
  rw [htokens, keyClauses_append (Attribute.head?_flatMap_tokens_ne _),
    keyClauses_eq_zero (hfront _ (by decide)), Attribute.keyClauses_flatMap h.attributes,
    Nat.zero_add]

/-- In a column `AUTOINCREMENT` follows a key clause exactly if that holds of its constraints. -/
theorem Named.follows_tokens_iff (h : c.Named) {before : List Token} :
    Follows keyTokens (.word "autoincrement") before c.tokens ↔
      Follows [.primaryKey] .autoincrement [] c.attributes := by
  obtain ⟨front, htokens, hne, hfront⟩ := h.exists_tokens
  have hlast : (before ++ front).getLast? ≠ some (.word "key") := by
    rw [List.getLast?_append_of_ne_nil _ hne]
    exact fun hlast => hfront "key" (by decide) (List.mem_of_getLast? hlast)
  rw [htokens, Follows.append_iff, Attribute.follows_flatMap_iff h.attributes hlast]
  exact and_iff_right (.of_notMem (hfront _ (by decide)))

/-- Columns have as many key clauses as their constraints together. -/
theorem keyClauses_commas (h : ∀ c ∈ cs, c.Named) :
    keyClauses ([.symbol ","].intercalate (cs.map tokens)) =
      (cs.map fun c => c.attributes.count .primaryKey).sum := by
  induction cs with
  | nil => rfl
  | cons c cs ih =>
    obtain ⟨hc, hcs⟩ := List.forall_mem_cons.mp h
    cases cs with
    | nil => simpa using hc.keyClauses_tokens
    | cons d cs =>
      have hcomma : ∀ ts : List Token, keyClauses (.symbol "," :: ts) = keyClauses ts := by
        intro ts
        cases ts with
        | nil => rfl
        | cons t ts => simp [keyClauses_cons_cons]
      have hrest := ih hcs
      rw [List.map_cons] at hrest
      rw [List.map_cons, List.map_cons, List.intercalate_cons_cons, List.append_assoc,
        keyClauses_append (by simp), List.singleton_append, hcomma, hrest, hc.keyClauses_tokens]
      simp only [List.map_cons, List.sum_cons]

/-- In a list of columns `AUTOINCREMENT` follows a key clause exactly if it does so in each of them. -/
theorem follows_commas_iff (h : ∀ c ∈ cs, c.Named) {before : List Token} :
    Follows keyTokens (.word "autoincrement") before ([.symbol ","].intercalate (cs.map tokens)) ↔
      ∀ c ∈ cs, Follows [.primaryKey] .autoincrement [] c.attributes := by
  induction cs generalizing before with
  | nil => exact iff_of_true (.of_notMem List.not_mem_nil) nofun
  | cons c cs ih =>
    obtain ⟨hc, hcs⟩ := List.forall_mem_cons.mp h
    cases cs with
    | nil => simpa using hc.follows_tokens_iff
    | cons d cs =>
      have hcomma : ∀ before, Follows keyTokens (.word "autoincrement") before [.symbol ","] :=
        fun _ => .of_notMem (by decide)
      have hrest := fun before : List Token => @ih hcs before
      simp only [List.map_cons] at hrest
      rw [List.map_cons, List.map_cons, List.intercalate_cons_cons, List.append_assoc,
        Follows.append_iff, Follows.append_iff, hrest, hc.follows_tokens_iff,
        List.forall_mem_cons (l := d :: cs)]
      simp only [hcomma, true_and]

end ColumnForm

/-- The key clauses of a definition are in order exactly if those of its columns are. -/
theorem TableForm.keysInOrder_layout_iff {f : TableForm}
    (hname : Identifier.isKeyword f.name = false)
    (hcolumns : ∀ c ∈ f.columns, c.Named) (hne : f.columns ≠ []) :
    KeysInOrder (tokensOf f.layout) ↔
      (f.columns.map fun c => c.attributes.count .primaryKey).sum ≤ 1 ∧
        ∀ c ∈ f.columns, Follows [.primaryKey] .autoincrement [] c.attributes := by
  obtain ⟨front, hopen⟩ : ∃ front : List Token,
    front = [.word "create", .word "table", .word (foldName f.name), .symbol "("] := ⟨_, rfl⟩
  have htokens : (tokensOf f.layout).map Token.fold =
      front ++ ([.symbol ","].intercalate (f.columns.map ColumnForm.tokens) ++ [.symbol ")"]) := by
    rw [f.tokens_eq, hopen]
    rfl
  have hfront : ∀ w ∈ keyWords, .word w ∉ front := by
    intro w hw
    rw [hopen]
    have htable := (foldName_ne_of_mem_keyWords hname hw).symm
    have hwords : ∀ w ∈ keyWords, w ≠ "create" ∧ w ≠ "table" := by decide
    simp [htable, hwords w hw]
  -- the columns begin with the name of the first
  have hhead : ([Token.symbol ","].intercalate (f.columns.map ColumnForm.tokens) ++
      [Token.symbol ")"]).head? ≠ some (.word "key") := by
    obtain ⟨c, cs, hcs⟩ := List.exists_cons_of_ne_nil hne
    have hc := (hcolumns c (by simp [hcs])).head?_tokens_ne
    have hcons : ∃ t ts, c.tokens = t :: ts := ⟨_, _, c.tokens_eq⟩
    obtain ⟨t, ts, hts⟩ := hcons
    rw [hts] at hc
    rw [hcs]
    cases cs with
    | nil => simpa [hts] using hc
    | cons d cs => simpa [hts, List.intercalate_cons_cons] using hc
  have honce : keyClauses ((tokensOf f.layout).map Token.fold) =
      (f.columns.map fun c => c.attributes.count .primaryKey).sum := by
    have hclose : keyClauses [.symbol ")"] = 0 := rfl
    rw [htokens, keyClauses_append hhead, keyClauses_append (by simp),
      keyClauses_eq_zero (hfront _ (by decide)), ColumnForm.keyClauses_commas hcolumns, hclose,
      Nat.zero_add, Nat.add_zero]
  have hgenerated : Follows keyTokens (.word "autoincrement") []
      ((tokensOf f.layout).map Token.fold) ↔
        ∀ c ∈ f.columns, Follows [.primaryKey] .autoincrement [] c.attributes := by
    rw [htokens, Follows.append_iff, Follows.append_iff, ColumnForm.follows_commas_iff hcolumns]
    exact ⟨fun h => h.2.1, fun h => ⟨.of_notMem (hfront _ (by decide)), h, .of_notMem (by decide)⟩⟩
  rw [← honce, ← hgenerated]
  exact ⟨fun h => ⟨h.once, h.generated⟩, fun h => ⟨h.1, h.2⟩⟩

end Sql

/-! ### Schemas -/

/-- If one number at most is positive, their sum is at most one exactly if each of them is. -/
theorem sum_map_le_one_iff {α : Type} {f : α → Nat} {l : List α}
    (h : (l.filter fun a => decide (0 < f a)).length ≤ 1) :
    (l.map f).sum ≤ 1 ↔ ∀ a ∈ l, f a ≤ 1 := by
  induction l with
  | nil => simp
  | cons a l ih =>
    rw [List.map_cons, List.sum_cons, List.forall_mem_cons]
    rcases Nat.eq_zero_or_pos (f a) with hzero | hpos
    · rw [List.filter_cons_of_neg (by simp [hzero])] at h
      rw [hzero, Nat.zero_add, ih h]
      simp
    · -- all later numbers are zero
      rw [List.filter_cons_of_pos (by simpa using hpos), List.length_cons] at h
      have hnone := List.filter_eq_nil_iff.mp (List.length_eq_zero_iff.mp (Nat.le_zero.mp
        (Nat.le_of_succ_le_succ h)))
      have hrest : ∀ b ∈ l, f b = 0 := fun b hb => by simpa using hnone b hb
      have hsum : (l.map f).sum = 0 := List.sum_eq_zero (List.forall_mem_map.mpr hrest)
      rw [hsum]
      exact ⟨fun ha => ⟨ha, fun b hb => by rw [hrest b hb]; exact Nat.zero_le 1⟩, fun ha => ha.1⟩

namespace Schema

variable {s : Schema}

theorem attribute?_eq_primaryKey_iff {k : Constraint} :
    s.attribute? k = some .primaryKey ↔ k = .primaryKey := by
  cases k <;> simp [attribute?]

theorem attribute?_eq_autoincrement_iff {k : Constraint} :
    s.attribute? k = some .autoincrement ↔ k = .autoincrement := by
  cases k <;> simp [attribute?]

/-- A key constraint is written as often as it is declared. -/
theorem count_columnForm (c : Column) :
    (s.columnForm c).attributes.count .primaryKey = c.constraints.count .primaryKey ∧
      (s.columnForm c).attributes.count .autoincrement = c.constraints.count .autoincrement := by
  rw [columnForm]
  dsimp only
  rw [List.count_filterMap, List.count_filterMap, List.count, List.count]
  constructor
  · refine List.countP_congr fun k _ => ?_
    rw [beq_iff_eq, beq_iff_eq, attribute?_eq_primaryKey_iff]
  · refine List.countP_congr fun k _ => ?_
    rw [beq_iff_eq, beq_iff_eq, attribute?_eq_autoincrement_iff]

/-- A generated key is written as such. -/
theorem generated_columnForm (hs : s.Lawful) {c : Column} (hc : c ∈ s.columns)
    (h : .autoincrement ∈ (s.columnForm c).attributes) :
    [.primaryKey, .autoincrement] <:+: (s.columnForm c).attributes := by
  obtain ⟨k, hk, hauto⟩ := List.mem_filterMap.mp h
  rw [attribute?_eq_autoincrement_iff] at hauto
  subst hauto
  have hpair := (hs.generated c hc (List.contains_iff_mem.mpr hk)).2
  exact hpair.filterMap s.attribute?

/-- **The key clauses of a built schema's definition are in order exactly if no column repeats a key
constraint.** -/
theorem keysInOrder_iff {d : Declaration} (hbuild : d.build = .ok s) :
    ∃ text ts, s.createText = .ok text ∧ tokens? text.toList = some ts ∧
      (KeysInOrder ts ↔ ∀ c ∈ s.columns,
        c.constraints.count .primaryKey ≤ 1 ∧ c.constraints.count .autoincrement ≤ 1) := by
  have hs := d.build_wellFormed hbuild
  have hlawful := (Declaration.build_eq_ok_iff.mp hbuild).2
  have hform := hs.writable_form
  refine ⟨_, _, createText_eq hs, by rw [String.toList_ofList, tokens?_spell hform.spaced], ?_⟩
  have hnamed : ∀ c ∈ s.form.columns, c.Named := by
    rw [form, List.forall_mem_map]
    intro c hc
    exact ⟨hform.columns _ (List.mem_map_of_mem hc),
      Phrase.isKeyword_of_isValid (hs.name_valid c hc)⟩
  -- one column at most has key clauses
  have hone : (s.columns.filter fun c =>
      decide (0 < (s.columnForm c).attributes.count .primaryKey)).length ≤ 1 := by
    have hfilter : (fun c => decide (0 < (s.columnForm c).attributes.count .primaryKey)) =
        Column.isPrimaryKey := by
      funext c
      rw [(count_columnForm c).1, Column.isPrimaryKey, Bool.eq_iff_iff]
      simp [List.count_pos_iff]
    rw [hfilter]
    exact hlawful.one_key
  rw [TableForm.keysInOrder_layout_iff (Phrase.isKeyword_of_isValid hs.table_valid) hnamed
    hform.columns_ne_nil, form, List.map_map, List.forall_mem_map]
  dsimp only [Function.comp_def]
  rw [sum_map_le_one_iff hone, ← forall₂_and]
  refine forall₂_congr fun c hc => ?_
  rw [← (count_columnForm (s := s) c).1, ← (count_columnForm (s := s) c).2]
  refine and_congr_right fun hkey => ?_
  exact Follows.iff_count_le (by decide) (generated_columnForm hlawful hc) hkey

/-- The definition of the table of notes. -/
theorem keysInOrder_notes :
    ∃ text ts, notes.createText = .ok text ∧ tokens? text.toList = some ts ∧ KeysInOrder ts := by
  obtain ⟨text, ts, htext, hts, hkeys⟩ := keysInOrder_iff build_notes
  exact ⟨text, ts, htext, hts, hkeys.mpr (by decide)⟩

/-- A schema whose only column is a key twice. -/
def doubled : Schema :=
  ⟨"Doubled", "doubled", [⟨"id", "id", .plain (.integer .int64), [.primaryKey, .primaryKey]⟩]⟩

/-- A schema whose only column is generated twice. -/
def regenerated : Schema :=
  ⟨"Regenerated", "regenerated",
    [⟨"id", "id", .plain (.integer .int64), [.primaryKey, .autoincrement, .autoincrement]⟩]⟩

/-- Schemas are built that repeat a key constraint, and then their key clauses are out of order. -/
theorem not_keysInOrder_doubled :
    (∃ text ts, (Declaration.mk "Doubled" (some "doubled") doubled.columns).build = .ok doubled ∧
      doubled.createText = .ok text ∧
      text = "CREATE TABLE doubled (id INTEGER PRIMARY KEY PRIMARY KEY)" ∧
      tokens? text.toList = some ts ∧ ¬KeysInOrder ts) ∧
    ∃ text ts, (Declaration.mk "Regenerated" (some "regenerated") regenerated.columns).build =
        .ok regenerated ∧
      regenerated.createText = .ok text ∧
      text = "CREATE TABLE regenerated (id INTEGER PRIMARY KEY AUTOINCREMENT AUTOINCREMENT)" ∧
      tokens? text.toList = some ts ∧ ¬KeysInOrder ts := by
  have htokens : ∀ {s : Schema}, s.WellFormed →
      tokens? (String.ofList (spell s.form.layout)).toList = some (tokensOf s.form.layout) := by
    intro s hs
    rw [String.toList_ofList, tokens?_spell hs.writable_form.spaced]
  constructor
  · have hbuild := @Declaration.build_of_problems "Doubled" "doubled" doubled.columns
      (by decide +kernel)
    have hs := Declaration.build_wellFormed hbuild
    refine ⟨_, _, hbuild, createText_eq hs, by decide +kernel, htokens hs, fun h => ?_⟩
    exact absurd h.once (by decide +kernel)
  · have hbuild := @Declaration.build_of_problems "Regenerated" "regenerated" regenerated.columns
      (by decide +kernel)
    have hs := Declaration.build_wellFormed hbuild
    refine ⟨_, _, hbuild, createText_eq hs, by decide +kernel, htokens hs, fun h => ?_⟩
    -- the second `AUTOINCREMENT` stands after the first
    have hsecond := h.generated
      [.word "create", .word "table", .word "regenerated", .symbol "(", .word "id",
        .word "integer", .word "primary", .word "key", .word "autoincrement"] [.symbol ")"]
      (by decide +kernel)
    exact absurd hsecond (by decide)

end Schema

end SqlRecord
