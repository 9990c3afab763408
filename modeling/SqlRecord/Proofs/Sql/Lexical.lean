import SqlRecord.Proofs.Sql.Constants
import SqlRecord.Proofs.Sql.TableForm

/-!
# Lexical soundness

A text is lexically sound if all of its literals are closed and if outside of them parentheses are
balanced and there is neither a comment nor a semicolon (`Sql.LexicallySound`). What a scan finds
outside the literals of a layout is the text of the layout with empty literals. Main statement:
`Tidy.lexicallySound`, by which the text of a spaced layout with balanced parentheses is sound.
-/

namespace SqlRecord

namespace Sql

/-! ### Scanning -/

/-- A text without the contents of its literals, of which the quotes remain, if every literal is
closed. In a literal two quotes are one of its content. -/
def outside? : (inside : Bool) → List Char → Option (List Char)
  | false, [] => some []
  | true, [] => none
  | false, c :: cs => (outside? (c == '\'') cs).map (c :: ·)
  | true, '\'' :: '\'' :: cs => outside? true cs
  | true, c :: cs =>
    if c = '\'' then (outside? false cs).map (c :: ·) else outside? true cs

/-- Whether parentheses are balanced: none is closed before it is opened, and all are closed. -/
structure Balanced (cs : List Char) : Prop where
  opened : ∀ p, p <+: cs → p.count ')' ≤ p.count '('
  closed : cs.count '(' = cs.count ')'

/-- **Lexical soundness**: every literal is closed, and outside literals parentheses are balanced
and no comment begins and no statement ends. -/
def LexicallySound (text : String) : Prop :=
  ∃ cs, outside? false text.toList = some cs ∧ Balanced cs ∧
    ¬ ['-', '-'] <:+: cs ∧ ¬ ['/', '*'] <:+: cs ∧ ';' ∉ cs

/-- Outside literals every character but a quote is kept. -/
theorem outside?_cons {c : Char} (hc : c ≠ '\'') (cs : List Char) :
    outside? false (c :: cs) = (outside? false cs).map (c :: ·) := by
  rw [outside?, beq_eq_false_iff_ne.mpr hc]

/-- What has no quotes is outside literals. -/
theorem outside?_append {cs : List Char} (h : ∀ c ∈ cs, c ≠ '\'') (rest : List Char) :
    outside? false (cs ++ rest) = (outside? false rest).map (cs ++ ·) := by
  induction cs with
  | nil => simp
  | cons c cs ih =>
    obtain ⟨hc, hcs⟩ := List.forall_mem_cons.mp h
    rw [List.cons_append, outside?_cons hc, ih hcs, Option.map_map]
    rfl

/-- The escaped content of a literal ends at the quote after it. -/
theorem outside?_escape (cs : List Char) {rest : List Char} (hr : ∀ c ∈ rest.head?, c ≠ '\'') :
    outside? true (Literal.escape cs ++ '\'' :: rest) =
      (outside? false rest).map ('\'' :: ·) := by
  induction cs with
  | nil =>
    cases rest with
    | nil => rfl
    | cons c rest =>
      have hc : c ≠ '\'' := hr c rfl
      simp [Literal.escape, outside?, hc]
  | cons c cs ih =>
    by_cases hc : c = '\''
    · subst hc
      simp [Literal.escape, outside?, ih]
    · simp [Literal.escape, outside?, hc, ih]

/-! ### Balanced texts -/

namespace Balanced

variable {cs ds : List Char}

theorem of_notMem (hopen : '(' ∉ cs) (hclose : ')' ∉ cs) : Balanced cs where
  opened p hp := by
    rw [List.count_eq_zero.mpr fun h => hclose (hp.subset h)]
    exact Nat.zero_le _
  closed := by rw [List.count_eq_zero.mpr hopen, List.count_eq_zero.mpr hclose]

theorem append (hc : Balanced cs) (hd : Balanced ds) : Balanced (cs ++ ds) where
  opened p hp := by
    rcases List.prefix_or_prefix_of_prefix hp (List.prefix_append cs ds) with h | ⟨q, rfl⟩
    · exact hc.opened p h
    · have hq := hd.opened q ((List.prefix_append_right_inj cs).mp hp)
      rw [List.count_append, List.count_append, hc.closed]
      omega
  closed := by rw [List.count_append, List.count_append, hc.closed, hd.closed]

theorem enclose (hc : Balanced cs) : Balanced ('(' :: (cs ++ [')'])) where
  opened p hp := by
    rcases List.prefix_cons_iff.mp hp with rfl | ⟨q, rfl, hq⟩
    · simp
    -- the first parenthesis stays open up to the last one
    have hone : q.count ')' ≤ q.count '(' + 1 := by
      rcases List.prefix_concat_iff.mp hq with rfl | hq
      · simp [hc.closed]
      · exact (hc.opened q hq).trans (Nat.le_succ _)
    simpa using hone
  closed := by simp [hc.closed]

end Balanced

/-! ### Outlines -/

/-- The text of a layout with empty literals. -/
def outline (ps : List Piece) : List Char := spell (ps.map Piece.mask)

@[simp] theorem outline_nil : outline [] = [] := rfl

@[simp] theorem outline_append (ps qs : List Piece) :
    outline (ps ++ qs) = outline ps ++ outline qs := by
  simp [outline]

@[simp] theorem outline_gap_cons (ps : List Piece) : outline (.gap :: ps) = ' ' :: outline ps := rfl

@[simp] theorem outline_token_cons (t : Token) (ps : List Piece) :
    outline (.token t :: ps) = t.mask.spelling ++ outline ps := rfl

@[simp] theorem outline_word_cons (w : String) (ps : List Piece) :
    outline (.word w :: ps) = w.toList ++ outline ps := rfl

@[simp] theorem outline_symbol_cons (s : String) (ps : List Piece) :
    outline (.symbol s :: ps) = s.toList ++ outline ps := rfl

@[simp] theorem outline_enclose (ps : List Piece) :
    outline (enclose ps) = '(' :: (outline ps ++ [')']) := by
  rw [outline, map_mask_enclose, spell_enclose]
  rfl

/-- Only a text is written with quotes. -/
theorem Token.IsPlain.quote_notMem {t : Token} (ht : t.IsPlain) (hl : ∀ cs, t ≠ .text cs) :
    ∀ c ∈ t.spelling, c ≠ '\'' := fun c hc => ((ht.keeps hl).1 c hc).2

/-- Whether a scan finds one text outside the literals of another, in front of any text that closes
it. -/
def Scans (cs ds : List Char) : Prop :=
  ∀ rest, Closes rest → outside? false (cs ++ rest) = (outside? false rest).map (ds ++ ·)

namespace Scans

variable {cs ds cs' ds' : List Char}

/-- A scan finds of a plain token the token without the content of a text. -/
theorem token {t : Token} (ht : t.IsPlain) : Scans t.spelling t.mask.spelling := by
  intro rest hr
  by_cases hl : ∃ cs, t = .text cs
  · obtain ⟨cs, rfl⟩ := hl
    have hstop : ∀ c ∈ rest.head?, c ≠ '\'' := fun c hc => (closers_stop hr c hc).2.2
    simp [Token.spelling, Token.mask, Literal.quoteChars, Literal.escape, outside?,
      outside?_escape cs hstop, Function.comp_def]
  · have hmask : t.mask = t := by
      cases t with
      | text cs => exact absurd ⟨cs, rfl⟩ hl
      | _ => rfl
    rw [hmask]
    exact outside?_append (ht.quote_notMem (not_exists.mp hl)) rest

/-- A text that closes what is before it goes on with a text of its own. -/
theorem append (hc : Scans cs ds) (hd : Scans cs' ds') (hmeet : ∀ rest, Closes (cs' ++ rest)) :
    Scans (cs ++ cs') (ds ++ ds') := by
  intro rest hr
  rw [List.append_assoc, hc _ (hmeet rest), hd _ hr, Option.map_map]
  simp only [Function.comp_def, List.append_assoc]

theorem cons {c : Char} (hquote : c ≠ '\'') (hd : Scans cs ds) : Scans (c :: cs) (c :: ds) := by
  intro rest hr
  rw [List.cons_append, outside?_cons hquote, hd _ hr, Option.map_map]
  rfl

theorem enclose (hc : Scans cs ds) : Scans ('(' :: (cs ++ [')'])) ('(' :: (ds ++ [')'])) := by
  have hclose : Scans [')'] [')'] := cons (by decide) fun rest _ => by simp
  exact cons (by decide) (hc.append hclose fun _ => closes_cons (by decide))

end Scans

/-- **What is outside the literals of a spaced layout is its outline.** -/
theorem Spaced.scans {ps : List Piece} (h : Spaced ps) : Scans (spell ps) (outline ps) := by
  induction h with
  | token ht => simpa using Scans.token ht
  | gap _ _ ihp ihq =>
    rw [spell_append, outline_append]
    exact ihp.append (.cons (by decide) ihq) fun _ => closes_cons (by decide)
  | comma _ _ ihp ihq =>
    rw [spell_append, outline_append]
    exact ihp.append (.cons (by decide) (.cons (by decide) ihq)) fun _ => closes_cons (by decide)
  | enclose _ ih =>
    rw [spell_enclose, outline_enclose]
    exact ih.enclose
  | @call w ps hw _ ih =>
    -- no parenthesis closes a word, but a word has no quotes
    have hword : ∀ c ∈ w.toList, c ≠ '\'' := Token.IsPlain.quote_notMem (t := .word w) hw nofun
    rw [spell_word_cons, spell_enclose, outline_word_cons, outline_enclose]
    intro rest hr
    rw [List.append_assoc, outside?_append hword, ih.enclose rest hr, Option.map_map]
    simp only [Function.comp_def, List.append_assoc]
  | minus _ _ ih => exact .cons (by decide) ih
  | tilde _ ih => exact .cons (by decide) ih

/-- A scan of a spaced layout finds its outline: the literals are closed and have no content. -/
theorem Spaced.outside?_spell {ps : List Piece} (h : Spaced ps) :
    outside? false (spell ps) = some (outline ps) := by
  simpa [outside?] using h.scans [] closes_nil

example : outside? false "a = 'it''s -- (' + 1".toList = some "a = '' + 1".toList := by decide

/-! ### No comments -/

/-- The characters that a comment may begin with or that end a statement, and parentheses. -/
def marks : List Char := ['-', '/', ';', '(', ')']

/-- Only symbols are written with marks. -/
theorem Token.IsPlain.mark_notMem {t : Token} (ht : t.IsPlain) (hs : ∀ s, t ≠ .symbol s) :
    ∀ c ∈ t.mask.spelling, c ∉ marks := by
  have hpart : ∀ {c : Char}, Identifier.isPart c = true → c ∉ marks :=
    Identifier.forall_isPart (P := (· ∉ marks)) (by decide)
  cases t with
  | word w =>
    obtain ⟨-, -, -, -, hall⟩ := Identifier.isWord_iff.mp ht
    exact fun c hc => hpart (hall c hc)
  | number cs =>
    have hdigits : ∀ {cs : List Char}, Literal.isDigits cs = true → ∀ c ∈ cs, c ∉ marks :=
      fun hcs c hc => hpart (Identifier.isPart_of_isDigit ((Literal.isDigits_iff.mp hcs).2 c hc))
    rcases Literal.isUnsignedNumeric_iff.mp ht with h | ⟨whole, fraction, rfl, hw, hf⟩
    · exact hdigits h
    · rintro c hc
      rcases List.mem_append.mp hc with hc | hc
      · exact hdigits hw c hc
      · rcases List.mem_cons.mp hc with rfl | hc
        · decide
        · exact hdigits hf c hc
  | text cs =>
    intro c hc
    obtain rfl : c = '\'' := by
      simpa [Token.mask, Token.spelling, Literal.quoteChars, Literal.escape] using hc
    decide
  | placeholder p =>
    obtain ⟨mark, cs, hcs, hmark, -, hall⟩ := ht
    intro c hc
    rw [Token.mask, Token.spelling, hcs, List.mem_cons] at hc
    · rcases hc with rfl | hc
      · rcases List.mem_pair.mp hmark with rfl | rfl <;> decide
      · exact hpart (hall c hc)
    · exact fun _ => Token.noConfusion
  | symbol s => exact absurd rfl (hs s)
  | name _ => exact ht.elim
  | bytes _ => exact ht.elim

/-- Whether two characters side by side begin no comment. -/
def Apart (a b : Char) : Prop := ¬(a = '-' ∧ b = '-') ∧ ¬(a = '/' ∧ b = '*')

instance : DecidableRel Apart := fun _ _ => inferInstanceAs (Decidable (_ ∧ _))

/-- A character that is no mark begins no comment. -/
theorem apart_of_left {a b : Char} (h : a ∉ marks) : Apart a b := by
  refine ⟨fun ⟨ha, _⟩ => h ?_, fun ⟨ha, _⟩ => h ?_⟩ <;> simp [ha, marks]

theorem apart_of_right {a b : Char} (h : b ≠ '-' ∧ b ≠ '*') : Apart a b :=
  ⟨fun ⟨_, hb⟩ => h.1 hb, fun ⟨_, hb⟩ => h.2 hb⟩

/-- Whether no comment begins in a text and no statement ends. -/
structure Clean (cs : List Char) : Prop where
  comment : cs.IsChain Apart
  semicolon : ';' ∉ cs

namespace Clean

variable {cs ds : List Char}

theorem of_notMem (h : ∀ c ∈ cs, c ∉ marks) : Clean cs where
  comment := by
    induction cs with
    | nil => exact .nil
    | cons c cs ih =>
      obtain ⟨hc, hcs⟩ := List.forall_mem_cons.mp h
      exact List.isChain_cons.mpr ⟨fun _ _ => apart_of_left hc, ih hcs⟩
  semicolon h' := h _ h' (by decide)

/-- Clean texts are clean one after the other, unless a comment begins where they meet. -/
theorem append (hc : Clean cs) (hd : Clean ds)
    (hmeet : ∀ a ∈ cs.getLast?, ∀ b ∈ ds.head?, Apart a b) : Clean (cs ++ ds) where
  comment := List.isChain_append.mpr ⟨hc.comment, hd.comment, hmeet⟩
  semicolon h := (List.mem_append.mp h).elim hc.semicolon hd.semicolon

theorem cons {c : Char} (hmark : c ≠ ';') (hd : Clean ds) (hmeet : ∀ b ∈ ds.head?, Apart c b) :
    Clean (c :: ds) where
  comment := List.isChain_cons.mpr ⟨hmeet, hd.comment⟩
  semicolon h := (List.mem_cons.mp h).elim (fun h => hmark h.symm) hd.semicolon

/-- A character that neither begins a comment nor goes on with one stands anywhere. -/
theorem append_cons {c : Char} (hc : Clean cs) (hmark : c ∉ marks ∧ c ≠ '*') (hd : Clean ds) :
    Clean (cs ++ c :: ds) := by
  have hne : c ≠ '-' ∧ c ≠ ';' := by
    refine ⟨?_, ?_⟩ <;> rintro rfl <;> exact hmark.1 (by decide)
  refine hc.append (.cons hne.2 hd fun _ _ => apart_of_left hmark.1) ?_
  rintro a - b ⟨⟩
  exact apart_of_right ⟨hne.1, hmark.2⟩

theorem enclose (hc : Clean cs) : Clean ('(' :: (cs ++ [')'])) := by
  have hclose : Clean [')'] := ⟨.singleton _, by decide⟩
  refine .cons (by decide) (hc.append hclose ?_) fun _ _ => ⟨by simp, by simp⟩
  rintro a - b ⟨⟩
  exact apart_of_right (by decide)

/-- Nowhere in a clean text does a comment begin. -/
theorem not_infix {a b : Char} (hc : Clean cs) (h : ¬Apart a b) : ¬[a, b] <:+: cs :=
  fun hinfix => h <| List.isChain_pair.mp <| hc.comment.infix hinfix

end Clean

/-- Masking keeps a layout spaced. -/
theorem Spaced.mask {ps : List Piece} (h : Spaced ps) : Spaced (ps.map Piece.mask) := by
  induction h with
  | @token t ht =>
    refine .token ?_
    cases t <;> exact ht
  | gap _ _ ihp ihq =>
    rw [List.map_append]
    exact .gap ihp ihq
  | comma _ _ ihp ihq =>
    rw [List.map_append]
    exact .comma ihp ihq
  | enclose _ ih =>
    rw [map_mask_enclose]
    exact .enclose ih
  | call hw _ ih =>
    rw [List.map_cons, map_mask_enclose]
    exact .call hw ih
  | minus _ h ih => exact .minus ih (mt head?_map_mask_iff.mp h)
  | tilde _ ih => exact .tilde ih

/-- **In the outline of a spaced layout no comment begins**, since a minus stands before no other
minus and a slash before a gap. -/
theorem Spaced.clean_outline {ps : List Piece} (h : Spaced ps) : Clean (outline ps) := by
  induction h with
  | @token t ht =>
    rw [outline_token_cons, outline_nil, List.append_nil]
    by_cases hs : ∃ s, t = .symbol s
    · obtain ⟨s, rfl⟩ := hs
      have hall : ∀ s ∈ plainSymbols, s.toList.IsChain Apart ∧ ';' ∉ s.toList := by decide
      exact ⟨(hall s ht).1, (hall s ht).2⟩
    · exact .of_notMem (ht.mark_notMem (not_exists.mp hs))
  | gap _ _ ihp ihq =>
    rw [outline_append, outline_gap_cons]
    exact ihp.append_cons (by decide) ihq
  | @comma ps qs _ _ ihp ihq =>
    have hgap : Clean (' ' :: outline qs) :=
      .cons (by decide) ihq fun _ _ => apart_of_left (by decide)
    rw [outline_append]
    exact ihp.append_cons (by decide) hgap
  | enclose _ ih =>
    rw [outline_enclose]
    exact ih.enclose
  | @call w ps hw _ ih =>
    have hword : Clean w.toList :=
      .of_notMem (Token.IsPlain.mark_notMem (t := .word w) hw fun _ => Token.noConfusion)
    rw [outline_word_cons, outline_enclose]
    refine hword.append ih.enclose ?_
    rintro a - b ⟨⟩
    exact apart_of_right (by decide)
  | @minus ps hp hhead ih =>
    refine .cons (by decide) ih fun b hb => ⟨?_, fun h => absurd h.1 (by decide)⟩
    -- the outline begins with a minus only if the layout does
    rintro ⟨-, rfl⟩
    exact hhead (head?_map_mask_iff.mp (hp.mask.head?_spell_eq_minus_iff.mp hb))
  | tilde _ ih => exact .cons (by decide) ih fun _ _ => apart_of_left (by decide)

/-! ### Balanced layouts -/

/-- A plain token other than a parenthesis. -/
theorem Token.IsPlain.balanced {t : Token} (ht : t.IsPlain)
    (hs : t ≠ .symbol "(" ∧ t ≠ .symbol ")") : Balanced (outline [.token t]) := by
  rw [outline_token_cons, outline_nil, List.append_nil]
  by_cases hsymbol : ∃ s, t = .symbol s
  · obtain ⟨s, rfl⟩ := hsymbol
    have hall : ∀ s ∈ plainSymbols, s ≠ "(" ∧ s ≠ ")" → '(' ∉ s.toList ∧ ')' ∉ s.toList := by
      decide
    have hnone := hall s ht (by simpa using hs)
    exact .of_notMem hnone.1 hnone.2
  · have hnone := ht.mark_notMem (not_exists.mp hsymbol)
    exact .of_notMem (fun h => hnone _ h (by decide)) fun h => hnone _ h (by decide)

namespace Balanced

variable {ps qs : List Piece}

theorem word {w : String} (hw : Identifier.isWord w.toList = true) :
    Balanced (outline [.word w]) := Token.IsPlain.balanced (t := .word w) hw ⟨nofun, nofun⟩

theorem gap : Balanced (outline [.gap]) := .of_notMem (by decide) (by decide)

theorem append_layout (hp : Balanced (outline ps)) (hq : Balanced (outline qs)) :
    Balanced (outline (ps ++ qs)) := by
  rw [outline_append]
  exact hp.append hq

theorem enclose_layout (hp : Balanced (outline ps)) : Balanced (outline (Sql.enclose ps)) := by
  rw [outline_enclose]
  exact hp.enclose

theorem word_gap {w : String} (hw : Identifier.isWord w.toList = true)
    (hp : Balanced (outline ps)) : Balanced (outline (.word w :: .gap :: ps)) :=
  (word hw).append_layout (gap.append_layout hp)

/-- Balanced layouts are balanced with a balanced one between any two. -/
theorem separate {sep : List Piece} (hsep : Balanced (outline sep)) {items : List (List Piece)}
    (h : ∀ ps ∈ items, Balanced (outline ps)) : Balanced (outline (Sql.separate sep items)) := by
  induction items with
  | nil => exact .of_notMem List.not_mem_nil List.not_mem_nil
  | cons ps items ih =>
    obtain ⟨hps, hitems⟩ := List.forall_mem_cons.mp h
    cases items with
    | nil => simpa [Sql.separate] using hps
    | cons qs items =>
      rw [separate_cons_cons]
      exact hps.append_layout (hsep.append_layout (ih hitems))

theorem commas {items : List (List Piece)} (h : ∀ ps ∈ items, Balanced (outline ps)) :
    Balanced (outline (Sql.commas items)) :=
  separate (.of_notMem (by decide) (by decide)) h

end Balanced

namespace Phrase

variable {ps qs : List Piece}

theorem balanced_wrap {t : Phrase} (h : Balanced (outline ps)) :
    Balanced (outline (t.wrap ps)) := by
  rw [wrap]
  split_ifs
  · exact h.enclose_layout
  · exact h

theorem balanced_beforeLayout (op : UnaryOp) (h : Balanced (outline ps)) :
    Balanced (outline (beforeLayout op ps)) := by
  have hsign : ∀ {s : String}, s ∈ ["-", "~"] → ∀ {qs : List Piece}, Balanced (outline qs) →
      Balanced (outline (.symbol s :: qs)) := by
    intro s hs qs hq
    have hnone : '(' ∉ s.toList ∧ ')' ∉ s.toList := by
      rcases List.mem_pair.mp hs with rfl | rfl <;> decide
    rw [outline_symbol_cons]
    exact (Balanced.of_notMem hnone.1 hnone.2).append hq
  cases op with
  | not => exact .word_gap (by decide) h
  | negate =>
    rw [beforeLayout]
    split_ifs
    · exact hsign (by decide) h.enclose_layout
    · exact hsign (by decide) h
  | bitNot => exact hsign (by decide) h

/-- A connective between balanced operands is balanced. -/
theorem balanced_betweenLayout (c : Connective) (hp : Balanced (outline ps))
    (hq : Balanced (outline qs)) : Balanced (outline (betweenLayout c ps qs)) := by
  have hc : Balanced (outline c.layout) := by
    cases c with
    | operator op h =>
      cases op <;> cases h <;> exact .of_notMem (by decide) (by decide)
    | is => exact .of_notMem (by decide) (by decide)
    | isNot => exact .of_notMem (by decide) (by decide)
  have hall := hp.append_layout (Balanced.gap.append_layout
    (hc.append_layout (Balanced.gap.append_layout hq)))
  rw [betweenLayout]
  split_ifs
  · exact hall
  · exact hall.enclose_layout

/-- **Parentheses in a written phrase are balanced.** -/
theorem Writable.balanced {t : Phrase} (h : t.Writable) : Balanced (outline t.layout) := by
  induction t with
  | null => exact .word (by decide)
  | integer n =>
    have hnumber := Literal.isUnsignedNumeric_iff.mpr (.inl (Digits.isDigits_ofNat n))
    exact Token.IsPlain.balanced (t := .number _) hnumber ⟨nofun, nofun⟩
  | real x =>
    have hnumber := (Floating.nearest_realText h.1 h.2).1
    exact Token.IsPlain.balanced (t := .number _) hnumber ⟨nofun, nofun⟩
  | text cs => exact Token.IsPlain.balanced (t := .text cs) trivial ⟨nofun, nofun⟩
  | placeholder p => exact Token.IsPlain.balanced (t := .placeholder p) h ⟨nofun, nofun⟩
  | column c => exact .word (isWord_of_isValid h)
  | call func arg =>
    have hname : Balanced (outline [.word func.name]) := .word (by cases func <;> decide)
    have harg : Balanced (outline [.token (argument arg)]) := by
      cases arg with
      | none => exact .of_notMem (by decide) (by decide)
      | some c => exact .word (isWord_of_isValid (h c rfl))
    exact hname.append_layout harg.enclose_layout
  | before op e ih => exact balanced_beforeLayout op (balanced_wrap (ih h))
  | between c l r ihl ihr =>
    exact balanced_betweenLayout c (balanced_wrap (ihl h.1)) (balanced_wrap (ihr h.2))

end Phrase

/-- The parentheses of a constraint are balanced. -/
theorem Attribute.Writable.balanced {a : Attribute} (h : a.Writable) :
    Balanced (outline a.layout) := by
  cases a with
  | default t => exact .word_gap (by decide) h.1.balanced
  | check t =>
    have hword : Balanced (outline [.word "CHECK"]) := .word (by decide)
    exact hword.append_layout (Phrase.Writable.balanced h).enclose_layout
  | _ => exact .of_notMem (by decide) (by decide)

/-- The parentheses of a column are balanced. -/
theorem ColumnForm.Writable.balanced {c : ColumnForm} (h : c.Writable) :
    Balanced (outline c.layout) := by
  refine .separate .gap ?_
  simp only [List.forall_mem_cons, List.forall_mem_map]
  exact ⟨.word h.name, .word (by cases c.type <;> decide), fun a ha => (h.attributes a ha).balanced⟩

/-- The parentheses of a definition are balanced. -/
theorem TableForm.Writable.balanced {f : TableForm} (h : f.Writable) :
    Balanced (outline f.layout) := by
  have hcolumns : Balanced (outline (commas (f.columns.map ColumnForm.layout))) := by
    refine .commas ?_
    rw [List.forall_mem_map]
    exact fun c hc => (h.columns c hc).balanced
  exact .word_gap (by decide) (.word_gap (by decide) (.word_gap h.name hcolumns.enclose_layout))

/-! ### Tidy texts -/

/-- Whether a text is that of a spaced layout with balanced parentheses. -/
def Tidy (cs : List Char) : Prop := ∃ ps, Spaced ps ∧ Balanced (outline ps) ∧ cs = spell ps

namespace Tidy

variable {cs ds : List Char}

/-- **A tidy text is lexically sound.** -/
theorem lexicallySound {text : String} (h : Tidy text.toList) : LexicallySound text := by
  obtain ⟨ps, hspaced, hbalanced, htext⟩ := h
  have hclean := hspaced.clean_outline
  exact ⟨outline ps, htext ▸ hspaced.outside?_spell, hbalanced, hclean.not_infix (by decide),
    hclean.not_infix (by decide), hclean.semicolon⟩

theorem of_eq (h : Tidy cs) (hd : ds = cs) : Tidy ds := hd ▸ h

/-- A plain token that is no parenthesis is tidy. -/
theorem token {t : Token} (ht : t.IsPlain) (hs : t ≠ .symbol "(" ∧ t ≠ .symbol ")") :
    Tidy t.spelling := ⟨[.token t], .token ht, ht.balanced hs, by simp⟩

theorem word {w : String} (hw : Identifier.isWord w.toList = true) : Tidy w.toList :=
  token (t := .word w) hw ⟨nofun, nofun⟩

theorem symbol {s : String} (hs : s ∈ plainSymbols) (hne : s ≠ "(" ∧ s ≠ ")") : Tidy s.toList :=
  token (t := .symbol s) hs (by simpa using hne)

theorem number {cs : List Char} (h : Literal.isUnsignedNumeric cs = true) : Tidy cs :=
  token (t := .number cs) h ⟨nofun, nofun⟩

theorem gap (hc : Tidy cs) (hd : Tidy ds) : Tidy (cs ++ ' ' :: ds) := by
  obtain ⟨ps, hps, hp, rfl⟩ := hc
  obtain ⟨qs, hqs, hq, rfl⟩ := hd
  exact ⟨ps ++ .gap :: qs, .gap hps hqs, hp.append_layout (Balanced.gap.append_layout hq), by simp⟩

theorem enclose (hc : Tidy cs) : Tidy ('(' :: (cs ++ [')'])) := by
  obtain ⟨ps, hps, hp, rfl⟩ := hc
  exact ⟨Sql.enclose ps, .enclose hps, hp.enclose_layout, by simp⟩

/-- A minus may stand in front of a tidy text that does not begin with one. -/
theorem minus (hc : Tidy cs) (hhead : cs.head? ≠ some '-') : Tidy ('-' :: cs) := by
  obtain ⟨ps, hps, hp, rfl⟩ := hc
  refine ⟨.symbol "-" :: ps, .minus hps (mt hps.head?_spell_eq_minus_iff.mpr hhead), ?_, by simp⟩
  rw [outline_symbol_cons]
  exact (Balanced.of_notMem (by decide) (by decide)).append hp

/-- Tidy texts with commas between them. -/
theorem commas {α : Type} {text : α → List Char} {items : List α} (hne : items ≠ [])
    (h : ∀ a ∈ items, Tidy (text a)) : Tidy (", ".toList.intercalate (items.map text)) := by
  choose! layout hspaced hbalanced htext using h
  refine ⟨Sql.commas (items.map layout), spaced_commas (by simpa using hne) ?_, .commas ?_, ?_⟩
  · exact List.forall_mem_map.mpr hspaced
  · exact List.forall_mem_map.mpr hbalanced
  · rw [Sql.commas, spell_separate, List.map_map, List.map_congr_left htext]
    rfl

end Tidy

end Sql

end SqlRecord
