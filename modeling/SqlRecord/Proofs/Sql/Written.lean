import SqlRecord.Proofs.Definition.Parts

/-!
# Tokens as they are written

A text as a reader of tokens sees it: each token with the characters that it is written with and the
white space in front of them. Main statements: `solid_of_token?`, by which the spelling of a token
leaves no literal open and has no white space at its ends, and `IsRead.tokens?_eq`, by which a text
that is put together from tokens reads as these tokens.
-/

namespace SqlRecord

namespace Sql

open Definition (isOpen isBlank)

/-! ### Solid texts -/

/-- Characters that leave no literal open and have no white space at their ends. -/
structure Solid (cs : List Char) : Prop where
  ne_nil : cs ≠ []
  closed : isOpen false cs = false
  head : ∀ c ∈ cs.head?, isBlank c = false
  last : ∀ c ∈ cs.getLast?, isBlank c = false

theorem isOpen_of_notMem {cs : List Char} (h : '\'' ∉ cs) (literal : Bool) :
    isOpen literal cs = literal := by
  induction cs generalizing literal with
  | nil => rfl
  | cons c cs ih =>
    rw [List.mem_cons, not_or] at h
    rw [isOpen, beq_eq_false_iff_ne.mpr (Ne.symm h.1), Bool.xor_false, ih h.2]

/-- Whether a character is neither white space nor a quote. -/
def isSmooth (c : Char) : Bool := !isBlank c && c != '\''

theorem isSmooth_iff {c : Char} : isSmooth c = true ↔ isBlank c = false ∧ c ≠ '\'' := by
  rw [isSmooth, Bool.and_eq_true, Bool.not_eq_true', bne_iff_ne]

/-- Smooth characters are solid. -/
theorem Solid.of_forall {cs : List Char} (hne : cs ≠ []) (h : ∀ c ∈ cs, isSmooth c = true) :
    Solid cs where
  ne_nil := hne
  closed := isOpen_of_notMem (fun hquote => (isSmooth_iff.mp (h _ hquote)).2 rfl) false
  head _ hc := (isSmooth_iff.mp (h _ (List.mem_of_mem_head? hc))).1
  last _ hc := (isSmooth_iff.mp (h _ (List.mem_of_getLast? hc))).1

/-- Characters between two marks that are not white space are solid if they leave no literal
open. -/
theorem Solid.of_marks {c d : Char} {cs : List Char} (hc : isBlank c = false)
    (hd : isBlank d = false) (hclosed : isOpen false (c :: (cs ++ [d])) = false) :
    Solid (c :: (cs ++ [d])) where
  ne_nil := List.cons_ne_nil _ _
  closed := hclosed
  head e he := by
    cases he
    exact hc
  last e he := by
    rw [← List.cons_append, List.getLast?_concat] at he
    cases he
    exact hd

/-! ### What readers pass -/

/-- What a reader of quoted text passes ends with the quote, and single quotes close what they
opened. -/
theorem quoted?_eq_some {q : Char} {cs content rest : List Char}
    (h : quoted? q cs = some (content, rest)) :
    ∃ body, cs = body ++ q :: rest ∧ (q = '\'' → isOpen true body = true) := by
  fun_induction quoted? q cs generalizing content rest with
  | case1 => cases h
  | case2 ds ih =>
    -- a quote that is written twice
    obtain ⟨⟨more, rest'⟩, hread, heq⟩ := Option.map_eq_some_iff.mp h
    obtain ⟨-, rfl⟩ := Prod.mk.inj heq
    obtain ⟨body, rfl, hopen⟩ := ih hread
    refine ⟨q :: q :: body, rfl, fun hq => ?_⟩
    subst hq
    exact hopen rfl
  | case3 =>
    cases h
    exact ⟨[], rfl, fun _ => rfl⟩
  | case4 =>
    cases h
    exact ⟨[], rfl, fun _ => rfl⟩
  | case5 c ds hc ih =>
    obtain ⟨⟨more, rest'⟩, hread, heq⟩ := Option.map_eq_some_iff.mp h
    obtain ⟨-, rfl⟩ := Prod.mk.inj heq
    obtain ⟨body, rfl, hopen⟩ := ih hread
    refine ⟨c :: body, rfl, fun hq => ?_⟩
    subst hq
    rw [isOpen, beq_eq_false_iff_ne.mpr hc]
    exact hopen rfl

/-- Whether a character may stand in a number. -/
def isNumberPart (c : Char) : Bool := c.isDigit || ['.', 'e', 'E', '+', '-'].contains c

theorem takeWhile_append_drop (p : Char → Bool) (cs : List Char) :
    cs.takeWhile p ++ cs.drop (cs.takeWhile p).length = cs :=
  List.prefix_iff_eq_append.mp (List.takeWhile_prefix p)

theorem isNumberPart_of_mem_takeWhile {cs : List Char} {c : Char}
    (h : c ∈ cs.takeWhile Char.isDigit) : isNumberPart c = true := by
  rw [isNumberPart, List.mem_takeWhile_imp h, Bool.true_or]

/-- An exponent is cut off a text. -/
theorem spanExponent_spec (cs : List Char) :
    (Numeral.spanExponent cs).1 ++ (Numeral.spanExponent cs).2 = cs ∧
      ∀ c ∈ (Numeral.spanExponent cs).1, isNumberPart c = true := by
  cases cs with
  | nil => exact ⟨rfl, List.forall_mem_nil _⟩
  | cons e rest =>
    have hsplit : ∃ sign digits, (Numeral.spanExponent (e :: rest)) =
        (if (e = 'e' || e = 'E') && !(digits.takeWhile Char.isDigit).isEmpty then
          (e :: sign ++ digits.takeWhile Char.isDigit,
            digits.drop (digits.takeWhile Char.isDigit).length)
        else ([], e :: rest)) ∧ sign ++ digits = rest ∧ ∀ c ∈ sign, isNumberPart c = true := by
      cases rest with
      | nil => exact ⟨[], [], rfl, rfl, List.forall_mem_nil _⟩
      | cons s more =>
        by_cases hs : s = '+' ∨ s = '-'
        · refine ⟨[s], more, ?_, rfl, ?_⟩
          · simp [Numeral.spanExponent, hs]
          · rw [List.forall_mem_singleton]
            rcases hs with rfl | rfl <;> rfl
        · exact ⟨[], s :: more, by simp [Numeral.spanExponent, hs], rfl, List.forall_mem_nil _⟩
    obtain ⟨sign, digits, hspan, rfl, hsign⟩ := hsplit
    rw [hspan]
    split_ifs with he
    · simp only [Bool.and_eq_true, Bool.or_eq_true, decide_eq_true_eq] at he
      refine ⟨?_, ?_⟩
      · simp [takeWhile_append_drop]
      · rw [List.cons_append, List.forall_mem_cons, List.forall_mem_append]
        refine ⟨?_, hsign, fun c hc => isNumberPart_of_mem_takeWhile hc⟩
        rcases he.1 with rfl | rfl <;> rfl
    · exact ⟨rfl, List.forall_mem_nil _⟩

/-- A number is cut off a text. -/
theorem span_spec (cs : List Char) :
    (Numeral.span cs).1 ++ (Numeral.span cs).2 = cs ∧
      ∀ c ∈ (Numeral.span cs).1, isNumberPart c = true := by
  have hsplit : ∃ fraction rest, Numeral.span cs =
      (cs.takeWhile Char.isDigit ++ fraction ++ (Numeral.spanExponent rest).1,
        (Numeral.spanExponent rest).2) ∧
      fraction ++ rest = cs.drop (cs.takeWhile Char.isDigit).length ∧
      ∀ c ∈ fraction, isNumberPart c = true := by
    rw [Numeral.span]
    cases hdrop : cs.drop (cs.takeWhile Char.isDigit).length with
    | nil => exact ⟨[], [], rfl, rfl, List.forall_mem_nil _⟩
    | cons c rest =>
      by_cases hc : c = '.'
      · subst hc
        refine ⟨'.' :: rest.takeWhile Char.isDigit,
          rest.drop (rest.takeWhile Char.isDigit).length, rfl, ?_, ?_⟩
        · rw [List.cons_append, takeWhile_append_drop]
        · exact List.forall_mem_cons.mpr ⟨rfl, fun c hc => isNumberPart_of_mem_takeWhile hc⟩
      · refine ⟨[], c :: rest, ?_, rfl, List.forall_mem_nil _⟩
        simp [hc]
  obtain ⟨fraction, rest, hspan, hrest, hfraction⟩ := hsplit
  obtain ⟨hexponent, hchars⟩ := spanExponent_spec rest
  rw [hspan]
  dsimp only
  constructor
  · rw [List.append_assoc, hexponent, List.append_assoc, hrest, takeWhile_append_drop]
  · rw [List.forall_mem_append, List.forall_mem_append]
    exact ⟨⟨fun c hc => isNumberPart_of_mem_takeWhile hc, hfraction⟩, hchars⟩

/-! ### What tokens are written with -/

/-- Whether a token is written as definitions are compared: a name between quotes of its own kind
has no single quote in it, and no word or placeholder has white space in it. Of white space, words
may have that beyond ASCII, where every character counts as a letter. -/
def Token.IsOrdinary (spelling : List Char) : Token → Prop
  | name _ => '\'' ∉ spelling
  | word _ | placeholder _ => ∀ c ∈ spelling, isBlank c = false
  | number _ | text _ | bytes _ | symbol _ => True

variable {spelling rest : List Char} {t : Token}

theorem isSmooth_of_isWordPart {c : Char} (hc : isWordPart c = true) (hblank : isBlank c = false) :
    isSmooth c = true := by
  refine isSmooth_iff.mpr ⟨hblank, ?_⟩
  rintro rfl
  exact absurd hc (by decide)

theorem isSmooth_of_isDigit {c : Char} (hc : c.isDigit = true) : isSmooth c = true :=
  Identifier.forall_isPart (P := fun c => isSmooth c = true) (by decide)
    (Identifier.isPart_of_isDigit hc)

/-- Whatever is written between two quotes and closes what it opened is solid. -/
theorem solid_of_quoted? {q : Char} {cs content : List Char} (hq : isBlank q = false)
    (h : quoted? q (cs ++ rest) = some (content, rest)) (hopen : q ≠ '\'' → '\'' ∉ q :: cs) :
    Solid (q :: cs) := by
  obtain ⟨body, hbody, hinside⟩ := quoted?_eq_some h
  have hsplit : cs ++ rest = body ++ [q] ++ rest := by
    rw [hbody, List.append_assoc, List.singleton_append]
  obtain rfl := List.append_cancel_right hsplit
  refine .of_marks hq hq ?_
  by_cases hquote : q = '\''
  · subst hquote
    rw [isOpen, Definition.isOpen_append]
    exact congrArg (isOpen · ['\'']) (hinside rfl)
  · exact isOpen_of_notMem (hopen hquote) false

/-- A symbol is a mark of smooth characters. -/
theorem symbol?_eq_some {cs : List Char} (h : symbol? cs = some (t, rest)) :
    ∃ mark, cs = mark ++ rest ∧ ∀ c ∈ mark, isSmooth c = true := by
  have hpairs : (pairSymbols.all fun p => isSmooth p.1 && isSmooth p.2) = true := by decide
  have hsingles : singleSymbols.all isSmooth = true := by decide
  have hsingle {c : Char} {cs : List Char} (h : (if singleSymbols.contains c then
      some (Token.symbol (String.singleton c), cs) else none) = some (t, rest)) :
      ∃ mark, c :: cs = mark ++ rest ∧ ∀ c ∈ mark, isSmooth c = true := by
    split_ifs at h with hc
    cases h
    refine ⟨[c], rfl, List.forall_mem_singleton.mpr ?_⟩
    exact List.all_eq_true.mp hsingles c (List.contains_iff_mem.mp hc)
  cases cs with
  | nil => cases h
  | cons c cs => cases cs with
    | nil => exact hsingle h
    | cons d cs =>
      rw [symbol?.eq_def] at h
      dsimp only at h
      split_ifs at h with hpair hc
      · cases h
        have hsmooth := List.all_eq_true.mp hpairs _ (List.contains_iff_mem.mp hpair)
        rw [Bool.and_eq_true] at hsmooth
        exact ⟨[c, d], rfl, by simpa using hsmooth⟩
      · exact hsingle (by rw [if_pos hc, h])

/-- A symbol is solid where it is read. -/
theorem solid_of_symbol? (hne : spelling ≠ []) (h : symbol? (spelling ++ rest) = some (t, rest)) :
    Solid spelling := by
  obtain ⟨mark, hmark, hsmooth⟩ := symbol?_eq_some h
  obtain rfl := List.append_cancel_right hmark
  exact .of_forall hne hsmooth

theorem isSmooth_of_isNumberPart {c : Char} (hc : isNumberPart c = true) : isSmooth c = true := by
  rw [isNumberPart, Bool.or_eq_true, List.contains_iff_mem] at hc
  rcases hc with hc | hc
  · exact isSmooth_of_isDigit hc
  · have hmarks : ['.', 'e', 'E', '+', '-'].all isSmooth = true := by decide
    exact List.all_eq_true.mp hmarks c hc

/-- A number is solid where it is read. -/
theorem solid_of_number? (hne : spelling ≠ []) (h : number? (spelling ++ rest) = some (t, rest)) :
    Solid spelling := by
  obtain ⟨happend, hchars⟩ := span_spec (spelling ++ rest)
  -- the number is what is read, since the text after it is the same
  have hafter : (Numeral.span (spelling ++ rest)).2 = rest := by
    rw [number?] at h
    cases hspan : Numeral.span (spelling ++ rest) with
    | mk number after =>
      rw [hspan] at h
      cases after with
      | nil =>
        cases h
        rfl
      | cons c after =>
        dsimp only at h
        split_ifs at h
        cases h
        rfl
  rw [hafter, List.append_cancel_right_eq] at happend
  rw [happend] at hchars
  exact .of_forall hne fun c hc => isSmooth_of_isNumberPart (hchars c hc)

/-- An ordinary placeholder is solid where it is read. -/
theorem solid_of_placeholder? {mark : Char} {cs : List Char} (hmark : mark ∈ [':', '@', '$', '?'])
    (h : placeholder? mark (cs ++ rest) = some (t, rest)) (hord : t.IsOrdinary (mark :: cs)) :
    Solid (mark :: cs) := by
  rw [placeholder?] at h
  generalize hp : (if mark = '?' then Char.isDigit else isWordPart) = p at h
  split_ifs at h
  obtain ⟨rfl, hrest⟩ := Prod.mk.inj (Option.some.inj h)
  have hname := takeWhile_append_drop p (cs ++ rest)
  rw [hrest, List.append_cancel_right_eq] at hname
  have hpart (c : Char) (hc : p c = true) : isWordPart c = true := by
    rw [← hp] at hc
    split_ifs at hc
    · exact isWordPart_of_isPart (Identifier.isPart_of_isDigit hc)
    · exact hc
  have hblank := List.forall_mem_cons.mp hord
  refine .of_forall (List.cons_ne_nil _ _) (List.forall_mem_cons.mpr ⟨?_, fun c hc => ?_⟩)
  · have hmarks : [':', '@', '$', '?'].all isSmooth = true := by decide
    exact List.all_eq_true.mp hmarks mark hmark
  · exact isSmooth_of_isWordPart (hpart c (List.mem_takeWhile_imp (hname ▸ hc))) (hblank.2 c hc)

/-- Bytes are solid where they are read. -/
theorem solid_of_bytes? {mark : Char} {cs digits : List Char} (hmark : mark = 'x' ∨ mark = 'X')
    (hquote : (cs ++ rest).head? = some '\'')
    (h : quoted? '\'' ((cs ++ rest).drop 1) = some (digits, rest)) : Solid (mark :: cs) := by
  obtain ⟨body, hbody, hinside⟩ := quoted?_eq_some h
  have hsplit : cs ++ rest = '\'' :: body ++ ['\''] ++ rest := by
    obtain ⟨after, hafter⟩ := List.head?_eq_some_iff.mp hquote
    rw [hafter, List.drop_one, List.tail_cons] at hbody
    rw [hafter, hbody, List.append_assoc, List.singleton_append, List.cons_append]
  obtain rfl := List.append_cancel_right hsplit
  have hclosed : isOpen true (body ++ ['\'']) = false := by
    rw [Definition.isOpen_append, hinside rfl]
    rfl
  rcases hmark with rfl | rfl <;> exact .of_marks rfl rfl hclosed

/-- A word without white space is solid. -/
theorem solid_of_word {c : Char} {cs : List Char}
    (hrest : (c :: (cs ++ rest)).drop ((c :: (cs ++ rest)).takeWhile isWordPart).length = rest)
    (hblank : ∀ d ∈ c :: cs, isBlank d = false) : Solid (c :: cs) := by
  have hword := takeWhile_append_drop isWordPart (c :: (cs ++ rest))
  rw [hrest, ← List.cons_append, List.append_cancel_right_eq] at hword
  refine .of_forall (List.cons_ne_nil _ _) fun d hd => ?_
  exact isSmooth_of_isWordPart (List.mem_takeWhile_imp (hword ▸ hd)) (hblank d hd)

/-- **The spelling of an ordinary token is solid.** -/
theorem solid_of_token? (hne : spelling ≠ []) (h : token? (spelling ++ rest) = some (t, rest))
    (hord : t.IsOrdinary spelling) : Solid spelling := by
  obtain ⟨c, cs, rfl⟩ := List.exists_cons_of_ne_nil hne
  rw [List.cons_append, token?] at h
  split_ifs at h with hbytes hword hnumber htext hname hmark
  · obtain ⟨⟨digits, after⟩, hread, h⟩ := Option.bind_eq_some_iff.mp h
    obtain ⟨bytes, -, h⟩ := Option.bind_eq_some_iff.mp h
    cases h
    simp only [Bool.and_eq_true, Bool.or_eq_true, decide_eq_true_eq] at hbytes
    exact solid_of_bytes? hbytes.1 hbytes.2 hread
  · obtain ⟨rfl, hrest⟩ := Prod.mk.inj (Option.some.inj h)
    exact solid_of_word hrest hord
  · exact solid_of_number? hne h
  · obtain ⟨⟨content, after⟩, hread, h⟩ := Option.map_eq_some_iff.mp h
    obtain ⟨-, rfl⟩ := Prod.mk.inj h
    exact solid_of_quoted? (by rw [htext]; rfl) hread (absurd htext ·)
  · obtain ⟨⟨content, after⟩, hread, h⟩ := Option.map_eq_some_iff.mp h
    obtain ⟨rfl, rfl⟩ := Prod.mk.inj h
    refine solid_of_quoted? ?_ hread fun _ => hord
    simp only [Bool.or_eq_true, decide_eq_true_eq] at hname
    rcases hname with rfl | rfl <;> rfl
  · exact solid_of_placeholder? (by simpa using hmark) h hord
  · exact solid_of_symbol? hne h

/-! ### Spellings up to case -/

/-- Characters with letters in lower case, except inside literals; `literal` tells whether one is
open in front of them. -/
def foldSpelling (literal : Bool) : List Char → List Char
  | [] => []
  | c :: cs => (if literal then c else c.toLower) :: foldSpelling (literal ^^ c == '\'') cs

/-- Folding the case outside literals does not touch their quotes. -/
theorem isOpen_foldSpelling (literal : Bool) (cs : List Char) :
    isOpen literal (foldSpelling literal cs) = isOpen literal cs := by
  induction cs generalizing literal with
  | nil => rfl
  | cons c cs ih =>
    cases literal with
    | true => exact ih _
    | false =>
      rw [foldSpelling, if_neg Bool.false_ne_true, isOpen, isOpen, Definition.toLower_beq_quote,
        ih]

/-- Folding the case outside literals does not touch white space. -/
theorem map_isBlank_foldSpelling (literal : Bool) (cs : List Char) :
    (foldSpelling literal cs).map isBlank = cs.map isBlank := by
  induction cs generalizing literal with
  | nil => rfl
  | cons c cs ih =>
    rw [foldSpelling, List.map_cons, ih, List.map_cons]
    cases literal with
    | true => rfl
    | false => exact congrArg (· :: _) (Definition.isBlank_toLower c)

/-- What is equal to solid characters up to case is solid. -/
theorem Solid.of_foldSpelling_eq {cs ds : List Char} (h : Solid cs)
    (heq : foldSpelling false cs = foldSpelling false ds) : Solid ds := by
  have hblank : cs.map isBlank = ds.map isBlank := by
    rw [← map_isBlank_foldSpelling false, heq, map_isBlank_foldSpelling]
  constructor
  · rintro rfl
    exact h.ne_nil (List.map_eq_nil_iff.mp hblank)
  · rw [← isOpen_foldSpelling, ← heq, isOpen_foldSpelling, h.closed]
  · intro d hd
    have hhead := congrArg List.head? hblank
    rw [List.head?_map, List.head?_map, Option.mem_def.mp hd] at hhead
    obtain ⟨c, hc, hcd⟩ := Option.map_eq_some_iff.mp hhead
    rw [← hcd, h.head c hc]
  · intro d hd
    have hlast := congrArg List.getLast? hblank
    rw [List.getLast?_map, List.getLast?_map, Option.mem_def.mp hd] at hlast
    obtain ⟨c, hc, hcd⟩ := Option.map_eq_some_iff.mp hlast
    rw [← hcd, h.last c hc]

/-! ### Texts of tokens -/

/-- A token as it is written, with the white space in front of it. -/
structure Written where
  gap : List Char
  spelling : List Char
  token : Token

/-- Tokens one after the other, with white space after the last one. -/
def written (ws : List Written) (last : List Char) : List Char :=
  ws.foldr (fun w rest => w.gap ++ (w.spelling ++ rest)) last

namespace Written

/-- Whether there is white space in front of a token. -/
def isSpaced (w : Written) : Bool := !w.gap.isEmpty

/-- How a token is written up to case. Literals are kept as they are. -/
def folded (w : Written) : List Char := foldSpelling false w.spelling

/-- Whether a token is read where it is written, in front of a text: what stands before it is white
space, and no comment begins with it. -/
structure IsReadBefore (w : Written) (rest : List Char) : Prop where
  gap : ∀ c ∈ w.gap, isSpace c = true
  ne_nil : w.spelling ≠ []
  noComment : skipGap .open (w.spelling ++ rest) = w.spelling ++ rest
  token : token? (w.spelling ++ rest) = some (w.token, rest)

/-- What it is for a token to be read where it is written. -/
theorem isReadBefore_iff {w : Written} {rest : List Char} :
    w.IsReadBefore rest ↔ w.gap.all isSpace = true ∧ w.spelling ≠ [] ∧
      skipGap .open (w.spelling ++ rest) = w.spelling ++ rest ∧
      token? (w.spelling ++ rest) = some (w.token, rest) := by
  rw [List.all_eq_true]
  exact ⟨fun ⟨h₁, h₂, h₃, h₄⟩ => ⟨h₁, h₂, h₃, h₄⟩, fun ⟨h₁, h₂, h₃, h₄⟩ => ⟨h₁, h₂, h₃, h₄⟩⟩

instance (w : Written) (rest : List Char) : Decidable (w.IsReadBefore rest) :=
  decidable_of_iff' _ isReadBefore_iff

end Written

/-- Whether each token is read where it is written, and only white space is left at the end. -/
def IsRead : List Written → (last : List Char) → Prop
  | [], last => ∀ c ∈ last, isSpace c = true
  | w :: ws, last => w.IsReadBefore (written ws last) ∧ IsRead ws last

instance IsRead.decidable : ∀ (ws : List Written) (last : List Char), Decidable (IsRead ws last)
  | [], last => decidable_of_iff (last.all isSpace = true) List.all_eq_true
  | w :: ws, last =>
    have := IsRead.decidable ws last
    inferInstanceAs (Decidable (w.IsReadBefore (written ws last) ∧ IsRead ws last))

theorem written_cons (w : Written) (ws : List Written) (last : List Char) :
    written (w :: ws) last = w.gap ++ (w.spelling ++ written ws last) := rfl

/-- White space in front is skipped. -/
theorem skipGap_append {gap : List Char} (h : ∀ c ∈ gap, isSpace c = true) (cs : List Char) :
    skipGap .open (gap ++ cs) = skipGap .open cs := by
  induction gap with
  | nil => rfl
  | cons c gap ih =>
    obtain ⟨hc, hgap⟩ := List.forall_mem_cons.mp h
    have hminus : c ≠ '-' := by
      rintro rfl
      exact absurd hc (by decide)
    have hslash : c ≠ '/' := by
      rintro rfl
      exact absurd hc (by decide)
    rw [List.cons_append, skipGap.eq_def]
    split <;> simp_all

/-- **A text of tokens reads as these tokens.** -/
theorem IsRead.tokens?_eq {ws : List Written} {last : List Char} (h : IsRead ws last) :
    tokens? (written ws last) = some (ws.map Written.token) := by
  induction ws with
  | nil =>
    have hskip := skipGap_append h []
    rw [List.append_nil] at hskip
    exact (tokens?_congr_skipGap hskip).trans tokens?_nil
  | cons w ws ih =>
    obtain ⟨hw, hws⟩ := h
    rw [written_cons, tokens?_congr_skipGap (skipGap_append hw.gap _),
      tokens?_token hw.ne_nil hw.noComment hw.token, ih hws]
    rfl

end Sql

end SqlRecord
