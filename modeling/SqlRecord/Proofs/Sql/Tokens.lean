import SqlRecord.Proofs.Characters
import SqlRecord.Proofs.Digits
import SqlRecord.Sql.Token
import Mathlib

/-!
# Tokens of whole texts

`Sql.tokens?` cuts a whole text into tokens. A token is *plain* if it is of the form that the
library writes: a word, an unsigned number, a text literal, a named placeholder or a symbol. Main
statement: `token?_spelling`, by which the spelling of a plain token is read back as that token
before a blank, a closing parenthesis, a comma or the end of the text.
-/

namespace SqlRecord

namespace Sql

theorem skipGap_length_le (gap : Gap) (cs : List Char) :
    (skipGap gap cs).length ≤ cs.length := by
  fun_induction skipGap gap cs <;> simp_all <;> omega

/-- The tokens of a whole text, in which a semicolon is a token like any other. -/
def tokens? (cs : List Char) : Option (List Token) :=
  match _h : skipGap .open cs with
  | [] => some []
  | c :: rest =>
    match token? (c :: rest) with
    | none => none
    | some (t, after) =>
      if after.length ≤ rest.length then (tokens? after).map (t :: ·) else none
termination_by cs.length
decreasing_by
  have := skipGap_length_le .open cs
  rw [_h, List.length_cons] at this
  omega

/-- The tokens of a text are the first one after white space and comments, and those of the rest. -/
theorem tokens?_eq (cs : List Char) :
    tokens? cs = match skipGap .open cs with
      | [] => some []
      | c :: rest => match token? (c :: rest) with
        | none => none
        | some (t, after) =>
          if after.length ≤ rest.length then (tokens? after).map (t :: ·) else none := by
  rw [tokens?]
  split
  next h => rw [h]
  next c rest h => simp only [h]

/-- A text reads like what is left of it after white space and comments. -/
theorem tokens?_congr_skipGap {cs ds : List Char} (h : skipGap .open cs = skipGap .open ds) :
    tokens? cs = tokens? ds := by
  rw [tokens?_eq, tokens?_eq, h]

theorem tokens?_nil : tokens? [] = some [] := by rw [tokens?_eq]; rfl

theorem tokens?_blank (cs : List Char) : tokens? (' ' :: cs) = tokens? cs :=
  tokens?_congr_skipGap rfl

/-- A token in front of a text that does not start with a gap. -/
theorem tokens?_token {t : Token} {cs rest : List Char} (hne : cs ≠ [])
    (hgap : skipGap .open (cs ++ rest) = cs ++ rest) (ht : token? (cs ++ rest) = some (t, rest)) :
    tokens? (cs ++ rest) = (tokens? rest).map (t :: ·) := by
  obtain ⟨c, cs, rfl⟩ := List.exists_cons_of_ne_nil hne
  have hle : rest.length ≤ (cs ++ rest).length := by simp
  rw [tokens?_eq, hgap, List.cons_append]
  rw [List.cons_append] at ht
  simp only [ht, if_pos hle]

/-- The name of a placeholder. -/
def Token.placeholder? : Token → Option String
  | placeholder p => some p
  | _ => none

/-- The names of the placeholders among tokens, from left to right. -/
def placeholdersOf (ts : List Token) : List String := ts.filterMap Token.placeholder?

/-- A token that is a text or a number. -/
def Token.constant? : Token → Option Token
  | text cs => some (text cs)
  | number cs => some (number cs)
  | _ => none

/-- The texts and numbers among tokens, from left to right. -/
def constantsOf (ts : List Token) : List Token := ts.filterMap Token.constant?

/-- Whether a function on tokens skips words and symbols. -/
def SkipsWords {α : Type} (f : Token → Option α) : Prop :=
  (∀ w, f (.word w) = none) ∧ ∀ s, f (.symbol s) = none

theorem skipsWords_placeholder? : SkipsWords Token.placeholder? := ⟨fun _ => rfl, fun _ => rfl⟩

theorem skipsWords_constant? : SkipsWords Token.constant? := ⟨fun _ => rfl, fun _ => rfl⟩

namespace SkipsWords

variable {α : Type} {f : Token → Option α}

theorem filterMap_word (hf : SkipsWords f) (w : String) (ts : List Token) :
    (Token.word w :: ts).filterMap f = ts.filterMap f := List.filterMap_cons_none (hf.1 w)

theorem filterMap_symbol (hf : SkipsWords f) (s : String) (ts : List Token) :
    (Token.symbol s :: ts).filterMap f = ts.filterMap f := List.filterMap_cons_none (hf.2 s)

end SkipsWords

/-! ### Plain tokens -/

/-- The symbols that the library writes. -/
def plainSymbols : List String :=
  ["(", ")", ",", "=", "!=", ">", ">=", "<", "<=", "+", "-", "*", "/", "%", "&", "|", "<<", ">>",
    "~"]

namespace Token

/-- How a token is written. Quoted names and bytes are never written and have no spelling here. -/
def spelling : Token → List Char
  | word w => w.toList
  | number cs => cs
  | text cs => Literal.quoteChars cs
  | placeholder p => p.toList
  | symbol s => s.toList
  | name _ | bytes _ => []

/-- The tokens of the form that the library writes. -/
def IsPlain : Token → Prop
  | word w => Identifier.isWord w.toList = true
  | number cs => Literal.isUnsignedNumeric cs = true
  | text _ => True
  | placeholder p => ∃ mark cs, p.toList = mark :: cs ∧ mark ∈ [':', '@'] ∧ cs ≠ [] ∧
      ∀ c ∈ cs, Identifier.isPart c = true
  | symbol s => s ∈ plainSymbols
  | name _ | bytes _ => False

end Token

/-- The characters that end any plain token: a blank, a closing parenthesis or a comma. -/
def closers : List Char := [' ', ')', ',']

/-- Whether a text may directly follow any plain token. -/
def Closes (rest : List Char) : Prop := ∀ c ∈ rest.head?, c ∈ closers

/-- What may follow any plain token is nothing, or begins with one of the characters that end them. -/
theorem closes_iff {rest : List Char} : Closes rest ↔
    rest = [] ∨ ∃ cs, rest = ' ' :: cs ∨ rest = ')' :: cs ∨ rest = ',' :: cs := by
  cases rest <;> simp [Closes, closers, exists_or]

theorem closes_nil : Closes [] := by simp [Closes]

theorem closes_cons {c : Char} {cs : List Char} (h : c ∈ closers) : Closes (c :: cs) := by
  simpa [Closes] using h

/-! ### Reading single tokens -/

theorem isWordPart_of_isPart {c : Char} (h : Identifier.isPart c = true) : isWordPart c = true :=
  Identifier.forall_isPart (P := fun c => isWordPart c = true) (by decide) h

/-- A word is read up to a character that is no part of words. A quote must not follow either,
since `x` and a quote begin a literal of bytes. -/
theorem token?_word {w : String} {rest : List Char} (hw : Identifier.isWord w.toList = true)
    (hr : ∀ c ∈ rest.head?, isWordPart c = false ∧ c ≠ '\'') :
    token? (w.toList ++ rest) = some (.word w, rest) := by
  obtain ⟨c, cs, hcs, hc, hall⟩ := Identifier.isWord_iff.mp hw
  -- no quote is second, so this is no literal of bytes
  have hbytes : (cs ++ rest).head? ≠ some '\'' := by
    cases cs with
    | nil =>
      intro h
      exact (hr _ h).2 rfl
    | cons d ds =>
      have hd : Identifier.isPart d = true := hall d (by simp [hcs])
      simpa using Identifier.forall_isPart (P := (· ≠ '\'')) (by decide) hd
  have hstart : isWordStart c = true := by simp [isWordStart, hc]
  have htake : (w.toList ++ rest).takeWhile isWordPart = w.toList :=
    takeWhile_append_of_head (fun d hd => isWordPart_of_isPart (hall d hd)) fun d hd => (hr d hd).1
  have hdrop : (w.toList ++ rest).drop w.toList.length = rest := List.drop_left
  rw [hcs] at htake hdrop
  simp only [hcs, List.cons_append] at htake hdrop ⊢
  simp only [token?, hbytes, hstart, htake, hdrop]
  simp [← hcs]

/-- No exponent begins where a token may end. -/
theorem spanExponent_eq {rest : List Char} (hr : ∀ c ∈ rest.head?, isWordPart c = false) :
    Numeral.spanExponent rest = ([], rest) := by
  cases rest with
  | nil => rfl
  | cons c cs =>
    have hc := hr c rfl
    have he : c ≠ 'e' := by rintro rfl; exact absurd hc (by decide)
    have hE : c ≠ 'E' := by rintro rfl; exact absurd hc (by decide)
    simp [Numeral.spanExponent, he, hE]

/-- A numeral spans the digits, point and exponent that it has, if nothing goes on after it. -/
theorem span_eq {cs rest : List Char} (hcs : Literal.isUnsignedNumeric cs = true)
    (hr : ∀ c ∈ rest.head?, isWordPart c = false ∧ c ≠ '.') :
    Numeral.span (cs ++ rest) = (cs, rest) := by
  have hexp := spanExponent_eq fun c hc => (hr c hc).1
  -- a digit after the number would be a part of words
  have hdigit : ∀ c ∈ rest.head?, c.isDigit = false := fun c hc => by
    by_contra hd
    rw [Bool.not_eq_false] at hd
    exact absurd (isWordPart_of_isPart (Identifier.isPart_of_isDigit hd)) (by simp [(hr c hc).1])
  rcases Literal.isUnsignedNumeric_iff.mp hcs with h | ⟨whole, fraction, rfl, hw, hf⟩
  · have htake : (cs ++ rest).takeWhile Char.isDigit = cs :=
      takeWhile_append_of_head (Literal.isDigits_iff.mp h).2 hdigit
    rw [Numeral.span]
    simp only [htake, List.drop_left]
    cases rest with
    | nil => simp [hexp]
    | cons c ds =>
      have hc : c ≠ '.' := (hr c rfl).2
      split
      next h => cases h; exact absurd rfl hc
      next => simp [hexp]
  · have htake : (whole ++ '.' :: (fraction ++ rest)).takeWhile Char.isDigit = whole :=
      takeWhile_append_of_head (Literal.isDigits_iff.mp hw).2 (by simp)
    have htake' : (fraction ++ rest).takeWhile Char.isDigit = fraction :=
      takeWhile_append_of_head (Literal.isDigits_iff.mp hf).2 hdigit
    rw [Numeral.span]
    simp only [List.append_assoc, List.cons_append, htake, List.drop_left, htake', hexp,
      List.append_nil]

/-- A number is read up to its last character. -/
theorem token?_number {cs rest : List Char} (hcs : Literal.isUnsignedNumeric cs = true)
    (hr : ∀ c ∈ rest.head?, isWordPart c = false ∧ c ≠ '.') :
    token? (cs ++ rest) = some (.number cs, rest) := by
  obtain ⟨c, ds, rfl, hc⟩ := Literal.exists_digit_of_isUnsignedNumeric hcs
  -- a digit begins no word and no literal of bytes
  have hx : c ≠ 'x' ∧ c ≠ 'X' ∧ isWordStart c = false :=
    Identifier.forall_isPart
      (P := fun c => c.isDigit = true → c ≠ 'x' ∧ c ≠ 'X' ∧ isWordStart c = false) (by decide)
      (Identifier.isPart_of_isDigit hc) hc
  have hspan := span_eq hcs hr
  rw [List.cons_append, token?]
  rw [List.cons_append] at hspan
  have hnumber : number? (c :: (ds ++ rest)) = some (.number (c :: ds), rest) := by
    rw [number?, hspan]
    cases rest with
    | nil => rfl
    | cons d es => simp [(hr d rfl).1]
  simp [hx, hc, hnumber]

theorem quoted?_cons_of_ne {q c : Char} (h : c ≠ q) (cs : List Char) :
    quoted? q (c :: cs) = (quoted? q cs).map fun (content, rest) => (c :: content, rest) := by
  rw [quoted?.eq_def]
  simp [h]

/-- An escaped text is read up to the quote that closes it. -/
theorem quoted?_escape (cs : List Char) {rest : List Char} (hr : ∀ c ∈ rest.head?, c ≠ '\'') :
    quoted? '\'' (Literal.escape cs ++ '\'' :: rest) = some (cs, rest) := by
  induction cs with
  | nil =>
    cases rest with
    | nil => rfl
    | cons c cs =>
      have hc : c ≠ '\'' := hr c rfl
      simp [Literal.escape, quoted?, hc]
  | cons c cs ih =>
    by_cases hc : c = '\''
    · subst hc
      simp [Literal.escape, quoted?, ih]
    · simp [Literal.escape, hc, quoted?_cons_of_ne hc, ih]

/-- A quoted text is read as a text, if no quote follows. -/
theorem token?_text (cs : List Char) {rest : List Char} (hr : ∀ c ∈ rest.head?, c ≠ '\'') :
    token? (Literal.quoteChars cs ++ rest) = some (.text cs, rest) := by
  have hq := quoted?_escape cs hr
  have hshape : Literal.quoteChars cs ++ rest = '\'' :: (Literal.escape cs ++ '\'' :: rest) := by
    simp [Literal.quoteChars]
  rw [hshape, token?]
  simp [hq, isWordStart, Identifier.isStart]

/-- A placeholder is read up to its last character. -/
theorem token?_placeholder {p : String} {rest : List Char} (hp : Token.IsPlain (.placeholder p))
    (hr : ∀ c ∈ rest.head?, isWordPart c = false) :
    token? (p.toList ++ rest) = some (.placeholder p, rest) := by
  obtain ⟨mark, cs, hcs, hmark, hne, hall⟩ := hp
  have htake : (cs ++ rest).takeWhile isWordPart = cs :=
    takeWhile_append_of_head (fun c hc => isWordPart_of_isPart (hall c hc)) hr
  have hp : p = String.ofList (mark :: cs) := by rw [← hcs, String.ofList_toList]
  rw [hcs, List.cons_append, token?, hp]
  rcases List.mem_pair.mp hmark with rfl | rfl <;>
    simp [isWordStart, Identifier.isStart, placeholder?, htake, hne]

/-- A symbol is read up to its last character. -/
theorem token?_symbol {s : String} {rest : List Char} (hs : s ∈ plainSymbols) (hr : Closes rest) :
    token? (s.toList ++ rest) = some (.symbol s, rest) := by
  rw [plainSymbols] at hs
  rcases closes_iff.mp hr with rfl | ⟨cs, rfl | rfl | rfl⟩ <;> fin_cases hs <;> rfl

/-! ### Reading on -/

/-- Nothing is skipped before a character that is neither white space nor the start of a comment. -/
theorem skipGap_open_cons {c : Char} {cs : List Char} (hspace : isSpace c = false)
    (hline : c = '-' → cs.head? ≠ some '-') (hblock : c = '/' → cs.head? ≠ some '*') :
    skipGap .open (c :: cs) = c :: cs := by
  rw [skipGap.eq_def]
  split <;> simp_all

theorem skipGap_open_of_ne {c : Char} (cs : List Char) (hspace : isSpace c = false)
    (hline : c ≠ '-') (hblock : c ≠ '/') : skipGap .open (c :: cs) = c :: cs :=
  skipGap_open_cons hspace (absurd · hline) (absurd · hblock)

theorem skipGap_open_of_isPart {c : Char} (cs : List Char) (hc : Identifier.isPart c = true) :
    skipGap .open (c :: cs) = c :: cs := by
  have h : isSpace c = false ∧ c ≠ '-' ∧ c ≠ '/' :=
    Identifier.forall_isPart (P := fun c => isSpace c = false ∧ c ≠ '-' ∧ c ≠ '/') (by decide) hc
  exact skipGap_open_of_ne cs h.1 h.2.1 h.2.2

/-- A word is read up to its last character. -/
theorem tokens?_word {w : String} {rest : List Char} (hw : Identifier.isWord w.toList = true)
    (hr : ∀ c ∈ rest.head?, isWordPart c = false ∧ c ≠ '\'') :
    tokens? (w.toList ++ rest) = (tokens? rest).map (.word w :: ·) := by
  obtain ⟨c, cs, hcs, hc, -⟩ := Identifier.isWord_iff.mp hw
  refine tokens?_token (by simp [hcs]) ?_ (token?_word hw hr)
  rw [hcs]
  exact skipGap_open_of_isPart _ (Identifier.isPart_of_isStart hc)

/-- The characters that end plain tokens go on with no word, number or literal. -/
theorem closers_stop {rest : List Char} (hr : Closes rest) :
    ∀ c ∈ rest.head?, isWordPart c = false ∧ c ≠ '.' ∧ c ≠ '\'' := by
  rcases closes_iff.mp hr with rfl | ⟨cs, rfl | rfl | rfl⟩
  · simp
  all_goals rintro c ⟨⟩; decide

/-- The spelling of a plain token is not empty, and no gap begins with it. -/
theorem skipGap_spelling {t : Token} {rest : List Char} (ht : t.IsPlain) (hr : Closes rest) :
    t.spelling ≠ [] ∧ skipGap .open (t.spelling ++ rest) = t.spelling ++ rest := by
  cases t with
  | word w =>
    obtain ⟨c, cs, hcs, hc, -⟩ := Identifier.isWord_iff.mp ht
    simp only [Token.spelling, hcs]
    exact ⟨by simp, skipGap_open_of_isPart _ (Identifier.isPart_of_isStart hc)⟩
  | number cs =>
    obtain ⟨c, ds, rfl, hc⟩ := Literal.exists_digit_of_isUnsignedNumeric ht
    exact ⟨by simp [Token.spelling],
      skipGap_open_of_isPart _ (Identifier.isPart_of_isDigit hc)⟩
  | text cs =>
    exact ⟨by simp [Token.spelling, Literal.quoteChars],
      skipGap_open_of_ne _ (by decide) (by decide) (by decide)⟩
  | placeholder p =>
    obtain ⟨mark, cs, hcs, hmark, -⟩ := ht
    simp only [Token.spelling, hcs]
    refine ⟨by simp, ?_⟩
    rcases List.mem_pair.mp hmark with rfl | rfl <;>
      exact skipGap_open_of_ne _ (by decide) (by decide) (by decide)
  | symbol s =>
    have hs : s ∈ plainSymbols := ht
    rw [plainSymbols] at hs
    rcases closes_iff.mp hr with rfl | ⟨cs, rfl | rfl | rfl⟩ <;> fin_cases hs <;>
      exact ⟨by decide, rfl⟩
  | name _ => exact ht.elim
  | bytes _ => exact ht.elim

/-- **The spelling of a plain token reads as that token** wherever the text after it closes it. -/
theorem token?_spelling {t : Token} {rest : List Char} (ht : t.IsPlain) (hr : Closes rest) :
    token? (t.spelling ++ rest) = some (t, rest) := by
  have hstop := closers_stop hr
  cases t with
  | word w => exact token?_word ht fun c hc => ⟨(hstop c hc).1, (hstop c hc).2.2⟩
  | number cs => exact token?_number ht fun c hc => ⟨(hstop c hc).1, (hstop c hc).2.1⟩
  | text cs => exact token?_text cs fun c hc => (hstop c hc).2.2
  | placeholder p => exact token?_placeholder ht fun c hc => (hstop c hc).1
  | symbol s => exact token?_symbol ht hr
  | name _ => exact ht.elim
  | bytes _ => exact ht.elim

/-- A plain token is read as itself where it is spelled, and the rest is read after it. -/
theorem tokens?_spelling {t : Token} {rest : List Char} (ht : t.IsPlain) (hr : Closes rest) :
    tokens? (t.spelling ++ rest) = (tokens? rest).map (t :: ·) :=
  tokens?_token (skipGap_spelling ht hr).1 (skipGap_spelling ht hr).2 (token?_spelling ht hr)

/-- The symbols that end by themselves, whatever follows. -/
theorem tokens?_mark {c : Char} (hc : c ∈ ['(', ')', ',', '~']) (rest : List Char) :
    tokens? (c :: rest) = (tokens? rest).map (.symbol (String.singleton c) :: ·) := by
  simp only [List.mem_cons, List.not_mem_nil, or_false] at hc
  refine @tokens?_token _ [c] _ (by simp) ?_ ?_
  · rcases hc with rfl | rfl | rfl | rfl <;>
      exact skipGap_open_of_ne _ (by decide) (by decide) (by decide)
  · rcases hc with rfl | rfl | rfl | rfl <;> cases rest <;> rfl

/-- A minus is a symbol unless another one follows, which would begin a comment. -/
theorem tokens?_minus {rest : List Char} (h : rest.head? ≠ some '-') :
    tokens? ('-' :: rest) = (tokens? rest).map (.symbol "-" :: ·) := by
  refine @tokens?_token _ ['-'] _ (by simp) ?_ ?_
  · exact skipGap_open_cons (by decide) (fun _ => h) (absurd · (by decide))
  · cases rest <;> rfl

end Sql

end SqlRecord
