import Beluga.Text.Regex
import Mathlib.Data.List.Chain
import Mathlib.Data.List.TakeWhile

/-! # Tokens of SQL

A lexer by the lexical rules of SQL: white space, words, numbers, strings and quoted
words in which a doubled quote stands for one, the two kinds of comments, and
symbols, each as long as possible. Which characters are white space is a parameter.

* `lex_text`: a text is its tokens one after the other;
* `text_lex`: tokens that cannot run into each other are read back;
* `next_quoted`: so is a name in quotes, with the quotes in it doubled.

**Scope**: words are of letters of ASCII, and prefixed strings are left out.
-/

namespace Text.Sql

/-! ## Tokens -/

inductive Token where
  | space (text : List Char)
  | word (text : List Char)
  | number (text : List Char)
  /-- The text between the quotes, as it is written. -/
  | string (text : List Char)
  | quoted (text : List Char)
  | comment (text : List Char)
  | symbol (text : List Char)
  deriving DecidableEq, Repr

def Token.text : Token → List Char
  | .space text | .word text | .number text | .comment text | .symbol text => text
  | .string text => '\'' :: (text ++ ['\''])
  | .quoted text => '"' :: (text ++ ['"'])

def text (toks : List Token) : List Char := toks.flatMap Token.text

def letter (c : Char) : Bool := ('A' ≤ c && c ≤ 'Z') || ('a' ≤ c && c ≤ 'z')

def wordStart (c : Char) : Bool := letter c || c = '_'

def wordRest (c : Char) : Bool := wordStart c || Regex.digit c

/-- Symbols of two characters. -/
def SYMBOLS : List (List Char) :=
  [['<', '>'], ['!', '='], ['<', '='], ['>', '='], ['|', '|'], ['-', '>'], ['=', '>']]

def symbolChar (c : Char) : Bool :=
  c ∈ ['=', '<', '>', '+', '-', '*', '/', '%', '(', ')', ',', '.', ';', '[', ']', '?', ':']

/-! ## The lexer -/

/-- `.` and digits, if there is a `.`. -/
def scanFraction : List Char → List Char × List Char
  | '.' :: cs => ('.' :: cs.takeWhile Regex.digit, cs.dropWhile Regex.digit)
  | cs => ([], cs)

/-- A sign and digits. -/
def scanSigned (cs : List Char) : List Char × List Char :=
  match cs with
  | c :: rest =>
      if c = '+' ∨ c = '-' then
        (c :: rest.takeWhile Regex.digit, rest.dropWhile Regex.digit)
      else (cs.takeWhile Regex.digit, cs.dropWhile Regex.digit)
  | [] => ([], [])

/-- `e` and a number, if there is one. -/
def scanExponent (cs : List Char) : List Char × List Char :=
  match cs with
  | c :: rest =>
      if (c = 'e' ∨ c = 'E') ∧ (scanSigned rest).1.any Regex.digit then
        (c :: (scanSigned rest).1, (scanSigned rest).2)
      else ([], cs)
  | [] => ([], [])

def scanNumber (cs : List Char) : List Char × List Char :=
  let fraction := scanFraction (cs.dropWhile Regex.digit)
  let exponent := scanExponent fraction.2
  (cs.takeWhile Regex.digit ++ (fraction.1 ++ exponent.1), exponent.2)

/-- Up to the closing quote, past doubled ones. -/
def scanQuoted (q : Char) : List Char → Option (List Char × List Char)
  | [] => none
  | [c] => if c = q then some ([], []) else none
  | c :: d :: cs =>
      if c = q then
        if d = q then (scanQuoted q cs).map fun (text, rest) => (q :: q :: text, rest)
        else some ([], d :: cs)
      else (scanQuoted q (d :: cs)).map fun (text, rest) => (c :: text, rest)

/-- Up to the end of a block comment. -/
def scanBlock : List Char → Option (List Char × List Char)
  | [] => none
  | [_] => none
  | c :: d :: cs =>
      if c = '*' ∧ d = '/' then some (['*', '/'], cs)
      else (scanBlock (d :: cs)).map fun (text, rest) => (c :: text, rest)

def scanSymbol : List Char → Option (Token × List Char)
  | [] => none
  | [c] => if symbolChar c then some (.symbol [c], []) else none
  | c :: d :: cs =>
      if [c, d] ∈ SYMBOLS then some (.symbol [c, d], cs)
      else if symbolChar c then some (.symbol [c], d :: cs)
      else none

section Lexer

variable (space : Char → Bool)

/-- The first token, and what is behind it. -/
def next : List Char → Option (Token × List Char)
  | [] => none
  | c :: cs =>
      if space c then some (.space (c :: cs.takeWhile space), cs.dropWhile space)
      else if wordStart c then some (.word (c :: cs.takeWhile wordRest), cs.dropWhile wordRest)
      else if Regex.digit c ∨ (c = '.' ∧ (cs.head?.any Regex.digit)) then
        some (.number (scanNumber (c :: cs)).1, (scanNumber (c :: cs)).2)
      else if c = '\'' then (scanQuoted '\'' cs).map fun (text, rest) => (.string text, rest)
      else if c = '"' then (scanQuoted '"' cs).map fun (text, rest) => (.quoted text, rest)
      else if c = '-' ∧ cs.head? = some '-' then
        some (.comment (c :: cs.takeWhile (· ≠ '\n')), cs.dropWhile (· ≠ '\n'))
      else if c = '/' ∧ cs.head? = some '*' then
        (scanBlock cs.tail).map fun (text, rest) => (.comment ('/' :: '*' :: text), rest)
      else scanSymbol (c :: cs)

/-- The tokens, if all characters belong to one. Each token takes at least one character. -/
def lexFrom : Nat → List Char → Option (List Token)
  | _, [] => some []
  | 0, _ :: _ => none
  | n + 1, cs =>
      match next space cs with
      | none => none
      | some (t, rest) => (lexFrom n rest).map (t :: ·)

def lex (cs : List Char) : Option (List Token) := lexFrom space cs.length cs

end Lexer

/-! ## The text of the tokens -/

theorem scanFraction_append (cs : List Char) : (scanFraction cs).1 ++ (scanFraction cs).2 = cs := by
  unfold scanFraction
  split
  · simp [List.takeWhile_append_dropWhile]
  · rfl

theorem scanSigned_append (cs : List Char) : (scanSigned cs).1 ++ (scanSigned cs).2 = cs := by
  unfold scanSigned
  split
  · split
    · simp [List.takeWhile_append_dropWhile]
    · exact List.takeWhile_append_dropWhile
  · rfl

theorem scanExponent_append (cs : List Char) : (scanExponent cs).1 ++ (scanExponent cs).2 = cs := by
  unfold scanExponent
  split
  · split
    · rw [List.cons_append, scanSigned_append]
    · rfl
  · rfl

theorem scanNumber_append (cs : List Char) : (scanNumber cs).1 ++ (scanNumber cs).2 = cs := by
  rw [scanNumber, List.append_assoc, List.append_assoc, scanExponent_append, scanFraction_append,
    List.takeWhile_append_dropWhile]

theorem scanQuoted_append {q : Char} {cs body rest : List Char}
    (h : scanQuoted q cs = some (body, rest)) : cs = body ++ q :: rest := by
  induction cs using scanQuoted.induct q generalizing body rest with
  | case1 => cases h
  | case2 =>
      rw [scanQuoted, if_pos rfl] at h
      cases h
      rfl
  | case3 c hne =>
      rw [scanQuoted, if_neg hne] at h
      cases h
  | case4 cs ih =>
      rw [scanQuoted, if_pos rfl, if_pos rfl] at h
      obtain ⟨⟨body', rest'⟩, hscan, heq⟩ := Option.map_eq_some_iff.mp h
      cases heq
      rw [ih hscan]
      rfl
  | case5 d cs hne =>
      rw [scanQuoted, if_pos rfl, if_neg hne] at h
      cases h
      rfl
  | case6 c d cs hne ih =>
      rw [scanQuoted, if_neg hne] at h
      obtain ⟨⟨body', rest'⟩, hscan, heq⟩ := Option.map_eq_some_iff.mp h
      cases heq
      rw [ih hscan]
      rfl

theorem scanBlock_append {cs body rest : List Char} (h : scanBlock cs = some (body, rest)) :
    cs = body ++ rest := by
  induction cs using scanBlock.induct generalizing body rest with
  | case1 => cases h
  | case2 => cases h
  | case3 c d cs hend =>
      rw [scanBlock, if_pos hend] at h
      cases h
      rw [hend.1, hend.2]
      rfl
  | case4 c d cs hend ih =>
      rw [scanBlock, if_neg hend] at h
      obtain ⟨⟨body', rest'⟩, hscan, heq⟩ := Option.map_eq_some_iff.mp h
      cases heq
      rw [ih hscan]
      rfl

/-- What the lexer knows of a token: its characters, for white space and words. -/
structure Scanned (space : Char → Bool) (t : Token) : Prop where
  nonempty : t.text ≠ []
  space : ∀ cs, t = .space cs → ∀ c ∈ cs, space c = true
  word : ∀ cs, t = .word cs →
    ∃ c rest, cs = c :: rest ∧ wordStart c = true ∧ ∀ d ∈ rest, wordRest d = true

variable {space : Char → Bool}

theorem scanned_symbol {cs rest : List Char} {t : Token} (h : scanSymbol cs = some (t, rest)) :
    cs = t.text ++ rest ∧ Scanned space t := by
  have hsymbol : ∀ {text : List Char}, text ≠ [] → Scanned space (.symbol text) :=
    fun hne => ⟨hne, fun _ heq => (nomatch heq), fun _ heq => (nomatch heq)⟩
  unfold scanSymbol at h
  split at h
  · cases h
  · split at h
    · cases h
      exact ⟨rfl, hsymbol (List.cons_ne_nil _ _)⟩
    · cases h
  · split at h
    · cases h
      exact ⟨rfl, hsymbol (List.cons_ne_nil _ _)⟩
    · split at h
      · cases h
        exact ⟨rfl, hsymbol (List.cons_ne_nil _ _)⟩
      · cases h

theorem next_spec {cs rest : List Char} {t : Token} (h : next space cs = some (t, rest)) :
    cs = t.text ++ rest ∧ Scanned space t := by
  cases cs with
  | nil => cases h
  | cons c cs =>
      rw [next] at h
      split at h
      case isTrue hspace =>
        cases h
        refine ⟨by simp [Token.text, List.takeWhile_append_dropWhile], List.cons_ne_nil _ _, ?_,
          fun _ heq => (nomatch heq)⟩
        rintro _ ⟨rfl⟩ d hd
        rcases List.mem_cons.mp hd with rfl | hd
        · exact hspace
        · exact List.mem_takeWhile_imp hd
      split at h
      case isTrue hword =>
        cases h
        refine ⟨by simp [Token.text, List.takeWhile_append_dropWhile], List.cons_ne_nil _ _,
          fun _ heq => (nomatch heq), ?_⟩
        rintro _ ⟨rfl⟩
        exact ⟨c, _, rfl, hword, fun d hd => List.mem_takeWhile_imp hd⟩
      split at h
      case isTrue hnumber =>
        cases h
        have hall := scanNumber_append (c :: cs)
        refine ⟨hall.symm, ?_, fun _ heq => (nomatch heq), fun _ heq => (nomatch heq)⟩
        show (scanNumber (c :: cs)).1 ≠ []
        rw [scanNumber]
        intro hnil
        obtain ⟨hint, hfrac⟩ := List.append_eq_nil_iff.mp hnil
        rcases hnumber with hdigit | ⟨rfl, -⟩
        · simp [hdigit] at hint
        · have hdrop : ('.' :: cs).dropWhile Regex.digit = '.' :: cs :=
            List.dropWhile_cons_of_neg (by decide)
          rw [hdrop] at hfrac
          simp [scanFraction] at hfrac
      split at h
      case isTrue hquote =>
        obtain ⟨⟨body, rest'⟩, hscan, heq⟩ := Option.map_eq_some_iff.mp h
        cases heq
        refine ⟨?_, List.cons_ne_nil _ _, fun _ heq => (nomatch heq), fun _ heq => (nomatch heq)⟩
        rw [hquote, scanQuoted_append hscan]
        simp [Token.text]
      split at h
      case isTrue hquote =>
        obtain ⟨⟨body, rest'⟩, hscan, heq⟩ := Option.map_eq_some_iff.mp h
        cases heq
        refine ⟨?_, List.cons_ne_nil _ _, fun _ heq => (nomatch heq), fun _ heq => (nomatch heq)⟩
        rw [hquote, scanQuoted_append hscan]
        simp [Token.text]
      split at h
      case isTrue =>
        cases h
        exact ⟨by simp [Token.text, List.takeWhile_append_dropWhile], List.cons_ne_nil _ _,
          fun _ heq => (nomatch heq), fun _ heq => (nomatch heq)⟩
      split at h
      case isTrue hblock =>
        obtain ⟨⟨body, rest'⟩, hscan, heq⟩ := Option.map_eq_some_iff.mp h
        cases heq
        refine ⟨?_, List.cons_ne_nil _ _, fun _ heq => (nomatch heq), fun _ heq => (nomatch heq)⟩
        obtain ⟨rfl, hstar⟩ := hblock
        obtain ⟨tail, rfl⟩ := List.head?_eq_some_iff.mp hstar
        rw [List.tail_cons] at hscan
        rw [scanBlock_append hscan]
        rfl
      exact scanned_symbol h

/-! ## Readings -/

/-- The tokens of a text. -/
inductive Lexes (space : Char → Bool) : List Char → List Token → Prop where
  | nil : Lexes space [] []
  | cons {cs rest : List Char} {t : Token} {toks : List Token}
      (hnext : next space cs = some (t, rest)) (hrest : Lexes space rest toks) :
      Lexes space cs (t :: toks)

theorem lexFrom_cons {n : Nat} {c : Char} {cs : List Char} : lexFrom space (n + 1) (c :: cs) =
    match next space (c :: cs) with
    | none => none
    | some (t, rest) => (lexFrom space n rest).map (t :: ·) := rfl

theorem lexFrom_iff {n : Nat} {cs : List Char} {toks : List Token} (hn : cs.length ≤ n) :
    lexFrom space n cs = some toks ↔ Lexes space cs toks := by
  induction n generalizing cs toks with
  | zero =>
      have hnil : cs = [] := List.eq_nil_of_length_eq_zero (Nat.le_zero.mp hn)
      subst hnil
      constructor
      · intro h
        cases h
        exact .nil
      · intro h
        cases h with
        | nil => rfl
        | cons hnext _ => cases hnext
  | succ n ih =>
      cases cs with
      | nil =>
          constructor
          · intro h
            cases h
            exact .nil
          · intro h
            cases h with
            | nil => rfl
            | cons hnext _ => cases hnext
      | cons c cs =>
          rw [lexFrom_cons]
          constructor
          · intro h
            cases hnext : next space (c :: cs) with
            | none =>
                rw [hnext] at h
                cases h
            | some pair =>
                obtain ⟨t, rest⟩ := pair
                rw [hnext] at h
                obtain ⟨toks', hrest, rfl⟩ := Option.map_eq_some_iff.mp h
                refine .cons hnext ((ih ?_).mp hrest)
                -- a token takes at least one character
                obtain ⟨hcs, hscanned⟩ := next_spec hnext
                have hpos := List.length_pos_iff.mpr hscanned.nonempty
                have hlen := congrArg List.length hcs
                rw [List.length_append] at hlen
                omega
          · intro h
            cases h with
            | @cons _ rest t toks hnext hrest =>
                obtain ⟨hcs, hscanned⟩ := next_spec hnext
                have hpos := List.length_pos_iff.mpr hscanned.nonempty
                have hlen := congrArg List.length hcs
                rw [List.length_append] at hlen
                rw [hnext]
                show (lexFrom space n rest).map (t :: ·) = some (t :: toks)
                rw [(ih (by omega)).mpr hrest]
                rfl

theorem lex_iff {cs : List Char} {toks : List Token} :
    lex space cs = some toks ↔ Lexes space cs toks := lexFrom_iff (Nat.le_refl _)

/-- A text is its tokens one after the other. -/
theorem lex_text {cs : List Char} {toks : List Token} (h : lex space cs = some toks) :
    cs = text toks ∧ ∀ t ∈ toks, Scanned space t := by
  have hlexes := lex_iff.mp h
  clear h
  induction hlexes with
  | nil => exact ⟨rfl, fun t ht => absurd ht List.not_mem_nil⟩
  | cons hnext _ ih =>
      obtain ⟨hcs, hscanned⟩ := next_spec hnext
      refine ⟨?_, List.forall_mem_cons.mpr ⟨hscanned, ih.2⟩⟩
      rw [hcs, ih.1]
      rfl

/-! ## Tokens that are read back -/

/-- The character cannot belong to the token. -/
def Token.stops (space : Char → Bool) : Token → Char → Bool
  | .space _, c => !space c
  | .word _, c => !wordRest c
  | .number _, c => !wordRest c && c ≠ '.'
  | .string _, c => c ≠ '\''
  | .quoted _, c => c ≠ '"'
  | .comment _, _ => false
  | .symbol s, c => s ++ [c] ∉ SYMBOLS && s ++ [c] ∉ [['-', '-'], ['/', '*']] &&
      !(s = ['.'] && Regex.digit c)

/-- The second token does not run into the first. -/
def Apart (space : Char → Bool) (a b : Token) : Prop := ∀ c ∈ b.text.head?, a.stops space c = true

/-- Digits, and more of them behind a point. -/
def PlainNumber (cs : List Char) : Prop := ∃ ds fraction, cs = ds ++ fraction ∧ ds ≠ [] ∧
  (∀ c ∈ ds, Regex.digit c = true) ∧ (fraction = [] ∨ ∃ es, fraction = '.' :: es ∧ es ≠ [] ∧
    ∀ c ∈ es, Regex.digit c = true)

/-- Tokens in the forms that are read back: numbers without exponents, strings without quotes. -/
def Token.Plain (space : Char → Bool) : Token → Prop
  | .space cs => cs ≠ [] ∧ ∀ c ∈ cs, space c = true
  | .word cs => ∃ c rest, cs = c :: rest ∧ wordStart c = true ∧ ∀ d ∈ rest, wordRest d = true
  | .number cs => PlainNumber cs
  | .string cs => '\'' ∉ cs
  | .symbol cs => cs ∈ SYMBOLS ∨ ∃ c, cs = [c] ∧ symbolChar c = true
  | .quoted _ | .comment _ => False

/-- What other tokens begin with. -/
def starter (c : Char) : Bool :=
  wordRest c || symbolChar c || c = '!' || c = '|' || c = '\'' || c = '"'

theorem span_append {p : Char → Bool} {cs rest : List Char} (h : ∀ c ∈ cs, p c = true)
    (hstop : ∀ c ∈ rest.head?, p c = false) :
    (cs ++ rest).takeWhile p = cs ∧ (cs ++ rest).dropWhile p = rest := by
  rw [List.takeWhile_append_of_pos h, List.dropWhile_append_of_pos h]
  cases rest with
  | nil => simp
  | cons c rest =>
      have hc : p c = false := hstop c rfl
      simp [hc]

section ReadBack

-- white space does not begin other tokens
variable (hspace : ∀ c, space c = true → starter c = false)

include hspace in
theorem space_false {c : Char} (h : starter c = true) : space c = false := by
  by_contra hc
  rw [hspace c (by simpa using hc)] at h
  cases h

theorem next_space {cs rest : List Char} (hplain : (Token.space cs).Plain space)
    (hstop : ∀ c ∈ rest.head?, (Token.space cs).stops space c = true) :
    next space (cs ++ rest) = some (.space cs, rest) := by
  obtain ⟨hne, hall⟩ := hplain
  obtain ⟨c, cs, rfl⟩ := List.exists_cons_of_ne_nil hne
  obtain ⟨hc, hcs⟩ := List.forall_mem_cons.mp hall
  have hspan := @span_append _ _ rest hcs fun d hd => by simpa [Token.stops] using hstop d hd
  rw [List.cons_append, next, if_pos hc, hspan.1, hspan.2]

include hspace in
theorem next_word {cs rest : List Char} (hplain : (Token.word cs).Plain space)
    (hstop : ∀ c ∈ rest.head?, (Token.word cs).stops space c = true) :
    next space (cs ++ rest) = some (.word cs, rest) := by
  obtain ⟨c, tail, rfl, hc, htail⟩ := hplain
  have hspan := @span_append _ _ rest htail fun d hd => by simpa [Token.stops] using hstop d hd
  have hblank := space_false hspace (c := c) (by simp [starter, wordRest, hc])
  rw [List.cons_append, next, if_neg (by simp [hblank]), if_pos hc, hspan.1, hspan.2]

theorem scanExponent_stop {rest : List Char} (h : ∀ c ∈ rest.head?, wordRest c = false) :
    scanExponent rest = ([], rest) := by
  cases rest with
  | nil => rfl
  | cons c rest =>
      rw [scanExponent, if_neg]
      rintro ⟨rfl | rfl, -⟩
      · exact absurd (h 'e' rfl) (by decide)
      · exact absurd (h 'E' rfl) (by decide)

theorem digit_not_wordStart {c : Char} (h : Regex.digit c = true) : wordStart c = false := by
  simp only [Regex.digit, Bool.and_eq_true, decide_eq_true_eq, Char.le_def,
    UInt32.le_iff_toNat_le] at h
  simp only [wordStart, letter, Bool.or_eq_false_iff, Bool.and_eq_false_iff,
    decide_eq_false_iff_not, Char.le_def, UInt32.le_iff_toNat_le]
  have hne : c ≠ '_' := by
    rintro rfl
    simp at h
  simp at h ⊢
  exact ⟨by omega, hne⟩

theorem scanNumber_plain {cs rest : List Char} (hplain : PlainNumber cs)
    (hstop : ∀ c ∈ rest.head?, (Token.number cs).stops space c = true) :
    scanNumber (cs ++ rest) = (cs, rest) := by
  obtain ⟨ds, fraction, rfl, -, hds, hfraction⟩ := hplain
  have hword : ∀ c ∈ rest.head?, wordRest c = false ∧ c ≠ '.' := fun c hc => by
    simpa [Token.stops] using hstop c hc
  have hdigit : ∀ c ∈ rest.head?, Regex.digit c = false := by
    intro c hc
    have hrest := (hword c hc).1
    rw [wordRest, Bool.or_eq_false_iff] at hrest
    exact hrest.2
  have hexp := scanExponent_stop fun c hc => (hword c hc).1
  rcases hfraction with rfl | ⟨es, rfl, -, hes⟩
  · have hspan := span_append hds hdigit
    have hscan : scanFraction rest = ([], rest) := by
      unfold scanFraction
      split
      · rename_i tail
        exact absurd rfl (hword '.' rfl).2
      · rfl
    rw [List.append_nil, scanNumber, hspan.1, hspan.2, hscan, hexp]
    simp
  · have hspan := @span_append _ _ ('.' :: es ++ rest) hds fun c hc => by
      rw [List.cons_append, List.head?_cons, Option.mem_some_iff] at hc
      rw [← hc]
      rfl
    have hspan' := span_append hes hdigit
    rw [List.append_assoc, scanNumber, hspan.1, hspan.2, List.cons_append, scanFraction, hspan'.1,
      hspan'.2, hexp]
    simp

include hspace in
theorem next_number {cs rest : List Char} (hplain : (Token.number cs).Plain space)
    (hstop : ∀ c ∈ rest.head?, (Token.number cs).stops space c = true) :
    next space (cs ++ rest) = some (.number cs, rest) := by
  have hscan := scanNumber_plain hplain hstop
  obtain ⟨ds, fraction, hcs, hne, hds, -⟩ := hplain
  obtain ⟨c, ds, rfl⟩ := List.exists_cons_of_ne_nil hne
  have hc := hds c List.mem_cons_self
  have hblank := space_false hspace (c := c) (by simp [starter, wordRest, hc])
  rw [hcs, List.cons_append] at hscan ⊢
  rw [List.cons_append] at hscan ⊢
  rw [next, if_neg (by simp [hblank]), if_neg (by simp [digit_not_wordStart hc]), if_pos (.inl hc),
    hscan]

theorem scanQuoted_plain {q : Char} {cs rest : List Char} (h : q ∉ cs)
    (hstop : ∀ c ∈ rest.head?, c ≠ q) : scanQuoted q (cs ++ q :: rest) = some (cs, rest) := by
  induction cs with
  | nil =>
      cases rest with
      | nil => simp [scanQuoted]
      | cons d rest =>
          have hd : d ≠ q := hstop d rfl
          rw [List.nil_append, scanQuoted, if_pos rfl, if_neg hd]
  | cons c cs ih =>
      obtain ⟨hc, hcs⟩ := not_or.mp (List.mem_cons.not.mp h)
      have hne : c ≠ q := fun heq => hc heq.symm
      have hrec := ih hcs
      cases htail : cs ++ q :: rest with
      | nil => simp at htail
      | cons d tail =>
          rw [htail] at hrec
          rw [List.cons_append, htail, scanQuoted, if_neg hne, hrec]
          rfl

include hspace in
theorem next_string {cs rest : List Char} (hplain : (Token.string cs).Plain space)
    (hstop : ∀ c ∈ rest.head?, (Token.string cs).stops space c = true) :
    next space ((Token.string cs).text ++ rest) = some (.string cs, rest) := by
  have hquote : '\'' ∉ cs := hplain
  have hscan := @scanQuoted_plain _ _ rest hquote fun c hc => by
    simpa [Token.stops] using hstop c hc
  have hblank := space_false hspace (c := '\'') rfl
  have htext : (Token.string cs).text ++ rest = '\'' :: (cs ++ '\'' :: rest) := by
    simp [Token.text]
  rw [htext, next, if_neg (by simp [hblank]), if_neg (by decide), if_neg, if_pos rfl, hscan]
  · rfl
  · rintro (h | ⟨h, -⟩)
    · exact absurd h (by decide)
    · exact absurd h (by decide)

theorem symbol_starts {c : Char} (h : symbolChar c = true ∨ c = '!' ∨ c = '|') :
    starter c = true ∧ wordStart c = false ∧ Regex.digit c = false ∧ c ≠ '\'' ∧ c ≠ '"' := by
  have hall : ∀ d ∈ ['=', '<', '>', '+', '-', '*', '/', '%', '(', ')', ',', '.', ';', '[', ']',
      '?', ':', '!', '|'], starter d = true ∧ wordStart d = false ∧ Regex.digit d = false ∧
        d ≠ '\'' ∧ d ≠ '"' := by
    decide
  refine hall c ?_
  rcases h with h | rfl | rfl
  · rw [symbolChar, decide_eq_true_eq] at h
    exact List.mem_append_left ['!', '|'] h
  · decide
  · decide

include hspace in
/-- A symbol that begins no number and no comment. -/
theorem next_scanSymbol {c : Char} {cs : List Char}
    (hsymbol : symbolChar c = true ∨ c = '!' ∨ c = '|')
    (hdot : ¬ (c = '.' ∧ cs.head?.any Regex.digit = true))
    (hline : ¬ (c = '-' ∧ cs.head? = some '-')) (hblock : ¬ (c = '/' ∧ cs.head? = some '*')) :
    next space (c :: cs) = scanSymbol (c :: cs) := by
  obtain ⟨hstarter, hword, hdigit, hquote, hquote'⟩ := symbol_starts hsymbol
  rw [next, if_neg (by simp [space_false hspace hstarter]), if_neg (by simp [hword]),
    if_neg (by simpa [hdigit] using hdot), if_neg hquote, if_neg hquote', if_neg hline,
    if_neg hblock]

include hspace in
theorem next_symbol {cs rest : List Char} (hplain : (Token.symbol cs).Plain space)
    (hstop : ∀ c ∈ rest.head?, (Token.symbol cs).stops space c = true) :
    next space (cs ++ rest) = some (.symbol cs, rest) := by
  rcases hplain with hpair | ⟨c, rfl, hc⟩
  · have hall : ∀ s ∈ SYMBOLS, ∃ c d, s = [c, d] ∧
        (symbolChar c = true ∨ c = '!' ∨ c = '|') ∧ c ≠ '.' ∧ c ≠ '/' ∧ d ≠ '-' := by
      intro s hs
      simp only [SYMBOLS, List.mem_cons, List.not_mem_nil, or_false] at hs
      rcases hs with rfl | rfl | rfl | rfl | rfl | rfl | rfl <;> exact ⟨_, _, rfl, by decide⟩
    obtain ⟨c, d, rfl, hc, hdot, hslash, hminus⟩ := hall cs hpair
    have hnext := @next_scanSymbol _ hspace _ (d :: rest) hc (fun h => hdot h.1)
      (fun h => hminus (Option.some.inj h.2)) (fun h => hslash h.1)
    show next space (c :: d :: rest) = _
    rw [hnext, scanSymbol, if_pos hpair]
  · have hstops : ∀ d ∈ rest.head?, [c, d] ∉ SYMBOLS ∧ ¬ (c = '-' ∧ d = '-') ∧
        ¬ (c = '/' ∧ d = '*') ∧ ¬ (c = '.' ∧ Regex.digit d = true) := by
      intro d hd
      have h := hstop d hd
      simp only [Token.stops, List.cons_append, List.nil_append, Bool.and_eq_true,
        decide_eq_true_eq, List.mem_cons, List.cons.injEq, List.not_mem_nil, or_false,
        Bool.not_eq_true', Bool.and_eq_false_iff, decide_eq_false_iff_not, and_true,
        not_or] at h
      refine ⟨h.1.1, h.1.2.1, h.1.2.2, ?_⟩
      rintro ⟨hdot, hdigit⟩
      rcases h.2 with hne | hne
      · exact hne hdot
      · rw [hdigit] at hne
        cases hne
    cases rest with
    | nil =>
        have hnext := @next_scanSymbol _ hspace c [] (.inl hc) (by simp) (by simp)
          (by simp)
        show next space [c] = _
        rw [hnext, scanSymbol, if_pos hc]
    | cons d rest =>
        obtain ⟨hpair, hline, hblock, hdot⟩ := hstops d rfl
        have hnext := @next_scanSymbol _ hspace c (d :: rest) (.inl hc)
          (by simpa using hdot) (by simpa using hline) (by simpa using hblock)
        show next space (c :: d :: rest) = _
        rw [hnext, scanSymbol, if_neg hpair, if_pos hc]

include hspace in
theorem next_plain {t : Token} {rest : List Char} (hplain : t.Plain space)
    (hstop : ∀ c ∈ rest.head?, t.stops space c = true) :
    next space (t.text ++ rest) = some (t, rest) := by
  cases t with
  | space cs => exact next_space hplain hstop
  | word cs => exact next_word hspace hplain hstop
  | number cs => exact next_number hspace hplain hstop
  | string cs => exact next_string hspace hplain hstop
  | quoted cs => exact absurd hplain id
  | comment cs => exact absurd hplain id
  | symbol cs => exact next_symbol hspace hplain hstop

theorem plain_ne_nil {t : Token} (h : t.Plain space) : t.text ≠ [] := by
  cases t with
  | space cs => exact h.1
  | word cs =>
      obtain ⟨c, rest, rfl, -⟩ := h
      exact List.cons_ne_nil _ _
  | number cs =>
      obtain ⟨ds, fraction, rfl, hne, -⟩ := h
      simp [Token.text, hne]
  | string cs => exact List.cons_ne_nil _ _
  | quoted cs => exact absurd h id
  | comment cs => exact absurd h id
  | symbol cs =>
      rcases h with hpair | ⟨c, rfl, -⟩
      · intro hnil
        rw [show cs = [] from hnil] at hpair
        exact absurd hpair (by decide)
      · exact List.cons_ne_nil _ _

/-- Tokens each of which is read back, and that do not run into each other. -/
theorem lex_of_next {toks : List Token} (hne : ∀ t ∈ toks, t.text ≠ [])
    (hnext : ∀ t ∈ toks, ∀ rest, (∀ c ∈ rest.head?, t.stops space c = true) →
      next space (t.text ++ rest) = some (t, rest))
    (happart : toks.IsChain (Apart space)) : lex space (text toks) = some toks := by
  rw [lex_iff]
  induction toks with
  | nil => exact .nil
  | cons t toks ih =>
      obtain ⟨ht, htoks⟩ := List.forall_mem_cons.mp hnext
      obtain ⟨-, hrest⟩ := List.forall_mem_cons.mp hne
      obtain ⟨hhead, htail⟩ := List.isChain_cons.mp happart
      refine .cons (ht (text toks) ?_) (ih hrest htoks htail)
      -- what follows begins with the next token
      cases toks with
      | nil => exact fun c hc => by cases hc
      | cons u toks =>
          intro c hc
          obtain ⟨d, cs, hcs⟩ := List.exists_cons_of_ne_nil (hrest u List.mem_cons_self)
          have hfirst : c ∈ u.text.head? := by
            rw [text, List.flatMap_cons, hcs] at hc
            rw [hcs]
            exact hc
          exact hhead u rfl c hfirst

include hspace in
/-- Tokens that cannot run into each other are read back. -/
theorem text_lex {toks : List Token} (hplain : ∀ t ∈ toks, t.Plain space)
    (happart : toks.IsChain (Apart space)) : lex space (text toks) = some toks :=
  lex_of_next (fun t ht => plain_ne_nil (hplain t ht))
    (fun t ht _ hstop => next_plain hspace (hplain t ht) hstop) happart

/-! ## Names in quotes -/

/-- A name as it is written between quotes. -/
def doubled (name : List Char) : List Char :=
  name.flatMap fun c => if c = '"' then ['"', '"'] else [c]

/-- The name that is written between quotes. -/
def undoubled : List Char → List Char
  | [] => []
  | [c] => [c]
  | c :: d :: cs => if c = '"' ∧ d = '"' then '"' :: undoubled cs else c :: undoubled (d :: cs)

theorem doubled_cons {c : Char} (hc : c ≠ '"') (name : List Char) :
    doubled (c :: name) = c :: doubled name := by
  rw [doubled, List.flatMap_cons, if_neg hc]
  rfl

theorem undoubled_doubled (name : List Char) : undoubled (doubled name) = name := by
  induction name with
  | nil => rfl
  | cons c name ih =>
      by_cases hc : c = '"'
      · subst hc
        show undoubled ('"' :: '"' :: doubled name) = _
        rw [undoubled, if_pos ⟨rfl, rfl⟩, ih]
      · rw [doubled_cons hc]
        cases hrest : doubled name with
        | nil =>
            rw [hrest] at ih
            rw [undoubled, ← ih]
            rfl
        | cons d rest =>
            rw [hrest] at ih
            rw [undoubled, if_neg fun h => hc h.1, ih]

theorem scanQuoted_doubled {name rest : List Char} (hstop : ∀ c ∈ rest.head?, c ≠ '"') :
    scanQuoted '"' (doubled name ++ '"' :: rest) = some (doubled name, rest) := by
  induction name with
  | nil => exact scanQuoted_plain List.not_mem_nil hstop
  | cons c name ih =>
      by_cases hc : c = '"'
      · subst hc
        show scanQuoted '"' ('"' :: '"' :: (doubled name ++ '"' :: rest)) = _
        rw [scanQuoted, if_pos rfl, if_pos rfl, ih]
        rfl
      · rw [doubled_cons hc, List.cons_append]
        cases htail : doubled name ++ '"' :: rest with
        | nil => simp at htail
        | cons d tail =>
            rw [htail] at ih
            rw [scanQuoted, if_neg hc, ih]
            rfl

include hspace in
theorem next_quoted {name rest : List Char}
    (hstop : ∀ c ∈ rest.head?, (Token.quoted (doubled name)).stops space c = true) :
    next space ((Token.quoted (doubled name)).text ++ rest) =
      some (.quoted (doubled name), rest) := by
  have hscan := @scanQuoted_doubled name rest fun c hc => by
    simpa [Token.stops] using hstop c hc
  have hblank := space_false hspace (c := '"') rfl
  have htext : (Token.quoted (doubled name)).text ++ rest =
      '"' :: (doubled name ++ '"' :: rest) := by
    simp [Token.text]
  rw [htext, next, if_neg (by simp [hblank]), if_neg (by decide), if_neg, if_neg (by decide),
    if_pos rfl, hscan]
  · rfl
  · rintro (h | ⟨h, -⟩)
    · exact absurd h (by decide)
    · exact absurd h (by decide)

end ReadBack

end Text.Sql
