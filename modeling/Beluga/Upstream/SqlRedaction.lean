import Beluga.Text.Scan
import Beluga.Text.SqlTokens
import Beluga.Text.Words
import Mathlib.Algebra.Group.Nat.Even
import Mathlib.Tactic.Tauto

/-! # Redaction of SQL

`sqlRedaction.ts`: string literals and numeric literals become `?` and comments a
space; all else stays. The loop is a scanner whose state is the text that is put
out so far.

* `Clean`: no quote, no comment and no bare digit outside quoted identifiers;
* `redact_clean`: every output is clean.
-/

namespace Upstream

namespace Redaction

open Text

/-- `[A-Za-z0-9_$]`. -/
def wordChar (c : Char) : Bool := Sql.wordRest c || c = '$'

/-- `[0-9A-Za-z_.]`. -/
def numeralChar (c : Char) : Bool := Sql.wordRest c || c = '.'

/-- Past the closing quote, or to the end: what is passed and what is left. A doubled quote does
not close. -/
def skipQuoted (q : Char) : List Char → List Char × List Char
  | [] => ([], [])
  | [c] => ([c], [])
  | c :: d :: cs =>
      if c = q then
        if d = q then (c :: d :: (skipQuoted q cs).1, (skipQuoted q cs).2)
        else ([c], d :: cs)
      else (c :: (skipQuoted q (d :: cs)).1, (skipQuoted q (d :: cs)).2)

/-- Behind the first end of a comment, or the end. -/
def skipBlock : List Char → List Char
  | c :: d :: cs => if c = '*' ∧ d = '/' then cs else skipBlock (d :: cs)
  | _ => []

/-- One turn of the loop: what is put out then, and where it goes on. -/
def redactStep (out : List Char) (ch : Char) (rest : List Char) : List Char × List Char :=
  if ch = '\'' then (out ++ ['?'], (skipQuoted ch rest).2)
  else if ch = '"' then (out ++ ch :: (skipQuoted ch rest).1, (skipQuoted ch rest).2)
  else if ch = '-' ∧ rest.head? = some '-' then (out ++ [' '], rest.dropWhile (· ≠ '\n'))
  else if ch = '/' ∧ rest.head? = some '*' then (out ++ [' '], skipBlock rest.tail)
  else if Regex.digit ch = true ∧ out.getLast?.any wordChar = false then
    (out ++ ['?'], rest.dropWhile numeralChar)
  else (out ++ [ch], rest)

def redactSqlLiterals (sql : String) : String :=
  String.ofList (trim (scan redactStep [] sql.toList))

/-! ## The loop comes to an end -/

theorem skipQuoted_append (q : Char) (cs : List Char) :
    (skipQuoted q cs).1 ++ (skipQuoted q cs).2 = cs := by
  induction cs using skipQuoted.induct q with
  | case1 => rfl
  | case2 c => rfl
  | case3 cs ih =>
      rw [skipQuoted, if_pos rfl, if_pos rfl, List.cons_append, List.cons_append, ih]
  | case4 d cs hne =>
      rw [skipQuoted, if_pos rfl, if_neg hne]
      rfl
  | case5 c d cs hne ih => rw [skipQuoted, if_neg hne, List.cons_append, ih]

theorem length_skipQuoted (q : Char) (cs : List Char) : (skipQuoted q cs).2.length ≤ cs.length := by
  have hlen := congrArg List.length (skipQuoted_append q cs)
  rw [List.length_append] at hlen
  omega

theorem length_skipBlock (cs : List Char) : (skipBlock cs).length ≤ cs.length := by
  induction cs using skipBlock.induct with
  | case1 c d cs h =>
      rw [skipBlock, if_pos h, List.length_cons, List.length_cons]
      omega
  | case2 c d cs h ih =>
      rw [skipBlock, if_neg h, List.length_cons]
      omega
  | case3 cs h =>
      rw [skipBlock]
      · exact Nat.zero_le _
      · exact h

theorem length_dropWhile (p : Char → Bool) (cs : List Char) :
    (cs.dropWhile p).length ≤ cs.length := (List.dropWhile_suffix p).length_le

theorem redactStep_shrinks : Shrinks redactStep := by
  intro out ch rest
  rw [redactStep]
  split_ifs
  · exact length_skipQuoted _ _
  · exact length_skipQuoted _ _
  · exact length_dropWhile _ _
  · have htail := length_skipBlock rest.tail
    rw [List.length_tail] at htail
    exact le_trans htail (Nat.sub_le _ _)
  · exact length_dropWhile _ _
  · exact Nat.le_refl _

/-! ## Clean texts -/

/-- `[A-Za-z_$]`. -/
def wordBegin (c : Char) : Bool := Sql.wordStart c || c = '$'

/-- The word that goes on behind this text begins with a letter, an underscore or a dollar sign. -/
def InWord (front : List Char) : Prop :=
  ∃ before s w, front = before ++ s :: w ∧ before.getLast?.any wordChar = false ∧
    wordBegin s = true ∧ ∀ c ∈ w, wordChar c = true

/-- Behind this text there is no quoted identifier that is open. -/
def Outside (front : List Char) : Prop := Even (front.count '"')

/-- A character that may stand behind this text. -/
structure Allowed (front : List Char) (c : Char) : Prop where
  quote : c ≠ '\''
  line : ¬ (front.getLast? = some '-' ∧ c = '-')
  block : ¬ (front.getLast? = some '/' ∧ c = '*')
  digit : Regex.digit c = true → InWord front

/-- Outside quoted identifiers there are no quotes, no comments, and no digits but in words. -/
def Clean (out : List Char) : Prop :=
  ∀ front c, front ++ [c] <+: out → Outside front → Allowed front c

variable {out front : List Char} {c : Char}

theorem clean_nil : Clean [] := by
  intro front c hpre
  exact absurd (List.prefix_nil.mp hpre) (by simp)

theorem clean_snoc : Clean (out ++ [c]) ↔ Clean out ∧ (Outside out → Allowed out c) := by
  constructor
  · intro h
    refine ⟨fun front d hpre => h front d (hpre.trans (List.prefix_append _ _)), ?_⟩
    exact h out c (List.prefix_refl _)
  · rintro ⟨hclean, hlast⟩ front d hpre
    rcases List.prefix_concat_iff.mp hpre with heq | hpre
    · obtain ⟨rfl, heq'⟩ := List.append_inj' heq rfl
      cases heq'
      exact hlast
    · exact hclean front d hpre

theorem outside_snoc (hc : c ≠ '"') : Outside (out ++ [c]) ↔ Outside out := by
  rw [Outside, List.count_append, List.count_singleton, if_neg (by simpa using hc), Nat.add_zero]
  rfl

theorem outside_quote : Outside (out ++ ['"']) ↔ ¬ Outside out := by
  rw [Outside, List.count_append, List.count_singleton_self, Nat.even_add_one, Outside]

theorem inWord_snoc (h : InWord out) (hc : wordChar c = true) : InWord (out ++ [c]) := by
  obtain ⟨before, s, w, rfl, hbefore, hs, hw⟩ := h
  refine ⟨before, s, w ++ [c], by simp, hbefore, hs, fun d hd => ?_⟩
  rcases List.mem_append.mp hd with hd | hd
  · exact hw d hd
  · rwa [List.mem_singleton.mp hd]

theorem wordBegin_of_not_digit (hc : wordChar c = true) (hdigit : Regex.digit c ≠ true) :
    wordBegin c = true := by
  simp only [wordChar, Sql.wordRest, Bool.or_eq_true] at hc
  simp only [wordBegin, Bool.or_eq_true]
  tauto

theorem ne_quote_of_word (hc : wordChar c = true) : c ≠ '"' := by
  rintro rfl
  revert hc
  decide

/-- In a clean text every word has a proper beginning. -/
theorem inWord_of_clean (hclean : Clean out) (hout : Outside out)
    (hlast : out.getLast?.any wordChar = true) : InWord out := by
  induction out using List.reverseRecOn with
  | nil => cases hlast
  | append_singleton front c ih =>
      obtain ⟨hfront, hallowed⟩ := clean_snoc.mp hclean
      have hc : wordChar c = true := by simpa using hlast
      have houtside := (outside_snoc (ne_quote_of_word hc)).mp hout
      by_cases hdigit : Regex.digit c = true
      · exact inWord_snoc ((hallowed houtside).digit hdigit) hc
      · by_cases hword : front.getLast?.any wordChar = true
        · exact inWord_snoc (ih hfront houtside hword) hc
        · -- the first character of the word
          refine ⟨front, c, [], rfl, ?_, wordBegin_of_not_digit hc hdigit, nofun⟩
          simpa using hword

/-! ## The output is clean -/

/-- A character that is allowed everywhere. -/
def plain (c : Char) : Bool := c ≠ '\'' && c ≠ '-' && c ≠ '*' && !Regex.digit c

theorem allowed_of_plain (hc : plain c = true) : Allowed front c := by
  simp only [plain, Bool.and_eq_true, decide_eq_true_eq, Bool.not_eq_true'] at hc
  obtain ⟨⟨⟨hquote, hline⟩, hblock⟩, hdigit⟩ := hc
  refine ⟨hquote, fun h => hline h.2, fun h => hblock h.2, fun h => ?_⟩
  rw [hdigit] at h
  cases h

/-- What is put out so far is clean, and goes together with what is left. -/
structure Inv (out rest : List Char) : Prop where
  clean : Clean out
  outside : rest ≠ [] → Outside out
  line : out.getLast? = some '-' → rest.head? ≠ some '-'
  block : out.getLast? = some '/' → rest.head? ≠ some '*'

/-- A mark in the place of what is redacted. -/
theorem inv_mark {m : Char} {rest : List Char} (hm : m = '?' ∨ m = ' ') (hclean : Clean out)
    (hout : Outside out) : Inv (out ++ [m]) rest := by
  have hplain : plain m = true := by
    rcases hm with rfl | rfl
    · decide
    · decide
  have hne : m ≠ '"' ∧ m ≠ '-' ∧ m ≠ '/' := by
    rcases hm with rfl | rfl
    · decide
    · decide
  refine ⟨clean_snoc.mpr ⟨hclean, fun _ => allowed_of_plain hplain⟩,
    fun _ => (outside_snoc hne.1).mpr hout, ?_, ?_⟩
  · simpa using fun h => absurd h hne.2.1
  · simpa using fun h => absurd h hne.2.2

/-- Inside a quoted identifier everything is allowed. -/
theorem clean_skipQuoted {cs : List Char} (hclean : Clean out) (hin : ¬ Outside out) :
    Clean (out ++ (skipQuoted '"' cs).1) ∧ ((skipQuoted '"' cs).2 ≠ [] →
      Outside (out ++ (skipQuoted '"' cs).1) ∧
        (out ++ (skipQuoted '"' cs).1).getLast? = some '"') := by
  have hstep : ∀ {c : Char}, Clean (out ++ [c]) := by
    intro c
    exact clean_snoc.mpr ⟨hclean, fun hout => absurd hout hin⟩
  induction cs using skipQuoted.induct '"' generalizing out with
  | case1 =>
      rw [skipQuoted, List.append_nil]
      exact ⟨hclean, fun h => absurd rfl h⟩
  | case2 c =>
      rw [skipQuoted]
      exact ⟨hstep, fun h => absurd rfl h⟩
  | case3 cs ih =>
      -- a doubled quote: outside for a moment
      have hmid : Clean (out ++ ['"'] ++ ['"']) :=
        clean_snoc.mpr ⟨hstep, fun _ => allowed_of_plain (by decide)⟩
      have hin' : ¬ Outside (out ++ ['"'] ++ ['"']) := by
        rw [outside_quote, outside_quote, not_not]
        exact hin
      rw [skipQuoted, if_pos rfl, if_pos rfl]
      have hrest := ih hmid hin' fun {c} => clean_snoc.mpr ⟨hmid, fun h => absurd h hin'⟩
      simpa using hrest
  | case4 d cs hne =>
      rw [skipQuoted, if_pos rfl, if_neg hne]
      exact ⟨hstep, fun _ => ⟨outside_quote.mpr hin, by simp⟩⟩
  | case5 c d cs hne ih =>
      have hin' : ¬ Outside (out ++ [c]) := by
        rw [outside_snoc hne]
        exact hin
      rw [skipQuoted, if_neg hne]
      have hrest := ih hstep hin' fun {c} => clean_snoc.mpr ⟨hstep, fun h => absurd h hin'⟩
      simpa using hrest

theorem redactStep_inv {rest : List Char} (h : Inv out (c :: rest)) :
    Inv (redactStep out c rest).1 (redactStep out c rest).2 := by
  have hout := h.outside (List.cons_ne_nil _ _)
  rw [redactStep]
  split_ifs with hquote hdouble hline hblock hdigit
  · exact inv_mark (.inl rfl) h.clean hout
  · rw [hdouble]
    have hin : ¬ Outside (out ++ ['"']) := by
      rw [outside_quote, not_not]
      exact hout
    have hopen : Clean (out ++ ['"']) :=
      clean_snoc.mpr ⟨h.clean, fun _ => allowed_of_plain (by decide)⟩
    obtain ⟨hclean, hend⟩ := @clean_skipQuoted _ rest hopen hin
    rw [List.append_assoc, List.singleton_append] at hclean hend
    refine ⟨hclean, fun hne => (hend hne).1, fun hlast hhead => ?_, fun hlast hhead => ?_⟩
    · have hne : (skipQuoted '"' rest).2 ≠ [] := fun hnil => by
        rw [hnil] at hhead
        cases hhead
      cases (hend hne).2.symm.trans hlast
    · have hne : (skipQuoted '"' rest).2 ≠ [] := fun hnil => by
        rw [hnil] at hhead
        cases hhead
      cases (hend hne).2.symm.trans hlast
  · exact inv_mark (.inr rfl) h.clean hout
  · exact inv_mark (.inr rfl) h.clean hout
  · exact inv_mark (.inl rfl) h.clean hout
  · have hallowed : Allowed out c := by
      refine ⟨hquote, fun hpair => ?_, fun hpair => ?_, fun hc => ?_⟩
      · exact h.line hpair.1 (congrArg some hpair.2)
      · exact h.block hpair.1 (congrArg some hpair.2)
      · refine inWord_of_clean h.clean hout ?_
        by_contra hword
        exact hdigit ⟨hc, by simpa using hword⟩
    refine ⟨clean_snoc.mpr ⟨h.clean, fun _ => hallowed⟩, fun _ => (outside_snoc hdouble).mpr hout,
      fun hlast hhead => ?_, fun hlast hhead => ?_⟩
    · exact hline ⟨by simpa using hlast, hhead⟩
    · exact hblock ⟨by simpa using hlast, hhead⟩

/-- The characters of words are printed ones. -/
theorem not_space_of_word (hc : wordChar c = true) : Regex.space c = false := by
  have hrange : 36 ≤ c.toNat ∧ c.toNat ≤ 122 := by
    have hle : ∀ lo hi : Char, lo ≤ c ∧ c ≤ hi ↔ lo.toNat ≤ c.toNat ∧ c.toNat ≤ hi.toNat :=
      fun _ _ => Iff.rfl
    simp only [wordChar, Sql.wordRest, Sql.wordStart, Sql.letter, Regex.digit, Bool.or_eq_true,
      Bool.and_eq_true, decide_eq_true_eq, hle] at hc
    rcases hc with ((((h | h) | rfl) | h) | rfl)
    · exact ⟨le_trans (by decide) h.1, le_trans h.2 (by decide)⟩
    · exact ⟨le_trans (by decide) h.1, le_trans h.2 (by decide)⟩
    · decide
    · exact ⟨le_trans (by decide) h.1, le_trans h.2 (by decide)⟩
    · decide
  simp only [Regex.space, Bool.or_eq_false_iff, Bool.and_eq_false_iff, decide_eq_false_iff_not]
  omega

theorem word_of_begin (hc : wordBegin c = true) : wordChar c = true := by
  simp only [wordBegin, Bool.or_eq_true] at hc
  simp only [wordChar, Sql.wordRest, Bool.or_eq_true]
  tauto

theorem clean_cons (hspace : Regex.space c = true) (h : Clean (c :: out)) : Clean out := by
  have hquote : c ≠ '"' := by
    rintro rfl
    revert hspace
    decide
  intro front d hpre hout
  have houtside : Outside (c :: front) := by
    rw [Outside, List.count_cons, if_neg (by simpa using hquote), Nat.add_zero]
    exact hout
  obtain ⟨hq, hline, hblock, hdigit⟩ := h (c :: front) d (List.cons_prefix_cons.mpr ⟨rfl, hpre⟩) houtside
  have hlast : ∀ {x : Char}, front.getLast? = some x → (c :: front).getLast? = some x := by
    intro x hx
    rw [List.getLast?_cons, hx]
    rfl
  refine ⟨hq, fun hpair => hline ⟨hlast hpair.1, hpair.2⟩,
    fun hpair => hblock ⟨hlast hpair.1, hpair.2⟩, fun hd => ?_⟩
  obtain ⟨before, s, w, heq, hbefore, hs, hw⟩ := hdigit hd
  cases before with
  | nil =>
      -- white space does not begin a word
      cases heq
      rw [not_space_of_word (word_of_begin hs)] at hspace
      cases hspace
  | cons c' before =>
      obtain ⟨rfl, hfront⟩ := List.cons.inj heq
      refine ⟨before, s, w, hfront, ?_, hs, hw⟩
      cases before with
      | nil => rfl
      | cons x before => simpa using hbefore

theorem clean_trim (h : Clean out) : Clean (trim out) := by
  obtain ⟨lead, trail, hout, hlead, -⟩ := trim_spec out
  rw [hout] at h
  clear hout
  have hbehind : Clean (trim out ++ trail) := by
    induction lead with
    | nil => exact h
    | cons c lead ih =>
        exact ih (clean_cons (hlead c List.mem_cons_self) h)
          fun d hd => hlead d (List.mem_cons_of_mem c hd)
  exact fun front c hpre => hbehind front c (hpre.trans (List.prefix_append _ _))

theorem redact_clean (sql : String) : Clean (redactSqlLiterals sql).toList := by
  have hinv : Inv (scan redactStep [] sql.toList) [] := by
    refine scan_invariant redactStep_shrinks (fun out c rest => redactStep_inv) ?_
    exact ⟨clean_nil, fun _ => Even.zero, nofun, nofun⟩
  rw [redactSqlLiterals, String.toList_ofList]
  exact clean_trim hinv.clean

end Redaction

end Upstream
