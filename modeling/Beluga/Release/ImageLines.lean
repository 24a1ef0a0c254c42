import Beluga.Release.Images
import Mathlib.Data.List.DropRight

/-! # The image lines of a text

What the expression for `image:` finds, line by line.

* `imageRe_head`: what it matches at the beginning of a line;
* `findall_lines`: a line gives a reference to its own key, or to one that still has none;
* `mem_imageRefs`: these are the references that are found.
-/

namespace Release

open Py Text.Matcher

/-! ## Lines -/

/-- A quote in front is left out. -/
def unquote : List Char → List Char
  | [] => []
  | c :: cs => if isQuote c then cs else c :: cs

/-- The letters of a reference that stand first, but for white space and a quote. -/
def valueOf (cs : List Char) : List Char := (unquote (cs.dropWhile isSpace)).takeWhile imageLetter

def afterValue (cs : List Char) : List Char :=
  (unquote (cs.dropWhile isSpace)).dropWhile imageLetter

/-- A dash in front is left out. -/
def dashless : List Char → List Char
  | [] => []
  | c :: cs => if c = '-' then cs else c :: cs

/-- What stands behind white space, a dash and white space. -/
def undash (cs : List Char) : List Char := (dashless (cs.dropWhile isSpace)).dropWhile isSpace

/-- What stands behind `image:`, where the text begins with it. -/
def afterKey (cs : List Char) : Option (List Char) :=
  if "image:".toList <+: undash cs then some ((undash cs).drop 6) else none

def BlankLine (l : List Char) : Prop := l.dropWhile isSpace = []

instance (l : List Char) : Decidable (BlankLine l) := inferInstanceAs (Decidable (_ = []))

/-- Whether an `image:` still has no value after the line. -/
def waitsAfter (waiting : Bool) (l : List Char) : Bool :=
  if BlankLine l then waiting
  else if waiting = true ∧ valueOf l ≠ [] then false
  else
    match afterKey l with
    | some rest => decide (BlankLine rest)
    | none => false

/-- Whether an `image:` has no value on these lines. -/
def waits (lines : List (List Char)) : Bool := lines.foldl waitsAfter false

/-- The value of the line: for the key before it that waits for one, or for its own. -/
def shown (waiting : Bool) (l : List Char) : List Char :=
  if waiting = true ∧ valueOf l ≠ [] then valueOf l
  else
    match afterKey l with
    | some rest => valueOf rest
    | none => []

/-- The text has a line that gives the reference. -/
def OnImageLine (text ref : String) : Prop :=
  ∃ before l after, text.toList.splitOn '\n' = before ++ l :: after ∧ ref ≠ "" ∧
    shown (waits before) l = ref.toList

section Expression

variable {cs rest : List Char}

/-! ## The expression -/

theorem imageLetter_space {c : Char} (hc : isSpace c = true) : ¬imageLetter c = true := by
  simp [imageLetter, hc]

theorem imageLetter_quote {c : Char} (hc : isQuote c = true) : ¬imageLetter c = true := by
  simp [imageLetter, hc]

theorem isQuote_space {c : Char} (hc : isSpace c = true) : ¬isQuote c = true := by
  intro h
  unfold isQuote at h
  rw [Bool.or_eq_true, decide_eq_true_eq, decide_eq_true_eq] at h
  rcases h with rfl | rfl
  · exact absurd hc (by decide)
  · exact absurd hc (by decide)

/-- The part behind the colon. -/
def valuePart : Text.Matcher (List Char) :=
  star isSpace >>= fun _ => optional isQuote >>= fun _ => plus imageLetter

theorem optionalQuote (cs : List Char) :
    (optional isQuote >>= fun _ => plus imageLetter) cs = plus imageLetter (unquote cs) := by
  cases cs with
  | nil => rw [optional_bind_nil, unquote]
  | cons c cs =>
      by_cases hc : isQuote c = true
      · rw [optional_bind_cons hc, plus_cons_neg (imageLetter_quote hc), List.append_nil, unquote,
          if_pos hc]
      · rw [optional_bind_neg hc, unquote, if_neg hc]

theorem valuePart_eq (cs : List Char) :
    valuePart cs = plus imageLetter (unquote (cs.dropWhile isSpace)) := by
  rw [valuePart, star_bind_eq, optionalQuote]
  intro c rest hc
  rw [optionalQuote, unquote, if_neg (isQuote_space hc), plus_cons_neg (imageLetter_space hc)]

theorem valuePart_head (cs : List Char) : (valuePart cs).head? =
    if valueOf cs = [] then none else some (valueOf cs, afterValue cs) := by
  rw [valuePart_eq, plus_head]
  rfl

/-- The key and what follows it, where white space may stand before it. -/
theorem keyPart_eq (cs : List Char) : (star isSpace >>= fun _ => exactly "image:".toList >>= fun _ =>
    valuePart) cs = if "image:".toList <+: cs.dropWhile isSpace then
      valuePart ((cs.dropWhile isSpace).drop 6) else [] := by
  rw [star_bind_eq, exactly_bind]
  · rfl
  · intro c rest hc
    rw [exactly_bind, if_neg]
    intro hword
    rcases hword with ⟨tail, htail⟩
    have hfirst : 'i' = c := (List.cons.inj htail).1
    rw [← hfirst] at hc
    exact absurd hc (by decide)

theorem keyPart_cons {c : Char} (hc : c ≠ 'i') (hspace : ¬isSpace c = true) (cs : List Char) :
    (star isSpace >>= fun _ => exactly "image:".toList >>= fun _ => valuePart) (c :: cs) = [] := by
  rw [keyPart_eq, List.dropWhile_cons_of_neg hspace, if_neg]
  intro hword
  rcases hword with ⟨tail, htail⟩
  exact hc (List.cons.inj htail).1.symm

/-- The part from a dash on. -/
theorem dashPart_eq (cs : List Char) : (optional (· = '-') >>= fun _ => star isSpace >>= fun _ =>
    exactly "image:".toList >>= fun _ => valuePart) cs =
      (star isSpace >>= fun _ => exactly "image:".toList >>= fun _ => valuePart) (dashless cs) := by
  cases cs with
  | nil => rw [optional_bind_nil, dashless]
  | cons c cs =>
      by_cases hc : c = '-'
      · subst hc
        rw [optional_bind_cons (decide_eq_true rfl), keyPart_cons (by decide) (by decide),
          List.append_nil]
        rfl
      · rw [optional_bind_neg (by simpa using hc), dashless, if_neg hc]

theorem imageRe_head (cs : List Char) : (IMAGE_RE cs).head? =
    (afterKey cs).bind fun rest =>
      if valueOf rest = [] then none else some (valueOf rest, afterValue rest) := by
  have hre : IMAGE_RE = star isSpace >>= fun _ => optional (· = '-') >>= fun _ =>
      star isSpace >>= fun _ => exactly "image:".toList >>= fun _ => valuePart := rfl
  rw [hre, star_bind_head, dashPart_eq, keyPart_eq, afterKey, undash]
  · by_cases hkey : "image:".toList <+: (dashless (cs.dropWhile isSpace)).dropWhile isSpace
    · rw [if_pos hkey, if_pos hkey, valuePart_head]
      rfl
    · rw [if_neg hkey, if_neg hkey]
      rfl
  · intro c rest hc
    have hdash : c ≠ '-' := by
      intro h
      rw [h] at hc
      exact absurd hc (by decide)
    rw [dashPart_eq, dashPart_eq, keyPart_eq, dashless, if_neg hdash,
      List.dropWhile_cons_of_pos hc]
    cases hrest : rest.dropWhile isSpace with
    | nil => exact .inl rfl
    | cons d tail =>
        by_cases hd : d = '-'
        · subst hd
          refine .inl (if_neg fun hword => ?_)
          rcases hword with ⟨more, hmore⟩
          exact absurd (List.cons.inj hmore).1 (by decide)
        · rw [dashless, if_neg hd, keyPart_eq, ← hrest, List.dropWhile_idempotent]
          exact .inr rfl

end Expression

/-! ## Lines are read one by one -/

section Read

variable {l t ref : List Char}

theorem dropWhile_line (hl : ¬BlankLine l) (t : List Char) :
    (l ++ t).dropWhile isSpace = l.dropWhile isSpace ++ t := by
  induction l with
  | nil => exact absurd rfl hl
  | cons c l ih =>
      by_cases hc : isSpace c = true
      · rw [List.cons_append, List.dropWhile_cons_of_pos hc, List.dropWhile_cons_of_pos hc]
        refine ih fun hblank => hl ?_
        rw [BlankLine, List.dropWhile_cons_of_pos hc]
        exact hblank
      · rw [List.cons_append, List.dropWhile_cons_of_neg hc, List.dropWhile_cons_of_neg hc,
          List.cons_append]

theorem blank_space (hl : BlankLine l) : ∀ c ∈ l, isSpace c = true := List.dropWhile_eq_nil_iff.mp hl

/-- The text behind a line: none, or a new line and the next lines. -/
def Follows (tail t : List Char) : Prop := tail = [] ∧ t = [] ∨ tail = '\n' :: t

variable {tail : List Char}

theorem Follows.stops (h : Follows tail t) {p : Char → Bool} (hp : ¬p '\n' = true)
    (l : List Char) : (l ++ tail).takeWhile p = l.takeWhile p ∧
      (l ++ tail).dropWhile p = l.dropWhile p ++ tail := by
  induction l with
  | nil =>
      rcases h with ⟨rfl, -⟩ | rfl
      · exact ⟨rfl, rfl⟩
      · exact ⟨List.takeWhile_cons_of_neg hp, List.dropWhile_cons_of_neg hp⟩
  | cons c l ih =>
      rw [List.cons_append]
      by_cases hc : p c = true
      · rw [List.takeWhile_cons_of_pos hc, List.takeWhile_cons_of_pos hc, ih.1,
          List.dropWhile_cons_of_pos hc, List.dropWhile_cons_of_pos hc]
        exact ⟨rfl, ih.2⟩
      · rw [List.takeWhile_cons_of_neg hc, List.takeWhile_cons_of_neg hc,
          List.dropWhile_cons_of_neg hc, List.dropWhile_cons_of_neg hc]
        exact ⟨rfl, rfl⟩

theorem Follows.blank (h : Follows tail t) (hl : BlankLine l) :
    (l ++ tail).dropWhile isSpace = t.dropWhile isSpace := by
  rw [List.dropWhile_append_of_pos (blank_space hl)]
  rcases h with ⟨rfl, rfl⟩ | rfl
  · rfl
  · exact List.dropWhile_cons_of_pos (by decide)

theorem unquote_append {cs : List Char} (hcs : cs ≠ []) (tail : List Char) :
    unquote (cs ++ tail) = unquote cs ++ tail := by
  cases cs with
  | nil => exact absurd rfl hcs
  | cons c cs =>
      rw [List.cons_append, unquote, unquote]
      by_cases hc : isQuote c = true
      · rw [if_pos hc, if_pos hc]
      · rw [if_neg hc, if_neg hc, List.cons_append]

theorem Follows.value_blank (h : Follows tail t) (hl : BlankLine l) :
    valueOf (l ++ tail) = valueOf t ∧ afterValue (l ++ tail) = afterValue t := by
  rw [valueOf, valueOf, afterValue, afterValue, h.blank hl]
  exact ⟨rfl, rfl⟩

theorem Follows.value_line (h : Follows tail t) (hl : ¬BlankLine l) :
    valueOf (l ++ tail) = valueOf l ∧ afterValue (l ++ tail) = afterValue l ++ tail := by
  rw [valueOf, valueOf, afterValue, afterValue, dropWhile_line hl, unquote_append hl]
  exact h.stops (by decide) _

theorem Follows.key_blank (h : Follows tail t) (hl : BlankLine l) :
    afterKey (l ++ tail) = afterKey t := by
  rw [afterKey, afterKey, undash, undash, h.blank hl]

theorem dashless_append {cs : List Char} (hcs : cs ≠ []) (tail : List Char) :
    dashless (cs ++ tail) = dashless cs ++ tail := by
  cases cs with
  | nil => exact absurd rfl hcs
  | cons c cs =>
      rw [List.cons_append, dashless, dashless]
      by_cases hc : c = '-'
      · rw [if_pos hc, if_pos hc]
      · rw [if_neg hc, if_neg hc, List.cons_append]

/-- A word does not go on behind the line. -/
theorem Follows.word (h : Follows tail t) {w : List Char} (hw : '\n' ∉ w) (cs : List Char) :
    w <+: cs ++ tail ↔ w <+: cs := by
  induction cs generalizing w with
  | nil =>
      rcases h with ⟨rfl, -⟩ | rfl
      · exact Iff.rfl
      · cases w with
        | nil => exact iff_of_true (List.nil_prefix) (List.nil_prefix)
        | cons a w =>
            refine iff_of_false (fun hword => ?_) (fun hword => ?_)
            · rw [List.nil_append, List.cons_prefix_cons] at hword
              exact hw (hword.1 ▸ List.mem_cons_self)
            · cases List.prefix_nil.mp hword
  | cons c cs ih =>
      cases w with
      | nil => exact iff_of_true (List.nil_prefix) (List.nil_prefix)
      | cons a w =>
          rw [List.mem_cons, not_or] at hw
          rw [List.cons_append, List.cons_prefix_cons, List.cons_prefix_cons, ih hw.2]

/-- A key on the line. -/
theorem Follows.key_line (h : Follows tail t) {rest : List Char} (hkey : afterKey l = some rest) :
    afterKey (l ++ tail) = some (rest ++ tail) := by
  unfold afterKey at hkey ⊢
  by_cases hword : "image:".toList <+: undash l
  · rw [if_pos hword] at hkey
    have hne : undash l ≠ [] := by
      intro hnil
      rw [hnil] at hword
      cases List.prefix_nil.mp hword
    have hdash : ¬BlankLine (dashless (l.dropWhile isSpace)) := hne
    have hl : ¬BlankLine l := by
      intro hblank
      apply hne
      rw [undash, hblank]
      rfl
    have hundash : undash (l ++ tail) = undash l ++ tail := by
      rw [undash, dropWhile_line hl, dashless_append hl, dropWhile_line hdash, undash]
    have hlength : 6 ≤ (undash l).length := hword.length_le
    rw [hundash, if_pos ((h.word (by decide) _).mpr hword), List.drop_append_of_le_length hlength,
      Option.some.inj hkey]
  · rw [if_neg hword] at hkey
    cases hkey

/-- Where the line has no key, a dash on it may stand before the key of a line behind it. -/
theorem Follows.key_none (h : Follows tail t) (hl : ¬BlankLine l) (hkey : afterKey l = none) :
    afterKey (l ++ tail) = none ∨ afterKey (l ++ tail) = afterKey t := by
  unfold afterKey at hkey ⊢
  have hword : ¬"image:".toList <+: undash l := by
    intro hword
    rw [if_pos hword] at hkey
    cases hkey
  by_cases hdash : BlankLine (dashless (l.dropWhile isSpace))
  · have hundash : undash (l ++ tail) = t.dropWhile isSpace := by
      rw [undash, dropWhile_line hl, dashless_append hl, h.blank hdash]
    rw [hundash]
    by_cases hnext : "image:".toList <+: t.dropWhile isSpace
    · refine .inr ?_
      have hsame : undash t = t.dropWhile isSpace := by
        rw [undash]
        cases hcs : t.dropWhile isSpace with
        | nil => rfl
        | cons c cs =>
            have hc : c ≠ '-' := by
              intro hc
              rw [hcs, hc] at hnext
              exact absurd (List.cons_prefix_cons.mp hnext).1 (by decide)
            rw [dashless, if_neg hc, ← hcs, List.dropWhile_idempotent]
      rw [hsame]
    · exact .inl (if_neg hnext)
  · have hundash : undash (l ++ tail) = undash l ++ tail := by
      rw [undash, dropWhile_line hl, dashless_append hl, dropWhile_line hdash, undash]
    rw [hundash]
    exact .inl (if_neg (mt (h.word (by decide) _).mp hword))

/-! ## What is found -/

theorem suffix_dropWhile (p : Char → Bool) (cs : List Char) : cs.dropWhile p <:+ cs :=
  List.dropWhile_suffix p

theorem suffix_afterKey {cs rest : List Char} (h : afterKey cs = some rest) : rest <:+ cs := by
  have hdashless : ∀ cs : List Char, dashless cs <:+ cs := by
    intro cs
    cases cs with
    | nil => exact List.suffix_refl _
    | cons c cs =>
        rw [dashless]
        by_cases hc : c = '-'
        · rw [if_pos hc]
          exact List.suffix_cons c cs
        · rw [if_neg hc]
  unfold afterKey at h
  by_cases hword : "image:".toList <+: undash cs
  · rw [if_pos hword] at h
    rw [← Option.some.inj h]
    exact (List.drop_suffix 6 _).trans ((suffix_dropWhile _ _).trans
      ((hdashless _).trans (suffix_dropWhile _ _)))
  · rw [if_neg hword] at h
    cases h

theorem suffix_value (cs : List Char) : valueOf cs ++ afterValue cs <:+ cs := by
  have hunquote : ∀ cs : List Char, unquote cs <:+ cs := by
    intro cs
    cases cs with
    | nil => exact List.suffix_refl _
    | cons c cs =>
        rw [unquote]
        by_cases hc : isQuote c = true
        · rw [if_pos hc]
          exact List.suffix_cons c cs
        · rw [if_neg hc]
  rw [valueOf, afterValue, List.takeWhile_append_dropWhile]
  exact (hunquote _).trans (suffix_dropWhile _ _)

theorem findall_found {cs rest : List Char} (hkey : afterKey cs = some rest)
    (hvalue : valueOf rest ≠ []) :
    findall IMAGE_RE cs = valueOf rest :: findFrom IMAGE_RE 0 false (afterValue rest) := by
  have hhead := imageRe_head cs
  rw [hkey, Option.bind_some, if_neg hvalue] at hhead
  rcases List.eq_nil_or_concat (valueOf rest) with hnil | ⟨front, c, hc⟩
  · exact absurd hnil hvalue
  · have hmem : c ∈ valueOf rest := by
      rw [hc]
      simp
    have hnewline : c ≠ '\n' := by
      intro h
      have hletter := List.mem_takeWhile_imp hmem
      rw [h] at hletter
      exact absurd hletter (by decide)
    rcases (suffix_value rest).trans (suffix_afterKey hkey) with ⟨before, hbefore⟩
    have hcs : cs = (before ++ front) ++ c :: afterValue rest := by
      rw [← hbefore, hc]
      simp
    rw [hcs] at hhead ⊢
    exact findall_match hnewline hhead

theorem findall_lost {cs : List Char} (h : (IMAGE_RE cs).head? = none) (hl : '\n' ∉ l)
    (hf : Follows tail t) (hcs : cs = l ++ tail) : findall IMAGE_RE cs = findall IMAGE_RE t := by
  cases l with
  | nil =>
      rw [List.nil_append] at hcs
      rcases hf with ⟨rfl, rfl⟩ | rfl
      · rw [hcs]
      · rw [hcs] at h ⊢
        exact findall_newline h
  | cons c l =>
      have hc : cs.head? ≠ some '\n' := by
        rw [hcs, List.cons_append, List.head?_cons]
        intro heq
        exact hl (Option.some.inj heq ▸ List.mem_cons_self)
      rw [findall_none h hc, hcs]
      rcases hf with ⟨rfl, rfl⟩ | rfl
      · rw [List.append_nil, findFrom_last hl]
        rfl
      · exact findFrom_line hl

theorem findFrom_follows (hf : Follows tail t) {cs : List Char} (hcs : '\n' ∉ cs) :
    findFrom IMAGE_RE 0 false (cs ++ tail) = findall IMAGE_RE t := by
  rcases hf with ⟨rfl, rfl⟩ | rfl
  · rw [List.append_nil, findFrom_last hcs]
    rfl
  · exact findFrom_line hcs

/-- The values that lines give, one by one. -/
def readLines : Bool → List (List Char) → List (List Char)
  | _, [] => []
  | waiting, l :: ls =>
      (if shown waiting l = [] then [] else [shown waiting l]) ++
        readLines (waitsAfter waiting l) ls

/-- What is found where a key before the text has no value. -/
def findWaiting (cs : List Char) : List (List Char) :=
  if valueOf cs = [] then findall IMAGE_RE cs
  else valueOf cs :: findFrom IMAGE_RE 0 false (afterValue cs)

theorem valueOf_blank (hl : BlankLine l) : valueOf l = [] := by
  rw [valueOf, hl]
  rfl

theorem afterKey_blank (hl : BlankLine l) : afterKey l = none := by
  rw [afterKey, undash, hl]
  rfl

/-- A line with a key begins like a value. -/
theorem valueOf_key {rest : List Char} (h : afterKey l = some rest) : valueOf l ≠ [] := by
  unfold afterKey undash at h
  rw [valueOf]
  cases hcs : l.dropWhile isSpace with
  | nil =>
      rw [hcs] at h
      cases h
  | cons c cs =>
      rw [hcs, dashless] at h
      have hletter : ∀ c : Char, c = '-' ∨ c = 'i' → ∀ cs,
          (unquote (c :: cs)).takeWhile imageLetter ≠ [] := by
        intro c hc cs
        rcases hc with rfl | rfl
        · rw [unquote, if_neg (by decide), List.takeWhile_cons_of_pos (by decide)]
          exact List.cons_ne_nil _ _
        · rw [unquote, if_neg (by decide), List.takeWhile_cons_of_pos (by decide)]
          exact List.cons_ne_nil _ _
      by_cases hdash : c = '-'
      · exact hletter c (.inl hdash) cs
      · rw [if_neg hdash] at h
        have hspace : ¬isSpace c = true := by
          intro hc
          have hidem := List.dropWhile_idempotent (p := isSpace) (l := l)
          have hshort := (List.dropWhile_suffix (p := isSpace) (l := cs)).length_le
          rw [hcs, List.dropWhile_cons_of_pos hc] at hidem
          rw [hidem, List.length_cons] at hshort
          omega
        rw [List.dropWhile_cons_of_neg hspace] at h
        by_cases hword : "image:".toList <+: c :: cs
        · exact hletter c (.inr (List.cons_prefix_cons.mp hword).1.symm) cs
        · rw [if_neg hword] at h
          cases h

theorem afterKey_of_nil (h : valueOf l = []) : afterKey l = none := by
  cases hkey : afterKey l with
  | none => rfl
  | some rest => exact absurd h (valueOf_key hkey)

theorem findall_blank (hf : Follows tail t) (hn : '\n' ∉ l) (hl : BlankLine l) :
    findall IMAGE_RE (l ++ tail) = findall IMAGE_RE t := by
  have hkey := hf.key_blank hl
  have hhead := imageRe_head (l ++ tail)
  cases ht : afterKey t with
  | none =>
      rw [hkey, ht] at hhead
      exact findall_lost hhead hn hf rfl
  | some rest =>
      by_cases hvalue : valueOf rest = []
      · rw [hkey, ht, Option.bind_some, if_pos hvalue] at hhead
        exact findall_lost hhead hn hf rfl
      · rw [findall_found (hkey.trans ht) hvalue, findall_found ht hvalue]

/-- A line without a key gives nothing. -/
theorem findall_noKey (hf : Follows tail t) (hn : '\n' ∉ l) (hl : ¬BlankLine l)
    (hkey : afterKey l = none) : findall IMAGE_RE (l ++ tail) = findall IMAGE_RE t := by
  have hhead := imageRe_head (l ++ tail)
  rcases hf.key_none hl hkey with h | h
  · rw [h] at hhead
    exact findall_lost hhead hn hf rfl
  · cases ht : afterKey t with
    | none =>
        rw [h, ht] at hhead
        exact findall_lost hhead hn hf rfl
    | some rest =>
        by_cases hvalue : valueOf rest = []
        · rw [h, ht, Option.bind_some, if_pos hvalue] at hhead
          exact findall_lost hhead hn hf rfl
        · rw [findall_found (h.trans ht) hvalue, findall_found ht hvalue]

theorem not_mem_of_suffix {cs rest : List Char} (h : rest <:+ cs) (hcs : '\n' ∉ cs) :
    '\n' ∉ rest := fun hmem => hcs (h.subset hmem)

theorem not_mem_afterValue {cs : List Char} (hcs : '\n' ∉ cs) : '\n' ∉ afterValue cs :=
  not_mem_of_suffix ((List.suffix_append _ _).trans (suffix_value cs)) hcs

/-- A line with a key: the value on it, or the one that follows. -/
theorem findall_key (hf : Follows tail t) (hn : '\n' ∉ l) {rest : List Char}
    (hkey : afterKey l = some rest) : findall IMAGE_RE (l ++ tail) =
      if BlankLine rest then findWaiting t
      else (if valueOf rest = [] then [] else [valueOf rest]) ++ findall IMAGE_RE t := by
  have hhead := imageRe_head (l ++ tail)
  have hnext := hf.key_line hkey
  have hrest : '\n' ∉ rest := not_mem_of_suffix (suffix_afterKey hkey) hn
  rw [hnext, Option.bind_some] at hhead
  by_cases hblank : BlankLine rest
  · have hvalue := hf.value_blank hblank
    rw [if_pos hblank, findWaiting]
    by_cases ht : valueOf t = []
    · rw [hvalue.1, if_pos ht] at hhead
      rw [if_pos ht]
      exact findall_lost hhead hn hf rfl
    · rw [if_neg ht, findall_found hnext (hvalue.1 ▸ ht), hvalue.1, hvalue.2]
  · have hvalue := hf.value_line hblank
    rw [if_neg hblank]
    by_cases hnil : valueOf rest = []
    · rw [hvalue.1, if_pos hnil] at hhead
      rw [if_pos hnil, List.nil_append]
      exact findall_lost hhead hn hf rfl
    · rw [if_neg hnil, findall_found hnext (hvalue.1 ▸ hnil), hvalue.1, hvalue.2,
        findFrom_follows hf (not_mem_afterValue hrest)]
      rfl

theorem follows_lines (l : List Char) (ls : List (List Char)) :
    ∃ tail, ['\n'].intercalate (l :: ls) = l ++ tail ∧ Follows tail (['\n'].intercalate ls) := by
  cases ls with
  | nil => exact ⟨[], by simp, .inl ⟨rfl, rfl⟩⟩
  | cons l' ls =>
      refine ⟨'\n' :: ['\n'].intercalate (l' :: ls), ?_, .inr rfl⟩
      rw [List.intercalate_cons_of_ne_nil (List.cons_ne_nil _ _)]
      simp

theorem shown_false_none (h : afterKey l = none) : shown false l = [] := by
  rw [shown, if_neg (fun h => by cases h.1), h]

theorem shown_false_some {rest : List Char} (h : afterKey l = some rest) :
    shown false l = valueOf rest := by
  rw [shown, if_neg (fun h => by cases h.1), h]

theorem waitsAfter_false_none (hl : ¬BlankLine l) (h : afterKey l = none) :
    waitsAfter false l = false := by
  rw [waitsAfter, if_neg hl, if_neg (fun h => by cases h.1), h]

theorem waitsAfter_false_some (hl : ¬BlankLine l) {rest : List Char} (h : afterKey l = some rest) :
    waitsAfter false l = decide (BlankLine rest) := by
  rw [waitsAfter, if_neg hl, if_neg (fun h => by cases h.1), h]

/-- A key that waits takes what stands first on the line. -/
theorem shown_true (hl : valueOf l ≠ []) : shown true l = valueOf l := if_pos ⟨rfl, hl⟩

theorem shown_true_nil (h : valueOf l = []) : shown true l = [] := by
  rw [shown, if_neg (fun hne => hne.2 h), afterKey_of_nil h]

theorem waitsAfter_true (hl : ¬BlankLine l) : waitsAfter true l = false := by
  rw [waitsAfter, if_neg hl]
  by_cases hnil : valueOf l = []
  · rw [if_neg (fun h => h.2 hnil), afterKey_of_nil hnil]
  · rw [if_pos ⟨rfl, hnil⟩]

theorem shown_blank (hl : BlankLine l) (waiting : Bool) : shown waiting l = [] := by
  rw [shown, if_neg (fun h => h.2 (valueOf_blank hl)), afterKey_blank hl]

theorem findall_lines (ls : List (List Char)) (hls : ∀ l ∈ ls, '\n' ∉ l) :
    findall IMAGE_RE (['\n'].intercalate ls) = readLines false ls ∧
      findWaiting (['\n'].intercalate ls) = readLines true ls := by
  induction ls with
  | nil => exact ⟨rfl, rfl⟩
  | cons l ls ih =>
      have hn := hls l List.mem_cons_self
      rcases ih fun l' hl' => hls l' (List.mem_cons_of_mem l hl') with ⟨hidle, hwaiting⟩
      rcases follows_lines l ls with ⟨tail, htext, hf⟩
      rw [htext, readLines, readLines]
      by_cases hblank : BlankLine l
      · have hvalue := hf.value_blank hblank
        rw [shown_blank hblank, shown_blank hblank, if_pos rfl, waitsAfter, waitsAfter,
          if_pos hblank, if_pos hblank, List.nil_append, List.nil_append, ← hidle, ← hwaiting,
          findWaiting, findWaiting, hvalue.1, hvalue.2, findall_blank hf hn hblank]
        exact ⟨rfl, rfl⟩
      · have hvalue := hf.value_line hblank
        constructor
        · cases hkey : afterKey l with
          | none =>
              rw [findall_noKey hf hn hblank hkey, hidle, shown_false_none hkey, if_pos rfl,
                waitsAfter_false_none hblank hkey, List.nil_append]
          | some rest =>
              rw [findall_key hf hn hkey, hidle, hwaiting, shown_false_some hkey,
                waitsAfter_false_some hblank hkey]
              by_cases hrest : BlankLine rest
              · rw [if_pos hrest, if_pos (valueOf_blank hrest), decide_eq_true hrest,
                  List.nil_append]
              · rw [if_neg hrest, decide_eq_false hrest]
        · rw [findWaiting, hvalue.1, waitsAfter_true hblank]
          by_cases hnil : valueOf l = []
          · rw [if_pos hnil, findall_noKey hf hn hblank (afterKey_of_nil hnil), hidle,
              shown_true_nil hnil, if_pos rfl, List.nil_append]
          · rw [if_neg hnil, hvalue.2, findFrom_follows hf (not_mem_afterValue hn), hidle,
              shown_true hnil, if_neg hnil]
            rfl

theorem mem_readLines {waiting : Bool} {ls : List (List Char)} : ref ∈ readLines waiting ls ↔
    ∃ before l after, ls = before ++ l :: after ∧ ref ≠ [] ∧
      shown (before.foldl waitsAfter waiting) l = ref := by
  induction ls generalizing waiting with
  | nil =>
      refine iff_of_false (fun h => by cases h) fun h => ?_
      rcases h with ⟨before, l, after, hls, -⟩
      cases before with
      | nil => cases hls
      | cons _ _ => cases hls
  | cons l ls ih =>
      rw [readLines, List.mem_append, ih]
      constructor
      · intro h
        rcases h with h | ⟨before, l', after, rfl, hne, hshown⟩
        · by_cases hnil : shown waiting l = []
          · rw [if_pos hnil] at h
            cases h
          · rw [if_neg hnil] at h
            obtain rfl := List.mem_singleton.mp h
            exact ⟨[], l, ls, rfl, hnil, rfl⟩
        · exact ⟨l :: before, l', after, rfl, hne, hshown⟩
      · intro h
        rcases h with ⟨before, l', after, hls, hne, hshown⟩
        cases before with
        | nil =>
            cases hls
            refine .inl ?_
            rw [List.foldl_nil] at hshown
            rw [hshown, if_neg hne]
            exact List.mem_cons_self
        | cons l'' before =>
            cases hls
            exact .inr ⟨before, l', after, rfl, hne, hshown⟩

end Read

theorem not_mem_splitOn (cs : List Char) : ∀ l ∈ cs.splitOn '\n', '\n' ∉ l := by
  induction h : cs.length using Nat.strongRecOn generalizing cs with
  | ind n ih =>
      intro l hl
      by_cases hmem : '\n' ∈ cs
      · rcases List.eq_append_cons_of_mem hmem with ⟨front, back, rfl, hfront⟩
        rw [List.splitOn_append_cons_self_of_not_mem hfront] at hl
        rcases List.mem_cons.mp hl with rfl | hl
        · exact hfront
        · refine ih back.length ?_ back rfl l hl
          rw [List.length_append, List.length_cons] at h
          omega
      · rw [List.splitOn_eq_singleton hmem] at hl
        rwa [List.mem_singleton.mp hl]

theorem imageRefs_lines (text : String) :
    imageRefs text = (readLines false (text.toList.splitOn '\n')).map String.ofList := by
  have hjoin := @List.intercalate_splitOn _ text.toList _ _ '\n'
  have hlines := (findall_lines (text.toList.splitOn '\n') (not_mem_splitOn text.toList)).1
  rw [hjoin] at hlines
  rw [imageRefs, hlines]

/-- The references that are found are those of the image lines. -/
theorem mem_imageRefs {text ref : String} : ref ∈ imageRefs text ↔ OnImageLine text ref := by
  have hmem : ref ∈ imageRefs text ↔
      ref.toList ∈ readLines false (text.toList.splitOn '\n') := by
    rw [imageRefs_lines, List.mem_map]
    constructor
    · intro h
      rcases h with ⟨cs, hcs, rfl⟩
      rwa [String.toList_ofList]
    · exact fun h => ⟨ref.toList, h, String.ofList_toList⟩
  rw [hmem, mem_readLines]
  unfold OnImageLine waits
  simp only [ne_eq, String.toList_eq_nil_iff]

end Release
