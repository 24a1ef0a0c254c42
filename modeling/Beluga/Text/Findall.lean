import Beluga.Text.Backtrack

/-! # All matches at the beginnings of lines

`re.findall` of an expression `^m` with the flag `MULTILINE`, where `m` takes a letter at least.

* `star_bind_head`: the first success after a part that takes all it can;
* `findFrom_line`, `findFrom_match`: what is found from the beginning of a line on.
-/

namespace Text

namespace Matcher

variable {α β : Type}

/-- `[p]*`. -/
def star (p : Char → Bool) : Matcher Unit
  | [] => [((), [])]
  | c :: cs => if p c then star p cs ++ [((), c :: cs)] else [((), c :: cs)]

/-- `[p]?`. -/
def optional (p : Char → Bool) : Matcher Unit
  | [] => [((), [])]
  | c :: cs => if p c then [((), cs), ((), c :: cs)] else [((), c :: cs)]

/-- The literal text `w`. -/
def exactly (w : List Char) : Matcher Unit := fun cs =>
  if w <+: cs then [((), cs.drop w.length)] else []

/-- The captures of the matches that begin with a line. `skip` letters belong to a match, and
`start` says whether a line begins. -/
def findFrom (m : Matcher α) : ℕ → Bool → List Char → List α
  | _, _, [] => []
  | skip + 1, _, c :: cs => findFrom m skip (c = '\n') cs
  | 0, start, c :: cs =>
      match if start then (m (c :: cs)).head? else none with
      | some found => found.1 :: findFrom m (cs.length - found.2.length) (c = '\n') cs
      | none => findFrom m 0 (c = '\n') cs

/-- `re.compile("^m", re.MULTILINE).findall(text)`. -/
def findall (m : Matcher α) (cs : List Char) : List α := findFrom m 0 true cs

section Parts

variable {p : Char → Bool} {f : Matcher β} {cs : List Char}

/-- The longest match comes first. -/
theorem plus_head : (plus p cs).head? =
    if cs.takeWhile p = [] then none else some (cs.takeWhile p, cs.dropWhile p) := by
  induction cs with
  | nil => rfl
  | cons c cs ih =>
      unfold plus at ih ⊢
      rw [List.head?_reverse] at ih ⊢
      rw [plusLazy]
      by_cases hc : p c = true
      · rw [if_pos hc, List.takeWhile_cons_of_pos hc, List.dropWhile_cons_of_pos hc,
          if_neg (List.cons_ne_nil _ _), List.getLast?_cons, List.getLast?_map, ih]
        by_cases hnil : cs.takeWhile p = []
        · have hdrop : cs.dropWhile p = cs := by
            have happend := List.takeWhile_append_dropWhile (p := p) (l := cs)
            rwa [hnil, List.nil_append] at happend
          rw [if_pos hnil, hnil, hdrop]
          rfl
        · rw [if_neg hnil]
          rfl
      · rw [if_neg hc, List.takeWhile_cons_of_neg hc]
        rfl

theorem plus_cons_neg {c : Char} (hc : ¬p c = true) : plus p (c :: cs) = [] := by
  rw [plus, plusLazy, if_neg hc]
  rfl

theorem star_bind_nil : (star p >>= fun _ => f) [] = f [] := by
  show (star p []).flatMap _ = _
  simp [star]

theorem star_bind_cons {c : Char} (hc : p c = true) : (star p >>= fun _ => f) (c :: cs) =
    (star p >>= fun _ => f) cs ++ f (c :: cs) := by
  show (star p (c :: cs)).flatMap _ = (star p cs).flatMap _ ++ _
  rw [star, if_pos hc, List.flatMap_append]
  simp

theorem star_bind_neg {c : Char} (hc : ¬p c = true) :
    (star p >>= fun _ => f) (c :: cs) = f (c :: cs) := by
  show (star p (c :: cs)).flatMap _ = _
  rw [star, if_neg hc]
  simp

/-- What follows matches no letter of the star, which then takes all it can. -/
theorem star_bind_eq (hf : ∀ c rest, p c = true → f (c :: rest) = []) :
    (star p >>= fun _ => f) cs = f (cs.dropWhile p) := by
  induction cs with
  | nil => exact star_bind_nil
  | cons c cs ih =>
      by_cases hc : p c = true
      · rw [star_bind_cons hc, ih, hf c cs hc, List.append_nil, List.dropWhile_cons_of_pos hc]
      · rw [star_bind_neg hc, List.dropWhile_cons_of_neg hc]

/-- The first success after a star that may end in several places. -/
theorem star_bind_head (hf : ∀ c rest, p c = true → f (c :: rest) = [] ∨
    f (c :: rest) = f (rest.dropWhile p)) :
    ((star p >>= fun _ => f) cs).head? = (f (cs.dropWhile p)).head? := by
  induction cs with
  | nil => rw [star_bind_nil, List.dropWhile_nil]
  | cons c cs ih =>
      by_cases hc : p c = true
      · rw [star_bind_cons hc, List.dropWhile_cons_of_pos hc, List.head?_append, ih]
        rcases hf c cs hc with h | h
        · rw [h]
          exact Option.or_none
        · rw [h]
          exact Option.or_self
      · rw [star_bind_neg hc, List.dropWhile_cons_of_neg hc]

theorem optional_bind_cons {c : Char} (hc : p c = true) :
    (optional p >>= fun _ => f) (c :: cs) = f cs ++ f (c :: cs) := by
  show (optional p (c :: cs)).flatMap _ = _
  rw [optional, if_pos hc]
  simp

theorem optional_bind_neg {c : Char} (hc : ¬p c = true) :
    (optional p >>= fun _ => f) (c :: cs) = f (c :: cs) := by
  show (optional p (c :: cs)).flatMap _ = _
  rw [optional, if_neg hc]
  simp

theorem optional_bind_nil : (optional p >>= fun _ => f) [] = f [] := by
  show (optional p []).flatMap _ = _
  simp [optional]

theorem exactly_bind {w : List Char} : (exactly w >>= fun _ => f) cs =
    if w <+: cs then f (cs.drop w.length) else [] := by
  show (exactly w cs).flatMap _ = _
  unfold exactly
  by_cases h : w <+: cs
  · rw [if_pos h, if_pos h]
    simp
  · rw [if_neg h, if_neg h]
    rfl

end Parts

section Lines

variable {m : Matcher α} {l t : List Char}

/-- Until the line ends, nothing is found. -/
theorem findFrom_line (hl : '\n' ∉ l) :
    findFrom m 0 false (l ++ '\n' :: t) = findall m t := by
  induction l with
  | nil => rfl
  | cons c l ih =>
      rw [List.mem_cons, not_or] at hl
      have hc : decide (c = '\n') = false := decide_eq_false (Ne.symm hl.1)
      rw [List.cons_append, findFrom, if_neg (by simp), hc]
      exact ih hl.2

theorem findFrom_last (hl : '\n' ∉ l) : findFrom m 0 false l = [] := by
  induction l with
  | nil => rfl
  | cons c l ih =>
      rw [List.mem_cons, not_or] at hl
      have hc : decide (c = '\n') = false := decide_eq_false (Ne.symm hl.1)
      rw [findFrom, if_neg (by simp), hc]
      exact ih hl.2

theorem findall_none {cs : List Char} (h : (m cs).head? = none) (hcs : cs.head? ≠ some '\n') :
    findall m cs = findFrom m 0 false cs := by
  cases cs with
  | nil => rfl
  | cons c cs =>
      unfold findall
      rw [findFrom, if_pos rfl, h, findFrom, if_neg (by simp)]

theorem findall_newline {cs : List Char} (h : (m ('\n' :: cs)).head? = none) :
    findall m ('\n' :: cs) = findall m cs := by
  unfold findall
  rw [findFrom, if_pos rfl, h]
  rfl

theorem findFrom_skip (taken : List Char) {c : Char} (hc : c ≠ '\n') (start : Bool) :
    findFrom m (taken.length + 1) start (taken ++ c :: t) = findFrom m 0 false t := by
  induction taken generalizing start with
  | nil =>
      rw [List.length_nil, List.nil_append, findFrom, decide_eq_false hc]
  | cons d taken ih =>
      rw [List.length_cons, List.cons_append, findFrom]
      exact ih _

/-- A match that ends within a line; the search goes on behind it. -/
theorem findall_match {a : α} {taken rest : List Char} {c : Char} (hc : c ≠ '\n')
    (h : (m (taken ++ c :: rest)).head? = some (a, rest)) :
    findall m (taken ++ c :: rest) = a :: findFrom m 0 false rest := by
  unfold findall
  cases taken with
  | nil =>
      rw [List.nil_append] at h ⊢
      rw [findFrom, if_pos rfl, h]
      dsimp only
      rw [Nat.sub_self, decide_eq_false hc]
  | cons d taken =>
      rw [List.cons_append] at h ⊢
      rw [findFrom, if_pos rfl, h]
      have hlength : (taken ++ c :: rest).length - rest.length = taken.length + 1 := by
        rw [List.length_append, List.length_cons]
        omega
      dsimp only
      rw [hlength, findFrom_skip taken hc]

end Lines

end Matcher

end Text
