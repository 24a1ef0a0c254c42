import Beluga.Text.Regex
import Mathlib.Control.Basic
import Mathlib.Data.List.Basic

/-! # Captures of a regular expression

What a backtracking matcher captures, as the list of its successes: a matcher
gives, in the order in which they are tried, what it captured and the text that is
left. A greedy part tries its longest match first, a lazy part its shortest.
`exec` is the first success of an expression between `^` and `$`.

* `mem_bind`, `mem_word`, `mem_plus`: what the successes are, in any order;
* `exec_bind`: the first success of a sequence is the first of its second part,
  after some success of its first;
* `exec_plusLazy`: before it, no shorter match of a lazy part led to a success.
-/

namespace Text

def Matcher (α : Type) := List Char → List (α × List Char)

namespace Matcher

variable {α β : Type}

instance : Monad Matcher where
  pure a cs := [(a, cs)]
  bind m f cs := (m cs).flatMap fun (a, rest) => f a rest

/-- A text after the letters of `w`, in any case. -/
def dropWord : List Char → List Char → Option (List Char)
  | [], cs => some cs
  | w :: ws, c :: cs => if c.toUpper = w.toUpper then dropWord ws cs else none
  | _ :: _, [] => none

/-- The literal text `w` with the flag `i`. -/
def word (w : String) : Matcher Unit := fun cs =>
  (dropWord w.toList cs).toList.map fun rest => ((), rest)

/-- `[p]+?`. -/
def plusLazy (p : Char → Bool) : Matcher (List Char)
  | [] => []
  | c :: cs =>
      if p c then ([c], cs) :: (plusLazy p cs).map fun (taken, rest) => (c :: taken, rest) else []

/-- `[p]+`. -/
def plus (p : Char → Bool) : Matcher (List Char) := fun cs => (plusLazy p cs).reverse

/-- `\s+`. -/
def gap : Matcher Unit := fun cs => (plus Regex.space cs).map fun (_, rest) => ((), rest)

/-- `(m)?`, and whether it took part in the match. -/
def opt (m : Matcher Unit) : Matcher Bool := fun cs =>
  ((m cs).map fun (_, rest) => (true, rest)) ++ [(false, cs)]

/-- The successes that leave nothing. -/
def full (m : Matcher α) (cs : List Char) : List α :=
  (m cs).filterMap fun (a, rest) => if rest.isEmpty then some a else none

/-- The captures of `/^m$/.exec(s)`. -/
def exec (m : Matcher α) (cs : List Char) : Option α := (m.full cs).head?

/-! ## Successes -/

theorem mem_bind {m : Matcher α} {f : α → Matcher β} {cs : List Char} {b : β}
    {rest : List Char} :
    (b, rest) ∈ (m >>= f) cs ↔ ∃ a mid, (a, mid) ∈ m cs ∧ (b, rest) ∈ f a mid := by
  constructor
  · intro h
    obtain ⟨⟨a, mid⟩, hm, hf⟩ := List.mem_flatMap.mp h
    exact ⟨a, mid, hm, hf⟩
  · rintro ⟨a, mid, hm, hf⟩
    exact List.mem_flatMap.mpr ⟨(a, mid), hm, hf⟩

/-- The same for a first part that captures nothing. -/
theorem mem_seq {m : Matcher Unit} {n : Matcher β} {cs rest : List Char} {b : β} :
    (b, rest) ∈ (m >>= fun _ => n) cs ↔ ∃ mid, ((), mid) ∈ m cs ∧ (b, rest) ∈ n mid := by
  rw [mem_bind]
  constructor
  · rintro ⟨_, mid, h⟩
    exact ⟨mid, h⟩
  · rintro ⟨mid, h⟩
    exact ⟨(), mid, h⟩

theorem mem_pure {a b : α} {cs rest : List Char} :
    (b, rest) ∈ (pure a : Matcher α) cs ↔ b = a ∧ rest = cs := by
  show (b, rest) ∈ [(a, cs)] ↔ _
  simp

theorem dropWord_eq_some {ws cs rest : List Char} : dropWord ws cs = some rest ↔
    ∃ taken, cs = taken ++ rest ∧ taken.map Char.toUpper = ws.map Char.toUpper := by
  induction ws generalizing cs with
  | nil =>
      constructor
      · intro h
        cases h
        exact ⟨[], rfl, rfl⟩
      · rintro ⟨taken, hcs, htaken⟩
        rw [List.map_nil, List.map_eq_nil_iff] at htaken
        rw [hcs, htaken]
        rfl
  | cons w ws ih =>
      cases cs with
      | nil =>
          constructor
          · intro h
            cases h
          · rintro ⟨taken, hcs, htaken⟩
            obtain ⟨rfl, -⟩ := List.append_eq_nil_iff.mp hcs.symm
            simp at htaken
      | cons c cs =>
          by_cases hc : c.toUpper = w.toUpper
          · rw [dropWord, if_pos hc, ih]
            constructor
            · rintro ⟨taken, hcs, htaken⟩
              exact ⟨c :: taken, by rw [hcs, List.cons_append], by simp [hc, htaken]⟩
            · rintro ⟨taken, hcs, htaken⟩
              cases taken with
              | nil => simp at htaken
              | cons d taken =>
                  obtain ⟨-, hcs⟩ := List.cons.inj hcs
                  exact ⟨taken, hcs, (List.cons.inj htaken).2⟩
          · rw [dropWord, if_neg hc]
            constructor
            · intro h
              cases h
            · rintro ⟨taken, hcs, htaken⟩
              cases taken with
              | nil => simp at htaken
              | cons d taken =>
                  obtain ⟨rfl, -⟩ := List.cons.inj hcs
                  exact absurd (List.cons.inj htaken).1 hc

theorem mem_word {w : String} {cs rest : List Char} {u : Unit} : (u, rest) ∈ word w cs ↔
    ∃ taken, cs = taken ++ rest ∧ taken.map Char.toUpper = w.toList.map Char.toUpper := by
  rw [← dropWord_eq_some]
  simp [word]

theorem mem_plusLazy {p : Char → Bool} {cs taken rest : List Char} :
    (taken, rest) ∈ plusLazy p cs ↔ cs = taken ++ rest ∧ taken ≠ [] ∧ ∀ c ∈ taken, p c = true := by
  induction cs generalizing taken with
  | nil =>
      constructor
      · intro h
        cases h
      · rintro ⟨hcs, hne, _⟩
        exact absurd (List.append_eq_nil_iff.mp hcs.symm).1 hne
  | cons c cs ih =>
      rw [plusLazy]
      by_cases hc : p c = true
      · rw [if_pos hc, List.mem_cons, List.mem_map]
        constructor
        · intro h
          rcases h with h | ⟨⟨t, r⟩, hmem, heq⟩
          · cases h
            exact ⟨rfl, by simp, by simpa using hc⟩
          · cases heq
            obtain ⟨hcs, -, hall⟩ := ih.mp hmem
            exact ⟨by rw [hcs, List.cons_append], by simp, List.forall_mem_cons.mpr ⟨hc, hall⟩⟩
        · rintro ⟨hcs, hne, hall⟩
          cases taken with
          | nil => exact absurd rfl hne
          | cons d taken =>
              obtain ⟨rfl, hrest⟩ := List.cons.inj hcs
              cases taken with
              | nil => exact .inl (by rw [hrest]; rfl)
              | cons e taken =>
                  refine .inr ⟨(e :: taken, rest), ih.mpr ⟨hrest, by simp, ?_⟩, rfl⟩
                  exact fun x hx => hall x (List.mem_cons_of_mem _ hx)
      · rw [if_neg hc]
        constructor
        · intro h
          cases h
        · rintro ⟨hcs, hne, hall⟩
          cases taken with
          | nil => exact absurd rfl hne
          | cons d taken =>
              obtain ⟨rfl, -⟩ := List.cons.inj hcs
              exact absurd (hall c List.mem_cons_self) hc

theorem mem_plus {p : Char → Bool} {cs taken rest : List Char} :
    (taken, rest) ∈ plus p cs ↔ cs = taken ++ rest ∧ taken ≠ [] ∧ ∀ c ∈ taken, p c = true := by
  rw [plus, List.mem_reverse, mem_plusLazy]

theorem mem_gap {cs rest : List Char} {u : Unit} : (u, rest) ∈ gap cs ↔
    ∃ taken, cs = taken ++ rest ∧ taken ≠ [] ∧ ∀ c ∈ taken, Regex.space c = true := by
  simp only [gap, List.mem_map, Prod.mk.injEq, Prod.exists, true_and]
  constructor
  · rintro ⟨taken, r, hmem, hr⟩
    subst hr
    exact ⟨taken, mem_plus.mp hmem⟩
  · rintro ⟨taken, h⟩
    exact ⟨taken, rest, mem_plus.mpr h, rfl⟩

theorem mem_opt {m : Matcher Unit} {cs rest : List Char} {b : Bool} :
    (b, rest) ∈ opt m cs ↔ (b = true ∧ ((), rest) ∈ m cs) ∨ (b = false ∧ rest = cs) := by
  simp only [opt, List.mem_append, List.mem_map, List.mem_singleton, Prod.mk.injEq]
  constructor
  · rintro (⟨⟨⟨⟩, r⟩, hm, rfl, rfl⟩ | ⟨rfl, rfl⟩)
    · exact .inl ⟨rfl, hm⟩
    · exact .inr ⟨rfl, rfl⟩
  · rintro (⟨rfl, hm⟩ | ⟨rfl, rfl⟩)
    · exact .inl ⟨((), rest), hm, rfl, rfl⟩
    · exact .inr ⟨rfl, rfl⟩

/-! ## The first success -/

theorem mem_full {m : Matcher α} {cs : List Char} {a : α} : a ∈ m.full cs ↔ (a, []) ∈ m cs := by
  simp [full, List.mem_filterMap]

theorem full_bind {m : Matcher α} {f : α → Matcher β} {cs : List Char} :
    (m >>= f).full cs = (m cs).flatMap fun (a, rest) => (f a).full rest := by
  show ((m cs).flatMap fun (a, rest) => f a rest).filterMap _ = _
  rw [List.filterMap_flatMap]
  rfl

theorem exec_mem {m : Matcher α} {cs : List Char} {a : α} (h : m.exec cs = some a) :
    (a, []) ∈ m cs := mem_full.mp (List.mem_of_head? h)

/-- Where some match leaves nothing, there is a first. -/
theorem exec_isSome {m : Matcher α} {cs : List Char} {a : α} (h : (a, []) ∈ m cs) :
    ∃ b, m.exec cs = some b := by
  have hmem := mem_full.mpr h
  cases hfull : m.full cs with
  | nil =>
      rw [hfull] at hmem
      cases hmem
  | cons b bs => exact ⟨b, by rw [exec, hfull]; rfl⟩

theorem exec_bind {m : Matcher α} {f : α → Matcher β} {cs : List Char} {b : β}
    (h : (m >>= f).exec cs = some b) : ∃ a rest, (a, rest) ∈ m cs ∧ (f a).exec rest = some b := by
  rw [exec, full_bind, List.head?_flatMap] at h
  obtain ⟨⟨a, rest⟩, hm, hf⟩ := List.exists_of_findSome?_eq_some h
  exact ⟨a, rest, hm, hf⟩

theorem full_pure (a : α) (cs : List Char) :
    (pure a : Matcher α).full cs = if cs.isEmpty then [a] else [] := by
  cases cs with
  | nil => rfl
  | cons c cs => rfl

/-- A last step that only puts the captures together. -/
theorem exec_map {m : Matcher α} {f : α → β} {cs : List Char} :
    (m >>= fun a => pure (f a)).exec cs = (m.exec cs).map f := by
  have hfull : (m >>= fun a => pure (f a)).full cs = (m.full cs).map f := by
    rw [full_bind, full]
    induction m cs with
    | nil => rfl
    | cons x xs ih =>
        obtain ⟨a, rest⟩ := x
        rw [List.flatMap_cons, ih, List.filterMap_cons]
        by_cases hrest : rest.isEmpty = true
        · simp [full_pure, hrest]
        · simp [full_pure, hrest]
  rw [exec, hfull, List.head?_map]
  rfl

theorem plusLazy_ordered (p : Char → Bool) (cs : List Char) :
    (plusLazy p cs).Pairwise fun x y => x.1.length < y.1.length := by
  induction cs with
  | nil => exact .nil
  | cons c cs ih =>
      rw [plusLazy]
      split
      · refine .cons ?_ (List.pairwise_map.mpr (ih.imp fun h => Nat.succ_lt_succ h))
        intro y hy
        obtain ⟨x, hx, rfl⟩ := List.mem_map.mp hy
        have hne := (mem_plusLazy.mp (show (x.1, x.2) ∈ _ from hx)).2.1
        have hpos := List.length_pos_iff.mpr hne
        simpa using hpos
      · exact .nil

/-- The first success with a lazy part in front: no shorter one led to any. -/
theorem exec_plusLazy {p : Char → Bool} {f : List Char → Matcher β} {cs : List Char} {b : β}
    (h : (plusLazy p >>= f).exec cs = some b) :
    ∃ taken rest, (taken, rest) ∈ plusLazy p cs ∧ (f taken).exec rest = some b ∧
      ∀ x ∈ plusLazy p cs, x.1.length < taken.length → (f x.1).exec x.2 = none := by
  rw [exec, full_bind, List.head?_flatMap, List.findSome?_eq_some_iff] at h
  obtain ⟨before, ⟨taken, rest⟩, after, hsplit, hf, hnone⟩ := h
  refine ⟨taken, rest, by rw [hsplit]; simp, hf, ?_⟩
  intro x hx hlt
  rw [hsplit] at hx
  rcases List.mem_append.mp hx with hx | hx
  · exact hnone x hx
  · -- what is tried after it is longer
    have hordered := plusLazy_ordered p cs
    rw [hsplit, List.pairwise_append] at hordered
    rcases List.mem_cons.mp hx with rfl | hx
    · exact absurd hlt (Nat.lt_irrefl _)
    · exact absurd ((List.pairwise_cons.mp hordered.2.1).1 x hx) (Nat.lt_asymm hlt)

end Matcher

end Text
