import Mathlib.Data.List.Basic

/-! # Texts with a separator

What is known of the parts that `splitOn` cuts a text into, and tests that are made one
after another until one of them fails.

* `not_mem_splitOn`, `infix_of_mem_splitOn`, `length_lt_of_mem_splitOn`: one part;
* `within_part`: what has no separator in it is within one part;
* `allM_ok_true`, `allM_ok_false`: how such a row of tests ends.
-/

namespace Text

section Parts

variable {α : Type} {sep : α} {cs p ds : List α}

theorem infix_intercalate {ps : List (List α)} (h : p ∈ ps) : p <:+: [sep].intercalate ps := by
  induction ps with
  | nil => cases h
  | cons q ps ih =>
      cases ps with
      | nil =>
          have hp : p = q := List.mem_singleton.mp h
          rw [List.intercalate_singleton]
          exact hp ▸ List.infix_refl p
      | cons q' ps =>
          rw [List.intercalate_cons_cons]
          rcases List.mem_cons.mp h with rfl | h
          · exact ⟨[], [sep] ++ [sep].intercalate (q' :: ps), by simp⟩
          · exact (ih h).trans ⟨q ++ [sep], [], by simp⟩

/-- What has no separator in it is before or after it. -/
theorem infix_side {a b : List α} (hds : sep ∉ ds) (h : ds <:+: a ++ sep :: b) :
    ds <:+: a ∨ ds <:+: b := by
  rcases h with ⟨front, back, h⟩
  rw [List.append_assoc] at h
  rcases List.append_eq_append_iff.mp h with ⟨m, hm, hrest⟩ | ⟨m, hm, hrest⟩
  · rcases List.append_eq_append_iff.mp hrest with ⟨m', hm', -⟩ | ⟨m', hm', hrest'⟩
    · -- `ds` ends within `a`
      left
      exact ⟨front, m', by rw [hm, hm', List.append_assoc]⟩
    · left
      cases m' with
      | nil => exact ⟨front, [], by rw [hm, hm', List.append_nil, List.append_nil]⟩
      | cons c m' =>
          rw [List.cons_append] at hrest'
          rw [(List.cons.inj hrest').1, hm'] at hds
          exact absurd (List.mem_append_right _ List.mem_cons_self) hds
  · cases m with
    | nil =>
        rw [List.nil_append] at hrest
        cases ds with
        | nil => exact .inl (List.nil_infix)
        | cons d ds =>
            rw [List.cons_append] at hrest
            rw [(List.cons.inj hrest).1] at hds
            exact absurd List.mem_cons_self hds
    | cons c m =>
        rw [List.cons_append] at hrest
        right
        exact ⟨m, back, by rw [(List.cons.inj hrest).2, List.append_assoc]⟩

theorem infix_part {ps : List (List α)} (hne : ps ≠ []) (hds : sep ∉ ds)
    (h : ds <:+: [sep].intercalate ps) : ∃ p ∈ ps, ds <:+: p := by
  induction ps with
  | nil => exact absurd rfl hne
  | cons q ps ih =>
      cases ps with
      | nil =>
          rw [List.intercalate_singleton] at h
          exact ⟨q, List.mem_singleton.mpr rfl, h⟩
      | cons q' ps =>
          rw [List.intercalate_cons_cons, List.append_assoc, List.singleton_append] at h
          rcases infix_side hds h with h | h
          · exact ⟨q, List.mem_cons_self, h⟩
          · rcases ih (List.cons_ne_nil _ _) h with ⟨p, hp, h⟩
            exact ⟨p, List.mem_cons_of_mem q hp, h⟩

/-- What is written behind the last part. -/
theorem intercalate_concat (ps : List (List α)) (last t : List α) :
    [sep].intercalate (ps ++ [last ++ t]) = [sep].intercalate (ps ++ [last]) ++ t := by
  induction ps with
  | nil => rw [List.nil_append, List.nil_append, List.intercalate_singleton,
      List.intercalate_singleton]
  | cons q ps ih =>
      have hcons : ∀ x : List α, [sep].intercalate (q :: ps ++ [x]) =
          q ++ [sep] ++ [sep].intercalate (ps ++ [x]) := by
        intro x
        cases ps with
        | nil => rw [List.cons_append, List.nil_append, List.intercalate_cons_cons]
        | cons q' ps => rw [List.cons_append, List.cons_append, List.intercalate_cons_cons]
      rw [hcons, hcons, ih]
      simp only [List.append_assoc]

/-- Two parts, and the separator between them. -/
theorem intercalate_cut (ps : List (List α)) (p q : List α) (qs : List (List α)) :
    [sep].intercalate (ps ++ p :: q :: qs) =
      [sep].intercalate (ps ++ [p]) ++ sep :: [sep].intercalate (q :: qs) := by
  induction ps with
  | nil => rw [List.nil_append, List.nil_append, List.intercalate_cons_cons,
      List.intercalate_singleton, List.append_assoc, List.singleton_append]
  | cons a ps ih =>
      cases ps with
      | nil =>
          simp only [List.nil_append, List.cons_append] at ih ⊢
          rw [List.intercalate_cons_cons, ih, List.intercalate_cons_cons]
          simp only [List.append_assoc]
      | cons b ps =>
          simp only [List.cons_append] at ih ⊢
          rw [List.intercalate_cons_cons, ih, List.intercalate_cons_cons]
          simp only [List.append_assoc]

theorem not_mem_intercalate {ps : List (List α)} {c : α} (hne : ps ≠ []) (hc : c ≠ sep)
    (h : ∀ p ∈ ps, c ∉ p) : c ∉ [sep].intercalate ps := by
  intro hmem
  rcases List.append_of_mem hmem with ⟨a, b, hab⟩
  have hinfix : [c] <:+: [sep].intercalate ps :=
    ⟨a, b, by rw [hab, List.append_assoc, List.singleton_append]⟩
  have hsep : sep ∉ [c] := fun hin => hc (List.mem_singleton.mp hin).symm
  rcases infix_part hne hsep hinfix with ⟨p, hp, hin⟩
  exact h p hp (hin.subset List.mem_cons_self)

variable [DecidableEq α]

theorem not_mem_splitOn (sep : α) (cs : List α) : ∀ p ∈ cs.splitOn sep, sep ∉ p := by
  induction h : cs.length using Nat.strongRecOn generalizing cs with
  | ind n ih =>
      intro p hp
      by_cases hmem : sep ∈ cs
      · rcases List.eq_append_cons_of_mem hmem with ⟨front, back, rfl, hfront⟩
        rw [List.splitOn_append_cons_self_of_not_mem hfront] at hp
        rcases List.mem_cons.mp hp with rfl | hp
        · exact hfront
        · refine ih back.length ?_ back rfl p hp
          rw [List.length_append, List.length_cons] at h
          omega
      · rw [List.splitOn_eq_singleton hmem] at hp
        rwa [List.mem_singleton.mp hp]

theorem infix_of_mem_splitOn (h : p ∈ cs.splitOn sep) : p <:+: cs := by
  have hinfix : p <:+: [sep].intercalate (cs.splitOn sep) := infix_intercalate h
  rwa [List.intercalate_splitOn] at hinfix

/-- Where there is a separator, every part is shorter than the text. -/
theorem length_lt_of_mem_splitOn (hsep : sep ∈ cs) (h : p ∈ cs.splitOn sep) :
    p.length < cs.length := by
  have hinfix := infix_of_mem_splitOn h
  rcases Nat.lt_or_ge p.length cs.length with hlt | hge
  · exact hlt
  · have heq := hinfix.eq_of_length_le hge
    subst heq
    exact absurd hsep (not_mem_splitOn sep p p h)

end Parts

/-! ## Tests one after another -/

section Tests

variable {α ε : Type} {f : α → Except ε Bool} {xs ys : List α}

/-- The first element that is not a `P` is a `Q`. -/
def Stops (P Q : α → Prop) (xs : List α) : Prop :=
  ∃ front x back, xs = front ++ x :: back ∧ (∀ y ∈ front, P y) ∧ Q x

theorem stops_nil {P Q : α → Prop} : ¬ Stops P Q [] := by
  intro h
  rcases h with ⟨front, x, back, h, -⟩
  cases front with
  | nil => cases h
  | cons => cases h

theorem stops_append {P Q : α → Prop} :
    Stops P Q (xs ++ ys) ↔ Stops P Q xs ∨ ((∀ x ∈ xs, P x) ∧ Stops P Q ys) := by
  constructor
  · intro h
    rcases h with ⟨front, x, back, h, hfront, hx⟩
    rcases List.append_eq_append_iff.mp h with ⟨m, rfl, hys⟩ | ⟨m, rfl, hrest⟩
    · refine .inr ⟨fun y hy => hfront y (List.mem_append_left m hy), m, x, back, hys, ?_, hx⟩
      exact fun y hy => hfront y (List.mem_append_right xs hy)
    · cases m with
      | nil =>
          rw [List.nil_append] at hrest
          rw [List.append_nil]
          exact .inr ⟨hfront, [], x, back, hrest.symm, fun _ hy => absurd hy List.not_mem_nil, hx⟩
      | cons c m =>
          rw [List.cons_append] at hrest
          rw [← (List.cons.inj hrest).1]
          exact .inl ⟨front, x, m, rfl, hfront, hx⟩
  · intro h
    rcases h with h | ⟨hxs, front, x, back, rfl, hfront, hx⟩
    · rcases h with ⟨front, x, back, rfl, hfront, hx⟩
      exact ⟨front, x, back ++ ys, by rw [List.append_assoc, List.cons_append], hfront, hx⟩
    · refine ⟨xs ++ front, x, back, by rw [List.append_assoc], fun y hy => ?_, hx⟩
      rcases List.mem_append.mp hy with hy | hy
      · exact hxs y hy
      · exact hfront y hy

theorem stops_cons {P Q : α → Prop} {x : α} :
    Stops P Q (x :: xs) ↔ Q x ∨ (P x ∧ Stops P Q xs) := by
  constructor
  · intro h
    rcases h with ⟨front, y, back, h, hfront, hy⟩
    cases front with
    | nil =>
        rw [(List.cons.inj h).1]
        exact .inl hy
    | cons z front =>
        rw [List.cons_append] at h
        rcases List.cons.inj h with ⟨rfl, hxs⟩
        rcases List.forall_mem_cons.mp hfront with ⟨hx, hfront⟩
        exact .inr ⟨hx, front, y, back, hxs, hfront, hy⟩
  · intro h
    rcases h with hx | ⟨hx, front, y, back, rfl, hfront, hy⟩
    · exact ⟨[], x, xs, rfl, fun _ hy => absurd hy List.not_mem_nil, hx⟩
    · exact ⟨x :: front, y, back, rfl, List.forall_mem_cons.mpr ⟨hx, hfront⟩, hy⟩

theorem allM_ok_true : xs.allM f = .ok true ↔ ∀ x ∈ xs, f x = .ok true := by
  induction xs with
  | nil => exact iff_of_true rfl fun _ h => absurd h List.not_mem_nil
  | cons x xs ih =>
      rw [List.forall_mem_cons, ← ih, List.allM]
      cases hx : f x with
      | error e => exact iff_of_false (fun h => by cases h) fun h => by cases h.1
      | ok b =>
          cases b with
          | true => exact (and_iff_right rfl).symm
          | false => exact iff_of_false (fun h => by cases h) fun h => by cases h.1

theorem allM_ok_false : xs.allM f = .ok false ↔
    Stops (fun x => f x = .ok true) (fun x => f x = .ok false) xs := by
  induction xs with
  | nil => exact iff_of_false (fun h => by cases h) stops_nil
  | cons x xs ih =>
      rw [stops_cons, ← ih, List.allM]
      cases hx : f x with
      | error e =>
          refine iff_of_false (fun h => by cases h) fun h => ?_
          rcases h with h | ⟨h, -⟩
          · cases h
          · cases h
      | ok b =>
          cases b with
          | true =>
              constructor
              · exact fun h => .inr ⟨rfl, h⟩
              · intro h
                rcases h with h | ⟨-, h⟩
                · cases h
                · exact h
          | false => exact iff_of_true rfl (.inl rfl)

theorem allM_attach (f : α → Except ε Bool) (xs : List α) :
    (xs.attach.allM fun x => f x.1) = xs.allM f := by
  have hval : ∀ ys : List { x // x ∈ xs },
      (ys.allM fun x => f x.1) = (ys.map Subtype.val).allM f := by
    intro ys
    induction ys with
    | nil => rfl
    | cons y ys ih => rw [List.map_cons, List.allM, List.allM, ih]
  rw [hval, List.attach_map_subtype_val]

end Tests

end Text
