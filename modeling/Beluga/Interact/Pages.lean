import Mathlib.Logic.Basic
import Mathlib.Tactic.Common

/-! # Paged listings

A listing comes in pages, and each page names the next one by a token. `drain` reads
at most `max` pages and tells whether it left one unread. What the source answers
may depend on the token and on the number of the call.

* `Asked`: the calls of a listing, in terms of the source alone;
* `drain_spec`: the items are those of the pages that were read.
-/

namespace Interact

structure Page (α : Type) where
  items : List α
  next : Option String
  deriving DecidableEq, Repr

/-- The answer to a call, by its number and its token. -/
abbrev Source (ε α : Type) := Nat → Option String → Except ε (Page α)

/-- The token of a further page; an empty one is none. -/
def Page.more {α : Type} (p : Page α) : Option String := p.next.filter (· ≠ "")

variable {ε α β : Type}

def drainFrom (source : Source ε α) :
    Nat → Nat → Option String → List α → Except ε (List α × Bool)
  | 0, _, _, all => .ok (all, true)
  | n + 1, page, token, all => do
      let p ← source page token
      match p.more with
      | none => return (all ++ p.items, false)
      | some next => drainFrom source n (page + 1) (some next) (all ++ p.items)

/-- The items of a listing, and whether a page was left unread. -/
def drain (max : Nat) (source : Source ε α) : Except ε (List α × Bool) :=
  drainFrom source max 0 none []

/-! ## The calls of a listing -/

/-- The call of number `k` is made with this token. -/
inductive Asked (max : Nat) (source : Source ε α) : Nat → Option String → Prop where
  | first : 0 < max → Asked max source 0 none
  | next {k : Nat} {token : Option String} {p : Page α} {t : String} : Asked max source k token →
      source k token = .ok p → p.more = some t → k + 1 < max → Asked max source (k + 1) (some t)

/-- The page that the call of number `k` is answered with. -/
def Read (max : Nat) (source : Source ε α) (k : Nat) (p : Page α) : Prop :=
  ∃ token, Asked max source k token ∧ source k token = .ok p

/-- After the last call there is a further page. -/
def Unread (max : Nat) (source : Source ε α) : Prop :=
  ∃ k p, k + 1 = max ∧ Read max source k p ∧ p.more.isSome = true

variable {max : Nat} {source : Source ε α} {k : Nat} {token : Option String}

theorem Asked.lt (h : Asked max source k token) : k < max := by
  cases h with
  | first h => exact h
  | next _ _ _ h => exact h

theorem Asked.unique {token' : Option String} (h : Asked max source k token)
    (h' : Asked max source k token') : token = token' := by
  induction h generalizing token' with
  | first => cases h' with | first => rfl
  | next _ hp ht _ ih =>
      cases h' with
      | next hasked' hp' ht' _ =>
          cases ih hasked'
          cases hp.symm.trans hp'
          exact ht.symm.trans ht'

/-- The call before. -/
theorem Asked.prev (h : Asked max source (k + 1) token) :
    ∃ token' p, Asked max source k token' ∧ source k token' = .ok p ∧ p.more = token := by
  cases h with
  | next hasked hp ht _ => exact ⟨_, _, hasked, hp, ht⟩

theorem Asked.of_le (h : Asked max source k token) {j : Nat} (hj : j ≤ k) :
    ∃ token', Asked max source j token' := by
  induction k generalizing token with
  | zero => exact ⟨token, by rwa [Nat.le_zero.mp hj]⟩
  | succ k ih =>
      rcases Nat.lt_or_eq_of_le hj with hlt | rfl
      · obtain ⟨token', p, hasked, -, -⟩ := h.prev
        exact ih hasked (Nat.lt_succ_iff.mp hlt)
      · exact ⟨token, h⟩

theorem Read.unique {p p' : Page α} (h : Read max source k p) (h' : Read max source k p') :
    p = p' := by
  obtain ⟨token, hasked, hp⟩ := h
  obtain ⟨token', hasked', hp'⟩ := h'
  cases hasked.unique hasked'
  exact Except.ok.inj (hp.symm.trans hp')

/-! ## Draining -/

/-- From the call of number `page` on. -/
theorem drainFrom_spec {n page : Nat} {all out : List α} {truncated : Bool}
    (hmax : page + n = max) (hasked : 0 < n → Asked max source page token)
    (h : drainFrom source n page token all = .ok (out, truncated)) :
    (∀ x, x ∈ out ↔ x ∈ all ∨ ∃ k p, page ≤ k ∧ Read max source k p ∧ x ∈ p.items) ∧
    (∀ k token, page ≤ k → Asked max source k token → ∃ p, source k token = .ok p) ∧
    (truncated = true ↔
      n = 0 ∨ ∃ k p, page ≤ k ∧ k + 1 = max ∧ Read max source k p ∧ p.more.isSome = true) := by
  induction n generalizing page token all with
  | zero =>
      cases h
      have hnone : ∀ {k : Nat} {token : Option String}, page ≤ k → ¬ Asked max source k token := by
        intro k token hk hasked
        have hlt := hasked.lt
        omega
      refine ⟨fun x => ⟨.inl, ?_⟩, fun k token hk hasked => absurd hasked (hnone hk), by simp⟩
      rintro (hx | ⟨k, p, hk, ⟨token, hasked, -⟩, -⟩)
      · exact hx
      · exact absurd hasked (hnone hk)
  | succ n ih =>
      have hthis := hasked (Nat.succ_pos n)
      rw [drainFrom] at h
      cases hp : source page token with
      | error e =>
          rw [hp] at h
          cases h
      | ok p =>
          have hread : Read max source page p := ⟨token, hthis, hp⟩
          rw [hp] at h
          change (match p.more with
            | none => Except.ok (all ++ p.items, false)
            | some next => drainFrom source n (page + 1) (some next) (all ++ p.items)) =
            .ok (out, truncated) at h
          cases hmore : p.more with
          | none =>
              -- the last page
              rw [hmore] at h
              cases h
              have hlast : ∀ {k : Nat} {token : Option String}, page ≤ k →
                  Asked max source k token → k = page := by
                intro k token hk hask
                by_contra hne
                obtain ⟨token', hnext⟩ := hask.of_le (show page + 1 ≤ k by omega)
                obtain ⟨token'', p', hprev, hp', hmore'⟩ := hnext.prev
                cases Read.unique hread ⟨token'', hprev, hp'⟩
                cases hnext with
                | next => rw [hmore] at hmore'; cases hmore'
              refine ⟨fun x => ?_, fun k token' hk hask => ?_, ?_⟩
              · rw [List.mem_append]
                constructor
                · rintro (hx | hx)
                  · exact .inl hx
                  · exact .inr ⟨page, p, Nat.le_refl _, hread, hx⟩
                · rintro (hx | ⟨k, p', hk, hread', hx⟩)
                  · exact .inl hx
                  · obtain ⟨token', hask, -⟩ := id hread'
                    cases hlast hk hask
                    cases hread.unique hread'
                    exact .inr hx
              · cases hlast hk hask
                cases hthis.unique hask
                exact ⟨p, hp⟩
              · refine ⟨nofun, ?_⟩
                rintro (hzero | ⟨k, p', hk, -, hread', hsome⟩)
                · cases hzero
                · obtain ⟨token', hask, -⟩ := id hread'
                  cases hlast hk hask
                  cases hread.unique hread'
                  rw [hmore] at hsome
                  cases hsome
          | some t =>
              rw [hmore] at h
              have hnext : 0 < n → Asked max source (page + 1) (some t) :=
                fun hn => .next hthis hp hmore (by omega)
              obtain ⟨hitems, hok, htruncated⟩ := ih (by omega) hnext h
              refine ⟨fun x => ?_, fun k token' hk hask => ?_, ?_⟩
              · rw [hitems, List.mem_append]
                constructor
                · rintro ((hx | hx) | ⟨k, p', hk, hrest⟩)
                  · exact .inl hx
                  · exact .inr ⟨page, p, Nat.le_refl _, hread, hx⟩
                  · exact .inr ⟨k, p', by omega, hrest⟩
                · rintro (hx | ⟨k, p', hk, hread', hx⟩)
                  · exact .inl (.inl hx)
                  · rcases Nat.lt_or_eq_of_le hk with hlt | rfl
                    · exact .inr ⟨k, p', hlt, hread', hx⟩
                    · cases hread.unique hread'
                      exact .inl (.inr hx)
              · rcases Nat.lt_or_eq_of_le hk with hlt | rfl
                · exact hok k token' hlt hask
                · cases hthis.unique hask
                  exact ⟨p, hp⟩
              · rw [htruncated]
                constructor
                · rintro (rfl | ⟨k, p', hk, hrest⟩)
                  · exact .inr ⟨page, p, Nat.le_refl _, by omega, hread, by rw [hmore]; rfl⟩
                  · exact .inr ⟨k, p', by omega, hrest⟩
                · rintro (hzero | ⟨k, p', hk, hlast, hread', hsome⟩)
                  · cases hzero
                  · rcases Nat.lt_or_eq_of_le hk with hlt | rfl
                    · exact .inr ⟨k, p', hlt, hlast, hread', hsome⟩
                    · exact .inl (by omega)

/-- The items are those of the pages that were read, every call was answered, and a page was left
unread if there is one after the last call. -/
theorem drain_spec (hmax : 0 < max) {out : List α} {truncated : Bool}
    (h : drain max source = .ok (out, truncated)) :
    (∀ x, x ∈ out ↔ ∃ k p, Read max source k p ∧ x ∈ p.items) ∧
    (∀ k token, Asked max source k token → ∃ p, source k token = .ok p) ∧
    (truncated = true ↔ Unread max source) := by
  obtain ⟨hitems, hok, htruncated⟩ :=
    drainFrom_spec (Nat.zero_add max) (fun _ => .first hmax) h
  refine ⟨fun x => ?_, fun k token => hok k token (Nat.zero_le k), ?_⟩
  · rw [hitems]
    simp
  · rw [htruncated, Unread]
    constructor
    · rintro (hzero | ⟨k, p, -, hrest⟩)
      · omega
      · exact ⟨k, p, hrest⟩
    · rintro ⟨k, p, hrest⟩
      exact .inr ⟨k, p, Nat.zero_le k, hrest⟩

/-! ## Checked sources -/

/-- The answers of a source, checked and filtered. -/
def checked (source : Source ε α) (check : Page α → Except ε (Page β)) : Source ε β :=
  fun k token => do check (← source k token)

section Checked

variable {check : Page α → Except ε (Page β)}

theorem checked_eq_ok {p' : Page β} :
    checked source check k token = .ok p' ↔ ∃ p, source k token = .ok p ∧ check p = .ok p' := by
  rw [checked]
  cases hp : source k token with
  | error e =>
      refine ⟨nofun, ?_⟩
      rintro ⟨p, h, -⟩
      cases h
  | ok p =>
      constructor
      · intro h
        exact ⟨p, rfl, h⟩
      · rintro ⟨p', h, hcheck⟩
        cases h
        exact hcheck

variable (hnext : ∀ p p', check p = .ok p' → p'.next = p.next)
  (hok : ∀ k token, Asked max (checked source check) k token →
    ∃ p, checked source check k token = .ok p)

include hnext hok

/-- When all answers pass the check, the calls are the same. -/
theorem asked_checked : Asked max (checked source check) k token ↔ Asked max source k token := by
  constructor
  · intro h
    induction h with
    | first hmax => exact .first hmax
    | next _ hp ht hlt ih =>
        obtain ⟨p, hsource, hcheck⟩ := checked_eq_ok.mp hp
        exact .next ih hsource (by rwa [Page.more, ← hnext _ _ hcheck]) hlt
  · intro h
    induction h with
    | first hmax => exact .first hmax
    | next _ hp ht hlt ih =>
        obtain ⟨p', hp'⟩ := hok _ _ ih
        obtain ⟨p, hsource, hcheck⟩ := checked_eq_ok.mp hp'
        cases hp.symm.trans hsource
        exact .next ih hp' (by rwa [Page.more, hnext _ _ hcheck]) hlt

theorem read_checked {p' : Page β} :
    Read max (checked source check) k p' ↔ ∃ p, Read max source k p ∧ check p = .ok p' := by
  constructor
  · rintro ⟨token, hask, hp'⟩
    obtain ⟨p, hsource, hcheck⟩ := checked_eq_ok.mp hp'
    exact ⟨p, ⟨token, (asked_checked hnext hok).mp hask, hsource⟩, hcheck⟩
  · rintro ⟨p, ⟨token, hask, hsource⟩, hcheck⟩
    exact ⟨token, (asked_checked hnext hok).mpr hask, checked_eq_ok.mpr ⟨p, hsource, hcheck⟩⟩

/-- Every page that is read has passed the check. -/
theorem read_passes {p : Page α} (h : Read max source k p) :
    ∃ p', check p = .ok p' ∧ Read max (checked source check) k p' := by
  obtain ⟨token, hask, hp⟩ := h
  have hask' := (asked_checked hnext hok).mpr hask
  obtain ⟨p', hp'⟩ := hok k token hask'
  obtain ⟨q, hq, hcheck⟩ := checked_eq_ok.mp hp'
  cases hp.symm.trans hq
  exact ⟨p', hcheck, token, hask', hp'⟩

theorem unread_checked : Unread max (checked source check) ↔ Unread max source := by
  constructor
  · rintro ⟨k, p', hk, hread, hmore⟩
    obtain ⟨p, hread', hcheck⟩ := (read_checked hnext hok).mp hread
    exact ⟨k, p, hk, hread', by rwa [Page.more, ← hnext p p' hcheck]⟩
  · rintro ⟨k, p, hk, hread, hmore⟩
    obtain ⟨p', hcheck, hread'⟩ := read_passes hnext hok hread
    exact ⟨k, p', hk, hread', by rwa [Page.more, hnext p p' hcheck]⟩

end Checked

end Interact
