import Beluga.Graph.Walk
import Mathlib.Algebra.BigOperators.Group.Finset.Basic
import Mathlib.Algebra.BigOperators.Pi
import Mathlib.Algebra.Order.BigOperators.Group.Finset
import Mathlib.Data.Fintype.Basic

/-! # Depth-first search that drops back-edges

The search as a relation: from a node its edges are taken in order. An edge to a node whose
own edges are being taken leads back and is dropped; every other edge is kept, and one to a
new node is followed before the next is taken.

* `Scan.unique`, `exists_scan`: the search has one outcome;
* `Scan.keeps`: what a scan makes of a sound state;
* `Forest.sound`: after all nodes, what was kept has no cycle, and what was dropped leads
  back.
-/

namespace Graph

inductive Visit where
  | unvisited
  | onStack
  | done
  deriving DecidableEq, Repr

/-- Where the search is with each node, what it kept, and the edges kept into each node. -/
structure Search (α : Type) where
  state : α → Visit
  dag : α → List α
  dagIndeg : α → ℤ

variable {α : Type} [DecidableEq α]

def Search.start : Search α where
  state _ := .unvisited
  dag _ := []
  dagIndeg _ := 0

def Search.mark (st : Search α) (x : α) (visit : Visit) : Search α :=
  { st with state := Function.update st.state x visit }

def Search.keep (st : Search α) (x y : α) : Search α :=
  { st with
    dag := Function.update st.dag x (st.dag x ++ [y])
    dagIndeg := Function.update st.dagIndeg y (st.dagIndeg y + 1) }

/-- The edges from `x` to each of a list are taken in order. -/
inductive Scan (succ : α → List α) : α → List α → Search α → Search α → Prop where
  | nil {x st} : Scan succ x [] st st
  | back {x y ys st st'} : st.state y = .onStack → Scan succ x ys st st' →
      Scan succ x (y :: ys) st st'
  | finished {x y ys st st'} : st.state y = .done → Scan succ x ys (st.keep x y) st' →
      Scan succ x (y :: ys) st st'
  | follow {x y ys st mid st'} : st.state y = .unvisited →
      Scan succ y (succ y) ((st.keep x y).mark y .onStack) mid →
      Scan succ x ys (mid.mark y .done) st' → Scan succ x (y :: ys) st st'

/-- From each of the roots in turn, unless it was reached before. -/
inductive Forest (succ : α → List α) : List α → Search α → Search α → Prop where
  | nil {st} : Forest succ [] st st
  | skip {x xs st st'} : st.state x ≠ .unvisited → Forest succ xs st st' →
      Forest succ (x :: xs) st st'
  | root {x xs st mid st'} : st.state x = .unvisited →
      Scan succ x (succ x) (st.mark x .onStack) mid → Forest succ xs (mid.mark x .done) st' →
      Forest succ (x :: xs) st st'

variable {succ : α → List α} {x y : α} {ys : List α} {st st' : Search α}

@[simp] theorem Search.keep_state : (st.keep x y).state = st.state := rfl

@[simp] theorem Search.mark_dag {visit : Visit} : (st.mark x visit).dag = st.dag := rfl

@[simp] theorem Search.mark_dagIndeg {visit : Visit} :
    (st.mark x visit).dagIndeg = st.dagIndeg := rfl

theorem Search.mark_self {visit : Visit} : (st.mark x visit).state x = visit := by
  show Function.update st.state x visit x = visit
  rw [Function.update_self]

theorem Search.mark_other {visit : Visit} {z : α} (h : z ≠ x) :
    (st.mark x visit).state z = st.state z := by
  show Function.update st.state x visit z = st.state z
  rw [Function.update_of_ne h]

theorem Search.keep_self : (st.keep x y).dag x = st.dag x ++ [y] := by
  show Function.update st.dag x (st.dag x ++ [y]) x = st.dag x ++ [y]
  rw [Function.update_self]

theorem Search.keep_other {z : α} (h : z ≠ x) : (st.keep x y).dag z = st.dag z := by
  show Function.update st.dag x (st.dag x ++ [y]) z = st.dag z
  rw [Function.update_of_ne h]

/-! ## One outcome -/

theorem Scan.unique (h : Scan succ x ys st st') {st'' : Search α} (h' : Scan succ x ys st st'') :
    st' = st'' := by
  induction h generalizing st'' with
  | nil =>
      cases h'
      rfl
  | back hy _ ih =>
      cases h' with
      | back _ h' => exact ih h'
      | finished hy' _ => exact absurd (hy.symm.trans hy') (by decide)
      | follow hy' _ _ => exact absurd (hy.symm.trans hy') (by decide)
  | finished hy _ ih =>
      cases h' with
      | back hy' _ => exact absurd (hy.symm.trans hy') (by decide)
      | finished _ h' => exact ih h'
      | follow hy' _ _ => exact absurd (hy.symm.trans hy') (by decide)
  | follow hy _ _ ihy ih =>
      cases h' with
      | back hy' _ => exact absurd (hy.symm.trans hy') (by decide)
      | finished hy' _ => exact absurd (hy.symm.trans hy') (by decide)
      | follow _ hmid h' =>
          have heq := ihy hmid
          subst heq
          exact ih h'

theorem Forest.unique {xs : List α} (h : Forest succ xs st st') {st'' : Search α}
    (h' : Forest succ xs st st'') : st' = st'' := by
  induction h generalizing st'' with
  | nil =>
      cases h'
      rfl
  | skip hx _ ih =>
      cases h' with
      | skip _ h' => exact ih h'
      | root hx' _ _ => exact absurd hx' hx
  | root hx hscan _ ih =>
      cases h' with
      | skip hx' _ => exact absurd hx hx'
      | root _ hscan' h' =>
          have heq := hscan.unique hscan'
          subst heq
          exact ih h'

omit [DecidableEq α] in
theorem Ordered.congr {succ succ' : α → List α} {order : List α} (h : Ordered succ order)
    (heq : ∀ z ∈ order, succ' z = succ z) : Ordered succ' order := by
  intro l₁ z l₂ hsplit
  rw [heq z (by simp [hsplit])]
  exact h l₁ z l₂ hsplit

section Finite

variable [Fintype α]

/-- The nodes that are left. -/
def Search.fresh (st : Search α) : Finset α := Finset.univ.filter (st.state · = .unvisited)

omit [DecidableEq α] in
@[simp] theorem Search.mem_fresh : x ∈ st.fresh ↔ st.state x = .unvisited := by
  simp [Search.fresh]

theorem Search.fresh_mark {visit : Visit} (hvisit : visit ≠ .unvisited) :
    (st.mark x visit).fresh = st.fresh.erase x := by
  ext z
  by_cases hz : z = x
  · subst hz
    simp [Search.mark_self, hvisit]
  · simp [Search.mark_other hz, hz]

/-- Every scan comes to an end. -/
theorem exists_scan (succ : α → List α) (x : α) (ys : List α) (st : Search α) :
    ∃ st', Scan succ x ys st st' ∧ st'.fresh ⊆ st.fresh := by
  induction hcard : st.fresh.card using Nat.strong_induction_on generalizing x ys st with
  | _ left ih =>
      induction ys generalizing st with
      | nil => exact ⟨st, .nil, Finset.Subset.refl _⟩
      | cons y ys ihys =>
          cases hy : st.state y with
          | onStack =>
              obtain ⟨st', hscan, hsub⟩ := ihys st hcard
              exact ⟨st', .back hy hscan, hsub⟩
          | done =>
              obtain ⟨st', hscan, hsub⟩ := ihys (st.keep x y) hcard
              exact ⟨st', .finished hy hscan, hsub⟩
          | unvisited =>
              have hfresh : ((st.keep x y).mark y .onStack).fresh = st.fresh.erase y :=
                Search.fresh_mark (by decide)
              have hlt : (st.fresh.erase y).card < left := by
                rw [← hcard]
                exact Finset.card_erase_lt_of_mem (Search.mem_fresh.mpr hy)
              obtain ⟨mid, hmid, hsub⟩ := ih _ hlt y (succ y) _ (congrArg Finset.card hfresh)
              rw [hfresh] at hsub
              have hdone : (mid.mark y .done).fresh ⊆ st.fresh.erase y := by
                rw [Search.fresh_mark (by decide)]
                exact Finset.Subset.trans (Finset.erase_subset _ _) hsub
              obtain ⟨st', hscan, hsub'⟩ := ih _ (Nat.lt_of_le_of_lt (Finset.card_le_card hdone) hlt)
                x ys _ rfl
              exact ⟨st', .follow hy hmid hscan, Finset.Subset.trans hsub'
                (Finset.Subset.trans hdone (Finset.erase_subset _ _))⟩

/-! ## What a search keeps -/

/-- The edges kept so far. -/
structure Sound (succ : α → List α) (st : Search α) : Prop where
  /-- Finished nodes have only nodes that were finished before them behind their edges. -/
  ordered : ∃ order, Ordered st.dag order ∧ ∀ z, st.state z = .done ↔ z ∈ order
  untouched : ∀ z, st.state z = .unvisited → st.dag z = []
  counted : ∀ z, st.dagIndeg z = ∑ w, ((st.dag w).count z : ℤ)
  edges : ∀ z, st.dag z ⊆ succ z
  /-- What a finished node has lost leads back to it. -/
  dropped : ∀ z, st.state z = .done → ∀ w ∈ succ z, w ∈ st.dag z ∨ Reach succ w z

theorem Sound.start : Sound succ (Search.start : Search α) where
  ordered := ⟨[], fun l₁ z l₂ h => absurd h (by simp), fun z => by simp [Search.start]⟩
  untouched _ _ := rfl
  counted z := by simp [Search.start]
  edges z := List.nil_subset _
  dropped z hz := by cases hz

/-- Keeping an edge of a node on the stack. -/
theorem Sound.keep (h : Sound succ st) (hx : st.state x = .onStack) (hy : y ∈ succ x) :
    Sound succ (st.keep x y) where
  ordered := by
    obtain ⟨order, hordered, hdone⟩ := h.ordered
    refine ⟨order, hordered.congr fun z hz => Search.keep_other ?_, hdone⟩
    rintro rfl
    rw [(hdone z).mpr hz] at hx
    cases hx
  untouched z hz := by
    have hne : z ≠ x := by
      rintro rfl
      exact absurd (hz.symm.trans hx) (by decide)
    rw [Search.keep_other hne]
    exact h.untouched z hz
  counted z := by
    have hrow : ∀ w, (((st.keep x y).dag w).count z : ℤ) =
        ((st.dag w).count z : ℤ) + if w = x then ([y].count z : ℤ) else 0 := by
      intro w
      by_cases hw : w = x
      · rw [hw, Search.keep_self, List.count_append, if_pos rfl]
        push_cast
        rfl
      · rw [Search.keep_other hw, if_neg hw, add_zero]
    simp only [hrow, Finset.sum_add_distrib, Finset.sum_ite_eq', Finset.mem_univ, if_true]
    rw [← h.counted z, Search.keep]
    by_cases hz : z = y
    · simp [hz]
    · simp [hz, Ne.symm hz]
  edges z := by
    by_cases hz : z = x
    · rw [hz, Search.keep_self]
      exact List.append_subset.mpr ⟨h.edges x, List.cons_subset.mpr ⟨hy, List.nil_subset _⟩⟩
    · rw [Search.keep_other hz]
      exact h.edges z
  dropped z hz := by
    have hne : z ≠ x := by
      rintro rfl
      exact absurd (hz.symm.trans hx) (by decide)
    rw [Search.keep_other hne]
    exact h.dropped z hz

/-- A new node is put on the stack. -/
theorem Sound.push (h : Sound succ st) (hy : st.state y = .unvisited) :
    Sound succ (st.mark y .onStack) where
  ordered := by
    obtain ⟨order, hordered, hdone⟩ := h.ordered
    refine ⟨order, hordered, fun z => ?_⟩
    rw [← hdone z]
    by_cases hz : z = y
    · subst hz
      simp [Search.mark_self, hy]
    · rw [Search.mark_other hz]
  untouched z hz := by
    by_cases hzy : z = y
    · rw [hzy, Search.mark_self] at hz
      cases hz
    · rw [Search.mark_other hzy] at hz
      exact h.untouched z hz
  counted := h.counted
  edges := h.edges
  dropped z hz := by
    by_cases hzy : z = y
    · rw [hzy, Search.mark_self] at hz
      cases hz
    · rw [Search.mark_other hzy] at hz
      exact h.dropped z hz

/-- A node is finished, with only finished nodes behind its edges. -/
theorem Sound.finish (h : Sound succ st) (hy : st.state y = .onStack)
    (hbehind : ∀ w ∈ st.dag y, st.state w = .done)
    (hdropped : ∀ w ∈ succ y, w ∈ st.dag y ∨ Reach succ w y) :
    Sound succ (st.mark y .done) where
  ordered := by
    obtain ⟨order, hordered, hdone⟩ := h.ordered
    refine ⟨y :: order, hordered.cons fun w hw => (hdone w).mp (hbehind w hw), fun z => ?_⟩
    by_cases hz : z = y
    · subst hz
      simp [Search.mark_self]
    · rw [Search.mark_other hz, hdone z, List.mem_cons, or_iff_right hz]
  untouched z hz := by
    by_cases hzy : z = y
    · rw [hzy, Search.mark_self] at hz
      cases hz
    · rw [Search.mark_other hzy] at hz
      exact h.untouched z hz
  counted := h.counted
  edges := h.edges
  dropped z hz := by
    by_cases hzy : z = y
    · rw [hzy]
      exact hdropped
    · rw [Search.mark_other hzy] at hz
      exact h.dropped z hz

/-- What a scan from `x` makes of a state. -/
structure Scanned (succ : α → List α) (x : α) (ys : List α) (st st' : Search α) : Prop where
  sound : Sound succ st'
  stack : ∀ z, st'.state z = .onStack ↔ st.state z = .onStack
  stays : ∀ z, st.state z = .done → st'.state z = .done
  others : ∀ z, z ≠ x → st.state z ≠ .unvisited → st'.dag z = st.dag z
  scanned : st'.dag x = st.dag x ++ ys.filter (st.state · ≠ .onStack)
  behind : ∀ w ∈ st'.dag x, st'.state w = .done

/-- A scan from the top of the stack, to which every node on the stack leads. -/
theorem Scan.keeps (h : Scan succ x ys st st') (hsound : Sound succ st)
    (hx : st.state x = .onStack) (hbehind : ∀ w ∈ st.dag x, st.state w = .done)
    (hys : ys ⊆ succ x) (hleads : ∀ z, st.state z = .onStack → Reach succ z x) :
    Scanned succ x ys st st' := by
  induction h with
  | nil => exact ⟨hsound, fun _ => Iff.rfl, fun _ h => h, fun _ _ _ => rfl, by simp, hbehind⟩
  | @back x y ys st st' hy _ ih =>
      have hrest := ih hsound hx hbehind (List.cons_subset.mp hys).2 hleads
      refine ⟨hrest.sound, hrest.stack, hrest.stays, hrest.others, ?_, hrest.behind⟩
      rw [hrest.scanned, List.filter_cons_of_neg (by simp [hy])]
  | @finished x y ys st st' hy _ ih =>
      obtain ⟨hmem, hys⟩ := List.cons_subset.mp hys
      have hbehind' : ∀ w ∈ (st.keep x y).dag x, st.state w = .done := by
        intro w hw
        rw [Search.keep_self] at hw
        rcases List.mem_append.mp hw with hw | hw
        · exact hbehind w hw
        · rw [List.mem_singleton.mp hw]
          exact hy
      have hrest := ih (hsound.keep hx hmem) hx hbehind' hys hleads
      refine ⟨hrest.sound, hrest.stack, hrest.stays, ?_, ?_, hrest.behind⟩
      · intro z hz hvisited
        rw [hrest.others z hz hvisited, Search.keep_other hz]
      · rw [hrest.scanned, Search.keep_self, List.filter_cons_of_pos (by simp [hy]),
          List.append_assoc]
        rfl
  | @follow x y ys st mid st' hy _ _ ihy ih =>
      obtain ⟨hmem, hys⟩ := List.cons_subset.mp hys
      have hne : x ≠ y := by
        rintro rfl
        exact absurd (hx.symm.trans hy) (by decide)
      -- the node that is followed is on the stack, with none of its edges kept
      have hpushed : Sound succ ((st.keep x y).mark y .onStack) := (hsound.keep hx hmem).push hy
      have hempty : (st.keep x y).dag y = [] := by
        rw [Search.keep_other hne.symm]
        exact hsound.untouched y hy
      have hbelow : ∀ z, ((st.keep x y).mark y .onStack).state z = .onStack →
          Reach succ z y := by
        intro z hz
        by_cases hzy : z = y
        · rw [hzy]
        · rw [Search.mark_other hzy] at hz
          exact (hleads z hz).tail hmem
      have hinner := ihy hpushed Search.mark_self (by simp [hempty]) (List.Subset.refl _) hbelow
      have hstack : ∀ z, (mid.mark y .done).state z = .onStack ↔ st.state z = .onStack := by
        intro z
        by_cases hzy : z = y
        · subst hzy
          simp [Search.mark_self, hy]
        · rw [Search.mark_other hzy, hinner.stack, Search.mark_other hzy, Search.keep_state]
      have hstays : ∀ z, st.state z = .done → (mid.mark y .done).state z = .done := by
        intro z hz
        by_cases hzy : z = y
        · rw [hzy, Search.mark_self]
        · rw [Search.mark_other hzy]
          exact hinner.stays z (by rwa [Search.mark_other hzy])
      have hothers : ∀ z, z ≠ y → st.state z ≠ .unvisited → mid.dag z = (st.keep x y).dag z := by
        intro z hzy hvisited
        exact hinner.others z hzy (by rwa [Search.mark_other hzy])
      have hkept : mid.dag x = st.dag x ++ [y] := by
        rw [hothers x hne (by simp [hx]), Search.keep_self]
      have hfinished : Sound succ (mid.mark y .done) := by
        refine hinner.sound.finish ((hinner.stack y).mpr Search.mark_self) hinner.behind ?_
        intro w hw
        by_cases hw' : ((st.keep x y).mark y .onStack).state w = .onStack
        · exact .inr (hbelow w hw')
        · rw [hinner.scanned]
          exact .inl (List.mem_append_right _ (List.mem_filter.mpr ⟨hw, by simpa using hw'⟩))
      have hbehind' : ∀ w ∈ (mid.mark y .done).dag x, (mid.mark y .done).state w = .done := by
        intro w hw
        rw [Search.mark_dag, hkept] at hw
        rcases List.mem_append.mp hw with hw | hw
        · exact hstays w (hbehind w hw)
        · rw [List.mem_singleton.mp hw]
          exact Search.mark_self
      have hrest := ih hfinished ((hstack x).mpr hx) hbehind' hys
        fun z hz => hleads z ((hstack z).mp hz)
      refine ⟨hrest.sound, fun z => (hrest.stack z).trans (hstack z),
        fun z hz => hrest.stays z (hstays z hz), ?_, ?_, hrest.behind⟩
      · intro z hz hvisited
        have hzy : z ≠ y := fun heq => hvisited (heq ▸ hy)
        have hvisited' : (mid.mark y .done).state z ≠ .unvisited := by
          cases hstate : st.state z with
          | unvisited => exact absurd hstate hvisited
          | onStack => simp [(hstack z).mpr hstate]
          | done => simp [hstays z hstate]
        rw [hrest.others z hz hvisited', Search.mark_dag, hothers z hzy hvisited,
          Search.keep_other hz]
      · have hfilter : ys.filter ((mid.mark y .done).state · ≠ .onStack) =
            ys.filter (st.state · ≠ .onStack) := by
          apply List.filter_congr
          intro w _
          simp [hstack w]
        rw [hrest.scanned, hfilter, Search.mark_dag, hkept,
          List.filter_cons_of_pos (by simp [hy]), List.append_assoc]
        rfl

/-- Between roots nothing is on the stack, and all roots end up finished. -/
theorem Forest.sound {xs : List α} (h : Forest succ xs st st') (hsound : Sound succ st)
    (hempty : ∀ z, st.state z ≠ .onStack) :
    Sound succ st' ∧ (∀ z, st'.state z ≠ .onStack) ∧
      (∀ z, st.state z = .done → st'.state z = .done) ∧ ∀ z ∈ xs, st'.state z = .done := by
  induction h with
  | nil => exact ⟨hsound, hempty, fun _ h => h, by simp⟩
  | @skip x xs st st' hx _ ih =>
      obtain ⟨hsound', hempty', hstays, hxs⟩ := ih hsound hempty
      refine ⟨hsound', hempty', hstays, List.forall_mem_cons.mpr ⟨hstays x ?_, hxs⟩⟩
      cases hstate : st.state x with
      | unvisited => exact absurd hstate hx
      | onStack => exact absurd hstate (hempty x)
      | done => rfl
  | @root x xs st mid st' hx hscan _ ih =>
      have hleads : ∀ z, (st.mark x .onStack).state z = .onStack → Reach succ z x := by
        intro z hz
        by_cases hzx : z = x
        · rw [hzx]
        · rw [Search.mark_other hzx] at hz
          exact absurd hz (hempty z)
      have hscanned := hscan.keeps (hsound.push hx) Search.mark_self
        (by simp [hsound.untouched x hx]) (List.Subset.refl _) hleads
      have hfinished : Sound succ (mid.mark x .done) := by
        refine hscanned.sound.finish ((hscanned.stack x).mpr Search.mark_self) hscanned.behind ?_
        intro w hw
        by_cases hw' : (st.mark x .onStack).state w = .onStack
        · exact .inr (hleads w hw')
        · rw [hscanned.scanned]
          exact .inl (List.mem_append_right _ (List.mem_filter.mpr ⟨hw, by simpa using hw'⟩))
      have hempty' : ∀ z, (mid.mark x .done).state z ≠ .onStack := by
        intro z
        by_cases hzx : z = x
        · simp [hzx, Search.mark_self]
        · rw [Search.mark_other hzx, Ne, hscanned.stack, Search.mark_other hzx]
          exact hempty z
      obtain ⟨hsound', hempty'', hstays, hxs⟩ := ih hfinished hempty'
      refine ⟨hsound', hempty'', fun z hz => hstays z ?_,
        List.forall_mem_cons.mpr ⟨hstays x Search.mark_self, hxs⟩⟩
      by_cases hzx : z = x
      · rw [hzx, Search.mark_self]
      · rw [Search.mark_other hzx]
        exact hscanned.stays z (by rwa [Search.mark_other hzx])

/-- The search from all nodes: no cycle is kept, and only edges on cycles are dropped. -/
theorem Forest.complete {roots : List α} (hroots : ∀ z, z ∈ roots)
    (h : Forest succ roots Search.start st) :
    (∀ z, ¬ Relation.TransGen (Edge st.dag) z z) ∧
      (∀ z, st.dagIndeg z = ∑ w, ((st.dag w).count z : ℤ)) ∧ (∀ z, st.dag z ⊆ succ z) ∧
      ∀ z, ∀ w ∈ succ z, w ∈ st.dag z ∨ Reach succ w z := by
  obtain ⟨hsound, -, -, hdone⟩ := h.sound Sound.start fun z => by simp [Search.start]
  obtain ⟨order, hordered, horder⟩ := hsound.ordered
  exact ⟨fun z => hordered.acyclic ((horder z).mp (hdone z (hroots z))), hsound.counted,
    hsound.edges, fun z => hsound.dropped z (hdone z (hroots z))⟩

end Finite

end Graph
