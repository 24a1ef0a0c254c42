import Beluga.Text.Separated

/-! # Cron expressions

The grammar of a schedule: fields of comma lists, each item a star, a number or a range, with
or without a step.

* `Field.unstepped`, `Field.stepped`: a field from its parts;
* `Field.parts`: the parts of a field in which no comma comes after a step.
-/

namespace Cron

open Text

def Numeral (ds : List Char) : Prop := ds ≠ [] ∧ ∀ c ∈ ds, c.isDigit = true

def value (ds : List Char) : ℕ := ds.foldl (fun n c => 10 * n + (c.toNat - 48)) 0

/-- An item without a step. -/
inductive Base (lo hi : ℕ) : List Char → Prop where
  | star : Base lo hi ['*']
  | number {n : List Char} (hn : Numeral n) (hlo : lo ≤ value n) (hhi : value n ≤ hi) :
      Base lo hi n
  | range {n m : List Char} (hn : Numeral n) (hm : Numeral m) (hlo : lo ≤ value n)
      (hle : value n ≤ value m) (hhi : value m ≤ hi) : Base lo hi (n ++ '-' :: m)

inductive Item (lo hi : ℕ) : List Char → Prop where
  | plain {x : List Char} (hx : Base lo hi x) : Item lo hi x
  | stepped {x ds : List Char} (hx : Base lo hi x) (hds : Numeral ds) (hpos : 1 ≤ value ds) :
      Item lo hi (x ++ '/' :: ds)

def Field (lo hi : ℕ) (f : List Char) : Prop :=
  ∃ items, items ≠ [] ∧ f = [','].intercalate items ∧ ∀ x ∈ items, Item lo hi x

/-- Seconds, minutes, hours, day of month, month, and day of week up to `dow`. -/
def bounds (dow : ℕ) : List (ℕ × ℕ) := [(0, 59), (0, 59), (0, 23), (1, 31), (1, 12), (0, dow)]

def Expression (dow : ℕ) (fields : List (List Char)) : Prop :=
  List.Forall₂ (fun f b => Field b.1 b.2 f) fields (bounds dow)

/-- No comma comes after a step. -/
def StepLast (f : List Char) : Prop := ∀ a b, f = a ++ '/' :: b → ',' ∉ b

variable {lo hi : ℕ} {f x ds : List Char}

theorem Numeral.not_mem (h : Numeral ds) {c : Char} (hc : c.isDigit = false) : c ∉ ds := by
  intro hmem
  rw [h.2 c hmem] at hc
  cases hc

theorem Base.not_mem (h : Base lo hi x) {c : Char} (hc : c.isDigit = false) (hstar : c ≠ '*')
    (hdash : c ≠ '-') : c ∉ x := by
  intro hmem
  cases h with
  | star => exact hstar (List.mem_singleton.mp hmem)
  | number hn => exact hn.not_mem hc hmem
  | range hn hm =>
      rcases List.mem_append.mp hmem with hmem | hmem
      · exact hn.not_mem hc hmem
      · rcases List.mem_cons.mp hmem with heq | hmem
        · exact hdash heq
        · exact hm.not_mem hc hmem

theorem Base.no_slash (h : Base lo hi x) : '/' ∉ x := h.not_mem rfl (by decide) (by decide)

theorem Base.no_comma (h : Base lo hi x) : ',' ∉ x := h.not_mem rfl (by decide) (by decide)

theorem Item.no_comma (h : Item lo hi x) : ',' ∉ x := by
  cases h with
  | plain hx => exact hx.no_comma
  | stepped hx hds =>
      intro hmem
      rcases List.mem_append.mp hmem with hmem | hmem
      · exact hx.no_comma hmem
      · rcases List.mem_cons.mp hmem with heq | hmem
        · cases heq
        · exact hds.not_mem rfl hmem

theorem Field.one (h : Item lo hi x) : Field lo hi x := by
  refine ⟨[x], List.cons_ne_nil _ _, List.intercalate_singleton.symm, fun y hy => ?_⟩
  rw [List.mem_singleton.mp hy]
  exact h

/-- A field without a step, from the parts between its commas. -/
theorem Field.unstepped (h : ∀ x ∈ f.splitOn ',', Base lo hi x) : Field lo hi f :=
  ⟨f.splitOn ',', List.splitOn_ne_nil _ _, (List.intercalate_splitOn ',').symm,
    fun x hx => .plain (h x hx)⟩

/-- A field with a step, which its last item has. -/
theorem Field.stepped (h : ∀ x ∈ f.splitOn ',', Base lo hi x) (hds : Numeral ds)
    (hpos : 1 ≤ value ds) : Field lo hi (f ++ '/' :: ds) := by
  have hsplit := List.dropLast_append_getLast (List.splitOn_ne_nil ',' f)
  have hlast := h _ (List.getLast_mem (List.splitOn_ne_nil ',' f))
  generalize (f.splitOn ',').getLast _ = last at hsplit hlast
  refine ⟨(f.splitOn ',').dropLast ++ [last ++ '/' :: ds], by simp, ?_, fun x hx => ?_⟩
  · rw [intercalate_concat, hsplit, List.intercalate_splitOn]
  · rcases List.mem_append.mp hx with hx | hx
    · exact .plain (h x (List.dropLast_subset _ hx))
    · rw [List.mem_singleton.mp hx]
      exact .stepped hlast hds hpos

/-- The parts of a field in which no comma comes after a step. -/
theorem Field.parts (h : Field lo hi f) (hstep : StepLast f) :
    ('/' ∉ f ∧ ∀ x ∈ f.splitOn ',', Base lo hi x) ∨
    ∃ base ds, f = base ++ '/' :: ds ∧ '/' ∉ base ∧ Numeral ds ∧ 1 ≤ value ds ∧
      ∀ x ∈ base.splitOn ',', Base lo hi x := by
  rcases h with ⟨items, hne, rfl, hitems⟩
  rcases List.eq_nil_or_concat items with hnil | ⟨init, last, hconcat⟩
  · exact absurd hnil hne
  rw [List.concat_eq_append] at hconcat
  subst hconcat
  have hcomma : ∀ x ∈ init ++ [last], ',' ∉ x := fun x hx => (hitems x hx).no_comma
  -- an item that is followed by another one has no step
  have hinit : ∀ x ∈ init, Base lo hi x := by
    intro x hx
    cases hitems x (List.mem_append_left _ hx) with
    | plain hx => exact hx
    | @stepped x' ds' hx' hds' hpos' =>
        exfalso
        rcases List.append_of_mem hx with ⟨front, back, rfl⟩
        have hrest : ∃ rest, [','].intercalate ((front ++ (x' ++ '/' :: ds') :: back) ++ [last]) =
            [','].intercalate (front ++ [x']) ++ '/' :: (ds' ++ ',' :: rest) := by
          refine ⟨[','].intercalate (back ++ [last]), ?_⟩
          cases back with
          | nil =>
              rw [List.append_assoc, List.cons_append, List.nil_append, intercalate_cut,
                intercalate_concat]
              simp only [List.append_assoc, List.cons_append]
          | cons b back =>
              rw [List.append_assoc, List.cons_append, List.cons_append, intercalate_cut,
                intercalate_concat]
              simp only [List.append_assoc, List.cons_append]
        rcases hrest with ⟨rest, hrest⟩
        exact hstep _ _ hrest (List.mem_append_right _ List.mem_cons_self)
  cases hitems last (by simp) with
  | plain hlast =>
      left
      have hall : ∀ x ∈ init ++ [last], Base lo hi x := by
        intro x hx
        rcases List.mem_append.mp hx with hx | hx
        · exact hinit x hx
        · rw [List.mem_singleton.mp hx]
          exact hlast
      refine ⟨not_mem_intercalate hne (by decide) fun x hx => (hall x hx).no_slash, ?_⟩
      rw [List.splitOn_intercalate ',' hcomma hne]
      exact hall
  | @stepped x ds hx hds hpos =>
      right
      have hne' : init ++ [x] ≠ [] := by simp
      have hall : ∀ y ∈ init ++ [x], Base lo hi y := by
        intro y hy
        rcases List.mem_append.mp hy with hy | hy
        · exact hinit y hy
        · rw [List.mem_singleton.mp hy]
          exact hx
      refine ⟨[','].intercalate (init ++ [x]), ds, intercalate_concat _ _ _,
        not_mem_intercalate hne' (by decide) fun y hy => (hall y hy).no_slash, hds, hpos, ?_⟩
      rw [List.splitOn_intercalate ',' (fun y hy => (hall y hy).no_comma) hne']
      exact hall

/-! ## A later last day -/

theorem Base.mono {hi' : ℕ} (hle : hi ≤ hi') (h : Base lo hi x) : Base lo hi' x := by
  cases h with
  | star => exact .star
  | number hn hlo hhi => exact .number hn hlo (Nat.le_trans hhi hle)
  | range hn hm hlo hnm hhi => exact .range hn hm hlo hnm (Nat.le_trans hhi hle)

theorem Field.mono {hi' : ℕ} (hle : hi ≤ hi') (h : Field lo hi f) : Field lo hi' f := by
  rcases h with ⟨items, hne, heq, hitems⟩
  refine ⟨items, hne, heq, fun x hx => ?_⟩
  cases hitems x hx with
  | plain hbase => exact .plain (hbase.mono hle)
  | stepped hbase hds hpos => exact .stepped (hbase.mono hle) hds hpos

theorem Expression.mono {dow dow' : ℕ} {fields : List (List Char)} (hle : dow ≤ dow')
    (h : Expression dow fields) : Expression dow' fields := by
  have hbounds : List.Forall₂ (fun b b' : ℕ × ℕ => b.1 = b'.1 ∧ b.2 ≤ b'.2) (bounds dow)
      (bounds dow') := by
    simp [bounds, hle]
  unfold Expression at h ⊢
  generalize bounds dow = bs at h hbounds
  generalize bounds dow' = bs' at hbounds
  induction h generalizing bs' with
  | nil =>
      cases hbounds
      exact .nil
  | cons hf _ ih =>
      cases hbounds with
      | cons hb hbs =>
          rw [hb.1] at hf
          exact .cons (hf.mono hb.2) (ih _ hbs)

end Cron
