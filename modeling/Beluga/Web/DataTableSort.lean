import Beluga.Js.NumberText
import Mathlib.Data.List.Lex
import Mathlib.Data.List.Pairwise
import Mathlib.Data.List.Sort

/-! # Sorting a column of a data table

`dataTableSort.ts`: cells are compared as numbers where both are, else as text by the
collator of the locale; empty cells come last in both directions.

Numbers are compared by amount, and a number and a text as texts. The comparison is a
preorder on rows where texts stand on the same side of two numbers as the amounts say.

* `sortBy_pairwise`: a sort is sorted where the comparison is total and transitive on the
  values it gets;
* `compare_trans`, `agrees_of_trans`: transitivity, from the rows and back;
* `total_iff`: the comparison is a total preorder on rows, and sorting them has one outcome,
  exactly when the rows agree.
-/

namespace Web

open Js

inductive CellValue where
  | null
  | undefined
  | number (n : Js.Num)
  | bigint (n : ℤ)
  | boolean (b : Bool)
  /-- A date by its milliseconds; an invalid one has none. -/
  | date (time : Option ℤ)
  | string (s : String)
  /-- Any other value by what `String(v)` makes of it. -/
  | object (text : String)
  deriving DecidableEq

/-- null, undefined and NaN are "empty": they always sort last, in both directions. -/
def isEmpty : CellValue → Bool
  | .null | .undefined => true
  | .number n => n = .nan
  | _ => false

inductive Comparable where
  | number (n : Js.Num)
  | bigint (n : ℤ)
  | string (s : String)

def comparable : CellValue → Comparable
  | .number n => .number n
  | .bigint n => .bigint n
  | .boolean b => .number (.fin (if b then 1 else 0))
  | .date time => .number (time.elim .nan fun t => .fin t)
  | .string s => .string s
  | .object text => .string text
  | .null => .string "null"
  | .undefined => .string "undefined"

/-- `typeof x === 'string'`. -/
def Comparable.isString : Comparable → Bool
  | .string _ => true
  | _ => false

/-- What `<` compares of a number or a bigint. -/
def Comparable.amount : Comparable → Js.Num
  | .number n => n
  | .bigint n => .fin n
  | .string _ => .nan

/-- `String(x)`. -/
def Comparable.text : Comparable → String
  | .number n => n.toText
  | .bigint n => toString n
  | .string s => s

def digitValue (digits : List Char) : ℕ :=
  digits.foldl (fun value c => 10 * value + (c.toNat - 48)) 0

/-- `Intl.Collator` with `numeric: true`: a total preorder of texts that compares runs of
digits by their values. -/
structure Collator where
  compare : String → String → ℤ
  antisymm : ∀ a b, (compare a b).sign = -(compare b a).sign
  trans : ∀ a b c, compare a b ≤ 0 → compare b c ≤ 0 → compare a c ≤ 0
  numeric : ∀ front run run' back back' : List Char,
    (∀ c ∈ front.getLast?, c.isDigit = false) →
    run ≠ [] → run' ≠ [] → (∀ c ∈ run, c.isDigit = true) → (∀ c ∈ run', c.isDigit = true) →
    (∀ c ∈ back.head?, c.isDigit = false) → (∀ c ∈ back'.head?, c.isDigit = false) →
    digitValue run < digitValue run' →
    compare (String.ofList (front ++ run ++ back)) (String.ofList (front ++ run' ++ back')) < 0

/-- Ascending order of two non-empty values: numbers numerically, strings with the locale
collator, and a number and a string as strings. -/
def compareNonEmpty (a b : CellValue) (collator : Collator) : ℤ :=
  let x := comparable a
  let y := comparable b
  if x.isString = false ∧ y.isString = false then
    if x.amount.lt y.amount then -1 else if y.amount.lt x.amount then 1 else 0
  else collator.compare x.text y.text

def compareForDirection (a b : CellValue) (desc : Bool) (collator : Collator) : ℤ :=
  let ea := isEmpty a
  let eb := isEmpty b
  if ea || eb then if ea = eb then 0 else if ea then 1 else -1
  else
    let r := compareNonEmpty a b collator
    if desc then -r else r

/-- What the table library gets, which negates it for descending sorts. -/
def tanstackSortResult (a b : CellValue) (desc : Bool) (collator : Collator) : ℤ :=
  let r := compareForDirection a b desc collator
  if desc then -r else r

/-- `xs.sort(cmp)`, which is stable. -/
def sortBy {α : Type} (cmp : α → α → ℤ) (xs : List α) : List α :=
  xs.insertionSort fun a b => cmp a b ≤ 0

def sortValues (values : List CellValue) (desc : Bool) (collator : Collator) : List CellValue :=
  (sortBy (fun p q =>
      let r := compareForDirection p.1 q.1 desc collator
      if r ≠ 0 then r else (p.2 : ℤ) - q.2) values.zipIdx).map Prod.fst

open Js

/-! ## Sorting -/

theorem sortBy_perm {α : Type} (cmp : α → α → ℤ) (xs : List α) : (sortBy cmp xs).Perm xs :=
  List.perm_insertionSort _ xs

theorem sortBy_pairwise {α : Type} {cmp : α → α → ℤ} {xs : List α}
    (htotal : ∀ a ∈ xs, ∀ b ∈ xs, cmp a b ≤ 0 ∨ cmp b a ≤ 0)
    (htrans : ∀ a ∈ xs, ∀ b ∈ xs, ∀ c ∈ xs, cmp a b ≤ 0 → cmp b c ≤ 0 → cmp a c ≤ 0) :
    (sortBy cmp xs).Pairwise (cmp · · ≤ 0) := by
  let r : { a // a ∈ xs } → { a // a ∈ xs } → Prop := fun a b => cmp a b ≤ 0
  have hr : Std.Total r := ⟨fun a b => htotal a a.2 b b.2⟩
  have ht : IsTrans { a // a ∈ xs } r := ⟨fun a b c => htrans a a.2 b b.2 c c.2⟩
  have hsorted : (xs.attach.insertionSort r).Pairwise r := List.pairwise_insertionSort r _
  have hmap : (xs.attach.insertionSort r).map Subtype.val = sortBy cmp xs := by
    rw [List.map_insertionSort r (cmp · · ≤ 0) Subtype.val xs.attach fun a _ b _ => Iff.rfl,
      List.attach_map_subtype_val]
    rfl
  rw [← hmap]
  exact List.pairwise_map.mpr hsorted

/-! ## Comparing two cells -/

variable {collator : Collator} {values : List CellValue} {a b c : CellValue}

/-- Compared as a number: a number, a bigint, a boolean or a date. -/
def IsAmount (v : CellValue) : Prop := isEmpty v = false ∧ (comparable v).isString = false

/-- Compared as text. -/
def IsText (v : CellValue) : Prop := isEmpty v = false ∧ (comparable v).isString = true

def amount (v : CellValue) : Js.Num := (comparable v).amount

def text (v : CellValue) : String := (comparable v).text

theorem amount_or_text (h : isEmpty a = false) : IsAmount a ∨ IsText a := by
  by_cases hs : (comparable a).isString = true
  · exact .inr ⟨h, hs⟩
  · exact .inl ⟨h, Bool.eq_false_iff.mpr hs⟩

theorem compare_amounts (ha : IsAmount a) (hb : IsAmount b) :
    compareNonEmpty a b collator =
      if (amount a).lt (amount b) then -1 else if (amount b).lt (amount a) then 1 else 0 :=
  if_pos ⟨ha.2, hb.2⟩

theorem compare_text (h : IsText a ∨ IsText b) :
    compareNonEmpty a b collator = collator.compare (text a) (text b) := by
  apply if_neg
  rintro ⟨ha, hb⟩
  rcases h with h | h
  · rw [h.2] at ha
    cases ha
  · rw [h.2] at hb
    cases hb

theorem num_lt_asymm {x y : Js.Num} (h : x.lt y = true) : y.lt x = false := by
  cases x <;> cases y <;> simp_all [Js.Num.lt]
  exact le_of_lt h

/-- A number in between that is one. -/
theorem num_not_lt_trans {x y z : Js.Num} (hy : y ≠ .nan) (hxy : y.lt x = false)
    (hyz : z.lt y = false) : z.lt x = false := by
  cases x <;> cases y <;> cases z <;> simp_all [Js.Num.lt]
  exact le_trans hxy hyz

theorem compare_amounts_le (ha : IsAmount a) (hb : IsAmount b) :
    compareNonEmpty a b collator ≤ 0 ↔ (amount b).lt (amount a) = false := by
  rw [compare_amounts ha hb]
  split_ifs with hlt hgt
  · simp [num_lt_asymm hlt]
  · simp [hgt]
  · simp [hgt]

theorem compareNonEmpty_antisymm (ha : isEmpty a = false) (hb : isEmpty b = false) :
    (compareNonEmpty a b collator).sign = -(compareNonEmpty b a collator).sign := by
  by_cases htext : IsText a ∨ IsText b
  · rw [compare_text htext, compare_text htext.symm]
    exact collator.antisymm _ _
  · have ha' := (amount_or_text ha).resolve_right fun h => htext (.inl h)
    have hb' := (amount_or_text hb).resolve_right fun h => htext (.inr h)
    rw [compare_amounts ha' hb', compare_amounts hb' ha']
    by_cases hlt : (amount a).lt (amount b) = true
    · simp [hlt, num_lt_asymm hlt]
    · by_cases hgt : (amount b).lt (amount a) = true
      · simp [hlt, hgt]
      · simp [hlt, hgt]

theorem sign_le {x y : ℤ} (h : x.sign = -y.sign) : x ≤ 0 ↔ 0 ≤ y := by
  rw [← Int.sign_nonpos_iff, h, ← Int.sign_nonneg_iff]
  omega

/-! ## Comparing rows -/

/-- No text stands between two amounts against their order: where `a` is not the larger one,
a text from `b` on and up to `a` is equivalent to both. Beside an invalid date all amounts are
the same. -/
structure Agrees (collator : Collator) (values : List CellValue) : Prop where
  texts : ∀ a ∈ values, ∀ b ∈ values, ∀ c ∈ values, IsAmount a → IsAmount b → IsText c →
    (amount b).lt (amount a) = false → collator.compare (text b) (text c) ≤ 0 →
    collator.compare (text c) (text a) ≤ 0 →
    (amount a).lt (amount b) = false ∧ collator.compare (text c) (text b) ≤ 0 ∧
      collator.compare (text a) (text c) ≤ 0
  dates : .date none ∈ values → ∀ a ∈ values, ∀ b ∈ values, IsAmount a → IsAmount b →
    (amount a).lt (amount b) = false

theorem nan_amount (ha : IsAmount a) (hnan : amount a = .nan) : a = .date none := by
  obtain ⟨hempty, hstring⟩ := ha
  cases a with
  | null => cases hempty
  | undefined => cases hempty
  | number n =>
      rw [show n = .nan from hnan] at hempty
      cases hempty
  | bigint n => cases hnan
  | boolean b => cases hnan
  | date time =>
      cases time with
      | none => rfl
      | some t => cases hnan
  | string s => cases hstring
  | object text => cases hstring

/-- The comparison is transitive on rows that agree. -/
theorem Agrees.trans (h : Agrees collator values) (hav : a ∈ values) (hbv : b ∈ values)
    (hcv : c ∈ values) (ha : isEmpty a = false) (hb : isEmpty b = false) (hc : isEmpty c = false)
    (hab : compareNonEmpty a b collator ≤ 0) (hbc : compareNonEmpty b c collator ≤ 0) :
    compareNonEmpty a c collator ≤ 0 := by
  have hflip : ∀ {x y : String}, ¬ collator.compare x y ≤ 0 → collator.compare y x ≤ 0 := by
    intro x y hxy
    rw [sign_le (collator.antisymm y x)]
    omega
  rcases amount_or_text ha with ha | ha <;> rcases amount_or_text hb with hb | hb <;>
    rcases amount_or_text hc with hc | hc
  · -- three amounts
    rw [compare_amounts_le ha hb] at hab
    rw [compare_amounts_le hb hc] at hbc
    rw [compare_amounts_le ha hc]
    by_cases hnan : amount b = .nan
    · rw [nan_amount hb hnan] at hbv
      exact h.dates hbv c hcv a hav hc ha
    · exact num_not_lt_trans hnan hab hbc
  · rw [compare_amounts_le ha hb] at hab
    rw [compare_text (.inr hc)] at hbc ⊢
    by_contra hac
    exact hac (h.texts a hav b hbv c hcv ha hb hc hab hbc (hflip hac)).2.2
  · rw [compare_text (.inr hb)] at hab
    rw [compare_text (.inl hb)] at hbc
    rw [compare_amounts_le ha hc]
    by_contra hac
    rw [Bool.not_eq_false] at hac
    have hca := num_lt_asymm hac
    rw [(h.texts c hcv a hav b hbv hc ha hb hca hab hbc).1] at hac
    cases hac
  · rw [compare_text (.inr hb)] at hab
    rw [compare_text (.inl hb)] at hbc
    rw [compare_text (.inr hc)]
    exact collator.trans _ _ _ hab hbc
  · rw [compare_text (.inl ha)] at hab ⊢
    rw [compare_amounts_le hb hc] at hbc
    by_contra hac
    exact hac (h.texts b hbv c hcv a hav hb hc ha hbc (hflip hac) hab).2.1
  · rw [compare_text (.inl ha)] at hab ⊢
    rw [compare_text (.inr hc)] at hbc
    exact collator.trans _ _ _ hab hbc
  · rw [compare_text (.inl ha)] at hab ⊢
    rw [compare_text (.inl hb)] at hbc
    exact collator.trans _ _ _ hab hbc
  · rw [compare_text (.inl ha)] at hab ⊢
    rw [compare_text (.inl hb)] at hbc
    exact collator.trans _ _ _ hab hbc

/-! ## Both directions -/

theorem direction_antisymm (desc : Bool) (a b : CellValue) :
    (compareForDirection a b desc collator).sign =
      -(compareForDirection b a desc collator).sign := by
  unfold compareForDirection
  cases ha : isEmpty a with
  | true => cases hb : isEmpty b <;> rfl
  | false =>
      cases hb : isEmpty b with
      | true => rfl
      | false =>
          have hsign := @compareNonEmpty_antisymm collator a b ha hb
          cases desc
          · exact hsign
          · show (-compareNonEmpty a b collator).sign = -(-compareNonEmpty b a collator).sign
            rw [Int.sign_neg, Int.sign_neg, hsign]

theorem direction_total (desc : Bool) (a b : CellValue) :
    compareForDirection a b desc collator ≤ 0 ∨ compareForDirection b a desc collator ≤ 0 := by
  rw [sign_le (direction_antisymm desc a b)]
  omega

theorem direction_asc (ha : isEmpty a = false) (hb : isEmpty b = false) :
    compareForDirection a b false collator = compareNonEmpty a b collator := by
  simp [compareForDirection, ha, hb]

/-- In descending order cells are compared the other way round, empty ones apart. -/
theorem direction_le (desc : Bool) (a b : CellValue) :
    compareForDirection a b desc collator ≤ 0 ↔ isEmpty b = true ∨
      (isEmpty a = false ∧ isEmpty b = false ∧
        if desc then compareNonEmpty b a collator ≤ 0 else compareNonEmpty a b collator ≤ 0) := by
  unfold compareForDirection
  cases ha : isEmpty a with
  | true => cases hb : isEmpty b <;> simp
  | false =>
      cases hb : isEmpty b with
      | true => simp
      | false =>
          cases desc
          · simp
          · simp [sign_le (@compareNonEmpty_antisymm collator b a hb ha)]

theorem Agrees.direction_trans (h : Agrees collator values) (desc : Bool) (ha : a ∈ values)
    (hb : b ∈ values) (hc : c ∈ values) (hab : compareForDirection a b desc collator ≤ 0)
    (hbc : compareForDirection b c desc collator ≤ 0) :
    compareForDirection a c desc collator ≤ 0 := by
  rw [direction_le] at hab hbc ⊢
  rcases hbc with hbc | ⟨hb', hc', hbc⟩
  · exact .inl hbc
  · rcases hab with hab | ⟨ha', -, hab⟩
    · rw [hb'] at hab
      cases hab
    · refine .inr ⟨ha', hc', ?_⟩
      cases desc
      · exact h.trans ha hb hc ha' hb' hc' hab hbc
      · exact h.trans hc hb ha hc' hb' ha' hbc hab

/-- The table negates what it gets for a descending sort, so its order is the same one. -/
theorem tanstack_order (desc : Bool) (a b : CellValue) :
    (if desc then -tanstackSortResult a b desc collator
      else tanstackSortResult a b desc collator) = compareForDirection a b desc collator := by
  cases desc
  · rfl
  · exact neg_neg _

/-! ## Rows -/

/-- The comparison is a total preorder on the rows in both directions: their order shows in
the outcome of a sort only among equivalent ones, and empty cells come last. -/
structure TotalPreorder (collator : Collator) (values : List CellValue) : Prop where
  antisymm : ∀ desc, ∀ a ∈ values, ∀ b ∈ values, (compareForDirection a b desc collator).sign =
    -(compareForDirection b a desc collator).sign
  trans : ∀ desc, ∀ a ∈ values, ∀ b ∈ values, ∀ c ∈ values,
    compareForDirection a b desc collator ≤ 0 → compareForDirection b c desc collator ≤ 0 →
      compareForDirection a c desc collator ≤ 0
  sameOrder : ∀ desc values', values'.Perm values →
    (values.Pairwise fun a b => compareForDirection a b desc collator ≠ 0) →
      sortValues values' desc collator = sortValues values desc collator
  emptyLast : ∀ desc,
    (sortValues values desc collator).Pairwise fun a b => isEmpty a = true → isEmpty b = true

theorem sortValues_perm (values : List CellValue) (desc : Bool) (collator : Collator) :
    (sortValues values desc collator).Perm values := by
  have hperm := (sortBy_perm (fun p q =>
    let r := compareForDirection p.1 q.1 desc collator
    if r ≠ 0 then r else (p.2 : ℤ) - q.2) values.zipIdx).map Prod.fst
  rwa [List.zipIdx_map_fst] at hperm

/-- Rows that agree are sorted, by the comparison first and by their places then. -/
theorem Agrees.sorted (h : Agrees collator values) (desc : Bool) :
    (sortValues values desc collator).Pairwise
      fun a b => compareForDirection a b desc collator ≤ 0 := by
  have hmem : ∀ p ∈ values.zipIdx, p.1 ∈ values := by
    intro p hp
    rw [← List.zipIdx_map_fst 0 values]
    exact List.mem_map_of_mem hp
  rw [sortValues, List.pairwise_map]
  refine (sortBy_pairwise ?_ ?_).imp ?_
  · intro p _ q _
    have hsign := @direction_antisymm collator desc p.1 q.1
    have htotal := @direction_total collator desc p.1 q.1
    by_cases hzero : compareForDirection p.1 q.1 desc collator = 0
    · have hzero' : compareForDirection q.1 p.1 desc collator = 0 := by
        rw [hzero, Int.sign_zero, eq_comm, neg_eq_zero, Int.sign_eq_zero_iff_zero] at hsign
        exact hsign
      simp only [hzero, hzero', ne_eq, not_true_eq_false, if_false]
      omega
    · have hzero' : compareForDirection q.1 p.1 desc collator ≠ 0 := by
        intro hzero'
        rw [hzero', Int.sign_zero, neg_zero, Int.sign_eq_zero_iff_zero] at hsign
        exact hzero hsign
      simp only [ne_eq, hzero, hzero', not_false_eq_true, if_true]
      exact htotal
  · intro p hp q hq s hs hpq hqs
    have htrans : ∀ {x y z}, x ∈ values.zipIdx → y ∈ values.zipIdx → z ∈ values.zipIdx →
        compareForDirection x.1 y.1 desc collator ≤ 0 →
        compareForDirection y.1 z.1 desc collator ≤ 0 →
          compareForDirection x.1 z.1 desc collator ≤ 0 :=
      fun hx hy hz => h.direction_trans desc (hmem _ hx) (hmem _ hy) (hmem _ hz)
    have hback : ∀ {x y}, compareForDirection x y desc collator ≤ 0 ↔
        0 ≤ compareForDirection y x desc collator := sign_le (direction_antisymm desc _ _)
    simp only at hpq hqs ⊢
    have hpq' : compareForDirection p.1 q.1 desc collator ≤ 0 := by
      split_ifs at hpq <;> omega
    have hqs' : compareForDirection q.1 s.1 desc collator ≤ 0 := by
      split_ifs at hqs <;> omega
    have hps := htrans hp hq hs hpq' hqs'
    by_cases hzero : compareForDirection p.1 s.1 desc collator = 0
    · -- all three are equivalent, so their places decide
      have hsp := hback.mpr (le_of_eq hzero.symm)
      have hqp := hback.mp (htrans hq hs hp hqs' hsp)
      have hsq := hback.mp (htrans hs hp hq hsp hpq')
      have hpq₀ : compareForDirection p.1 q.1 desc collator = 0 := by omega
      have hqs₀ : compareForDirection q.1 s.1 desc collator = 0 := by omega
      rw [if_neg (not_not.mpr hpq₀)] at hpq
      rw [if_neg (not_not.mpr hqs₀)] at hqs
      rw [if_neg (not_not.mpr hzero)]
      omega
    · rw [if_pos hzero]
      exact hps
  · intro p q hpq
    simp only at hpq
    split_ifs at hpq with hzero
    · exact hpq
    · exact le_of_eq (not_not.mp hzero)

theorem Agrees.perm (h : Agrees collator values) {values' : List CellValue}
    (hperm : values'.Perm values) : Agrees collator values' where
  texts a ha b hb c hc := h.texts a (hperm.subset ha) b (hperm.subset hb) c (hperm.subset hc)
  dates hd a ha b hb := h.dates (hperm.subset hd) a (hperm.subset ha) b (hperm.subset hb)

theorem Agrees.totalPreorder (h : Agrees collator values) : TotalPreorder collator values where
  antisymm desc a _ b _ := direction_antisymm desc a b
  trans desc a ha b hb c hc := h.direction_trans desc ha hb hc
  sameOrder desc values' hperm hdistinct := by
    refine List.Perm.eq_of_pairwise ?_ ((h.perm hperm).sorted desc) (h.sorted desc)
      ((sortValues_perm values' desc collator).trans
        (hperm.trans (sortValues_perm values desc collator).symm))
    intro a b ha hb hab hba
    have ha' := hperm.subset ((sortValues_perm values' desc collator).subset ha)
    have hb' := (sortValues_perm values desc collator).subset hb
    by_contra hne
    have hsymm : Std.Symm fun a b => compareForDirection a b desc collator ≠ 0 := by
      refine ⟨fun x y hxy hyx => hxy ?_⟩
      have hsign := @direction_antisymm collator desc x y
      rwa [hyx, Int.sign_zero, neg_zero, Int.sign_eq_zero_iff_zero] at hsign
    refine hdistinct.forall ha' hb' hne (le_antisymm hab ?_)
    exact (sign_le (direction_antisymm desc b a)).mp hba
  emptyLast desc := by
    refine (h.sorted desc).imp ?_
    intro a b hab ha
    rcases (direction_le desc a b).mp hab with hb | ⟨ha', -, -⟩
    · exact hb
    · rw [ha] at ha'
      cases ha'

theorem TotalPreorder.agrees (h : TotalPreorder collator values) : Agrees collator values := by
  have htrans : ∀ a ∈ values, ∀ b ∈ values, ∀ c ∈ values, isEmpty a = false →
      isEmpty b = false → isEmpty c = false → compareNonEmpty a b collator ≤ 0 →
      compareNonEmpty b c collator ≤ 0 → compareNonEmpty a c collator ≤ 0 := by
    intro a ha b hb c hc ha' hb' hc' hab hbc
    have hac := h.trans false a ha b hb c hc
    rw [direction_asc ha' hb', direction_asc hb' hc', direction_asc ha' hc'] at hac
    exact hac hab hbc
  constructor
  · intro a ha b hb c hc hna hnb htc hab hbc hca
    rw [← compare_amounts_le hna hnb] at hab
    rw [← @compare_text collator b c (.inr htc)] at hbc
    rw [← @compare_text collator c a (.inl htc)] at hca
    rw [← @compare_amounts_le collator b a hnb hna, ← @compare_text collator c b (.inl htc),
      ← @compare_text collator a c (.inr htc)]
    exact ⟨htrans b hb c hc a ha hnb.1 htc.1 hna.1 hbc hca,
      htrans c hc a ha b hb htc.1 hna.1 hnb.1 hca hab,
      htrans a ha b hb c hc hna.1 hnb.1 htc.1 hab hbc⟩
  · intro hdate a ha b hb hna hnb
    have hnan : IsAmount (.date none) := ⟨rfl, rfl⟩
    rw [← @compare_amounts_le collator b a hnb hna]
    refine htrans b hb _ hdate a ha hnb.1 rfl hna.1 ?_ ?_
    · rw [compare_amounts_le hnb hnan]
      cases hb' : amount b <;> rfl
    · rw [compare_amounts_le hnan hna]
      cases ha' : amount a <;> rfl

/-- The comparison is a total preorder on rows, and sorting them has one outcome with the
empty cells last, exactly when the rows agree. -/
theorem total_iff (collator : Collator) (values : List CellValue) :
    TotalPreorder collator values ↔ Agrees collator values :=
  ⟨TotalPreorder.agrees, Agrees.totalPreorder⟩

/-- A column of numbers only, or of texts only, with valid dates. -/
theorem agrees_of_one_kind (hdate : .date none ∉ values)
    (hkind : (∀ v ∈ values, ¬ IsText v) ∨ ∀ v ∈ values, ¬ IsAmount v) : Agrees collator values where
  texts a ha b _ c hc hna _ htc := by
    rcases hkind with h | h
    · exact absurd htc (h c hc)
    · exact absurd hna (h a ha)
  dates hd := absurd hd hdate

/-! ## A collator -/

/-- What a text is compared by: its characters, and its runs of digits by their values. The
first argument is the value of the run that was started. -/
def collationKey : Option ℕ → List Char → List ℕ
  | none, [] => []
  | some n, [] => [0, n]
  | none, c :: cs =>
      if c.isDigit then collationKey (some (c.toNat - 48)) cs
      else 1 :: c.toNat :: collationKey none cs
  | some n, c :: cs =>
      if c.isDigit then collationKey (some (10 * n + (c.toNat - 48))) cs
      else 0 :: n :: 1 :: c.toNat :: collationKey none cs

theorem collationKey_run {run : List Char} (hrun : ∀ c ∈ run, c.isDigit = true) (n : ℕ)
    (back : List Char) : collationKey (some n) (run ++ back) =
      collationKey (some (run.foldl (fun value c => 10 * value + (c.toNat - 48)) n)) back := by
  induction run generalizing n with
  | nil => rfl
  | cons c run ih =>
      rw [List.cons_append, collationKey, if_pos (hrun c List.mem_cons_self),
        ih fun d hd => hrun d (List.mem_cons_of_mem _ hd)]
      rfl

theorem collationKey_digits {run back : List Char} (hne : run ≠ [])
    (hrun : ∀ c ∈ run, c.isDigit = true) (hback : ∀ c ∈ back.head?, c.isDigit = false) :
    collationKey none (run ++ back) = 0 :: digitValue run :: collationKey none back := by
  cases run with
  | nil => exact absurd rfl hne
  | cons c run =>
      have hvalue : digitValue (c :: run) =
          run.foldl (fun value c => 10 * value + (c.toNat - 48)) (c.toNat - 48) := by
        rw [digitValue, List.foldl_cons, Nat.mul_zero, Nat.zero_add]
      rw [List.cons_append, collationKey, if_pos (hrun c List.mem_cons_self),
        collationKey_run (fun d hd => hrun d (List.mem_cons_of_mem _ hd)), ← hvalue]
      cases back with
      | nil => rfl
      | cons d back =>
          have hd : ¬ d.isDigit = true := Bool.eq_false_iff.mp (hback d rfl)
          rw [collationKey, if_neg hd, collationKey, if_neg hd]

theorem collationKey_front {front : List Char} (hfront : ∀ c ∈ front.getLast?, c.isDigit = false)
    (hne : front ≠ []) (run : Option ℕ) (back : List Char) :
    collationKey run (front ++ back) = collationKey run front ++ collationKey none back := by
  induction front generalizing run with
  | nil => exact absurd rfl hne
  | cons c front ih =>
      by_cases hempty : front = []
      · subst hempty
        have hc : ¬ c.isDigit = true := Bool.eq_false_iff.mp (hfront c rfl)
        cases run with
        | none => simp [collationKey, hc]
        | some n => simp [collationKey, hc]
      · have hlast : ∀ d ∈ front.getLast?, d.isDigit = false := by
          intro d hd
          apply hfront
          rw [List.getLast?_cons_of_ne_nil hempty]
          exact hd
        have hrest := ih hlast hempty
        cases run with
        | none =>
            rw [List.cons_append, collationKey, collationKey]
            split_ifs
            · exact hrest _
            · rw [hrest]
              rfl
        | some n =>
            rw [List.cons_append, collationKey, collationKey]
            split_ifs
            · exact hrest _
            · rw [hrest]
              rfl

theorem collationKey_append {front : List Char}
    (hfront : ∀ c ∈ front.getLast?, c.isDigit = false) (back : List Char) :
    collationKey none (front ++ back) = collationKey none front ++ collationKey none back := by
  by_cases hne : front = []
  · rw [hne]
    rfl
  · exact collationKey_front hfront hne none back

/-- Characters by their code points. -/
def codePointCollator : Collator where
  compare a b :=
    if collationKey none a.toList < collationKey none b.toList then -1
    else if collationKey none b.toList < collationKey none a.toList then 1 else 0
  antisymm a b := by
    rcases lt_trichotomy (collationKey none a.toList) (collationKey none b.toList) with
      hlt | heq | hgt
    · rw [if_pos hlt, if_neg hlt.asymm, if_pos hlt]
      rfl
    · simp [heq]
    · rw [if_pos hgt, if_neg hgt.asymm, if_pos hgt]
      rfl
  trans a b c hab hbc := by
    have hle : ∀ {x y : List ℕ}, (if x < y then (-1 : ℤ) else if y < x then 1 else 0) ≤ 0 ↔
        x ≤ y := by
      intro x y
      rcases lt_trichotomy x y with hlt | heq | hgt
      · simp [hlt, hlt.le]
      · simp [heq]
      · simp [hgt, hgt.asymm, hgt.not_ge]
    rw [hle] at hab hbc ⊢
    exact le_trans hab hbc
  numeric front run run' back back' hfront hne hne' hrun hrun' hback hback' hlt := by
    rw [String.toList_ofList, String.toList_ofList, if_pos]
    · decide
    · rw [List.append_assoc, List.append_assoc, collationKey_append hfront,
        collationKey_append hfront, collationKey_digits hne hrun hback,
        collationKey_digits hne' hrun' hback']
      apply List.append_left_lt
      exact List.cons_lt_cons_iff.mpr (.inr ⟨rfl, List.cons_lt_cons_iff.mpr (.inl hlt)⟩)

/-- Two negative numbers and a text between them: each comes before the next. -/
theorem negative_numbers_cycle :
    compareForDirection (.number (.fin (-10))) (.number (.fin (-2))) false codePointCollator < 0 ∧
    compareForDirection (.number (.fin (-2))) (.string "-5") false codePointCollator < 0 ∧
    compareForDirection (.string "-5") (.number (.fin (-10))) false codePointCollator < 0 ∧
    ¬ TotalPreorder codePointCollator
      [.number (.fin (-10)), .number (.fin (-2)), .string "-5"] := by
  have hfirst : compareForDirection (.number (.fin (-10))) (.number (.fin (-2))) false
      codePointCollator < 0 := by decide +kernel
  have hsecond : compareForDirection (.number (.fin (-2))) (.string "-5") false
      codePointCollator < 0 := by decide +kernel
  have hthird : compareForDirection (.string "-5") (.number (.fin (-10))) false
      codePointCollator < 0 := by decide +kernel
  refine ⟨hfirst, hsecond, hthird, fun h => ?_⟩
  have hback := h.trans false _ (.tail _ (.head _)) _ (.tail _ (.tail _ (.head _))) _ (.head _)
    (le_of_lt hsecond) (le_of_lt hthird)
  exact absurd hback (by decide +kernel)

end Web
