import Beluga.Ci.BackupSchedule
import Beluga.Text.Cron

/-! # Which schedules pass

What passes the validator, compared with the grammar of `Cron`.

* `field_good`: a field without foreign characters passes if the grammar has it, no comma comes
  after a step, and `int` reads its numbers;
* `validate_cron_exact`: when the validator decides as the grammar does;
* `validate_cron_inexact`: three strings on which it does not.
-/

namespace Ci

open Py (Digits)

open Text (Stops)

section Schedule

variable {py : Digits} {field base step x : List Char} {lo hi : ℕ}

/-! ## The grammar -/

/-- A character of a schedule without names. -/
def CronChar (c : Char) : Prop := c.isDigit = true ∨ c ∈ ['*', ',', '-', '/']

instance (c : Char) : Decidable (CronChar c) :=
  inferInstanceAs (Decidable (c.isDigit = true ∨ c ∈ ['*', ',', '-', '/']))

/-- No run of digits is too long for `int`. -/
def Short (py : Digits) (field : List Char) : Prop :=
  ∀ ds, ds <:+: field → Cron.Numeral ds → py.Fits ds.length

theorem Short.part {a b : List Char} (h : Short py b) (hab : a <:+: b) : Short py a :=
  fun ds hds hnum => h ds (hds.trans hab) hnum

theorem fits_le {n m : ℕ} (h : py.Fits m) (hle : n ≤ m) : py.Fits n :=
  h.imp id fun hm => Nat.le_trans hle hm

theorem ascii_of_isDigit {c : Char} (h : c.isDigit = true) : c.toNat < 128 := by
  rw [Char.isDigit, Bool.and_eq_true, decide_eq_true_eq, decide_eq_true_eq] at h
  have hle := UInt32.le_iff_toNat_le.mp h.2
  have hval : c.toNat = c.val.toNat := rfl
  rw [hval]
  exact Nat.lt_of_le_of_lt hle (by decide)

theorem CronChar.ascii {c : Char} (h : CronChar c) : c.toNat < 128 := by
  rcases h with h | h
  · exact ascii_of_isDigit h
  · simp only [List.mem_cons, List.not_mem_nil, or_false] at h
    rcases h with rfl | rfl | rfl | rfl <;> decide

theorem isdigit_of_numeral {ds : List Char} (h : Cron.Numeral ds) : py.isdigit ds = true := by
  rw [Digits.isdigit, Bool.and_eq_true]
  refine ⟨?_, List.all_eq_true.mpr fun c hc => ?_⟩
  · cases ds with
    | nil => exact absurd rfl h.1
    | cons => rfl
  · rw [py.isDigit_ascii c (ascii_of_isDigit (h.2 c hc))]
    exact h.2 c hc

theorem numeral_of_isdigit {ds : List Char} (hplain : ∀ c ∈ ds, CronChar c)
    (h : py.isdigit ds = true) : Cron.Numeral ds := by
  rw [Digits.isdigit, Bool.and_eq_true] at h
  refine ⟨?_, fun c hc => ?_⟩
  · intro hnil
    rw [hnil] at h
    cases h.1
  · have hdigit := List.all_eq_true.mp h.2 c hc
    rwa [py.isDigit_ascii c (hplain c hc).ascii] at hdigit

theorem reads_iff {ds : List Char} (h : Cron.Numeral ds) : py.Reads ds ↔ py.Fits ds.length := by
  refine and_iff_right fun c hc => ?_
  rw [py.decimal_ascii c (h.2 c hc)]
  rfl

theorem value_eq {ds : List Char} (h : ∀ c ∈ ds, c.isDigit = true) :
    py.value ds = Cron.value ds := by
  have hfold : ∀ n, ds.foldl (fun n c => 10 * n + (py.decimal c).getD 0) n =
      ds.foldl (fun n c => 10 * n + (c.toNat - 48)) n := by
    induction ds with
    | nil => exact fun n => rfl
    | cons c ds ih =>
        intro n
        rcases List.forall_mem_cons.mp h with ⟨hc, hds⟩
        rw [List.foldl_cons, List.foldl_cons, py.decimal_ascii c hc]
        exact ih hds _
  exact hfold 0

theorem short_numeral {ds : List Char} (h : py.Fits ds.length) : Short py ds :=
  fun _ hds _ => fits_le h hds.length_le

theorem short_side {a b : List Char} {c : Char} (hc : c.isDigit = false) (ha : Short py a)
    (hb : Short py b) : Short py (a ++ c :: b) := by
  intro ds hds hnum
  rcases Text.infix_side (hnum.not_mem hc) hds with hds | hds
  · exact ha ds hds hnum
  · exact hb ds hds hnum

theorem item_good (hplain : ∀ c ∈ x, CronChar c) :
    (Look.item lo hi x).Good py ↔ Cron.Base lo hi x ∧ Short py x := by
  constructor
  · intro h
    rcases h with rfl | ⟨hdigit, hreads, hlo, hhi⟩ | ⟨n, m, rfl, hnm, hreads, hlo, hle, hhi⟩
    · refine ⟨.star, fun ds hds hnum => ?_⟩
      exfalso
      cases ds with
      | nil => exact hnum.1 rfl
      | cons c ds =>
          have hstar := List.mem_singleton.mp (hds.subset List.mem_cons_self)
          have hdigit := hnum.2 c List.mem_cons_self
          rw [hstar] at hdigit
          cases hdigit
    · have hnum := numeral_of_isdigit hplain hdigit
      rw [value_eq hnum.2] at hlo hhi
      exact ⟨.number hnum hlo hhi, short_numeral ((reads_iff hnum).mp hreads)⟩
    · have hn := numeral_of_isdigit (fun c hc => hplain c (List.mem_append_left _ hc)) hnm.1
      have hm := numeral_of_isdigit
        (fun c hc => hplain c (List.mem_append_right _ (List.mem_cons_of_mem _ hc))) hnm.2
      rw [value_eq hn.2] at hlo hle
      rw [value_eq hm.2] at hle hhi
      exact ⟨.range hn hm hlo hle hhi, short_side rfl
        (short_numeral ((reads_iff hn).mp hreads.1)) (short_numeral ((reads_iff hm).mp hreads.2))⟩
  · intro h
    rcases h with ⟨hbase, hshort⟩
    cases hbase with
    | star => exact .inl rfl
    | number hnum hlo hhi =>
        have hreads := (reads_iff hnum).mpr (hshort x (List.infix_refl x) hnum)
        refine .inr (.inl ⟨isdigit_of_numeral hnum, hreads, ?_⟩)
        rw [value_eq hnum.2]
        exact ⟨hlo, hhi⟩
    | @range n m hn hm hlo hle hhi =>
        refine .inr (.inr ⟨n, m, rfl, ⟨isdigit_of_numeral hn, isdigit_of_numeral hm⟩, ⟨?_, ?_⟩, ?_⟩)
        · exact (reads_iff hn).mpr (hshort n ⟨[], '-' :: m, rfl⟩ hn)
        · exact (reads_iff hm).mpr (hshort m ⟨n ++ ['-'], [], by simp⟩ hm)
        · rw [value_eq hn.2, value_eq hm.2]
          exact ⟨hlo, hle, hhi⟩

theorem step_good {ds : List Char} (hplain : ∀ c ∈ ds, CronChar c) :
    (Look.step ds).Good py ↔ (Cron.Numeral ds ∧ 1 ≤ Cron.value ds) ∧ Short py ds := by
  constructor
  · intro h
    rcases h with ⟨hdigit, hreads, hpos⟩
    have hnum := numeral_of_isdigit hplain hdigit
    rw [value_eq hnum.2] at hpos
    exact ⟨⟨hnum, hpos⟩, short_numeral ((reads_iff hnum).mp hreads)⟩
  · intro h
    rcases h with ⟨⟨hnum, hpos⟩, hshort⟩
    refine ⟨isdigit_of_numeral hnum, (reads_iff hnum).mpr (hshort ds (List.infix_refl ds) hnum), ?_⟩
    rwa [value_eq hnum.2]

theorem items_good {base : List Char} (hplain : ∀ c ∈ base, CronChar c) :
    (∀ l ∈ (base.splitOn ',').map (Look.item lo hi), l.Good py) ↔
      (∀ x ∈ base.splitOn ',', Cron.Base lo hi x) ∧ Short py base := by
  have hpart : ∀ x ∈ base.splitOn ',', ∀ c ∈ x, CronChar c :=
    fun x hx c hc => hplain c ((Text.infix_of_mem_splitOn hx).subset hc)
  constructor
  · intro h
    have hgood : ∀ x ∈ base.splitOn ',', Cron.Base lo hi x ∧ Short py x :=
      fun x hx => (item_good (hpart x hx)).mp (h _ (List.mem_map_of_mem hx))
    refine ⟨fun x hx => (hgood x hx).1, fun ds hds hnum => ?_⟩
    have hjoin : [','].intercalate (base.splitOn ',') = base := List.intercalate_splitOn ','
    rw [← hjoin] at hds
    rcases Text.infix_part (List.splitOn_ne_nil _ _) (hnum.not_mem rfl) hds with ⟨x, hx, hin⟩
    exact (hgood x hx).2 ds hin hnum
  · intro h l hl
    rcases List.mem_map.mp hl with ⟨x, hx, rfl⟩
    exact (item_good (hpart x hx)).mpr ⟨h.1 x hx, h.2.part (Text.infix_of_mem_splitOn hx)⟩

/-- What passes in a field is the grammar's, and no comma comes after a step. -/
theorem field_good (hplain : ∀ c ∈ field, CronChar c) :
    (∀ l ∈ looks lo hi field, l.Good py) ↔
      Cron.Field lo hi field ∧ Cron.StepLast field ∧ Short py field := by
  constructor
  · intro h
    have hjoin : ['/'].intercalate (field.splitOn '/') = field := List.intercalate_splitOn '/'
    have hparts := Text.not_mem_splitOn '/' field
    unfold looks at h
    split at h
    · next base hsplit =>
        rw [hsplit, List.intercalate_singleton] at hjoin
        rw [hsplit] at hparts
        have hnone := hparts base List.mem_cons_self
        subst hjoin
        rcases (items_good hplain).mp h with ⟨hitems, hshort⟩
        refine ⟨.unstepped hitems, fun a b heq => ?_, hshort⟩
        rw [heq] at hnone
        exact absurd (List.mem_append_right a List.mem_cons_self) hnone
    · next base step hsplit =>
        rw [hsplit, List.intercalate_cons_cons, List.intercalate_singleton, List.append_assoc,
          List.singleton_append] at hjoin
        rw [hsplit] at hparts
        subst hjoin
        have hplain' := fun c hc => hplain c (List.mem_append_left ('/' :: step) hc)
        have hplain'' := fun c hc =>
          hplain c (List.mem_append_right base (List.mem_cons_of_mem '/' hc))
        rcases List.forall_mem_cons.mp h with ⟨hstep, hrest⟩
        rcases (step_good hplain'').mp hstep with ⟨⟨hnum, hpos⟩, hshort⟩
        rcases (items_good hplain').mp hrest with ⟨hitems, hshort'⟩
        refine ⟨.stepped hitems hnum hpos, fun a b heq => ?_, short_side rfl hshort' hshort⟩
        -- the slash is the only one
        have hcut : b = step := by
          have hnone := hparts base List.mem_cons_self
          have hnone' := hparts step (List.mem_cons_of_mem _ List.mem_cons_self)
          exact ((List.append_cons_inj_of_notMem hnone hnone').mp heq).2.2.symm
        rw [hcut]
        exact hnum.not_mem rfl
    · exact absurd (h _ List.mem_cons_self) fun h => h
  · intro h
    rcases h with ⟨hfield, hstep, hshort⟩
    rcases hfield.parts hstep with ⟨hnone, hitems⟩ | ⟨base, ds, rfl, hnone, hnum, hpos, hitems⟩
    · rw [looks, List.splitOn_eq_singleton hnone]
      exact (items_good hplain).mpr ⟨hitems, hshort⟩
    · have hplain' := fun c hc => hplain c (List.mem_append_left ('/' :: ds) hc)
      have hplain'' := fun c hc =>
        hplain c (List.mem_append_right base (List.mem_cons_of_mem '/' hc))
      rw [looks, List.splitOn_append_cons_self_of_not_mem hnone,
        List.splitOn_eq_singleton (hnum.not_mem rfl)]
      refine List.forall_mem_cons.mpr ⟨?_, ?_⟩
      · exact (step_good hplain'').mpr ⟨⟨hnum, hpos⟩, hshort.part ⟨base ++ ['/'], [], by simp⟩⟩
      · exact (items_good hplain').mpr ⟨hitems, hshort.part ⟨[], '/' :: ds, rfl⟩⟩

/-! ## What passes, and what should -/

/-- A string over digits, white space, and the other characters of a schedule. -/
def Plain (s : String) : Prop := ∀ c ∈ s.toList, CronChar c ∨ Py.isSpace c = true

instance (s : String) : Decidable (Plain s) :=
  List.decidableBAll (fun c => CronChar c ∨ Py.isSpace c = true) s.toList

/-- The string is six fields of the grammar, with the day of week up to `dow`. -/
def SixFields (dow : ℕ) (s : String) : Prop := Cron.Expression dow (Py.words s.toList)

/-- Neither letters nor question marks. -/
def Nameless (isAlpha : Char → Bool) (s : String) : Prop :=
  ∀ c ∈ s.toList, isAlpha c = false ∧ c ≠ '?'

instance (isAlpha : Char → Bool) (s : String) : Decidable (Nameless isAlpha s) :=
  List.decidableBAll (fun c => isAlpha c = false ∧ c ≠ '?') s.toList

/-- The fields whose steps and numbers the validator can handle. -/
def Manageable (py : Digits) (s : String) : Prop :=
  ∀ f ∈ Py.words s.toList, Cron.StepLast f ∧ Short py f

theorem accepts_plain {s : String} (hplain : Plain s) :
    Accepts py s ↔ SixFields 7 s ∧ Manageable py s := by
  have hword : ∀ f ∈ Py.words s.toList, ∀ c ∈ f, CronChar c := by
    intro f hf c hc
    have hmem := Py.mem_words hf c hc
    rcases hplain c hmem.1 with h | h
    · exact h
    · rw [hmem.2] at h
      cases h
  have hgood : ∀ f r, (f, r) ∈ (Py.words s.toList).zip ranges →
      ((∀ l ∈ looks r.1 r.2 f, l.Good py) ↔
        Cron.Field r.1 r.2 f ∧ Cron.StepLast f ∧ Short py f) :=
    fun f r h => field_good (hword f (List.of_mem_zip h).1)
  rw [accepts_iff, SixFields, Cron.Expression, List.forall₂_iff_zip]
  constructor
  · intro h
    have hpass : ∀ f r, (f, r) ∈ (Py.words s.toList).zip ranges →
        Cron.Field r.1 r.2 f ∧ Cron.StepLast f ∧ Short py f :=
      fun f r hf => (hgood f r hf).mp fun l hl => h.2 l (List.mem_flatMap.mpr ⟨(f, r), hf, hl⟩)
    refine ⟨⟨h.1, fun hf => (hpass _ _ hf).1⟩, fun f hf => ?_⟩
    have hfst : ((Py.words s.toList).zip ranges).map Prod.fst = Py.words s.toList :=
      List.map_fst_zip (Nat.le_of_eq h.1)
    rw [← hfst] at hf
    rcases List.mem_map.mp hf with ⟨entry, hentry, rfl⟩
    exact (hpass entry.1 entry.2 hentry).2
  · intro h
    rcases h with ⟨⟨hsix, hfields⟩, hmanage⟩
    refine ⟨hsix, fun l hl => ?_⟩
    rcases List.mem_flatMap.mp hl with ⟨entry, hentry, hl⟩
    have hf := (List.of_mem_zip hentry).1
    exact (hgood entry.1 entry.2 hentry).mpr ⟨hfields hentry, hmanage entry.1 hf⟩ l hl

/-- The validator accepts a plain string exactly when it is a schedule, and refuses
every other one without names. -/
def Exact (isAlpha : Char → Bool) (py : Digits) (s : String) : Prop :=
  (Plain s → (Accepts py s ↔ SixFields 6 s)) ∧
    (¬ Plain s → Nameless isAlpha s → Refuses py s)

/-- The schedules have no comma after a step, no number that is too long for `int`, and no
seventh day that the validator lets in; and in other strings something is refused before a
run of digits comes that `int` does not read. -/
structure Handled (isAlpha : Char → Bool) (py : Digits) (s : String) : Prop where
  schedules : Plain s → SixFields 6 s → Manageable py s
  days : Plain s → SixFields 7 s → Manageable py s → SixFields 6 s
  others : ¬ Plain s → Nameless isAlpha s →
    (Py.words s.toList).length ≠ 6 ∨ Stops (Look.Good py) (Look.Bad py) (looksOf s)

theorem validate_cron_exact (isAlpha : Char → Bool) (py : Digits) (s : String) :
    Exact isAlpha py s ↔ Handled isAlpha py s := by
  constructor
  · intro h
    refine ⟨fun hplain hsix => ?_, fun hplain hseven hmanage => ?_, fun hplain hnames => ?_⟩
    · exact ((accepts_plain hplain).mp ((h.1 hplain).mpr hsix)).2
    · exact (h.1 hplain).mp ((accepts_plain hplain).mpr ⟨hseven, hmanage⟩)
    · exact refuses_iff.mp (h.2 hplain hnames)
  · intro h
    refine ⟨fun hplain => ?_, fun hplain hnames => refuses_iff.mpr (h.others hplain hnames)⟩
    rw [accepts_plain hplain]
    constructor
    · exact fun hacc => h.days hplain hacc.1 hacc.2
    · exact fun hsix => ⟨hsix.mono (by decide), h.schedules hplain hsix⟩

/-! ## Three strings -/

/-- Superscripts are digits, which `int` does not read. -/
def superscript (c : Char) : Bool := c = '¹' || c = '²' || c = '³'

theorem superscript_ascii (c : Char) (h : c.toNat < 128) :
    (c.isDigit || superscript c) = c.isDigit := by
  have hne : ∀ d : Char, 128 ≤ d.toNat → c ≠ d := by
    intro d hd heq
    rw [heq] at h
    omega
  simp [superscript, hne '¹' (by decide), hne '²' (by decide), hne '³' (by decide)]

theorem decimal_ascii (c : Char) (h : c.isDigit = true) :
    (if c.isDigit then some (c.toNat - 48) else none) = some (c.toNat - 48) := if_pos h

def latin : Digits where
  isDigit c := c.isDigit || superscript c
  decimal c := if c.isDigit then some (c.toNat - 48) else none
  maxStrDigits := 4300
  complaint s := "invalid literal for int() with base 10: '" ++ String.ofList s ++ "'"
  isDigit_ascii := superscript_ascii
  decimal_ascii := decimal_ascii

theorem manageable_latin {f : List Char} (hslash : '/' ∉ f) (hlength : f.length ≤ 4300) :
    Cron.StepLast f ∧ Short latin f := by
  refine ⟨fun a b heq => ?_, fun ds hds _ => .inr (Nat.le_trans hds.length_le hlength)⟩
  rw [heq] at hslash
  exact absurd (List.mem_append_right a List.mem_cons_self) hslash

theorem star_field (lo hi : ℕ) : Cron.Field lo hi ['*'] := .one (.plain .star)

theorem digit_numeral {d : Char} (hd : d.isDigit = true) : Cron.Numeral [d] :=
  ⟨List.cons_ne_nil _ _, fun _ hc => List.mem_singleton.mp hc ▸ hd⟩

theorem digit_field {lo hi : ℕ} {d : Char} (hd : d.isDigit = true) (hlo : lo ≤ Cron.value [d])
    (hhi : Cron.value [d] ≤ hi) : Cron.Item lo hi [d] :=
  .plain (.number (digit_numeral hd) hlo hhi)

theorem not_seven : ¬ Cron.Field 0 6 ['7'] := by
  intro h
  have hplain : ∀ c ∈ ['7'], CronChar c := List.forall_mem_singleton.mpr (.inl rfl)
  have hgood : ∀ l ∈ looks 0 6 ['7'], l.Good latin :=
    (field_good hplain).mpr ⟨h, manageable_latin (by decide) (by decide)⟩
  rcases hgood (.item 0 6 ['7']) List.mem_cons_self with heq | ⟨-, -, -, hle⟩ | ⟨n, m, heq, -⟩
  · exact absurd heq (by decide)
  · exact absurd hle (by decide)
  · have hdash : '-' ∈ ['7'] := by
      rw [heq]
      simp
    exact absurd hdash (by decide)

/-- A day of week that is none, a step in a list, and a digit that `int` does not read. -/
theorem validate_cron_inexact :
    ¬ Exact Char.isAlpha latin "0 0 2 * * 7" ∧ ¬ Exact Char.isAlpha latin "0 0 2 1/2,3 * *" ∧
      ¬ Exact Char.isAlpha latin "² 0 2 * * *" := by
  refine ⟨fun h => ?_, fun h => ?_, fun h => ?_⟩
  · have hplain : Plain "0 0 2 * * 7" := by decide +kernel
    have hwords : Py.words "0 0 2 * * 7".toList = [['0'], ['0'], ['2'], ['*'], ['*'], ['7']] := by
      decide +kernel
    have hseven : SixFields 7 "0 0 2 * * 7" := by
      rw [SixFields, hwords]
      refine .cons (.one (digit_field rfl ?_ ?_)) (.cons (.one (digit_field rfl ?_ ?_))
        (.cons (.one (digit_field rfl ?_ ?_)) (.cons (star_field _ _) (.cons (star_field _ _)
        (.cons (.one (digit_field rfl ?_ ?_)) .nil))))) <;> decide
    have hmanage : Manageable latin "0 0 2 * * 7" := by
      rw [Manageable, hwords]
      intro f hf
      simp only [List.mem_cons, List.not_mem_nil, or_false] at hf
      rcases hf with rfl | rfl | rfl | rfl | rfl | rfl <;>
        exact manageable_latin (by decide) (by decide)
    have hsix := (h.1 hplain).mp ((accepts_plain hplain).mpr ⟨hseven, hmanage⟩)
    rw [SixFields, hwords] at hsix
    cases hsix with
    | cons _ hsix => cases hsix with
      | cons _ hsix => cases hsix with
        | cons _ hsix => cases hsix with
          | cons _ hsix => cases hsix with
            | cons _ hsix => cases hsix with
              | cons hlast _ => exact not_seven hlast
  · have hplain : Plain "0 0 2 1/2,3 * *" := by decide +kernel
    have hwords : Py.words "0 0 2 1/2,3 * *".toList =
        [['0'], ['0'], ['2'], ['1', '/', '2', ',', '3'], ['*'], ['*']] := by
      decide +kernel
    have hlist : Cron.Field 1 31 ['1', '/', '2', ',', '3'] := by
      refine ⟨[['1', '/', '2'], ['3']], List.cons_ne_nil _ _, rfl, fun x hx => ?_⟩
      simp only [List.mem_cons, List.not_mem_nil, or_false] at hx
      rcases hx with rfl | rfl
      · exact .stepped (x := ['1']) (.number (digit_numeral rfl) (by decide) (by decide))
          (digit_numeral rfl) (by decide)
      · exact digit_field rfl (by decide) (by decide)
    have hsix : SixFields 6 "0 0 2 1/2,3 * *" := by
      rw [SixFields, hwords]
      refine .cons (.one (digit_field rfl ?_ ?_)) (.cons (.one (digit_field rfl ?_ ?_))
        (.cons (.one (digit_field rfl ?_ ?_)) (.cons hlist (.cons (star_field _ _)
        (.cons (star_field _ _) .nil))))) <;> decide
    have hmanage := ((accepts_plain hplain).mp ((h.1 hplain).mpr hsix)).2
    rw [Manageable, hwords] at hmanage
    exact (hmanage ['1', '/', '2', ',', '3'] (by simp)).1 ['1'] ['2', ',', '3'] rfl (by simp)
  · have hplain : ¬ Plain "² 0 2 * * *" := by decide +kernel
    have hnames : Nameless Char.isAlpha "² 0 2 * * *" := by decide +kernel
    have hwords : Py.words "² 0 2 * * *".toList = [['²'], ['0'], ['2'], ['*'], ['*'], ['*']] := by
      decide +kernel
    have hlooks : ∃ rest, looksOf "² 0 2 * * *" = .item 0 59 ['²'] :: rest := by
      rw [looksOf, hwords]
      exact ⟨_, rfl⟩
    have hread : ¬ latin.Reads ['²'] := by decide +kernel
    rcases hlooks with ⟨rest, hlooks⟩
    have hrefuses := refuses_iff.mp (h.2 hplain hnames)
    rw [hlooks, hwords, Text.stops_cons] at hrefuses
    rcases hrefuses with hlength | hbad | ⟨hgood, -⟩
    · exact hlength rfl
    · exact hbad.2 (.inl ⟨by decide, hread⟩)
    · rcases hgood with heq | ⟨-, hreads, -⟩ | ⟨n, m, heq, -⟩
      · exact absurd heq (by decide)
      · exact hread hreads
      · have hdash : '-' ∈ ['²'] := by
          rw [heq]
          simp
        exact absurd hdash (by decide)

end Schedule

end Ci
