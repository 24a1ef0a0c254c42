import Beluga.Py.Digits
import Beluga.Text.Separated

/-! # The schedule of a backup

`validate_cron_expression` of `check-postgres-backup-config.py`, which decides whether the
schedule of a ScheduledBackup may be deployed.

`looks` are the numbers and items that `is_valid_cron_field` tests, in its order; the first
that does not pass decides.

* `item_says`, `step_says`: one test;
* `field_true`, `field_false`: a field;
* `accepts_iff`, `refuses_iff`: an expression.
-/

namespace Ci

open Py (Try Digits)

section Schedule

variable (py : Digits)

def is_valid_cron_field (field : List Char) (min_val max_val : ℕ) : Try Bool :=
  if field = ['*'] then return true
  else if _ : '/' ∈ field then
    match _ : field.splitOn '/' with
    | [base, step] => do
        if !py.isdigit step then return false
        if (← py.int step) ≤ 0 then return false
        if base ≠ ['*'] then
          if !(← is_valid_cron_field base min_val max_val) then return false
        return true
    | _ => return false
  else if _ : ',' ∈ field then
    (field.splitOn ',').attach.allM fun p => is_valid_cron_field p.1 min_val max_val
  else if '-' ∈ field then
    match field.splitOn '-' with
    | [first, last] => do
        if py.isdigit first && py.isdigit last then
          let start ← py.int first
          let stop ← py.int last
          return decide (min_val ≤ start) && decide (start ≤ stop) && decide (stop ≤ max_val)
        return false
    | _ => return false
  else if py.isdigit field then do
    let n ← py.int field
    return decide (min_val ≤ n) && decide (n ≤ max_val)
  else return false
termination_by field.length
decreasing_by
  · apply Text.length_lt_of_mem_splitOn ‹ '/' ∈ field›
    rw [‹field.splitOn '/' = _›]
    exact List.mem_cons_self
  · exact Text.length_lt_of_mem_splitOn ‹ ',' ∈ field› p.2

/-- The ranges of the fields, the first to the last. -/
def ranges : List (ℕ × ℕ) := [(0, 59), (0, 59), (0, 23), (1, 31), (1, 12), (0, 7)]

/-- The loop over the fields. -/
def checkFields : List (List Char × ℕ × ℕ) → Try (Bool × String)
  | [] => return (true, "")
  | (token, min_v, max_v) :: rest => do
      if !(← is_valid_cron_field py token min_v max_v) then
        return (false, "invalid field '" ++ String.ofList token ++ "' for range " ++
          toString min_v ++ "-" ++ toString max_v)
      checkFields rest

def validate_cron_expression (expr : Py.Value) : Try (Bool × String) :=
  match expr with
  | .str s =>
      if Py.blank s then return (false, "cron expression must be a non-empty string")
      else
        let tokens := Py.words (Py.strip s).toList
        if tokens.length ≠ 6 then
          return (false, "CNPG ScheduledBackup requires a 6-field robfig/cron expression " ++
            "(seconds minutes hours dom month dow), got " ++ toString tokens.length ++ " field(s)")
        else checkFields py (tokens.zip ranges)
  | _ => return (false, "cron expression must be a non-empty string")

end Schedule

open Text (Stops)

section Schedule

variable (py : Digits)

/-! ## What is looked at -/

/-- What a call of `is_valid_cron_field` looks at, one after another. -/
inductive Look where
  | step (ds : List Char)
  | item (lo hi : ℕ) (x : List Char)
  /-- A field with two slashes. -/
  | slashes
  deriving DecidableEq

def looks (lo hi : ℕ) (field : List Char) : List Look :=
  match field.splitOn '/' with
  | [base] => (base.splitOn ',').map (.item lo hi)
  | [base, step] => .step step :: (base.splitOn ',').map (.item lo hi)
  | _ => [.slashes]

/-- What is looked at in an expression of six fields. -/
def looksOf (s : String) : List Look :=
  ((Py.words s.toList).zip ranges).flatMap fun f => looks f.2.1 f.2.2 f.1

/-- What passes. -/
def Look.Good : Look → Prop
  | .step ds => py.isdigit ds = true ∧ py.Reads ds ∧ 1 ≤ py.value ds
  | .item lo hi x => x = ['*'] ∨
      (py.isdigit x = true ∧ py.Reads x ∧ lo ≤ py.value x ∧ py.value x ≤ hi) ∨
      ∃ n m, x = n ++ '-' :: m ∧ (py.isdigit n = true ∧ py.isdigit m = true) ∧
        (py.Reads n ∧ py.Reads m) ∧ lo ≤ py.value n ∧ py.value n ≤ py.value m ∧ py.value m ≤ hi
  | .slashes => False

/-- Digits that `int` does not read. -/
def Look.Unread : Look → Prop
  | .step ds => py.isdigit ds = true ∧ ¬ py.Reads ds
  | .item _ _ x => (py.isdigit x = true ∧ ¬ py.Reads x) ∨
      ∃ n m, x = n ++ '-' :: m ∧ (py.isdigit n = true ∧ py.isdigit m = true) ∧
        ¬ (py.Reads n ∧ py.Reads m)
  | .slashes => False

/-- How a test ends. -/
def Look.verdict : Look → Try Bool
  | .step ds => do
      if !py.isdigit ds then return false
      if (← py.int ds) ≤ 0 then return false
      return true
  | .item lo hi x => is_valid_cron_field py x lo hi
  | .slashes => return false

/-- What does not pass, and stops the validator with a refusal. -/
def Look.Bad (l : Look) : Prop := ¬ l.Good py ∧ ¬ l.Unread py

variable {py} {field base step x : List Char} {lo hi : ℕ}

theorem field_star : is_valid_cron_field py ['*'] lo hi = .ok true := by
  rw [is_valid_cron_field, if_pos rfl]
  rfl

theorem field_commas (h : '/' ∉ field) : is_valid_cron_field py field lo hi =
    (field.splitOn ',').allM fun p => is_valid_cron_field py p lo hi := by
  by_cases hcomma : ',' ∈ field
  · have hstar : field ≠ ['*'] := by
      intro heq
      rw [heq] at hcomma
      exact absurd hcomma (by decide)
    rw [is_valid_cron_field, if_neg hstar, dif_neg h, dif_pos hcomma]
    exact Text.allM_attach (fun p => is_valid_cron_field py p lo hi) _
  · rw [List.splitOn_eq_singleton hcomma, List.allM]
    cases is_valid_cron_field py field lo hi with
    | error e => rfl
    | ok b => cases b <;> rfl

theorem field_slash (hsplit : field.splitOn '/' = [base, step]) (hmem : '/' ∈ field) :
    is_valid_cron_field py field lo hi = ((Look.step step).verdict py).bind fun b =>
      if b then is_valid_cron_field py base lo hi else .ok false := by
  have hstar : field ≠ ['*'] := by
    intro heq
    rw [heq] at hmem
    exact absurd hmem (by decide)
  rw [is_valid_cron_field, if_neg hstar, dif_pos hmem]
  split
  · next base' step' hsplit' =>
      rw [hsplit] at hsplit'
      cases hsplit'
      simp only [Look.verdict]
      cases hdigit : py.isdigit step with
      | false => rfl
      | true =>
          cases hint : py.int step with
          | error e => rfl
          | ok n =>
              by_cases hzero : n ≤ 0
              · simp [Bind.bind, Except.bind, hzero, pure, Except.pure]
              · by_cases hbase : base = ['*']
                · subst hbase
                  simp [Bind.bind, Except.bind, hzero, field_star, pure, Except.pure]
                · simp [Bind.bind, Except.bind, hzero, hbase, pure, Except.pure]
                  cases is_valid_cron_field py base lo hi with
                  | error e => rfl
                  | ok b => cases b <;> rfl
  · next hother => exact absurd hsplit (hother base step)

/-! ## One test -/

/-- What a test that ends so says of what it looks at. -/
def Look.Says (py : Digits) (l : Look) : Try Bool → Prop
  | .ok true => l.Good py
  | .ok false => l.Bad py
  | .error _ => ¬ l.Good py ∧ l.Unread py

theorem Look.Says.ok_true {l : Look} {r : Try Bool} (h : l.Says py r) :
    r = .ok true ↔ l.Good py := by
  cases r with
  | error e => exact iff_of_false (fun h => by cases h) h.1
  | ok b =>
      cases b with
      | true => exact iff_of_true rfl h
      | false => exact iff_of_false (fun h => by cases h) h.1

theorem Look.Says.ok_false {l : Look} {r : Try Bool} (h : l.Says py r) :
    r = .ok false ↔ l.Bad py := by
  cases r with
  | error e => exact iff_of_false (fun h => by cases h) fun hbad => hbad.2 h.2
  | ok b =>
      cases b with
      | true => exact iff_of_false (fun h => by cases h) fun hbad => hbad.1 h
      | false => exact iff_of_true rfl h

theorem not_mem_of_isdigit {ds : List Char} (h : py.isdigit ds = true) {c : Char}
    (hascii : c.toNat < 128) (hc : c.isDigit = false) : c ∉ ds := by
  intro hmem
  rw [Digits.isdigit, Bool.and_eq_true] at h
  have hdigit := List.all_eq_true.mp h.2 c hmem
  rw [py.isDigit_ascii c hascii, hc] at hdigit
  cases hdigit

/-- A range of digits is cut at its only dash. -/
theorem splitOn_dash {n m : List Char} (hn : py.isdigit n = true) (hm : py.isdigit m = true) :
    (n ++ '-' :: m).splitOn '-' = [n, m] := by
  rw [List.splitOn_append_cons_self_of_not_mem (not_mem_of_isdigit hn (by decide) rfl),
    List.splitOn_eq_singleton (not_mem_of_isdigit hm (by decide) rfl)]

theorem step_says (ds : List Char) : (Look.step ds).Says py ((Look.step ds).verdict py) := by
  cases hdigit : py.isdigit ds with
  | false =>
      have hend : (Look.step ds).verdict py = .ok false := by
        simp only [Look.verdict, hdigit]
        rfl
      rw [hend]
      have hnot : py.isdigit ds ≠ true := by
        rw [hdigit]
        exact Bool.false_ne_true
      exact ⟨fun h => hnot h.1, fun h => hnot h.1⟩
  | true =>
      by_cases hreads : py.Reads ds
      · have hint : py.int ds = .ok (py.value ds) := if_pos hreads
        by_cases hzero : py.value ds ≤ 0
        · have hend : (Look.step ds).verdict py = .ok false := by
            simp [Look.verdict, hdigit, hint, hzero, Bind.bind, Except.bind, pure, Except.pure]
          rw [hend]
          refine ⟨fun h => ?_, fun h => h.2 hreads⟩
          have hpos := h.2.2
          omega
        · have hend : (Look.step ds).verdict py = .ok true := by
            simp [Look.verdict, hdigit, hint, hzero, Bind.bind, Except.bind, pure, Except.pure]
          rw [hend]
          exact ⟨hdigit, hreads, by omega⟩
      · have hint : py.int ds = .error (.invalid (py.complaint ds)) := if_neg hreads
        have hend : (Look.step ds).verdict py = .error (.invalid (py.complaint ds)) := by
          simp [Look.verdict, hdigit, hint, Bind.bind, Except.bind]
        rw [hend]
        exact ⟨fun h => hreads h.2.1, hdigit, hreads⟩

/-- Digits between two bounds. -/
theorem number_says (hdigit : py.isdigit x = true) : (Look.item lo hi x).Says py do
    let n ← py.int x
    return decide (lo ≤ n) && decide (n ≤ hi) := by
  have hstar : x ≠ ['*'] := by
    intro heq
    rw [heq] at hdigit
    exact not_mem_of_isdigit hdigit (c := '*') (by decide) rfl List.mem_cons_self
  have hrange : ∀ n m, x ≠ n ++ '-' :: m := by
    intro n m heq
    rw [heq] at hdigit
    exact not_mem_of_isdigit hdigit (c := '-') (by decide) rfl (by simp)
  by_cases hreads : py.Reads x
  · have hint : py.int x = .ok (py.value x) := if_pos hreads
    rw [hint]
    by_cases hin : lo ≤ py.value x ∧ py.value x ≤ hi
    · simp only [Bind.bind, Except.bind, hin.1, hin.2]
      exact .inr (.inl ⟨hdigit, hreads, hin⟩)
    · have hend : (decide (lo ≤ py.value x) && decide (py.value x ≤ hi)) = false := by
        simpa using hin
      simp only [Bind.bind, Except.bind, hend]
      refine ⟨fun h => ?_, fun h => ?_⟩
      · rcases h with heq | ⟨-, -, hval⟩ | ⟨n, m, heq, -⟩
        · exact hstar heq
        · exact hin hval
        · exact hrange n m heq
      · rcases h with ⟨-, hnot⟩ | ⟨n, m, heq, -⟩
        · exact hnot hreads
        · exact hrange n m heq
  · have hint : py.int x = .error (.invalid (py.complaint x)) := if_neg hreads
    rw [hint]
    refine ⟨fun h => ?_, .inl ⟨hdigit, hreads⟩⟩
    rcases h with heq | ⟨-, hok, -⟩ | ⟨n, m, heq, -⟩
    · exact hstar heq
    · exact hreads hok
    · exact hrange n m heq

/-- Two runs of digits around a dash. -/
theorem range_says {n m : List Char} (hn : py.isdigit n = true) (hm : py.isdigit m = true) :
    (Look.item lo hi (n ++ '-' :: m)).Says py do
      let start ← py.int n
      let stop ← py.int m
      return decide (lo ≤ start) && decide (start ≤ stop) && decide (stop ≤ hi) := by
  have hmem : '-' ∈ n ++ '-' :: m := by simp
  have hstar : n ++ '-' :: m ≠ ['*'] := by
    intro heq
    rw [heq] at hmem
    exact absurd hmem (by decide)
  have hnumber : py.isdigit (n ++ '-' :: m) ≠ true :=
    fun h => not_mem_of_isdigit h (by decide) rfl hmem
  have hcut : ∀ n' m', n ++ '-' :: m = n' ++ '-' :: m' → py.isdigit n' = true →
      py.isdigit m' = true → n' = n ∧ m' = m := by
    intro n' m' heq hn' hm'
    have hsplit := splitOn_dash hn hm
    rw [heq, splitOn_dash hn' hm'] at hsplit
    exact ⟨(List.cons.inj hsplit).1, (List.cons.inj (List.cons.inj hsplit).2).1⟩
  by_cases hreads : py.Reads n ∧ py.Reads m
  · have hintn : py.int n = .ok (py.value n) := if_pos hreads.1
    have hintm : py.int m = .ok (py.value m) := if_pos hreads.2
    rw [hintn, hintm]
    by_cases hin : lo ≤ py.value n ∧ py.value n ≤ py.value m ∧ py.value m ≤ hi
    · simp only [Bind.bind, Except.bind, hin.1, hin.2.1, hin.2.2]
      exact .inr (.inr ⟨n, m, rfl, ⟨hn, hm⟩, hreads, hin⟩)
    · have hend : (decide (lo ≤ py.value n) && decide (py.value n ≤ py.value m) &&
          decide (py.value m ≤ hi)) = false := by
        simpa [and_assoc] using hin
      simp only [Bind.bind, Except.bind, hend]
      refine ⟨fun h => ?_, fun h => ?_⟩
      · rcases h with heq | ⟨hdigit, -⟩ | ⟨n', m', heq, ⟨hn', hm'⟩, -, hval⟩
        · exact hstar heq
        · exact hnumber hdigit
        · rcases hcut n' m' heq hn' hm' with ⟨rfl, rfl⟩
          exact hin hval
      · rcases h with ⟨hdigit, -⟩ | ⟨n', m', heq, ⟨hn', hm'⟩, hnot⟩
        · exact hnumber hdigit
        · rcases hcut n' m' heq hn' hm' with ⟨rfl, rfl⟩
          exact hnot hreads
  · have hend : ∃ e, (do
        let start ← py.int n
        let stop ← py.int m
        return decide (lo ≤ start) && decide (start ≤ stop) && decide (stop ≤ hi) : Try Bool) =
        .error e := by
      by_cases hread : py.Reads n
      · have hintn : py.int n = .ok (py.value n) := if_pos hread
        have hintm : py.int m = .error (.invalid (py.complaint m)) :=
          if_neg fun h => hreads ⟨hread, h⟩
        exact ⟨_, by rw [hintn, hintm]; rfl⟩
      · have hintn : py.int n = .error (.invalid (py.complaint n)) := if_neg hread
        exact ⟨_, by rw [hintn]; rfl⟩
    rcases hend with ⟨e, hend⟩
    rw [hend]
    refine ⟨fun h => ?_, .inr ⟨n, m, rfl, ⟨hn, hm⟩, hreads⟩⟩
    rcases h with heq | ⟨hdigit, -⟩ | ⟨n', m', heq, ⟨hn', hm'⟩, hok, -⟩
    · exact hstar heq
    · exact hnumber hdigit
    · rcases hcut n' m' heq hn' hm' with ⟨rfl, rfl⟩
      exact hreads hok

/-- An item without separators. -/
theorem item_says (hslash : '/' ∉ x) (hcomma : ',' ∉ x) :
    (Look.item lo hi x).Says py (is_valid_cron_field py x lo hi) := by
  by_cases hstar : x = ['*']
  · rw [hstar, field_star]
    exact .inl rfl
  rw [is_valid_cron_field, if_neg hstar, dif_neg hslash, dif_neg hcomma]
  by_cases hdash : '-' ∈ x
  · have hnumber : py.isdigit x ≠ true := fun h => not_mem_of_isdigit h (by decide) rfl hdash
    rw [if_pos hdash]
    -- a range of two runs of digits is cut where the code cuts it
    have hbad : (∀ n m, x = n ++ '-' :: m → ¬ (py.isdigit n = true ∧ py.isdigit m = true)) →
        (Look.item lo hi x).Says py (.ok false) := by
      intro hnone
      refine ⟨fun h => ?_, fun h => ?_⟩
      · rcases h with heq | ⟨hdigit, -⟩ | ⟨n, m, heq, hnm, -⟩
        · exact hstar heq
        · exact hnumber hdigit
        · exact hnone n m heq hnm
      · rcases h with ⟨hdigit, -⟩ | ⟨n, m, heq, hnm, -⟩
        · exact hnumber hdigit
        · exact hnone n m heq hnm
    split
    · next n m hsplit =>
        have hx : x = n ++ '-' :: m := by
          have hjoin : ['-'].intercalate (x.splitOn '-') = x := List.intercalate_splitOn '-'
          rw [hsplit, List.intercalate_cons_cons, List.intercalate_singleton] at hjoin
          rw [← hjoin, List.append_assoc, List.singleton_append]
        by_cases hnm : py.isdigit n = true ∧ py.isdigit m = true
        · rw [hnm.1, hnm.2, hx]
          exact range_says hnm.1 hnm.2
        · have hend : (py.isdigit n && py.isdigit m) = false := by
            rw [Bool.eq_false_iff]
            simpa using hnm
          rw [hend]
          refine hbad fun n' m' heq hnm' => hnm ?_
          have hsplit' := splitOn_dash hnm'.1 hnm'.2
          rw [← heq, hsplit] at hsplit'
          cases hsplit'
          exact hnm'
    · next hother =>
        refine hbad fun n m heq hnm => ?_
        have hsplit := splitOn_dash hnm.1 hnm.2
        rw [← heq] at hsplit
        exact hother n m hsplit
  · rw [if_neg hdash]
    by_cases hdigit : py.isdigit x = true
    · rw [if_pos hdigit]
      exact number_says hdigit
    · rw [if_neg hdigit]
      have hrange : ∀ n m, x ≠ n ++ '-' :: m := by
        intro n m heq
        rw [heq] at hdash
        exact hdash (by simp)
      refine ⟨fun h => ?_, fun h => ?_⟩
      · rcases h with heq | ⟨hyes, -⟩ | ⟨n, m, heq, -⟩
        · exact hstar heq
        · exact hdigit hyes
        · exact hrange n m heq
      · rcases h with ⟨hyes, -⟩ | ⟨n, m, heq, -⟩
        · exact hdigit hyes
        · exact hrange n m heq

/-! ## A field and an expression -/

/-- How a field is tested ends as its tests do, one after another. -/
theorem field_looks (lo hi : ℕ) (field : List Char) : is_valid_cron_field py field lo hi =
    (looks lo hi field).allM fun l => l.verdict py := by
  have hitems : ∀ base, '/' ∉ base → is_valid_cron_field py base lo hi =
      ((base.splitOn ',').map (Look.item lo hi)).allM fun l => l.verdict py := by
    intro base hbase
    rw [field_commas hbase]
    induction base.splitOn ',' with
    | nil => rfl
    | cons p ps ih => rw [List.map_cons, List.allM, List.allM, ih]; rfl
  by_cases hmem : '/' ∈ field
  · have hjoin : ['/'].intercalate (field.splitOn '/') = field := List.intercalate_splitOn '/'
    have hparts := Text.not_mem_splitOn '/' field
    cases hsplit : field.splitOn '/' with
    | nil => exact absurd hsplit (List.splitOn_ne_nil _ _)
    | cons base rest =>
        rw [hsplit] at hjoin hparts
        cases rest with
        | nil =>
            rw [List.intercalate_singleton] at hjoin
            rw [← hjoin] at hmem
            exact absurd hmem (hparts base List.mem_cons_self)
        | cons step rest =>
            cases rest with
            | nil =>
                rw [field_slash hsplit hmem, looks, hsplit, List.allM,
                  hitems base (hparts base List.mem_cons_self)]
                cases (Look.step step).verdict py with
                | error e => rfl
                | ok b => cases b <;> rfl
            | cons third rest =>
                have hstar : field ≠ ['*'] := by
                  intro heq
                  rw [heq] at hmem
                  exact absurd hmem (by decide)
                rw [looks, hsplit, is_valid_cron_field, if_neg hstar, dif_pos hmem]
                split
                · next hsplit' =>
                    rw [hsplit] at hsplit'
                    cases hsplit'
                · rfl
  · rw [hitems field hmem, looks, List.splitOn_eq_singleton hmem]

theorem looks_verdict (lo hi : ℕ) (field : List Char) :
    ∀ l ∈ looks lo hi field, l.Says py (l.verdict py) := by
  have hitems : ∀ base : List Char, '/' ∉ base → ∀ l ∈ (base.splitOn ',').map (Look.item lo hi),
      l.Says py (l.verdict py) := by
    intro base hbase l hl
    rcases List.mem_map.mp hl with ⟨x, hx, rfl⟩
    apply item_says
    · intro hmem
      exact hbase ((Text.infix_of_mem_splitOn hx).subset hmem)
    · exact Text.not_mem_splitOn ',' base x hx
  have hparts := Text.not_mem_splitOn '/' field
  intro l hl
  unfold looks at hl
  split at hl
  · next base hsplit =>
      rw [hsplit] at hparts
      exact hitems base (hparts base List.mem_cons_self) l hl
  · next base step hsplit =>
      rw [hsplit] at hparts
      rcases List.mem_cons.mp hl with rfl | hl
      · exact step_says step
      · exact hitems base (hparts base List.mem_cons_self) l hl
  · rw [List.mem_singleton.mp hl]
    exact ⟨fun h => h, fun h => h⟩

theorem field_true : is_valid_cron_field py field lo hi = .ok true ↔
    ∀ l ∈ looks lo hi field, l.Good py := by
  rw [field_looks, Text.allM_ok_true]
  constructor
  · exact fun h l hl => (looks_verdict lo hi field l hl).ok_true.mp (h l hl)
  · exact fun h l hl => (looks_verdict lo hi field l hl).ok_true.mpr (h l hl)

theorem field_false : is_valid_cron_field py field lo hi = .ok false ↔
    Stops (Look.Good py) (Look.Bad py) (looks lo hi field) := by
  have hverdict : ∀ l ∈ looks lo hi field, l.Says py (l.verdict py) := looks_verdict lo hi field
  rw [field_looks, Text.allM_ok_false]
  constructor
  · intro h
    rcases h with ⟨front, l, back, hlooks, hfront, hl⟩
    rw [hlooks] at hverdict
    refine ⟨front, l, back, hlooks, fun y hy => ?_, ?_⟩
    · exact (hverdict y (List.mem_append_left _ hy)).ok_true.mp (hfront y hy)
    · exact (hverdict l (List.mem_append_right _ List.mem_cons_self)).ok_false.mp hl
  · intro h
    rcases h with ⟨front, l, back, hlooks, hfront, hl⟩
    rw [hlooks] at hverdict
    refine ⟨front, l, back, hlooks, fun y hy => ?_, ?_⟩
    · exact (hverdict y (List.mem_append_left _ hy)).ok_true.mpr (hfront y hy)
    · exact (hverdict l (List.mem_append_right _ List.mem_cons_self)).ok_false.mpr hl

theorem checkFields_true (fields : List (List Char × ℕ × ℕ)) :
    checkFields py fields = .ok (true, "") ↔
      ∀ f ∈ fields, is_valid_cron_field py f.1 f.2.1 f.2.2 = .ok true := by
  induction fields with
  | nil => exact iff_of_true rfl fun _ h => absurd h List.not_mem_nil
  | cons f rest ih =>
      rw [List.forall_mem_cons, ← ih]
      cases f with
      | mk token r =>
          cases r with
          | mk lo hi =>
              rw [checkFields]
              cases hfield : is_valid_cron_field py token lo hi with
              | error e => exact iff_of_false (fun h => by cases h) fun h => by cases h.1
              | ok b =>
                  cases b with
                  | true => exact (and_iff_right rfl).symm
                  | false =>
                      refine iff_of_false (fun h => ?_) fun h => by cases h.1
                      cases h

theorem checkFields_false (fields : List (List Char × ℕ × ℕ)) :
    (∃ message, checkFields py fields = .ok (false, message)) ↔
      Stops (Look.Good py) (Look.Bad py) (fields.flatMap fun f => looks f.2.1 f.2.2 f.1) := by
  induction fields with
  | nil =>
      refine iff_of_false (fun h => ?_) Text.stops_nil
      rcases h with ⟨message, h⟩
      cases h
  | cons f rest ih =>
      rw [List.flatMap_cons, Text.stops_append, ← ih, ← field_true, ← field_false]
      cases f with
      | mk token r =>
          cases r with
          | mk lo hi =>
              rw [checkFields]
              cases hfield : is_valid_cron_field py token lo hi with
              | error e =>
                  refine iff_of_false (fun h => ?_) fun h => ?_
                  · rcases h with ⟨message, h⟩
                    cases h
                  · rcases h with h | ⟨h, -⟩
                    · cases h
                    · cases h
              | ok b =>
                  cases b with
                  | true =>
                      constructor
                      · exact fun h => .inr ⟨rfl, h⟩
                      · intro h
                        rcases h with h | ⟨-, h⟩
                        · cases h
                        · exact h
                  | false => exact iff_of_true ⟨_, rfl⟩ (.inl rfl)

/-- The schedule is accepted. -/
def Accepts (py : Digits) (s : String) : Prop :=
  validate_cron_expression py (.str s) = .ok (true, "")

/-- The schedule is refused, and nothing is raised. -/
def Refuses (py : Digits) (s : String) : Prop :=
  ∃ message, validate_cron_expression py (.str s) = .ok (false, message)

theorem validate_six {s : String} (h : (Py.words s.toList).length = 6) :
    validate_cron_expression py (.str s) = checkFields py ((Py.words s.toList).zip ranges) := by
  have hblank : Py.blank s ≠ true := by
    intro hblank
    rw [Py.words_blank hblank] at h
    cases h
  simp only [validate_cron_expression, Py.words_strip, if_neg hblank, h]
  rfl

theorem validate_not_six {s : String} (h : (Py.words s.toList).length ≠ 6) : Refuses py s := by
  by_cases hblank : Py.blank s = true
  · rw [Refuses, validate_cron_expression, if_pos hblank]
    exact ⟨_, rfl⟩
  · simp only [Refuses, validate_cron_expression, Py.words_strip, if_neg hblank, if_pos h]
    exact ⟨_, rfl⟩

theorem accepts_iff {s : String} : Accepts py s ↔
    (Py.words s.toList).length = 6 ∧ ∀ l ∈ looksOf s, l.Good py := by
  by_cases hsix : (Py.words s.toList).length = 6
  · rw [Accepts, validate_six hsix, checkFields_true]
    constructor
    · intro h
      refine ⟨hsix, fun l hl => ?_⟩
      rcases List.mem_flatMap.mp hl with ⟨f, hf, hl⟩
      exact field_true.mp (h f hf) l hl
    · intro h f hf
      exact field_true.mpr fun l hl => h.2 l (List.mem_flatMap.mpr ⟨f, hf, hl⟩)
  · refine iff_of_false (fun h => ?_) fun h => hsix h.1
    have hrefuses : Refuses py s := validate_not_six hsix
    rcases hrefuses with ⟨message, hmessage⟩
    rw [Accepts, hmessage] at h
    cases h

theorem refuses_iff {s : String} : Refuses py s ↔
    (Py.words s.toList).length ≠ 6 ∨ Stops (Look.Good py) (Look.Bad py) (looksOf s) := by
  by_cases hsix : (Py.words s.toList).length = 6
  · rw [Refuses, validate_six hsix, checkFields_false]
    exact (or_iff_right fun h => h hsix).symm
  · exact iff_of_true (validate_not_six hsix) (.inl hsix)

end Schedule

end Ci
