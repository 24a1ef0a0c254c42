import Beluga.Decision.IsolatedProvider
import Mathlib.Algebra.Order.Ring.Rat
import Mathlib.Tactic.NormNum

/-! # When the boundary answers

An abstention reads the properties of the provider, writes its `id` into the reason and
has its own result parsed, which a clock that has gone back makes invalid. In the
`try` block a failure of that kind is answered by another abstention; in the `catch`
block and for a refused call it rejects the promise.

* `abstain_eq_ok`: when one abstention succeeds;
* `isolation_answers`: when the promise of `decide` resolves, and to a valid result.
-/

namespace Isolation

/-! ## One abstention -/

/-- The properties of the provider, read in order; its `id` as it is written. -/
def Identity.check (i : Identity) : Except Value String := do
  let text ← (← i.shown).toText
  let _ ← i.id
  let _ ← i.version
  return text

/-- The error can be described. -/
def Told (err : Value) : Prop := ∃ v, describeError err = .ok v ∧ ∃ text, v.toText = .ok text

theorem told_errorOf (message : String) : Told (.errorOf message) :=
  ⟨.string message, rfl, message, rfl⟩

/-- The provider has an identity that can be shown, and the clock has not gone back. -/
def Setting.Able (c : Setting) (k : Fin 2) : Prop :=
  (∃ text, (c.identity k).check = .ok text) ∧ c.startedAt ≤ c.clock k

theorem safeIdentity_ne_empty {value : Value} {fallback : String} (h : fallback ≠ "") :
    safeIdentity value fallback ≠ "" := by
  unfold safeIdentity
  split
  · split_ifs with htrim
    · rintro rfl
      exact htrim rfl
    · exact h
  · exact h

theorem append_ne_empty {s : String} (t : String) (h : s ≠ "") : s ++ t ≠ "" := by
  intro heq
  have hlist := congrArg String.toList heq
  rw [String.toList_append, String.toList_empty, List.append_eq_nil_iff] at hlist
  exact h (String.toList_inj.mp hlist.1)

namespace Setting

variable {c : Setting} {k : Fin 2} {code : AbstainCode} {reason : String}

/-- An abstention is a valid result when the clock has not gone back. -/
theorem valid_abstention (hreason : reason ≠ "") (id version : Value) :
    (c.abstention k code reason id version).valid = true ↔ c.startedAt ≤ c.clock k := by
  have hprovider := @safeIdentity_ne_empty id "unknown-provider" (by decide)
  have hversion := @safeIdentity_ne_empty version "unknown-version" (by decide)
  have hpolicy : ISOLATION_POLICY_VERSION ≠ "" := by decide
  have hlatency : (0 : ℚ) ≤ ((c.clock k - c.startedAt : Int) : ℚ) ↔ c.startedAt ≤ c.clock k := by
    rw [Int.cast_nonneg_iff]
    omega
  rw [← hlatency]
  simp [DecisionResult.valid, abstention, hprovider, hversion, hpolicy, hreason]

/-- How an abstention ends, with the properties of the provider as they are read. -/
theorem abstain_cases (k : Fin 2) (code : AbstainCode) (write : String → String)
    (hwrite : ∀ text, write text ≠ "") :
    (∃ err, (c.identity k).check = .error err ∧
      (do let id ← c.shownId k; c.isolationAbstain k code (write id)) = .error err) ∨
    ((∃ text, (c.identity k).check = .ok text) ∧ c.startedAt ≤ c.clock k ∧
      ∃ r, (do let id ← c.shownId k; c.isolationAbstain k code (write id)) = .ok r ∧
        r.valid = true) ∨
    ((∃ text, (c.identity k).check = .ok text) ∧ ¬ c.startedAt ≤ c.clock k ∧
      ∃ message, (do let id ← c.shownId k; c.isolationAbstain k code (write id)) =
        .error (.errorOf message)) := by
  have hcheck : (c.identity k).check = do
      let text ← c.shownId k
      let _ ← (c.identity k).id
      let _ ← (c.identity k).version
      return text := by
    rw [Identity.check, shownId]
    cases (c.identity k).shown <;> rfl
  rw [hcheck]
  cases hshown : c.shownId k with
  | error err => exact .inl ⟨err, rfl, rfl⟩
  | ok text =>
      simp only [isolationAbstain]
      cases hid : (c.identity k).id with
      | error err => exact .inl ⟨err, rfl, rfl⟩
      | ok id =>
          cases hversion : (c.identity k).version with
          | error err => exact .inl ⟨err, rfl, rfl⟩
          | ok version =>
              have hvalid := @valid_abstention c k code (write text) (hwrite text) id version
              by_cases hclock : c.startedAt ≤ c.clock k
              · refine .inr (.inl ⟨⟨text, rfl⟩, hclock, _, ?_, hvalid.mpr hclock⟩)
                exact if_pos (hvalid.mpr hclock)
              · exact .inr (.inr ⟨⟨text, rfl⟩, hclock, _, if_neg fun h => hclock (hvalid.mp h)⟩)

/-- Which abstentions of the first kind succeed. -/
theorem abstain_eq_ok (k : Fin 2) (code : AbstainCode) (write : String → String)
    (hwrite : ∀ text, write text ≠ "") :
    (∃ r, (do let id ← c.shownId k; c.isolationAbstain k code (write id)) = .ok r ∧
      r.valid = true) ↔ c.Able k := by
  rcases @abstain_cases c k code write hwrite with
    ⟨err, hcheck, heq⟩ | ⟨hcheck, hclock, hr⟩ | ⟨hcheck, hclock, message, heq⟩
  · constructor
    · rintro ⟨r, hr, _⟩
      cases heq.symm.trans hr
    · rintro ⟨⟨text, htext⟩, _⟩
      cases hcheck.symm.trans htext
  · exact ⟨fun _ => ⟨hcheck, hclock⟩, fun _ => hr⟩
  · constructor
    · rintro ⟨r, hr, _⟩
      cases heq.symm.trans hr
    · intro h
      exact absurd h.2 hclock

/-- The abstention of the `catch` block. -/
theorem catchBlock_eq_ok (err : Value) :
    (∃ r, c.catchBlock err = .ok r ∧ r.valid = true) ↔ Told err ∧ c.Able 1 := by
  by_cases htold : Told err
  · obtain ⟨v, hv, text, htext⟩ := htold
    have hwrite : ∀ id, providerErrorReason text id ≠ "" := fun id =>
      append_ne_empty _ (append_ne_empty _ (append_ne_empty _ (by decide)))
    have hsame : c.catchBlock err = (do
        let id ← c.shownId 1
        c.isolationAbstain 1 .isolationProviderError (providerErrorReason text id)) := by
      rw [catchBlock, hv]
      cases c.shownId 1 with
      | error e => rfl
      | ok id =>
          show (v.toText >>= fun description => c.isolationAbstain 1 .isolationProviderError
            (providerErrorReason description id)) = _
          rw [htext]
          rfl
    rw [hsame]
    exact (@abstain_eq_ok c 1 .isolationProviderError _ hwrite).trans
      ⟨fun h => ⟨⟨v, hv, text, htext⟩, h⟩, fun h => h.2⟩
  · constructor
    · rintro ⟨r, hr, _⟩
      refine absurd ?_ htold
      rw [catchBlock] at hr
      cases hid : c.shownId 1 with
      | error e =>
          rw [hid] at hr
          cases hr
      | ok id =>
          rw [hid] at hr
          cases hv : describeError err with
          | error e =>
              rw [hv] at hr
              cases hr
          | ok v =>
              rw [hv] at hr
              cases htext : v.toText with
              | error e =>
                  have hthrow : (v.toText >>= fun description =>
                    c.isolationAbstain 1 .isolationProviderError
                      (providerErrorReason description id)) = .ok r := hr
                  rw [htext] at hthrow
                  cases hthrow
              | ok text => exact ⟨v, hv, text, htext⟩
    · intro h
      exact absurd h.1 htold

/-- The condition on a call under which its promise resolves. -/
def Answerable (c : Setting) : Reply → Prop
  | .overloaded => c.Able first
  | .ended (.settled (.returned (.success _))) => True
  | .ended (.settled (.returned (.throws err))) | .ended (.settled (.rejected err)) =>
      Told err ∧ c.Able second
  | .ended .timeout | .ended (.settled (.returned (.failure _))) =>
      c.Able first ∨ (c.Able second ∧ ∀ err, (c.identity first).check = .error err → Told err)

/-- An abstention that fails because of the clock is answered by the `catch` block. -/
theorem retry_eq_ok (code : AbstainCode) (write : String → String)
    (hwrite : ∀ text, write text ≠ "") :
    (∃ r, tryCatch (do let id ← c.shownId 0; c.isolationAbstain 0 code (write id)) c.catchBlock =
      .ok r ∧ r.valid = true) ↔
    c.Able 0 ∨ (c.Able 1 ∧ ∀ err, (c.identity 0).check = .error err → Told err) := by
  rcases @abstain_cases c 0 code write hwrite with
    ⟨err, hcheck, heq⟩ | ⟨hcheck, hclock, r, heq, hvalid⟩ | ⟨hcheck, hclock, message, heq⟩
  · -- the properties of the provider throw
    rw [heq]
    refine (catchBlock_eq_ok err).trans ⟨fun h => .inr ⟨h.2, ?_⟩, ?_⟩
    · intro err' hcheck'
      cases hcheck.symm.trans hcheck'
      exact h.1
    · intro hor
      rcases hor with ⟨⟨text, htext⟩, -⟩ | ⟨hable, htold⟩
      · cases hcheck.symm.trans htext
      · exact ⟨htold err hcheck, hable⟩
  · rw [heq]
    exact ⟨fun _ => .inl ⟨hcheck, hclock⟩, fun _ => ⟨r, rfl, hvalid⟩⟩
  · rw [heq]
    refine (catchBlock_eq_ok (.errorOf message)).trans ⟨fun h => .inr ⟨h.2, ?_⟩, ?_⟩
    · intro err hcheck'
      obtain ⟨text, htext⟩ := hcheck
      cases htext.symm.trans hcheck'
    · intro hor
      rcases hor with hable | ⟨hable, -⟩
      · exact absurd hable.2 hclock
      · exact ⟨told_errorOf message, hable⟩

end Setting

/-- The promise of `decide` resolves to a valid result exactly when, for the abstention it needs,
the properties of the provider and the error can be written into the reason and the clock shows
no earlier time than at the start. -/
theorem isolation_answers (c : Setting) (reply : Reply) :
    (∃ r, c.conclude reply = .ok r ∧ r.valid = true) ↔ c.Answerable reply := by
  cases reply with
  | overloaded =>
      exact Setting.abstain_eq_ok 0 .isolationOverloaded c.overloadedReason
        fun id => append_ne_empty _ (append_ne_empty _ (append_ne_empty _ (append_ne_empty _ (by decide))))
  | ended ending =>
      cases ending with
      | timeout =>
          exact Setting.retry_eq_ok .isolationTimeout c.timeoutReason
            fun id => append_ne_empty _ (append_ne_empty _ (append_ne_empty _ (append_ne_empty _ (by decide))))
      | settled outcome =>
          cases outcome with
          | rejected err => exact Setting.catchBlock_eq_ok err
          | returned outcome =>
              cases outcome with
              | throws err => exact Setting.catchBlock_eq_ok err
              | failure message =>
                  exact Setting.retry_eq_ok .isolationInvalidShape _
                    fun id => append_ne_empty _ (append_ne_empty _ (append_ne_empty _ (by decide)))
              | success data =>
                  exact ⟨fun _ => trivial, fun _ => ⟨data.1, rfl, data.2⟩⟩

/-! ## Fixed calls -/

/-- A provider with plain properties, and a clock. -/
def sampleSetting (startedAt : Int) (clock : Fin 2 → Int) : Setting where
  requested := none
  startedAt := startedAt
  identity _ := ⟨.ok (.string "rules"), .ok (.string "rules"), .ok (.string "1")⟩
  clock := clock
  issues _ := "Too small: expected number to be >=0"
  budgetMs := "500"
  maxConcurrent := 32

/-- An object without a prototype. -/
def bareObject : Value :=
  .object (.ok false) (.ok (.string "")) (.error (.errorOf "Cannot convert object to primitive value"))

/-- A clock that goes back after the provider has failed, an `id` that is a symbol, and an error
that has no text. -/
theorem isolation_rejects :
    (¬ ∃ r, (sampleSetting 1000 fun _ => 999).conclude
      (.ended (.settled (.rejected (.errorOf "boom")))) = .ok r ∧ r.valid = true) ∧
    (¬ ∃ r, { sampleSetting 1000 (fun _ => 1001) with
        identity := fun _ => ⟨.ok (.symbol "rules"), .ok (.symbol "rules"), .ok (.string "1")⟩ }.conclude
      .overloaded = .ok r ∧ r.valid = true) ∧
    ¬ ∃ r, (sampleSetting 1000 fun _ => 1001).conclude
      (.ended (.settled (.rejected bareObject))) = .ok r ∧ r.valid = true := by
  have hrejected : ∀ {c : Setting} {reply : Reply} {err : Value},
      c.conclude reply = .error err → ¬ ∃ r, c.conclude reply = .ok r ∧ r.valid = true := by
    intro c reply err herr ⟨r, hr, _⟩
    cases herr.symm.trans hr
  refine ⟨fun h => ?_, hrejected rfl, hrejected rfl⟩
  have hable := ((@Setting.catchBlock_eq_ok (sampleSetting 1000 fun _ => 999) (.errorOf "boom")).mp h).2
  have hclock : (1000 : Int) ≤ 999 := hable.2
  exact absurd hclock (by decide)

/-- `isolation_answers` for a timeout that the first abstention does not answer, because the clock
has gone back, and the second one does. -/
theorem isolation_answers_retried : ∃ r,
    (sampleSetting 1000 fun k => if k = 0 then 999 else 1001).conclude (.ended .timeout) = .ok r ∧
      r.valid = true := by
  refine (isolation_answers _ _).mpr (.inr ⟨⟨⟨"rules", rfl⟩, by decide⟩, ?_⟩)
  intro err h
  cases h

end Isolation
