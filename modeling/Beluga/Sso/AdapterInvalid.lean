import Beluga.Sso.AdapterFresh

/-! # A commit with an invalid file

Once a refresh has found the file of main's head invalid, no call may answer with
a configured response before a head read shows another commit. The cached answer
of `getSsoConfig` does not ask: a fresh `readBase` finds the commit while an older
snapshot is within its TTL, and the next `getSsoConfig` serves that snapshot
(`invalid_served`). Where no call finds such a snapshot, the rule holds in every
run (`invalid_never_served`).
-/

namespace Sso.GithubSsoAdapter

open Interact

variable {o : Options}

namespace Core

/-- Whether an invalid commit is known changes only with a move, or to known. -/
structure Known (k k' : Core) : Prop where
  moves : k.moves ≤ k'.moves
  kept : k'.moves = k.moves → k.found.isSome = true → k'.found.isSome = true

theorem Known.of_eq {k k' : Core} (hm : k'.moves = k.moves) (hf : k'.found = k.found) :
    Known k k' :=
  ⟨hm.ge, fun _ h => hf ▸ h⟩

theorem known_shown (k : Core) (commitSha : String) : Known k (k.shown commitSha) := by
  unfold shown
  split_ifs
  · refine ⟨Nat.le_succ _, fun h => ?_⟩
    simp at h
  · exact .of_eq rfl rfl

theorem refreshFailed_known (k : Core) (f : Failure) (r : Reads) :
    (k.refreshFailed o f r).1.moves = k.moves ∧ (k.refreshFailed o f r).1.found = k.found := by
  cases f with
  | transport reason until_ => cases until_ <;> exact ⟨rfl, rfl⟩
  | _ => exact ⟨rfl, rfl⟩

theorem known_headRead (k : Core) (answer : Except Failure Head) (r : Reads) :
    Known k (k.headRead o answer r).1 := by
  cases answer with
  | error f =>
      obtain ⟨hm, hf⟩ := k.refreshFailed_known (o := o) f r
      exact .of_eq hm hf
  | ok head =>
      -- after `shown` neither is written
      have hsame : (k.headRead o (.ok head) r).1.moves = (k.shown head.commitSha).moves ∧
          (k.headRead o (.ok head) r).1.found = (k.shown head.commitSha).found := by
        simp only [headRead]
        split
        · exact refreshFailed_known _ _ r
        · split
          · exact ⟨rfl, rfl⟩
          · exact ⟨rfl, rfl⟩
      have hshown := k.known_shown head.commitSha
      refine ⟨hsame.1 ▸ hshown.moves, fun hm hf => ?_⟩
      rw [hsame.2]
      exact hshown.kept (hsame.1.symm.trans hm) hf

theorem known_fileRead (k : Core) (head : Head) (answer : Except Failure (String × String))
    (r : Reads) : Known k (k.fileRead o head answer r).1 := by
  cases answer with
  | error f =>
      cases f with
      | config message => exact ⟨le_rfl, fun _ _ => rfl⟩
      | transport reason until_ =>
          obtain ⟨hm, hf⟩ := k.refreshFailed_known (o := o) (.transport reason until_) r
          exact .of_eq hm hf
      | unexpected message => exact .of_eq rfl rfl
  | ok file =>
      obtain ⟨blobSha, text⟩ := file
      simp only [fileRead]
      split
      · exact ⟨le_rfl, fun _ _ => rfl⟩
      · exact .of_eq rfl rfl

theorem known_groupsRead (k : Core) (p : Nat) (answer : Except Failure (String × String))
    (r : Reads) : Known k (k.groupsRead o p answer r).1 := by
  have hmoves : (k.groupsRead o p answer r).1.moves = k.moves := by
    cases answer with
    | error f =>
        cases f with
        | transport reason until_ => cases until_ <;> rfl
        | _ => rfl
    | ok file =>
        obtain ⟨blobSha, text⟩ := file
        simp only [groupsRead]
        split
        · rfl
        · split <;> rfl
  exact .of_eq hmoves (groupsRead_spec (o := o) k p answer r).2.2.1

end Core

namespace State

theorem known_step {s s' : State} {a : Act} (hstep : s.step o a = some s') :
    Core.Known s.core s'.core := by
  cases step_cases hstep with
  | push => exact .of_eq rfl rfl
  | served => exact .of_eq rfl rfl
  | finished => exact .of_eq rfl rfl
  | answered => exact .of_eq rfl rfl
  | joined => exact .of_eq rfl rfl
  | begun => exact .of_eq rfl rfl
  | headRead => exact Core.known_headRead _ _ _
  | fileRead => exact Core.known_fileRead _ _ _ _
  | resumed i info response r =>
      show Core.Known s.core (s.core.baseRead o response r).1
      rcases Core.baseRead_core (o := o) s.core response r with hk | ⟨hk, -⟩
      · rw [hk]
        exact .of_eq rfl rfl
      · rw [hk]
        exact .of_eq rfl rfl
  | groupsRead => exact Core.known_groupsRead _ _ _ _

/-- A call that would find a snapshot within its TTL while an invalid commit is known. -/
def cachedWhileInvalid (o : Options) (s : State) : Act → Bool
  | .call (.readBase true) _ => false
  | .call _ r =>
      s.core.found.isSome && s.core.current.any fun snap => decide (r.a - snap.confirmedAt < o.ttlMs)
  | _ => false

/-- A head read has shown another commit since the call, if one was known to be invalid. -/
def MovedOn (s : State) (info : CallInfo) (_ : Response) : Prop :=
  ∀ m, info.foundAt = some m → m < s.core.moves

structure Guarded (o : Options) (s : State) : Prop where
  inv : Inv o s
  callers : ∀ c ∈ s.callers, ∀ m, c.info.foundAt = some m →
    m ≤ s.core.moves ∧ (m = s.core.moves → s.core.found.isSome = true)
  flow : Flow MovedOn s

theorem Guarded.start (commitSha : String) : Guarded o (start commitSha) := by
  refine ⟨.start commitSha, ?_, ?_, ?_⟩
  · intro c hc
    cases hc
  · intro c hc
    cases hc
  · intro id r h
    cases h

theorem foundAt_infoOf {s : State} {call : Call} {r : Reads} {m : Nat}
    (h : (s.infoOf o call r).foundAt = some m) :
    m = s.core.moves ∧ s.core.found.isSome = true := by
  obtain ⟨c, hc, hm⟩ := Option.map_eq_some_iff.mp h
  exact ⟨hm.symm, by rw [hc]; rfl⟩

theorem Guarded.step {s s' : State} {a : Act} (h : Guarded o s)
    (hok : cachedWhileInvalid o s a = false) (hstep : s.step o a = some s') : Guarded o s' := by
  have hknown := known_step hstep
  have hshape := h.inv.shape
  have hcallers : ∀ c ∈ s'.callers, ∀ m, c.info.foundAt = some m →
      m ≤ s'.core.moves ∧ (m = s'.core.moves → s'.core.found.isSome = true) := by
    intro c hc m hm
    rcases info_of_step hstep hc with ⟨c₀, hc₀, heq⟩ | ⟨call, r, -, heq⟩
    · obtain ⟨hle, hkept⟩ := h.callers c₀ hc₀ m (heq ▸ hm)
      refine ⟨hle.trans hknown.moves, fun hm' => ?_⟩
      have hmoves : s'.core.moves = s.core.moves := le_antisymm (hm' ▸ hle) hknown.moves
      exact hknown.kept hmoves (hkept (hm'.trans hmoves))
    · obtain ⟨hm', hf⟩ := foundAt_infoOf (heq ▸ hm)
      refine ⟨hm' ▸ hknown.moves, fun hm'' => ?_⟩
      exact hknown.kept (hm''.symm.trans hm') hf
  refine ⟨h.inv.step hstep, hcallers, flow_step hshape h.flow hstep ?_ ?_ ?_ ?_⟩
  · intro info resp hr m hm
    exact (hr m hm).trans_le hknown.moves
  · -- an answer at once is no cached one, so no commit is known to be invalid
    intro call r resp ha honce m hm
    exfalso
    obtain ⟨-, hf⟩ := foundAt_infoOf hm
    rcases atOnce_ok honce with ⟨snap, hcur, httl, -, hcall⟩ | ⟨-, hstale⟩
    · subst ha
      have hhit : (s.core.current.any fun snap => decide (r.a - snap.confirmedAt < o.ttlMs)) =
          true := by
        rw [hcur]
        exact decide_eq_true httl
      cases call with
      | getSsoConfig => simp [cachedWhileInvalid, hf, hhit] at hok
      | readBase fresh =>
          cases fresh with
          | true => exact hcall rfl
          | false => simp [cachedWhileInvalid, hf, hhit] at hok
    · rw [h.inv.core.found, hstale.invalid] at hf
      cases hf
  · intro call r id resp ha honce hin hst m hm
    exfalso
    obtain ⟨-, hf⟩ := foundAt_infoOf hm
    have hinv := hshape.ended _ ((hshape.running hst).2 ▸ List.mem_singleton_self _) resp rfl
    rw [h.inv.core.found, hinv] at hf
    cases hf
  · intro id resp hnone hst c hc hw m hm
    obtain ⟨hle, hkept⟩ := h.callers c hc m hm
    -- a refresh that ends with a response knows of no invalid commit
    have hinv' : s'.core.invalid = none := by
      obtain ⟨r, -, ⟨commitSha, -, hfresh⟩ | ⟨hstale, -⟩⟩ := ended_of_step hshape hstep hnone hst
      · exact hfresh.invalid
      · exact hstale.invalid
    have hfound : s'.core.found = none := by
      rw [(core_ok h.inv.core hstep).found, hinv']
      rfl
    refine lt_of_le_of_ne (hle.trans hknown.moves) fun hm' => ?_
    have hmoves : s'.core.moves = s.core.moves := le_antisymm (hm' ▸ hle) hknown.moves
    have hsome := hknown.kept hmoves (hkept (hm'.trans hmoves))
    rw [hfound] at hsome
    cases hsome

/-- In every run in which no call finds a cached snapshot while a commit is known to be invalid:
a call made while one is known returns a configured response, or a base, only after a head read
has shown another commit. -/
theorem invalid_never_served {commitSha : String} {s : State}
    (h : Machine.Reaches (M := adapterMachine o) (fun s a => !cachedWhileInvalid o s a)
      (start commitSha) s) :
    ∀ c ∈ s.callers, ∀ m, c.info.foundAt = some m → ∀ out, c.stage = .returned (.ok out) →
      m < s.core.moves := by
  have hg : Guarded o s := by
    refine h.induct (.start commitSha) ?_
    intro s₁ s₂ a _ hg hok hstep
    exact hg.step (by simpa using hok) hstep
  intro c hc m hm out hstage
  cases out with
  | configured resp => exact hg.flow.held c hc resp (by rw [hstage]; rfl) m hm
  | base b resp => exact hg.flow.held c hc resp (by rw [hstage]; rfl) m hm

/-! ## Runs -/

/-- After the first read at 0, main moves to `b`, whose file a fresh `readBase` finds invalid. -/
def findsInvalid : List Act :=
  firstRead ++ [.finish 0, .push "b", .call (.readBase true) (at_ 10), .serveHead 1 (.sha none),
    .deliverHead 1 (at_ 10), .deliverFile 1 (.ok ("blob", "sso: [unclosed")) (at_ 10), .finish 1,
    .resume 1 (at_ 10)]

/-- A call within the TTL of `a` is answered from it, with main still at the invalid `b`. -/
theorem invalid_served : ∃ s,
    Machine.Reachable (M := adapterMachine sampleOptions) (start "a") s ∧
      s.main = "b" ∧ s.core.found = some "b" ∧
      ∃ c ∈ s.callers, ∃ resp, c.info.foundAt = some s.core.moves ∧
        c.stage = .returned (.ok (.configured resp)) := by
  have hrun : (Machine.run (M := adapterMachine sampleOptions) (start "a")
      (findsInvalid ++ [.call .getSsoConfig (at_ 20)])).any
        (fun s => decide (s.main = "b" ∧ s.core.found = some "b" ∧ s.core.moves = 0) &&
          hasResponse (fun info _ => decide (info.foundAt = some 0)) s) = true := by
    decide +kernel
  obtain ⟨s, hreach, hcheck⟩ := exists_run hrun
  obtain ⟨hs, hresp⟩ := Bool.and_eq_true_iff.mp hcheck
  obtain ⟨hmain, hfound, hmoves⟩ := of_decide_eq_true hs
  obtain ⟨c, hc, resp, hstage, h⟩ := hasResponse_iff.mp hresp
  refine ⟨s, hreach, hmain, hfound, c, hc, resp, ?_, hstage⟩
  rw [hmoves]
  exact of_decide_eq_true h

/-- After the TTL, and with main at `c`, a call is answered again. -/
theorem invalid_never_served_sample : ∃ s,
    Machine.Reaches (M := adapterMachine sampleOptions)
      (fun s a => !cachedWhileInvalid sampleOptions s a) (start "a") s ∧
      ∃ c ∈ s.callers, ∃ resp, c.info.foundAt = some 0 ∧
        c.stage = .returned (.ok (.configured resp)) ∧ 0 < s.core.moves := by
  have hrun : (Machine.runWith (M := adapterMachine sampleOptions)
      (fun s a => !cachedWhileInvalid sampleOptions s a) (start "a")
      (findsInvalid ++ [.push "c", .call .getSsoConfig (at_ 70000), .serveHead 2 (.sha none),
        .deliverHead 2 (at_ 70000),
        .deliverFile 2 (.ok ("blob", sampleFileText "[ \"admins\" ]")) (at_ 70000),
        .finish 2])).any (hasResponse fun info _ => decide (info.foundAt = some 0)) = true := by
    decide +kernel
  obtain ⟨s, hreach, hcheck⟩ := exists_runWith hrun
  obtain ⟨c, hc, resp, hstage, h⟩ := hasResponse_iff.mp hcheck
  have hfound : c.info.foundAt = some 0 := of_decide_eq_true h
  exact ⟨s, hreach, c, hc, resp, hfound, hstage,
    invalid_never_served hreach c hc 0 hfound _ hstage⟩

end State

end Sso.GithubSsoAdapter
