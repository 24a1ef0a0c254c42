import Beluga.Sso.AdapterSteps
import Beluga.Sso.EditRules

/-! # How old a response is

Every configured response describes a snapshot that a refresh ended with. Which
refresh is the question: one within the TTL, one that the call waited for, or one
that had ended before the call and whose promise was still in place
(`adapter_responses`; `late_join` is a run with the third). What `readBase`
returns was read at one commit, and rests on a response that was not stale.
-/

namespace Sso.GithubSsoAdapter

open Interact

variable {o : Options}

namespace State

/-- What holds of a response by itself. -/
structure Confirmed (o : Options) (k : Core) (resp : Response) : Prop where
  confirmed : (resp.commitSha, resp.fetchedAt) ∈ k.confirmed
  stale : resp.staleReason.isSome = true →
    k.failed = true ∧ resp.producedAt - resp.fetchedAt ≤ o.staleMaxMs

theorem Confirmed.mono {k k' : Core} (h : k.Le k') {resp : Response}
    (hr : Confirmed o k resp) : Confirmed o k' resp where
  confirmed := h.confirmed _ hr.confirmed
  stale hs := ⟨h.failed (hr.stale hs).1, (hr.stale hs).2⟩

theorem confirmed_of_stale {k : Core} {resp : Response} (hk : k.Ok o)
    (h : Core.Stale o k resp) (hfailed : k.failed = true) : Confirmed o k resp := by
  obtain ⟨snap, hmem, hcommit, hfetched, hold⟩ := h.snap
  refine ⟨?_, fun _ => ⟨hfailed, ?_⟩⟩
  · rw [hcommit, hfetched]
    exact (hk.snaps snap hmem).confirmed
  · rw [hfetched]
    exact hold

theorem confirmed_of_fresh {k : Core} {r : Reads} {commitSha : String} {resp : Response}
    (h : Core.Fresh k r commitSha resp) : Confirmed o k resp := by
  refine ⟨?_, ?_⟩
  · rw [h.commit, h.fetched]
    exact h.confirmed
  · intro hs
    rw [h.fresh] at hs
    cases hs

/-- Confirmed less than `ttlMs` before the call, or during it. -/
def InTime (o : Options) (info : CallInfo) (resp : Response) : Prop :=
  info.calledAt - resp.fetchedAt < o.ttlMs ∨ info.calledAt ≤ resp.fetchedAt

instance (info : CallInfo) (resp : Response) : Decidable (InTime o info resp) :=
  inferInstanceAs (Decidable (_ ∨ _))

/-- What holds of the response to a call. -/
structure Answered (o : Options) (s : State) (info : CallInfo) (resp : Response) : Prop where
  confirmed : Confirmed o s.core resp
  fresh : resp.staleReason = none → InTime o info resp ∨ info.joined = some (.ok resp)

/-- What a call answers at once. -/
theorem atOnce_ok {s : State} {call : Call} {r : Reads} {resp : Response}
    (h : s.atOnce o call r = some (.ok resp)) :
    (∃ snap, s.core.current = some snap ∧ r.a - snap.confirmedAt < o.ttlMs ∧
      resp = Core.render snap none r.a ∧ call ≠ .readBase true) ∨
    (r.b < s.core.retryAt ∧ Core.Stale o s.core resp) := by
  have hget : s.core.getSsoConfig o r = some (.ok resp) ∧ call ≠ .readBase true := by
    cases call with
    | getSsoConfig => exact ⟨h, by simp⟩
    | readBase fresh =>
        cases fresh with
        | false => exact ⟨h, by simp⟩
        | true =>
            simp only [atOnce, Core.getFresh] at h
            split_ifs at h
            cases h
  obtain ⟨hget, hcall⟩ := hget
  unfold Core.getSsoConfig at hget
  split_ifs at hget with httl hretry
  · obtain ⟨snap, hcur, hin⟩ := (Option.any_eq_true _ _).mp httl
    rw [hcur] at hget
    cases hget
    exact .inl ⟨snap, hcur, of_decide_eq_true hin, rfl, hcall⟩
  · exact .inr ⟨hretry, Core.degraded_ok (Option.some.inj hget)⟩

/-- The invariant of a run: responses that callers have or are about to get. -/
structure Timely (o : Options) (s : State) : Prop where
  inv : Inv o s
  ended : ∀ id resp, s.stageOf id = some (.ended (.ok resp)) → Confirmed o s.core resp
  flow : Flow (Answered o) s

theorem Timely.start (commitSha : String) : Timely o (start commitSha) := by
  refine ⟨.start commitSha, ?_, ?_, ?_⟩
  · intro id resp h
    cases h
  · intro c hc
    cases hc
  · intro id r h
    cases h

theorem Timely.step {s s' : State} {a : Act} (h : Timely o s) (hstep : s.step o a = some s') :
    Timely o s' := by
  have hle := core_le h.inv.shape hstep
  have hok := core_ok h.inv.core hstep
  have hshape := h.inv.shape
  refine ⟨h.inv.step hstep, ?_, ?_⟩
  · intro id resp hst
    cases hres : s.resultOf id with
    | none =>
        obtain ⟨r, -, ⟨commitSha, -, hfresh⟩ | ⟨hstale, hfailed⟩⟩ :=
          ended_of_step hshape hstep hres hst
        · exact confirmed_of_fresh hfresh
        · exact confirmed_of_stale hok hstale hfailed
    | some result =>
        have hkept := stageOf_kept hshape hstep hres hst
        rw [hkept] at hres
        exact (h.ended id resp (resultOf_eq_some.mp hres)).mono hle
  · refine flow_step hshape h.flow hstep ?_ ?_ ?_ ?_
    · intro info resp hr
      exact ⟨hr.confirmed.mono hle, hr.fresh⟩
    · intro call r resp ha honce
      rcases atOnce_ok honce with ⟨snap, hcur, httl, hresp, -⟩ | ⟨hretry, hstale⟩
      · have hsnap := h.inv.core.snaps snap (Core.current_eq_some hcur)
        subst hresp
        refine ⟨⟨hle.confirmed _ hsnap.confirmed, fun hs => by cases hs⟩, fun _ => .inl (.inl ?_)⟩
        exact httl
      · -- a backoff only runs after a failure
        have hfailed : s.core.failed = true := by
          rcases h.inv.core.backoff with hb | hf
          · subst ha
            have hafter := call_after hstep
            have := h.inv.now
            linarith [hafter.1, hafter.2.1]
          · exact hf
        refine ⟨(confirmed_of_stale h.inv.core hstale hfailed).mono hle, ?_⟩
        intro hnone
        have hs := hstale.stale
        rw [hnone] at hs
        cases hs
    · intro call r id resp ha honce hin hst
      refine ⟨(h.ended id resp hst).mono hle, fun _ => .inr ?_⟩
      simp [infoOf, honce, hin, resultOf_eq_some.mpr hst]
    · intro id resp hnone hst c hc hw
      obtain ⟨r, hr, ⟨commitSha, -, hfresh⟩ | ⟨hstale, hfailed⟩⟩ :=
        ended_of_step hshape hstep hnone hst
      · refine ⟨confirmed_of_fresh hfresh, fun _ => .inl (.inr ?_)⟩
        rw [hfresh.fetched]
        exact (h.inv.callers c hc).called.trans hr.1
      · refine ⟨confirmed_of_stale hok hstale hfailed, ?_⟩
        intro hnone'
        have hs := hstale.stale
        rw [hnone'] at hs
        cases hs

theorem timely_reachable {commitSha : String} {s : State}
    (h : Machine.Reachable (M := adapterMachine o) (start commitSha) s) : Timely o s :=
  h.induct (.start commitSha) fun _ ht _ hstep => ht.step hstep

def sampleGroupsText : String := "groups:\n  - name: admins\n"

def sampleOptions : Options where
  ttlMs := 60000
  staleMaxMs := 600000
  path := SSO_FILE_PATH
  baseDomain := "local.beluga.internal"
  yamlParse text :=
    if text = sampleGroupsText then .ok (.obj [("groups", .arr [.obj [("name", .str "admins")]])])
    else sampleYaml.parse text
  web := sampleEngine.web

/-- All readings of a stretch at one instant. -/
def at_ (t : ℚ) : Reads := ⟨t, t, t⟩

/-- A first call, whose refresh reads the file of commit `a` at 0 and ends. -/
def firstRead : List Act :=
  [.call .getSsoConfig (at_ 0), .serveHead 0 (.sha none), .deliverHead 0 (at_ 0),
    .deliverFile 0 (.ok ("blob", sampleFileText "[ \"admins\" ]")) (at_ 0)]

/-- A caller has this kind of response. -/
def hasResponse (check : CallInfo → Response → Bool) (s : State) : Bool :=
  s.callers.any fun c =>
    match c.stage with
    | .returned (.ok (.configured resp)) => check c.info resp
    | _ => false

/-- A caller has a base of this kind. -/
def hasBase (check : CallInfo → Base → Bool) (s : State) : Bool :=
  s.callers.any fun c =>
    match c.stage with
    | .returned (.ok (.base b _)) => check c.info b
    | _ => false

theorem hasResponse_iff {check : CallInfo → Response → Bool} {s : State} :
    hasResponse check s = true ↔ ∃ c ∈ s.callers, ∃ resp,
      c.stage = .returned (.ok (.configured resp)) ∧ check c.info resp = true := by
  simp only [hasResponse, List.any_eq_true]
  constructor
  · rintro ⟨c, hc, h⟩
    split at h
    case h_1 resp hstage => exact ⟨c, hc, resp, hstage, h⟩
    case h_2 => cases h
  · rintro ⟨c, hc, resp, hstage, h⟩
    exact ⟨c, hc, by rw [hstage]; exact h⟩

theorem hasBase_iff {check : CallInfo → Base → Bool} {s : State} :
    hasBase check s = true ↔ ∃ c ∈ s.callers, ∃ b resp,
      c.stage = .returned (.ok (.base b resp)) ∧ check c.info b = true := by
  simp only [hasBase, List.any_eq_true]
  constructor
  · rintro ⟨c, hc, h⟩
    split at h
    case h_1 b resp hstage => exact ⟨c, hc, b, resp, hstage, h⟩
    case h_2 => cases h
  · rintro ⟨c, hc, b, resp, hstage, h⟩
    exact ⟨c, hc, by rw [hstage]; exact h⟩

theorem exists_run {commitSha : String} {acts : List Act} {check : State → Bool}
    (h : (Machine.run (M := adapterMachine o) (start commitSha) acts).any check = true) :
    ∃ s, Machine.Reachable (M := adapterMachine o) (start commitSha) s ∧ check s = true :=
  Machine.exists_reachable h

theorem exists_runWith {commitSha : String} {ok : State → Act → Bool} {acts : List Act}
    {check : State → Bool}
    (h : (Machine.runWith (M := adapterMachine o) ok (start commitSha) acts).any check = true) :
    ∃ s, Machine.Reaches (M := adapterMachine o) (fun s a => ok s a) (start commitSha) s ∧
      check s = true := by
  obtain ⟨s, hrun, hcheck⟩ := (Option.any_eq_true _ _).mp h
  exact ⟨s, Machine.reaches_of_runWith hrun, hcheck⟩

end State

end Sso.GithubSsoAdapter
