import Beluga.Interact.Trace
import Beluga.Sso.Cancel
import Beluga.Sso.Pulls

/-! # A cancel and a merge

A cancel reads the pull request of its request, closes it if it is open, and then
moves the row. It goes by `merged` as it read it: what `closePr` answers is dropped,
so a pull request that is merged after the lookup does not stop it.

* `cancel_ordered`: one lookup, before the compare-and-set, that found nothing merged;
* `mem_of_merged`, `merged_of_mem`: what is merged at the end of a run was merged
  before it, or in it;
* `cancel_spares_merged`: which cancels spare a merged request.
-/

namespace Sso

open Interact

variable {deps : Deps} {contents : Contents} {hub hub' : Hub deps} {record : ChangeRecord}

/-! ## The lookup -/

/-- A call that looks up pull requests. -/
def ApiRequest.Looks : ApiRequest → Prop
  | .getPull _ | .listPulls _ _ => True
  | _ => False

/-- How `findPrOf` asks for the pull request of a record. -/
def lookupCall (deps : Deps) (record : ChangeRecord) : ApiRequest :=
  match record.prNumber with
  | some number => .getPull number
  | none => .listPulls deps.target.owner record.branch

/-- What it makes of the reply. -/
def readLookup (deps : Deps) (record : ChangeRecord) (res : Reply) :
    Except JsError (Option PrInfo) :=
  match record.prNumber with
  | some _ => readPr deps res
  | none => pickPr deps (some (adoptBound record)) res

theorem lookupCall_looks : (lookupCall deps record).Looks := by
  unfold lookupCall
  split
  · trivial
  · trivial

/-- The pull requests that can be the request's: the one with its number, or those of
its branch that are not older than the request. -/
def Pull.Of (deps : Deps) (record : ChangeRecord) (pull : Pull) : Prop :=
  match record.prNumber with
  | some number => pull.number = number
  | none => pull.Ours deps ∧ pull.headRef = record.branch ∧
      notOlder deps (some (adoptBound record)) pull.info

/-- The one that `findPrOf` takes: an open one of the branch first, or else the newest. -/
def Hub.taken (hub : Hub deps) (record : ChangeRecord) : Option PrInfo :=
  match record.prNumber with
  | some number => (hub.findPull number).bind fun pull =>
      if pull.Ours deps then some pull.info else none
  | none => preferOpen (ourPrs deps (some (adoptBound record))
      ((hub.listed deps.target.owner record.branch).map Pull.json))

/-- A lookup that is answered yields what GitHub holds. -/
theorem hub_taken {a : GithubAnswer} {res : Reply} {pr : Option PrInfo}
    (h : githubServe contents hub (lookupCall deps record) a = some (.ok res, hub'))
    (hread : readLookup deps record res = .ok pr) :
    pr = hub.taken record ∧ hub'.pulls = hub.pulls := by
  unfold lookupCall at h
  unfold readLookup at hread
  unfold Hub.taken
  cases hnumber : record.prNumber with
  | some number =>
      rw [hnumber] at h hread
      rcases githubServe_ok h with ⟨-, h200, -, h404⟩ | hserve
      · -- a refusal is no pull request
        simp only [readPr, h404, h200, if_false] at hread
        split at hread <;> cases hread
      · simp only [hubServe] at hserve
        split at hserve
        · next pull hfind =>
            cases hserve
            have h404 : ¬ (200 : Nat) = 404 := by omega
            simp only [readPr, Pull.toPr_json, if_neg h404, if_true, Except.ok.injEq] at hread
            refine ⟨?_, rfl⟩
            rw [← hread]
            show _ = (hub.findPull number).bind _
            rw [hfind]
            rfl
        · next hfind =>
            cases hserve
            simp only [readPr, notFound, if_true] at hread
            cases hread
            simp [hfind]
  | none =>
      rw [hnumber] at h hread
      rcases githubServe_ok h with ⟨-, h200, -⟩ | hserve
      · simp only [pickPr] at hread
        split at hread
        · rw [if_neg h200] at hread
          cases hread
        · cases hread
      · cases hserve
        simp only [pickPr, Json.asArray, if_true, Except.ok.injEq] at hread
        exact ⟨hread.symm, rfl⟩

/-! ## The order of a cancel's calls -/

/-- Nothing has been looked up yet. -/
def NoLook (hist : List (Event sig)) : Prop :=
  ∀ call r, (⟨.api call, r⟩ : Event sig) ∈ hist → ¬ call.Looks

/-- The cancel has read `record` and looked up its pull request, which was `pr`. -/
def LookedUp (deps : Deps) (req : CancelRequest) (record : ChangeRecord) (pr : Option PrInfo)
    (hist : List (Event sig)) : Prop :=
  (⟨.store (.get req.id), .ok (some record)⟩ : Event sig) ∈ hist ∧
    ∃ res, (⟨.api (lookupCall deps record), .ok res⟩ : Event sig) ∈ hist ∧
      readLookup deps record res = .ok pr

/-- What the calls of a cancel come after. -/
def CancelOrder (deps : Deps) (req : CancelRequest) (hist : List (Event sig)) : Op → Prop
  | .api call => call.Looks → NoLook hist
  | .store (.get _) => NoLook hist
  | .store (.transition _ _ _ _ _ _) => ∃ record pr, LookedUp deps req record pr hist ∧
      ∀ found, pr = some found → found.merged = false
  | _ => True

/-- The order for any task: only cancels are asked for one. -/
def TaskOrder (deps : Deps) : Task → List (Event sig) → Op → Prop
  | .cancel req => CancelOrder deps req
  | _ => fun _ _ => True

/-- A call that is no lookup, read or move of a row. -/
def Op.Quiet : Op → Prop
  | .api call => ¬ call.Looks
  | .store (.recordEvent _) | .now | .trace _ => True
  | _ => False

section Order

variable {req : CancelRequest} {hist : List (Event sig)} {pr : Option PrInfo} {α : Type}

theorem Op.Quiet.order {op : Op} (h : op.Quiet) : CancelOrder deps req hist op := by
  unfold Op.Quiet at h
  split at h
  · exact fun hlooks => absurd hlooks h
  all_goals trivial

theorem NoLook.add (h : NoLook hist) {op : Op} (hop : ∀ call, op = .api call → ¬ call.Looks)
    (r : Op.Rep op) : NoLook (hist ++ [⟨op, r⟩]) := by
  intro call r' hmem
  rcases List.mem_append.mp hmem with hold | hnew
  · exact h call r' hold
  · cases List.mem_singleton.mp hnew
    exact hop call rfl

theorem NoLook.add_store (h : NoLook hist) {op : StoreOp} (r : Except StoreError op.Result) :
    NoLook (hist ++ [⟨.store op, r⟩]) :=
  @NoLook.add hist h (.store op) (fun _ heq => by cases heq) r

theorem Op.Quiet.no_look {op : Op} (h : op.Quiet) : ∀ call, op = .api call → ¬ call.Looks := by
  rintro call rfl
  exact h

theorem LookedUp.add (h : LookedUp deps req record pr hist) (e : Event sig) :
    LookedUp deps req record pr (hist ++ [e]) := by
  obtain ⟨hget, res, hlook, hread⟩ := h
  exact ⟨List.mem_append_left _ hget, res, List.mem_append_left _ hlook, hread⟩

/-- Quiet calls keep what was looked up. -/
theorem traced_quiet {I : List (Event sig) → Prop} {p : Async α} (hp : p.Calls Op.Quiet)
    (hI : ∀ hist op r, I hist → Op.Quiet op → I (hist ++ [⟨op, r⟩])) (h : I hist) :
    p.Traced (CancelOrder deps req) (fun hist _ => I hist) hist :=
  hp.keeps (fun _ _ _ hop => hop.order) hI h

/-- A store call in a `try`. -/
theorem traced_store {β : Type} {op : StoreOp} {f : Except JsError op.Result → Async β}
    {Q : List (Event sig) → Except JsError β → Prop} (hop : CancelOrder deps req hist (.store op))
    (herr : ∀ e, (f (.error (.store e))).Traced (CancelOrder deps req) Q
      (hist ++ [⟨.store op, .error e⟩]))
    (hok : ∀ r, (f (.ok r)).Traced (CancelOrder deps req) Q (hist ++ [⟨.store op, .ok r⟩])) :
    ((callStore op).attempt >>= f).Traced (CancelOrder deps req) Q hist := by
  refine ⟨hop, fun r => ?_⟩
  cases r with
  | error e => exact herr e
  | ok r => exact hok r

/-- The call of the lookup and the reading of its reply. -/
theorem traced_lookup {call : ApiRequest} {read : Reply → Except JsError (Option PrInfo)}
    (hget : (⟨.store (.get req.id), .ok (some record)⟩ : Event sig) ∈ hist) (hnone : NoLook hist)
    (hcall : lookupCall deps record = call) (hread : readLookup deps record = read) :
    (api call >>= fun res => Prog.ofExcept (read res)).Traced (CancelOrder deps req)
      (fun hist r => ∀ pr, r = .ok pr → LookedUp deps req record pr hist) hist := by
  subst hcall hread
  refine ⟨fun _ => hnone, fun r => ?_⟩
  cases r with
  | error text =>
      intro pr h
      cases h
  | ok res =>
      show (Prog.ofExcept (readLookup deps record res)).Traced _ _ _
      cases hres : readLookup deps record res with
      | error e =>
          intro pr h
          cases h
      | ok found =>
          intro pr h
          cases h
          exact ⟨List.mem_append_left _ hget, res,
            List.mem_append_right _ (List.mem_singleton_self _), hres⟩

theorem traced_findPrOf
    (hget : (⟨.store (.get req.id), .ok (some record)⟩ : Event sig) ∈ hist)
    (hnone : NoLook hist) :
    (findPrOf deps record).Traced (CancelOrder deps req)
      (fun hist r => ∀ pr, r = .ok pr → LookedUp deps req record pr hist) hist := by
  unfold findPrOf
  cases hnumber : record.prNumber with
  | some number =>
      show (getPr deps number).Traced _ _ _
      unfold getPr
      split_ifs
      · intro pr h
        cases h
      · exact traced_lookup hget hnone (by simp only [lookupCall, hnumber])
          (by funext res; simp only [readLookup, hnumber])
  | none =>
      show (findPrByBranch deps record.branch (some (adoptBound record))).Traced _ _ _
      unfold findPrByBranch guardBranch
      split_ifs
      · exact traced_lookup hget hnone (by simp only [lookupCall, hnumber])
          (by funext res; simp only [readLookup, hnumber])
      · intro pr h
        cases h

theorem calls_closePr_quiet (number : Int) : (closePr number).Calls Op.Quiet := by
  refine ⟨trivial, fun _ => ?_⟩
  split_ifs
  · trivial
  · refine ⟨id, fun r => ?_⟩
    cases r with
    | error text => trivial
    | ok res =>
        simp only [Prog.ofExcept, Except.mapError, Prog.bind]
        cases toPr res.json with
        | none => trivial
        | some pr => split_ifs <;> trivial

theorem calls_inFlight_quiet : (inFlight record).Calls Op.Quiet := by
  unfold inFlight
  split_ifs
  · exact ⟨trivial, fun _ => trivial⟩
  · trivial

/-- `closeForCancel` ends in `false` after a lookup that found nothing merged. -/
theorem traced_closeForCancel
    (hget : (⟨.store (.get req.id), .ok (some record)⟩ : Event sig) ∈ hist)
    (hnone : NoLook hist) :
    (closeForCancel deps record).Traced (CancelOrder deps req)
      (fun hist r => r = .ok false → ∃ pr, LookedUp deps req record pr hist ∧
        ∀ found, pr = some found → found.merged = false) hist := by
  refine Prog.Traced.bind (traced_findPrOf hget hnone) ?_ fun _ _ _ h => by cases h
  intro hist pr hpr
  have hlooked := hpr pr rfl
  cases pr with
  | none => exact fun _ => ⟨none, hlooked, fun found h => by cases h⟩
  | some pr =>
      show Prog.Traced _ _ _ (if pr.merged then _ else _)
      by_cases hmerged : pr.merged
      · rw [if_pos hmerged]
        intro h
        cases h
      · rw [if_neg hmerged]
        have hunmerged : ∀ found, some pr = some found → found.merged = false := by
          rintro _ ⟨⟩
          exact Bool.eq_false_iff.mpr hmerged
        split_ifs
        · -- what `closePr` answers does not matter
          refine Prog.Traced.bind (traced_quiet (calls_closePr_quiet pr.number)
            (fun _ _ _ h _ => h.add _) hlooked) ?_ fun _ _ _ h => by cases h
          exact fun hist _ h _ => ⟨some pr, h, hunmerged⟩
        · exact fun _ => ⟨some pr, hlooked, hunmerged⟩

theorem traced_auditUnavailable (e : JsError) :
    (auditUnavailable e).Traced (CancelOrder deps req) (fun _ _ => True) hist := by
  cases e <;> trivial

theorem traced_cancelActive
    (hget : (⟨.store (.get req.id), .ok (some record)⟩ : Event sig) ∈ hist)
    (hnone : NoLook hist) :
    (cancelActive deps req record).Traced (CancelOrder deps req) (fun _ _ => True) hist := by
  refine traced_store trivial (fun e => traced_auditUnavailable _) fun _ => ?_
  refine Prog.Traced.attempt (traced_closeForCancel (List.mem_append_left _ hget)
    (hnone.add_store _)) fun hist r hr => ?_
  cases r with
  | error e => exact traced_store trivial (fun _ => trivial) fun _ => trivial
  | ok merged =>
      cases merged with
      | true => trivial
      | false =>
          obtain ⟨pr, hlooked, hunmerged⟩ := hr rfl
          refine traced_store ⟨record, pr, hlooked, hunmerged⟩
            (fun e => traced_auditUnavailable _) fun done => ?_
          cases done <;> trivial

/-- A cancel makes its calls in order. -/
theorem traced_cancelChange (req : CancelRequest) :
    (cancelChange deps req).Traced (CancelOrder deps req) (fun _ _ => True) [] := by
  unfold cancelChange
  split_ifs
  swap
  · trivial
  have hempty : NoLook [] := fun call r h => absurd h List.not_mem_nil
  refine traced_store hempty (fun e => traced_auditUnavailable _) fun found => ?_
  cases found with
  | none => trivial
  | some record =>
      show Prog.Traced _ _ _ (if ¬ record.stage.Active then _ else _)
      split_ifs
      swap
      · trivial
      have hgot : (⟨.store (.get req.id), .ok (some record)⟩ : Event sig) ∈
            ([⟨.store (.get req.id), .ok (some record)⟩] : List (Event sig)) ∧
          NoLook [⟨.store (.get req.id), .ok (some record)⟩] :=
        ⟨List.mem_singleton_self _, hempty.add_store _⟩
      refine Prog.Traced.bind (traced_quiet (I := fun hist =>
        (⟨.store (.get req.id), .ok (some record)⟩ : Event sig) ∈ hist ∧ NoLook hist)
        calls_inFlight_quiet (fun _ _ r h hop => ⟨List.mem_append_left _ h.1,
          h.2.add hop.no_look r⟩) hgot) ?_ fun _ _ _ => trivial
      intro hist young h
      cases young with
      | true => trivial
      | false => exact traced_cancelActive h.1 h.2

theorem traced_taskProg (task : Task) :
    (taskProg deps task).Traced (TaskOrder deps task) (fun _ _ => True) [] := by
  cases task with
  | cancel req =>
      exact (traced_cancelChange req).bind (fun _ _ _ => trivial) fun _ _ _ => trivial
  | post req => exact Prog.traced_true _ _
  | tick memory => exact Prog.traced_true _ _

end Order

section Cancel

variable {W : World} {g : W.State} {s : PState deps W} {t : Nat} {req : CancelRequest}
  {th : (protocol deps W).Thread}

/-- Every cancel made its calls in order. -/
theorem cancel_ordered (h : (protocol deps W).Reachable (start W g) s)
    (hth : s.threads[t]? = some th) (htask : th.task = .cancel req) {h₁ h₂ : List (Event sig)}
    {e : Event sig} (hhist : th.hist = h₁ ++ e :: h₂) : CancelOrder deps req h₁ e.op := by
  have horder := @System.Reachable.traced_hist _ _ _ (protocol deps W) (TaskOrder deps)
    (fun _ _ _ => True) (start W g) traced_taskProg s h t th hth h₁ h₂ e hhist
  rwa [htask] at horder

/-- And so is the one it is about to make. -/
theorem cancel_in_order (h : (protocol deps W).Reachable (start W g) s)
    (hth : s.threads[t]? = some th) (htask : th.task = .cancel req) {op : Op}
    {k : Op.Rep op → Async Outcome} (hrest : th.rest = .call op k) :
    CancelOrder deps req th.hist op := by
  have htraced := @System.Reachable.traced _ _ _ (protocol deps W) (TaskOrder deps)
    (fun _ _ _ => True) (start W g) traced_taskProg s h t th hth
  rw [htask, hrest] at htraced
  exact htraced.1

/-- A cancel looks up once. -/
theorem look_once (h : (protocol deps W).Reachable (start W g) s)
    (hth : s.threads[t]? = some th) (htask : th.task = .cancel req) {call call' : ApiRequest}
    {r r' : Except String Reply} (hcall : call.Looks) (hcall' : call'.Looks)
    (hmem : (⟨.api call, r⟩ : Event sig) ∈ th.hist)
    (hmem' : (⟨.api call', r'⟩ : Event sig) ∈ th.hist) :
    (⟨.api call, r⟩ : Event sig) = ⟨.api call', r'⟩ := by
  obtain ⟨h₁, h₂, hsplit⟩ := List.append_of_mem hmem
  rw [hsplit] at hmem'
  rcases List.mem_append.mp hmem' with hbefore | hafter
  · exact absurd hcall' (cancel_ordered h hth htask hsplit hcall _ _ hbefore)
  · rcases List.mem_cons.mp hafter with heq | hafter
    · exact heq.symm
    · obtain ⟨h₃, h₄, rfl⟩ := List.append_of_mem hafter
      have hsplit' : th.hist = (h₁ ++ ⟨.api call, r⟩ :: h₃) ++ ⟨.api call', r'⟩ :: h₄ := by
        rw [hsplit, List.append_assoc]
        rfl
      exact absurd hcall (cancel_ordered h hth htask hsplit' hcall' call r (by simp))

end Cancel

/-! ## What is merged -/

section Merges

variable {g : Hub deps} {s s' : PState deps (github deps contents)} {pull : Pull}

theorem Pull.Later.eq_of_merged {pull pull' : Pull} (h : pull.Later pull') (hm : pull.Merged) :
    pull' = pull := by
  rw [h.same, h.merged hm]

/-- What one step does to the pull requests. -/
theorem pulls_step {a : (protocol deps (github deps contents)).Act}
    (h : System.step s a = some s') : PullsStep s.shared.github s'.shared.github := by
  obtain ⟨k, -, rfl⟩ | ⟨t, ans, th, op, k, r, g', -, -, -, hx, rfl⟩ | ⟨e, g', -, hx, rfl⟩ :=
    System.step_cases h
  · exact .same rfl
  · rcases serve_cases hx with ⟨_, -, hgithub, -⟩ | ⟨_, _, _, -, -, hserve⟩ | ⟨rfl, -⟩
    · exact .same (congrArg Hub.pulls hgithub)
    · exact githubServe_step hserve
    · exact .same rfl
  · simp only [protocol, Option.map_eq_some_iff] at hx
    obtain ⟨hub, hx, rfl⟩ := hx
    exact hubEnv_step hx

/-- A merge is final. -/
theorem merged_stays (h : System.Reaches s s') (hpull : pull ∈ s.shared.github.pulls)
    (hm : pull.Merged) : pull ∈ s'.shared.github.pulls := by
  induction h with
  | refl => exact hpull
  | tail a _ hstep ih =>
      obtain ⟨pull', hpull', hlater⟩ := (pulls_step hstep).later pull ih
      rwa [hlater.eq_of_merged hm] at hpull'

theorem mem_of_setStatus {number : Int} {status : PullStatus}
    (h : pull ∈ (hub.setStatus number status).pulls) :
    pull ∈ hub.pulls ∨ pull.number = number ∧ pull.status = status := by
  obtain ⟨p, hp, rfl⟩ := Hub.mem_setStatus.mp h
  split_ifs with hnumber
  · exact .inr ⟨hnumber, rfl⟩
  · exact .inl hp

/-- No call merges. -/
theorem served_merged {call : ApiRequest} {a : GithubAnswer} {r : Except String Reply}
    (h : githubServe contents hub call a = some (r, hub')) (hpull : pull ∈ hub'.pulls)
    (hm : pull.Merged) : pull ∈ hub.pulls := by
  obtain ⟨at_, sha, hstatus⟩ := hm
  rcases githubServe_cases h with ⟨rfl, -⟩ | ⟨reply, hserve, -⟩
  · exact hpull
  rcases hubServe_cases hserve with hsame | ⟨_, _, _, _, opened, -, rfl, -, hpulls⟩ |
    ⟨closed, -, -, -, rfl⟩
  · rwa [hsame] at hpull
  · -- a new one is open
    rw [hpulls] at hpull
    rcases List.mem_append.mp hpull with hold | hnew
    · exact hold
    · rw [List.mem_singleton.mp hnew] at hstatus
      cases hstatus
  · rcases mem_of_setStatus hpull with hold | ⟨-, hclosed⟩
    · exact hold
    · rw [hclosed] at hstatus
      cases hstatus

/-- People merge one at a time. -/
theorem env_merged {e : HubEnv} (h : hubEnv hub e = some hub') (hpull : pull ∈ hub'.pulls)
    (hm : pull.Merged) : pull ∈ hub.pulls ∨ ∃ at_ sha, e = .merge pull.number at_ sha := by
  obtain ⟨at_, sha, hstatus⟩ := hm
  unfold hubEnv at h
  cases e with
  | openPull opened =>
      rw [(Hub.addPull_pulls h).1] at hpull
      rcases List.mem_append.mp hpull with hold | hnew
      · exact .inl hold
      · rw [List.mem_singleton.mp hnew] at hstatus
        cases hstatus
  | push _ _ _ | createBranch _ | deleteBranch _ =>
      cases h
      exact .inl hpull
  | merge number at' sha' =>
      obtain ⟨p, hfind, h⟩ := Option.bind_eq_some_iff.mp h
      split_ifs at h
      cases h
      rcases mem_of_setStatus hpull with hold | ⟨rfl, -⟩
      · exact .inl hold
      · exact .inr ⟨at', sha', rfl⟩
  | close number | reopen number =>
      obtain ⟨p, hfind, h⟩ := Option.bind_eq_some_iff.mp h
      split_ifs at h
      cases h
      rcases mem_of_setStatus hpull with hold | ⟨-, hother⟩
      · exact .inl hold
      · rw [hother] at hstatus
        cases hstatus

/-- A step of the people that merges. -/
def Merges (number : Int) (a : (protocol deps (github deps contents)).Act) : Prop :=
  ∃ at_ sha, a = .env (.merge number at_ sha)

theorem merged_step {a : (protocol deps (github deps contents)).Act}
    (h : System.step s a = some s') (hpull : pull ∈ s'.shared.github.pulls) (hm : pull.Merged) :
    pull ∈ s.shared.github.pulls ∨ Merges pull.number a := by
  obtain ⟨k, -, rfl⟩ | ⟨t, ans, th, op, k, r, g', -, -, -, hx, rfl⟩ | ⟨e, g', rfl, hx, rfl⟩ :=
    System.step_cases h
  · exact .inl hpull
  · rcases serve_cases hx with ⟨_, -, hgithub, -⟩ | ⟨_, _, _, -, -, hserve⟩ | ⟨rfl, -⟩
    · exact .inl (hgithub ▸ hpull)
    · exact .inl (served_merged hserve hpull hm)
    · exact .inl hpull
  · simp only [protocol, Option.map_eq_some_iff] at hx
    obtain ⟨hub, hx, rfl⟩ := hx
    refine (env_merged hx hpull hm).imp_right ?_
    rintro ⟨at_, sha, rfl⟩
    exact ⟨at_, sha, rfl⟩

/-- What is merged was merged before the run, or in it. -/
theorem mem_of_merged {as : List (protocol deps (github deps contents)).Act}
    (h : System.run s as = some s') (hpull : pull ∈ s'.shared.github.pulls) (hm : pull.Merged) :
    pull ∈ s.shared.github.pulls ∨ ∃ a ∈ as, Merges pull.number a := by
  induction as generalizing s with
  | nil =>
      cases h
      exact .inl hpull
  | cons a as ih =>
      simp only [System.run, Option.bind_eq_some_iff] at h
      obtain ⟨s₁, hstep, hrun⟩ := h
      rcases ih hrun with hold | ⟨a', ha', hmerges⟩
      · exact (merged_step hstep hold hm).imp_right fun hmerges => ⟨a, by simp, hmerges⟩
      · exact .inr ⟨a', List.mem_cons_of_mem _ ha', hmerges⟩

/-- What a run merges is merged at its end. -/
theorem merged_of_mem {as : List (protocol deps (github deps contents)).Act} {number : Int}
    (h : System.run s as = some s') {a : (protocol deps (github deps contents)).Act} (ha : a ∈ as)
    (hmerges : Merges number a) :
    ∃ pull ∈ s'.shared.github.pulls, pull.number = number ∧ pull.Merged := by
  induction as generalizing s with
  | nil => cases ha
  | cons a' as ih =>
      simp only [System.run, Option.bind_eq_some_iff] at h
      obtain ⟨s₁, hstep, hrun⟩ := h
      rcases List.mem_cons.mp ha with rfl | ha
      · obtain ⟨at_, sha, rfl⟩ := hmerges
        simp only [System.step, protocol, Option.map_eq_some_iff] at hstep
        obtain ⟨_, ⟨hub, hx, rfl⟩, rfl⟩ := hstep
        obtain ⟨p, hfind, hx⟩ := Option.bind_eq_some_iff.mp hx
        obtain ⟨hp, hnumber⟩ := Hub.findPull_some hfind
        split_ifs at hx
        cases hx
        have hmerged : ({ p with status := .merged at_ sha } : Pull).Merged := ⟨at_, sha, rfl⟩
        refine ⟨_, merged_stays (System.reaches_of_run hrun) ?_ hmerged, hnumber, hmerged⟩
        exact Hub.mem_setStatus.mpr ⟨p, hp, if_pos hnumber⟩
      · exact ih hrun ha

end Merges

/-! ## The number of a row -/

/-- How far a stage is along the diagram; a recovery may go back and forth before the
pull request. -/
def ChangeStage.rank : ChangeStage → Nat
  | .submitted | .unknown_recovering => 0
  | .pr_open => 1
  | .merged | .rejected | .failed => 2
  | .applied => 3

theorem Allowed.rank {a b : ChangeStage} (h : Allowed a b) :
    a.rank ≤ b.rank ∧ (b = .pr_open → a.rank < b.rank) := by
  revert h
  cases a <;> cases b <;> decide

/-- `row'` is later than `row`, and has its number unless it went on in the diagram. -/
structure NumberKept (row row' : RequestRow) : Prop where
  rank : row.stage.rank ≤ row'.stage.rank
  number : row.stage.rank = row'.stage.rank → row'.pr_number = row.pr_number

theorem NumberKept.refl (row : RequestRow) : NumberKept row row := ⟨Nat.le_refl _, fun _ => rfl⟩

theorem NumberKept.trans {a b c : RequestRow} (h : NumberKept a b) (h' : NumberKept b c) :
    NumberKept a c := by
  have hab := h.rank
  have hbc := h'.rank
  refine ⟨by omega, fun heq => ?_⟩
  exact (h'.number (by omega)).trans (h.number (by omega))

/-- The rows of `db'` are those of `db` later. -/
def NumbersKept (db db' : Db) : Prop :=
  ∀ row ∈ db.requests.rows, ∃ row' ∈ db'.requests.rows, row'.id = row.id ∧ NumberKept row row'

section Numbers

variable {W : World} {g : W.State} {s s' : PState deps W}

theorem numbersKept_refl (db : Db) : NumbersKept db db :=
  fun row hrow => ⟨row, hrow, rfl, .refl row⟩

/-- A number is only written with `pr_open`. -/
theorem Effect.numbersKept {thread : Nat} {db db' : Db} {op : StoreOp}
    (h : Effect thread db op db') (hop : op.Follows)
    (hnumber : ∀ id expected stage fields event version,
      op = .transition id expected stage fields event version →
        fields.prNumber ≠ Option.none → stage = .pr_open) : NumbersKept db db' := by
  intro row hrow
  cases h with
  | none op => exact ⟨row, hrow, rfl, .refl row⟩
  | event e => exact ⟨row, hrow, rfl, .refl row⟩
  | insert input id now requests hkey hbranch hrows =>
      exact ⟨row, by simp [hrows, hrow], rfl, .refl row⟩
  | move row' stage fields event version now requests hrow' hversion hrows =>
      refine ⟨_, hrows ▸ List.mem_map_of_mem hrow, ?_⟩
      by_cases hid : row.id = row'.id
      · obtain rfl := RequestTable.eq_of_id hrow hrow' hid
        have hrank := Allowed.rank hop
        rw [if_pos rfl]
        refine ⟨rfl, hrank.1, fun heq => ?_⟩
        -- a stage of the same rank is not `pr_open`
        cases hfields : fields.prNumber with
        | none => simp [movedRow, hfields]
        | some n =>
            have hopen := hnumber _ _ _ _ _ _ rfl (by simp [hfields])
            have hlt := hrank.2 hopen
            simp only [movedRow] at heq
            omega
      · rw [if_neg hid]
        exact ⟨rfl, .refl row⟩

theorem numbersKept_step {a : (protocol deps W).Act}
    (h : (protocol deps W).Reachable (start W g) s) (hstep : System.step s a = some s') :
    NumbersKept s.shared.db s'.shared.db := by
  obtain ⟨k, -, rfl⟩ | ⟨t, ans, th, op, k, r, g', -, hth, hrest, hx, rfl⟩ |
    ⟨e, g', -, hx, rfl⟩ := System.step_cases hstep
  · exact numbersKept_refl _
  · obtain hok := is_disciplined h hth hrest
    rcases serve_cases hx with ⟨op', rfl, -, heffect⟩ | ⟨_, _, _, -, hdb, -⟩ | ⟨rfl, -⟩
    · obtain ⟨hfollows, -, hnumber, -⟩ := hok
      refine heffect.numbersKept hfollows ?_
      rintro id expected stage fields event version rfl hne
      obtain ⟨n, hn⟩ := Option.ne_none_iff_exists'.mp hne
      exact (hnumber n hn).1
    · rw [hdb]
      exact numbersKept_refl _
    · exact numbersKept_refl _
  · simp only [protocol, Option.map_eq_some_iff] at hx
    obtain ⟨hub, -, rfl⟩ := hx
    exact numbersKept_refl _

theorem numbersKept_reaches (h : (protocol deps W).Reachable (start W g) s)
    (hreach : System.Reaches s s') : NumbersKept s.shared.db s'.shared.db := by
  refine System.Reaches.lift (R := fun s s' : PState deps W => NumbersKept s.shared.db s'.shared.db)
    (fun s => numbersKept_refl _) ?_ numbersKept_step h hreach
  intro a b c hab hbc row hrow
  obtain ⟨row', hrow', hid, hkept⟩ := hab row hrow
  obtain ⟨row'', hrow'', hid', hkept'⟩ := hbc row' hrow'
  exact ⟨row'', hrow'', hid'.trans hid, hkept.trans hkept'⟩

end Numbers

/-! ## The lookup of a cancel -/

section Look

variable {g : Hub deps} {s₀ s₁ s₂ s₃ l l' : PState deps (github deps contents)} {t : Nat}
  {req : CancelRequest} {as : List (protocol deps (github deps contents)).Act} {row : RequestRow}

/-- Thread `t` looks up the pull request from `l` to `l'`, between `s₁` and `s₂`; `as` is
what is done after it. -/
structure LookRun (t : Nat) (s₁ l l' : PState deps (github deps contents))
    (as : List (protocol deps (github deps contents)).Act)
    (s₂ : PState deps (github deps contents)) : Prop where
  before : System.Reaches s₁ l
  look : ∃ th call k ans, l.threads[t]? = some th ∧ th.rest = .call (.api call) k ∧ call.Looks ∧
    System.step l (.act t ans) = some l'
  after : System.run l' as = some s₂

/-- At its compare-and-set a cancel has looked up, and found nothing merged. -/
theorem CancelRun.looked {g : Hub deps}
    (h : (protocol deps (github deps contents)).Reachable (start (github deps contents) g) s₀)
    (hrun : CancelRun req t s₀ s₁ s₂ s₃) : ∃ th record pr, s₂.threads[t]? = some th ∧
      LookedUp deps req record pr th.hist ∧ ∀ found, pr = some found → found.merged = false := by
  obtain ⟨th, id, expected, stage, fields, event, version, k, ans, hth, hrest, -⟩ := hrun.cas
  obtain ⟨record, pr, hlooked, hunmerged⟩ :=
    cancel_in_order (hrun.reachable_cas h) hth (hrun.task_cas hth) hrest
  exact ⟨th, record, pr, hth, hlooked, hunmerged⟩

/-- So every cancel that reaches its compare-and-set has a lookup. -/
theorem CancelRun.exists_look
    (h : (protocol deps (github deps contents)).Reachable (start (github deps contents) g) s₀)
    (hrun : CancelRun req t s₀ s₁ s₂ s₃) : ∃ l l' as, LookRun t s₁ l l' as s₂ := by
  obtain ⟨th₂, record, pr, hth₂, ⟨-, res, hlook, -⟩, -⟩ := hrun.looked h
  obtain ⟨th₀, id₀, k₀, ans₀, hth₀, htask, hrest₀, hstep₀⟩ := hrun.read
  obtain ⟨a₀, r₀, -, hth₁⟩ := store_step hth₀ hrest₀ hstep₀
  -- nothing was looked up before the read
  have hnone : NoLook th₀.hist := cancel_in_order h hth₀ htask hrest₀
  have hnew := hnone.add_store r₀ (lookupCall deps record) (.ok res)
  obtain ⟨l, l', thl, k, ans, hl, hthl, hrest, hstep, hl'⟩ :=
    hrun.between.called hth₁ hth₂ hlook fun hmem => hnew hmem lookupCall_looks
  obtain ⟨as, has⟩ := hl'.exists_run
  exact ⟨l, l', as, hl, ⟨thl, _, k, ans, hthl, hrest, lookupCall_looks, hstep⟩, has⟩

/-- The lookup of a cancel that reaches its compare-and-set took nothing that is merged. -/
theorem LookRun.unmerged
    (h : (protocol deps (github deps contents)).Reachable (start (github deps contents) g) s₀)
    (hrun : CancelRun req t s₀ s₁ s₂ s₃) (hlook : LookRun t s₁ l l' as s₂) :
    l'.shared.github.pulls = l.shared.github.pulls ∧
      ∃ row₁ ∈ s₁.shared.db.requests.rows, row₁.id = req.id ∧
        ∀ found, l.shared.github.taken (toRecord row₁) = some found → found.merged = false := by
  obtain ⟨th₂, record, pr, hth₂, ⟨hget, res, hmem, hread⟩, hunmerged⟩ := hrun.looked h
  obtain ⟨row₁, hrow₁, hid, rfl⟩ := hrun.read_row h hth₂ hget
  obtain ⟨thl, call, k, ans, hthl, hrest, hlooks, hstep⟩ := hlook.look
  obtain ⟨_, heq, -⟩ | ⟨t', ans', th', op', k', r, g', heq, hth', hrest', hx, rfl⟩ |
    ⟨_, _, heq, -⟩ := System.step_cases hstep
  · cases heq
  · cases heq
    cases hthl.symm.trans hth'
    cases hrest.symm.trans hrest'
    -- the call of `l` is the one that the cancel was answered
    have hlt : t < l.threads.length := (List.getElem?_eq_some_iff.mp hthl).1
    have hadvanced : (l.threads.set t (thl.advance (.api call) k r))[t]? =
        some (thl.advance (.api call) k r) := List.getElem?_set_self hlt
    obtain ⟨th', hth', -, hhist⟩ := (System.reaches_of_run hlook.after).thread hadvanced
    cases hth₂.symm.trans hth'
    have hmade : (⟨.api call, r⟩ : Event sig) ∈ th₂.hist :=
      hhist.subset (List.mem_append_right _ (List.mem_singleton_self _))
    have hsame := look_once (hrun.reachable_cas h) hth₂ (hrun.task_cas hth₂) hlooks
      lookupCall_looks hmade hmem
    cases hsame
    obtain ⟨a, hub, hserve, rfl⟩ := serve_api hx
    obtain ⟨rfl, hpulls⟩ := hub_taken hserve hread
    exact ⟨hpulls, row₁, hrow₁, hid, hunmerged⟩
  · cases heq

/-- The row a cancel moves is, to a lookup, the row it read. -/
theorem CancelRun.same_lookup
    (h : (protocol deps (github deps contents)).Reachable (start (github deps contents) g) s₀)
    (hrun : CancelRun req t s₀ s₁ s₂ s₃) (hwon : Committed s₂ s₃)
    (hrow : row ∈ s₂.shared.db.requests.rows) (hid : row.id = req.id) {row₁ : RequestRow}
    (hrow₁ : row₁ ∈ s₁.shared.db.requests.rows) (hid₁ : row₁.id = req.id) (hub : Hub deps) :
    hub.taken (toRecord row) = hub.taken (toRecord row₁) := by
  have hs₁ := hrun.reachable_read h
  obtain ⟨row₁', hrow₁', row₂, hrow₂, hid₁', hid₂, -, hstage, -⟩ := hrun.same_version h hwon
  obtain rfl := RequestTable.eq_of_id hrow₁ hrow₁' (hid₁.trans hid₁'.symm)
  obtain rfl := RequestTable.eq_of_id hrow hrow₂ (hid.trans hid₂.symm)
  obtain ⟨later, hlater, hleads⟩ := (protocol_evolves hs₁ hrun.between).rows row₁ hrow₁
  obtain rfl := RequestTable.eq_of_id hlater hrow (hleads.id.trans (hid₁.trans hid.symm))
  obtain ⟨kept, hkept, hkid, hnumbers⟩ := numbersKept_reaches hs₁ hrun.between row₁ hrow₁
  obtain rfl := RequestTable.eq_of_id hkept hrow (hkid.trans (hid₁.trans hid.symm))
  have hnumber := hnumbers.number (by rw [hstage])
  simp only [Hub.taken, toRecord, adoptBound, hnumber, hleads.branch, hleads.created_at]

/-- The cancel of the request of `row` leaves it alone if its pull request is merged. -/
def SparesMerged (row : RequestRow) (s₂ s₃ : PState deps (github deps contents)) : Prop :=
  (∃ pull ∈ s₂.shared.github.pulls, pull.Of deps (toRecord row) ∧ pull.Merged) →
    ¬ Committed s₂ s₃

/-- No pull request of the request is merged in `as`, after the lookup; and of those that
were merged before it, the lookup took the one there is. -/
structure Calm (row : RequestRow) (l : PState deps (github deps contents))
    (as : List (protocol deps (github deps contents)).Act)
    (s₂ : PState deps (github deps contents)) : Prop where
  after : ∀ a ∈ as, ∀ pull ∈ s₂.shared.github.pulls, pull.Of deps (toRecord row) →
    ¬ Merges pull.number a
  before : ∀ pull ∈ l.shared.github.pulls, pull.Of deps (toRecord row) → pull.Merged →
    l.shared.github.taken (toRecord row) = some pull.info

theorem Pull.Merged.info {pull : Pull} (h : pull.Merged) : pull.info.merged = true := by
  obtain ⟨at_, sha, hstatus⟩ := h
  simp [Pull.info, hstatus]

/-- A cancel that wins though a pull request of the request is merged was not calm. -/
theorem Calm.spares
    (h : (protocol deps (github deps contents)).Reachable (start (github deps contents) g) s₀)
    (hrun : CancelRun req t s₀ s₁ s₂ s₃) (hrow : row ∈ s₂.shared.db.requests.rows)
    (hid : row.id = req.id) (hlook : LookRun t s₁ l l' as s₂) (hcalm : Calm row l as s₂) :
    SparesMerged row s₂ s₃ := by
  rintro ⟨pull, hpull, hof, hm⟩ hwon
  obtain ⟨hsame, row₁, hrow₁, hid₁, hunmerged⟩ := hlook.unmerged h hrun
  rcases mem_of_merged hlook.after hpull hm with hold | ⟨a, ha, hmerges⟩
  · rw [hsame] at hold
    have htaken := hcalm.before pull hold hof hm
    rw [hrun.same_lookup h hwon hrow hid hrow₁ hid₁] at htaken
    have hnot := hunmerged _ htaken
    rw [hm.info] at hnot
    cases hnot
  · exact hcalm.after a ha pull hpull hof hmerges

/-- Where nothing is merged in the end, nothing was. -/
theorem calm_of_unmerged (hlook : LookRun t s₁ l l' as s₂)
    (hnone : ∀ pull ∈ s₂.shared.github.pulls, pull.Of deps (toRecord row) → ¬ pull.Merged) :
    Calm row l as s₂ := by
  constructor
  · intro a ha pull hpull hof hmerges
    obtain ⟨merged, hmem, hnumber, hm⟩ := merged_of_mem hlook.after ha hmerges
    obtain rfl := Hub.eq_of_number hmem hpull hnumber
    exact hnone merged hmem hof hm
  · intro pull hpull hof hm
    obtain ⟨_, _, _, _, -, -, -, hstep⟩ := hlook.look
    have hreach := (System.Reaches.single hstep).trans (System.reaches_of_run hlook.after)
    exact absurd hm (hnone pull (merged_stays hreach hpull hm) hof)

end Look

/-- A cancel leaves a request alone whose pull request is merged before its
compare-and-set, unless the merge comes after its lookup or the lookup passed over the
merged one; and a cancel that wins has spared it only then. -/
theorem cancel_spares_merged (deps : Deps) (contents : Contents) (g : Hub deps)
    (req : CancelRequest) (t : Nat) (s₀ s₁ s₂ s₃ : PState deps (github deps contents))
    (h : (protocol deps (github deps contents)).Reachable (start (github deps contents) g) s₀)
    (hrun : CancelRun req t s₀ s₁ s₂ s₃) (row : RequestRow)
    (hrow : row ∈ s₂.shared.db.requests.rows) (hid : row.id = req.id) :
    (∃ l l' as, LookRun t s₁ l l' as s₂) ∧ ∀ l l' as, LookRun t s₁ l l' as s₂ →
      (Calm row l as s₂ → SparesMerged row s₂ s₃) ∧
      (Committed s₂ s₃ → (SparesMerged row s₂ s₃ ↔ Calm row l as s₂)) := by
  refine ⟨hrun.exists_look h, fun l l' as hlook => ?_⟩
  have hspares : Calm row l as s₂ → SparesMerged row s₂ s₃ := Calm.spares h hrun hrow hid hlook
  refine ⟨hspares, fun hwon => ⟨fun hspared => calm_of_unmerged hlook ?_, hspares⟩⟩
  intro pull hpull hof hm
  exact hspared ⟨pull, hpull, hof, hm⟩ hwon

/-! ## A merge between the lookup and the close -/

/-- A submit with its pull request open, and a cancel of it. -/
def openRun : List (protocol sampleDeps sampleGithub).Act :=
  submitRun ++ [.act 0 (.github samplePull), .act 0 .mark,
    .act 0 (.db { now := sampleTime + 10000000 }), .spawn (.cancel ⟨⟨"sub-2", none⟩, 1, none⟩)]

/-- The close of the pull request. -/
def closeRun : List (protocol sampleDeps sampleGithub).Act := [.act 1 .mark, .act 1 (.github {})]

/-- The same after somebody merged it. -/
def mergeRun : List (protocol sampleDeps sampleGithub).Act :=
  .env (.merge 8 "2026-10-17T09:01:00Z" sampleBase.commitSha) :: closeRun

/-- The compare-and-set. -/
def sampleCas : (protocol sampleDeps sampleGithub).Act :=
  .act 1 (.db { now := sampleTime + 20000000 })

/-- Both runs, whole: the read, the intent and the lookup, and then either. -/
theorem cancelRuns_isSome : ∀ as ∈ [closeRun, mergeRun],
    (System.run (System.init (start sampleGithub sampleHub)) (openRun ++
      .act 1 (.db {}) :: .act 1 (.db {}) :: .act 1 (.github {}) ::
        (as ++ [sampleCas]))).isSome := by
  decide +kernel

theorem openRun_isSome :
    (System.run (System.init (start sampleGithub sampleHub)) openRun).isSome :=
  System.run_left (cancelRuns_isSome closeRun List.mem_cons_self)

/-- Before the cancel reads the row. -/
def opened : SampleState :=
  (System.run (System.init (start sampleGithub sampleHub)) openRun).get openRun_isSome

theorem opened_run_isSome {as : List (protocol sampleDeps sampleGithub).Act}
    (h : as ∈ [closeRun, mergeRun]) : (System.run opened (.act 1 (.db {}) :: .act 1 (.db {}) ::
      .act 1 (.github {}) :: (as ++ [sampleCas]))).isSome :=
  System.run_right (cancelRuns_isSome as h) openRun_isSome

theorem opened_read_isSome : (System.step opened (.act 1 (.db {}))).isSome :=
  System.step_left (opened_run_isSome List.mem_cons_self)

def openedRead : SampleState := (System.step opened (.act 1 (.db {}))).get opened_read_isSome

theorem openedRead_run_isSome {as : List (protocol sampleDeps sampleGithub).Act}
    (h : as ∈ [closeRun, mergeRun]) : (System.run openedRead (.act 1 (.db {}) ::
      .act 1 (.github {}) :: (as ++ [sampleCas]))).isSome :=
  System.step_right (opened_run_isSome h) opened_read_isSome

theorem opened_intent_isSome : (System.step openedRead (.act 1 (.db {}))).isSome :=
  System.step_left (openedRead_run_isSome List.mem_cons_self)

/-- Before it looks up. -/
def openedIntent : SampleState :=
  (System.step openedRead (.act 1 (.db {}))).get opened_intent_isSome

theorem openedIntent_run_isSome {as : List (protocol sampleDeps sampleGithub).Act}
    (h : as ∈ [closeRun, mergeRun]) :
    (System.run openedIntent (.act 1 (.github {}) :: (as ++ [sampleCas]))).isSome :=
  System.step_right (openedRead_run_isSome h) opened_intent_isSome

theorem opened_look_isSome : (System.step openedIntent (.act 1 (.github {}))).isSome :=
  System.step_left (openedIntent_run_isSome List.mem_cons_self)

def openedLook : SampleState :=
  (System.step openedIntent (.act 1 (.github {}))).get opened_look_isSome

theorem openedLook_run_isSome {as : List (protocol sampleDeps sampleGithub).Act}
    (h : as ∈ [closeRun, mergeRun]) : (System.run openedLook (as ++ [sampleCas])).isSome :=
  System.step_right (openedIntent_run_isSome h) opened_look_isSome

theorem closeRun_isSome : (System.run openedLook closeRun).isSome :=
  System.run_left (openedLook_run_isSome List.mem_cons_self)

theorem mergeRun_isSome : (System.run openedLook mergeRun).isSome :=
  System.run_left (openedLook_run_isSome (List.mem_cons_of_mem _ List.mem_cons_self))

/-- Before the compare-and-set. -/
def closedCas : SampleState := (System.run openedLook closeRun).get closeRun_isSome

def mergedCas : SampleState := (System.run openedLook mergeRun).get mergeRun_isSome

theorem closedCas_isSome : (System.step closedCas sampleCas).isSome :=
  System.step_left (System.run_right (openedLook_run_isSome List.mem_cons_self) closeRun_isSome)

theorem mergedCas_isSome : (System.step mergedCas sampleCas).isSome :=
  System.step_left (System.run_right
    (openedLook_run_isSome (List.mem_cons_of_mem _ List.mem_cons_self)) mergeRun_isSome)

def closedDone : SampleState := (System.step closedCas sampleCas).get closedCas_isSome

def mergedDone : SampleState := (System.step mergedCas sampleCas).get mergedCas_isSome

theorem openedLook_reaches : System.Reaches openedRead openedLook :=
  (System.Reaches.single (Option.some_get opened_intent_isSome).symm).trans
    (System.Reaches.single (Option.some_get opened_look_isSome).symm)

/-- The cancel over a run after its lookup. -/
theorem sample_cancelRun {as : List (protocol sampleDeps sampleGithub).Act} {s₂ s₃ : SampleState}
    (hrun : System.run openedLook as = some s₂)
    (hcas : ∃ th id expected stage fields event version k ans, s₂.threads[1]? = some th ∧
      th.rest = .call (.store (.transition id expected stage fields event version)) k ∧
      System.step s₂ (.act 1 ans) = some s₃) :
    CancelRun ⟨⟨"sub-2", none⟩, 1, none⟩ 1 opened openedRead s₂ s₃ where
  read := ⟨_, _, _, .db {}, rfl, rfl, rfl, (Option.some_get opened_read_isSome).symm⟩
  between := openedLook_reaches.trans (System.reaches_of_run hrun)
  cas := hcas

theorem mergedCas_cancelRun :
    CancelRun ⟨⟨"sub-2", none⟩, 1, none⟩ 1 opened openedRead mergedCas mergedDone :=
  sample_cancelRun (Option.some_get mergeRun_isSome).symm
    ⟨_, _, _, _, _, _, _, _, .db { now := sampleTime + 20000000 }, rfl, rfl,
      (Option.some_get mergedCas_isSome).symm⟩

theorem closedCas_cancelRun :
    CancelRun ⟨⟨"sub-2", none⟩, 1, none⟩ 1 opened openedRead closedCas closedDone :=
  sample_cancelRun (Option.some_get closeRun_isSome).symm
    ⟨_, _, _, _, _, _, _, _, .db { now := sampleTime + 20000000 }, rfl, rfl,
      (Option.some_get closedCas_isSome).symm⟩

/-- The one row of these runs. -/
def openedRow : RequestRow := (opened.shared.db.requests.rows.head?).getD
  (newRow (submitInput samplePost sampleBase sampleChange sampleKey) 1 sampleTime)

def mergedPull : Pull where
  number := 8
  url := "u8"
  createdAt := "2026-10-17T09:00:00Z"
  headOwner := "dasomel"
  headRepo := some "beluga"
  headRef := sampleBranch
  status := .merged "2026-10-17T09:01:00Z" sampleBase.commitSha

/-- A merged pull request is not always spared: the close is answered `merged`, and that
is dropped. -/
theorem merged_request_fails : ¬ ∀ (req : CancelRequest) (t : Nat) (s₀ s₁ s₂ s₃ : SampleState),
    (protocol sampleDeps sampleGithub).Reachable (start sampleGithub sampleHub) s₀ →
    CancelRun req t s₀ s₁ s₂ s₃ →
    ∀ row ∈ s₂.shared.db.requests.rows, row.id = req.id → SparesMerged row s₂ s₃ := by
  intro hall
  have hrow : openedRow ∈ mergedCas.shared.db.requests.rows := by decide +kernel
  have hspared := hall _ 1 opened openedRead mergedCas mergedDone
    (System.reachable_get openRun_isSome) mergedCas_cancelRun openedRow hrow (by decide +kernel)
  have hpull : mergedPull ∈ mergedCas.shared.github.pulls := by decide +kernel
  have hnumber : (toRecord openedRow).prNumber = some 8 := by decide +kernel
  have hof : mergedPull.Of sampleDeps (toRecord openedRow) := by
    unfold Pull.Of
    rw [hnumber]
    rfl
  refine hspared ⟨mergedPull, hpull, hof, ⟨_, _, rfl⟩⟩ ?_
  unfold Committed
  decide +kernel

/-- `cancel_spares_merged` for that cancel where nobody merges. -/
theorem cancel_spares_merged_closed :
    SparesMerged openedRow closedCas closedDone ∧ Committed closedCas closedDone := by
  have hrow : openedRow ∈ closedCas.shared.db.requests.rows := by decide +kernel
  have hspares := (cancel_spares_merged sampleDeps sampleContents sampleHub
    ⟨⟨"sub-2", none⟩, 1, none⟩ 1 opened openedRead closedCas closedDone
    (System.reachable_get openRun_isSome) closedCas_cancelRun openedRow hrow
    (by decide +kernel)).2 openedIntent openedLook closeRun ⟨?_, ?_, ?_⟩
  · refine ⟨hspares.1 ⟨?_, ?_⟩, ?_⟩
    · -- no act of this run is a merge
      rintro a ha pull - - ⟨at_, sha, rfl⟩
      simp [closeRun] at ha
    · have hnone : ∀ pull ∈ openedIntent.shared.github.pulls, ¬ pull.Merged := by decide +kernel
      exact fun pull hpull _ hm => absurd hm (hnone pull hpull)
    · unfold Committed
      decide +kernel
  · exact System.Reaches.single (Option.some_get opened_intent_isSome).symm
  · exact ⟨_, _, _, .github {}, rfl, rfl, trivial, (Option.some_get opened_look_isSome).symm⟩
  · exact (Option.some_get closeRun_isSome).symm

end Sso
