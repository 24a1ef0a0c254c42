import Beluga.Sso.Discipline

/-! # The GitHub client follows the discipline

One lemma for each call a program makes (`wp_callStore`, `wp_trace`, `wp_api`)
and one for each client method the handlers and the reconciler use. A method
that only reads leaves the run as it is; `createChangePr` and `closePr` write
for the request of the run they are called in.
-/

namespace Sso

open Interact Interact.Logic

variable {deps : Deps} {W : World} {F : Facts deps W} {t : Nat} {run : Run} {s : Shared W}
  {α : Type}

/-- The postconditions of this logic. -/
abbrev RunPost (deps : Deps) (W : World) (α : Type) := Post (protocol deps W) Run JsError α

/-! ## Single calls -/

theorem wp_callStore {op : StoreOp} {Q : RunPost deps W op.Result}
    (hok : ∀ s₁, Consistent s₁.db → Rely F s s₁ → Disciplined F run s₁ (.store op))
    (h : ∀ s₁ a r db s₂, Consistent s₁.db → Rely F s s₁ → storeExec s₁.db t op a = some (r, db) →
      Consistent s₂.db → Rely F ⟨db, s₁.github⟩ s₂ →
      Q (Except.mapError .store r) (run.call op r) s₂) :
    (discipline F).wp t (callStore op) Q run s := by
  refine wp_perform fun s₁ hs₁ hr => ⟨hok s₁ hs₁ hr, fun ans r s' hserve hs' => ?_⟩
  obtain ⟨a, db, hx, rfl⟩ := serve_store hserve
  exact wp_ofExcept fun s₂ hs₂ hr₂ => h s₁ a r db s₂ hs₁ hr hx hs₂ hr₂

theorem wp_trace {m : Mark} {f : Unit → Async α} {Q : RunPost deps W α}
    (hok : ∀ s₁, Consistent s₁.db → Rely F s s₁ → Disciplined F run s₁ (.trace m))
    (h : ∀ s₁, Consistent s₁.db → Rely F s s₁ →
      (discipline F).wp t (f ()) Q (run.upd (.trace m) ()) s₁) :
    (discipline F).wp t (trace m >>= f) Q run s := by
  refine wp_perform fun s₁ hs₁ hr => ⟨hok s₁ hs₁ hr, fun a r s' hx hs' => ?_⟩
  cases a with
  | mark =>
      cases hx
      exact h s₁ hs₁ hr
  | _ => simp [serve] at hx

theorem wp_api {req : ApiRequest} {Q : RunPost deps W Reply}
    (hok : ∀ s₁, Consistent s₁.db → Rely F s s₁ → req.IsWrite → WriteOk run s₁ req)
    (h : ∀ s₁ a r g s₂, Rely F s s₁ → W.serve s₁.github req a = some (r, g) →
      Consistent s₂.db → Rely F ⟨s₁.db, g⟩ s₂ → Rely F s s₂ →
      Q (Except.mapError .githubUnavailable r) run s₂) :
    (discipline F).wp t (api req) Q run s := by
  refine wp_perform fun s₁ hs₁ hr => ⟨hok s₁ hs₁ hr, fun ans r s' hserve hs' => ?_⟩
  obtain ⟨a, g, hx, rfl⟩ := serve_api hserve
  have hstep : Rely F s₁ ⟨s₁.db, g⟩ := ⟨.refl _, F.serve_owns hx⟩
  refine wp_ofExcept fun s₂ hs₂ hr₂ => h s₁ a r g s₂ hr hx hs₂ hr₂ ?_
  exact hr.trans (hstep.trans hr₂)

/-- A program ends in a state that its start leads to. -/
theorem wp_with_rely {p : Async α} {Q : RunPost deps W α}
    (h : (discipline F).wp t p Q run s) :
    (discipline F).wp t p (fun r run' s' => Q r run' s' ∧ Rely F s s') run s :=
  wp_and_rely (fun _ _ _ _ _ _ _ hok hx => Disciplined.rely hok hx) h

/-! ## Programs whose calls need no reasoning -/

/-- Calls that neither touch the store nor mark a point of the code; a write
names a branch that satisfies `P`. -/
def Plain (P : ApiRequest → Prop) : Op → Prop
  | .store _ | .trace _ => False
  | .api req => req.IsWrite → P req
  | _ => True

abbrev Reads : Op → Prop := Plain fun _ => False

theorem wp_plain {P : ApiRequest → Prop} {p : Async α} {Q : RunPost deps W α}
    (hp : p.Calls (Plain P))
    (hok : ∀ s₁, Consistent s₁.db → Rely F s s₁ → ∀ req, P req → WriteOk run s₁ req)
    (h : ∀ r s₁, Consistent s₁.db → Rely F s s₁ → Q r run s₁) :
    (discipline F).wp t p Q run s := by
  refine wp_of_calls hp ?_ ?_ ?_ h
  · rintro (_ | req | _ | _ | _ | _) s₁ hP hs₁ hr
    · exact hP.elim
    · exact fun hw => hok s₁ hs₁ hr req (hP hw)
    · trivial
    · trivial
    · trivial
    · exact hP.elim
  · rintro (_ | _ | _ | _ | _ | _) r hP
    · exact hP.elim
    · rfl
    · rfl
    · rfl
    · rfl
    · exact hP.elim
  · rintro op a r s₁ s₂ hP hs₁ hx
    rcases serve_cases hx with ⟨_, rfl, -⟩ | ⟨_, _, _, rfl, hdb, hx⟩ | ⟨rfl, -⟩
    · exact hP.elim
    · exact ⟨by rw [hdb]; exact .refl _, F.serve_owns hx⟩
    · exact .refl _

/-- A program that only reads leaves the run as it is. -/
theorem wp_reads {p : Async α} {Q : RunPost deps W α} (hp : p.Calls Reads)
    (h : ∀ r s₁, Consistent s₁.db → Rely F s s₁ → Q r run s₁) :
    (discipline F).wp t p Q run s :=
  wp_plain hp (fun _ _ _ _ hP => hP.elim) h

theorem calls_api {P : ApiRequest → Prop} {req : ApiRequest} (h : req.IsWrite → P req) :
    (api req).Calls (Plain P) :=
  Prog.Calls.bind (Prog.Calls.perform h) fun _ => .ofExcept _

/-- The same for a call that reads. -/
theorem calls_read {P : ApiRequest → Prop} {req : ApiRequest} (h : ¬ req.IsWrite) :
    (api req).Calls (Plain P) :=
  calls_api fun hw => absurd hw h

theorem calls_now {P : ApiRequest → Prop} : now.Calls (Plain P) := Prog.Calls.perform trivial

theorem calls_guardBranch {P : ApiRequest → Prop} (branch : String) :
    (guardBranch branch).Calls (Plain P) := by
  unfold guardBranch
  split <;> trivial

theorem calls_findBranch {P : ApiRequest → Prop} (branch : String) :
    (findBranch branch).Calls (Plain P) := by
  refine Prog.Calls.bind (calls_guardBranch branch) fun _ =>
    Prog.Calls.bind (calls_read (by simp [ApiRequest.IsWrite])) fun res => ?_
  repeat' split
  all_goals trivial

theorem calls_findPrByBranch {P : ApiRequest → Prop} (branch : String) (notBefore : Option Int) :
    (findPrByBranch deps branch notBefore).Calls (Plain P) :=
  Prog.Calls.bind (calls_guardBranch branch) fun _ =>
    Prog.Calls.bind (calls_read (by simp [ApiRequest.IsWrite])) fun _ => .ofExcept _

theorem calls_getPr {P : ApiRequest → Prop} (number : Int) :
    (getPr deps number).Calls (Plain P) := by
  unfold getPr
  split
  · trivial
  · exact Prog.Calls.bind (calls_read (by simp [ApiRequest.IsWrite])) fun _ => .ofExcept _

theorem calls_readContents {P : ApiRequest → Prop} (path ref : String) :
    (readContents path ref).Calls (Plain P) :=
  Prog.Calls.bind (calls_read (by simp [ApiRequest.IsWrite])) fun _ => .ofExcept _

theorem calls_readFile {P : ApiRequest → Prop} (path ref : String) :
    (readFile path ref).Calls (Plain P) := by
  unfold readFile
  split
  · trivial
  · refine Prog.Calls.bind (calls_readContents path ref) fun file => ?_
    cases file <;> trivial

theorem calls_compare {P : ApiRequest → Prop} (base head : String) :
    (compare base head).Calls (Plain P) := by
  unfold compare
  split
  · trivial
  · refine Prog.Calls.bind (calls_read (by simp [ApiRequest.IsWrite])) fun res => ?_
    repeat' split
    all_goals trivial

theorem calls_listOpenSsoPrs {P : ApiRequest → Prop} : (listOpenSsoPrs deps).Calls (Plain P) := by
  have hpages : ∀ left out page, (listOpenPages deps out page left).Calls (Plain P) := by
    intro left
    induction left with
    | zero => intro out page; trivial
    | succ left ih =>
        intro out page
        refine Prog.Calls.bind (calls_read (by simp [ApiRequest.IsWrite])) fun res => ?_
        repeat' split
        · trivial
        · trivial
        · exact ih _ _
        · trivial
  exact hpages _ _ _

/-! ## Looking up a pull request -/

theorem wp_guardBranch {branch : String} {Q : RunPost deps W Unit}
    (h : ∀ r s₁, Consistent s₁.db → Rely F s s₁ → Q r run s₁) :
    (discipline F).wp t (guardBranch branch) Q run s :=
  wp_reads (calls_guardBranch branch) h

theorem wp_findPrByBranch {branch : String} {bound : Option Int} {Q : RunPost deps W (Option PrInfo)}
    (hs : Consistent s.db)
    (h : ∀ r s₁, Consistent s₁.db → Rely F s s₁ →
      (∀ pr, r = .ok (some pr) → F.owns s₁.github branch bound pr.number) → Q r run s₁) :
    (discipline F).wp t (findPrByBranch deps branch bound) Q run s := by
  refine wp_seq hs (R := fun _ run' s' => run' = run ∧ Rely F s s')
    (wp_guardBranch fun _ s₁ _ hr => ⟨rfl, hr⟩) ?_ ?_
  · rintro ⟨⟩ run' s' hs' ⟨rfl, hr⟩
    refine wp_seq hs' (R := fun r run'' s'' => run'' = run' ∧ Rely F s s'' ∧
      ∀ res pr, r = .ok res → pickPr deps bound res = .ok (some pr) →
        F.owns s''.github branch bound pr.number) (wp_api (by simp [ApiRequest.IsWrite]) ?_) ?_ ?_
    · intro s₁ a r g s₂ _ hx _ hr₂ hr'
      refine ⟨rfl, hr.trans hr', fun res pr hres hpick => ?_⟩
      cases r with
      | error e => cases hres
      | ok res' =>
          cases hres
          exact hr₂.owns (F.listed hx hpick)
    · rintro res run'' s'' _ ⟨rfl, hr', hpick⟩
      refine wp_ofExcept fun s₁ hs₁ hr₁ => h _ _ hs₁ (hr'.trans hr₁) ?_
      intro pr hpr
      exact hr₁.owns (hpick res pr rfl hpr)
    · rintro e run'' s'' hs'' ⟨rfl, hr', -⟩
      exact h _ _ hs'' hr' (by simp)
  · rintro e run' s' hs' ⟨rfl, hr⟩
    exact h _ _ hs' hr (by simp)

/-! ## Writing -/

/-- The writes of `createChangePr` all name its branch. -/
abbrev WritesTo (branch : String) : Op → Prop := Plain fun req => req.branch? = some branch

theorem branch?_createRef (branch sha : String) :
    (ApiRequest.createRef ("refs/heads/" ++ branch) sha).branch? = some branch := by
  simp [ApiRequest.branch?, String.toList_append]

theorem calls_ensureBranch (input : CreateChangePrInput) :
    (ensureBranch input).Calls (WritesTo input.branch) := by
  refine Prog.Calls.bind (calls_api fun _ => branch?_createRef _ _) fun ref => ?_
  split_ifs
  · trivial
  · refine Prog.Calls.bind (calls_findBranch input.branch) fun found => ?_
    cases found <;> trivial
  · trivial

theorem calls_putFile (input : CreateChangePrInput) (blobSha : String) :
    (putFile input blobSha).Calls (WritesTo input.branch) := by
  refine Prog.Calls.bind (calls_api fun _ => rfl) fun put => ?_
  split_ifs
  · trivial
  · refine Prog.Calls.bind (calls_readContents _ _) fun file => ?_
    cases file with
    | none => trivial
    | some file => dsimp only; split_ifs <;> trivial
  · trivial

theorem calls_ensureFile (input : CreateChangePrInput) :
    (ensureFile input).Calls (WritesTo input.branch) := by
  refine Prog.Calls.bind (calls_readContents _ _) fun file => ?_
  cases file with
  | none => trivial
  | some file =>
      dsimp only
      split_ifs
      · trivial
      · trivial
      · exact calls_putFile input _

/-- What is known when the step that opens the pull request ends. -/
def Opened (F : Facts deps W) (run : Run) (input : CreateChangePrInput) :
    RunPost deps W CreatedPr
  | .ok pr, run', s' =>
      (run' = run.mark (.opened input.branch pr.prNumber) ∧
        F.owns s'.github input.branch none pr.prNumber) ∨
      (run' = run.mark (.adopted input.branch pr.prNumber) ∧
        F.owns s'.github input.branch input.notBefore pr.prNumber)
  | .error _, run', _ => run' = run

theorem wp_ensurePull {input : CreateChangePrInput} (hs : Consistent s.db)
    (hwrite : ∀ s₁, Rely F s s₁ → ∀ req, req.branch? = some input.branch → WriteOk run s₁ req) :
    (discipline F).wp t (ensurePull deps input) (Opened F run input) run s := by
  refine wp_seq hs (R := fun r run' s' => run' = run ∧ Rely F s s' ∧
    ∀ res pr, r = .ok res → res.status = 201 → toPr res.json = some pr →
      F.owns s'.github input.branch none pr.number)
    (wp_api (fun s₁ _ hr _ => hwrite s₁ hr _ rfl) ?_) ?_ ?_
  · intro s₁ a r g s₂ _ hx _ hr₂ hr'
    refine ⟨rfl, hr', fun res pr hres hstatus hpr => ?_⟩
    cases r with
    | error e => cases hres
    | ok res' =>
        cases hres
        exact hr₂.owns (F.opened hx hstatus hpr)
  · rintro created run' s' hs' ⟨rfl, hr, hopened⟩
    split_ifs with h201 h422
    · -- its own 201 answer
      split
      · exact wp_raise fun _ _ _ => rfl
      · next pr hpr =>
          refine wp_trace (fun _ _ _ => trivial) fun s₁ _ hr₁ => wp_ret fun s₂ _ hr₂ => ?_
          exact .inl ⟨rfl, hr₂.owns (hr₁.owns (hopened created pr rfl h201 hpr))⟩
    · -- the one that already exists
      refine wp_seq hs' (R := fun r run'' s'' => run'' = run' ∧
        ∀ pr, r = .ok (some pr) → F.owns s''.github input.branch input.notBefore pr.number)
        (wp_findPrByBranch hs' fun _ _ _ _ howns => ⟨rfl, howns⟩) ?_ ?_
      · rintro found run'' s'' _ ⟨rfl, howns⟩
        cases found with
        | none => exact wp_raise fun _ _ _ => rfl
        | some pr =>
            refine wp_trace (fun _ _ _ => trivial) fun s₁ _ hr₁ => wp_ret fun s₂ _ hr₂ => ?_
            exact .inr ⟨rfl, hr₂.owns (hr₁.owns (howns pr rfl))⟩
      · rintro e run'' s'' _ ⟨rfl, -⟩
        rfl
    · exact wp_raise fun _ _ _ => rfl
  · rintro e run' s' _ ⟨rfl, -⟩
    rfl

theorem wp_createChangePrUnguarded {input : CreateChangePrInput} (hs : Consistent s.db)
    (hwrite : ∀ s₁, Rely F s s₁ → ∀ req, req.branch? = some input.branch → WriteOk run s₁ req) :
    (discipline F).wp t (createChangePrUnguarded deps input) (Opened F run input) run s := by
  have hplain : ∀ {β : Type} {p : Async β}, p.Calls (WritesTo input.branch) → ∀ s₁, Rely F s s₁ →
      (discipline F).wp t p (fun _ run' s' => run' = run ∧ Rely F s s') run s₁ :=
    fun hp s₁ hr => wp_plain hp (fun s₂ _ hr₂ req hreq =>
      hwrite s₂ (hr.trans hr₂) req hreq)
      fun _ s₂ _ hr₂ => ⟨rfl, hr.trans hr₂⟩
  refine wp_seq hs (hplain (calls_guardBranch _) s (.refl s)) ?_
    fun e run' _ _ h => h.1
  rintro ⟨⟩ run' s₁ hs₁ ⟨rfl, hr₁⟩
  split_ifs with hpath hsha
  · exact wp_raise fun _ _ _ => rfl
  swap
  · exact wp_raise fun _ _ _ => rfl
  refine wp_seq hs₁ (hplain (calls_ensureBranch _) s₁ hr₁) ?_ fun e run' _ _ h => h.1
  rintro ⟨⟩ run'' s₂ hs₂ ⟨rfl, hr₂⟩
  refine wp_seq hs₂ (hplain (calls_ensureFile _) s₂ hr₂) ?_ fun e run' _ _ h => h.1
  rintro ⟨⟩ run' s₃ hs₃ ⟨rfl, hr₃⟩
  exact wp_ensurePull hs₃ fun s₄ hr₄ => hwrite s₄ (hr₃.trans hr₄)

/-- What is known when `createChangePr` ends: which pull request it returned
and how it got it, or a `GitWriteError`. -/
def Created (F : Facts deps W) (run : Run) (input : CreateChangePrInput) :
    RunPost deps W CreatedPr
  | .ok pr, run', s' => Opened F (run.mark (.createChangePr input)) input (.ok pr) run' s'
  | .error e, run', _ =>
      run' = run.mark (.createChangePr input) ∧ ∃ kind message, e = .gitWrite kind message

theorem wp_createChangePr {input : CreateChangePrInput}
    (hcreate : CreateOk run input)
    (hwrite : ∀ s₁, Rely F s s₁ → ∀ req, req.branch? = some input.branch → WriteOk run s₁ req) :
    (discipline F).wp t (createChangePr deps input) (Created F run input) run s := by
  refine wp_trace (fun _ _ _ => hcreate) fun s₁ hs₁ hr => ?_
  have hwrite' : ∀ s₂, Rely F s₁ s₂ → ∀ req, req.branch? = some input.branch →
      WriteOk (run.mark (.createChangePr input)) s₂ req := fun s₂ hr₂ req hreq =>
    (hwrite s₂ (hr.trans hr₂) req hreq).mark _
  refine wp_try hs₁ (wp_createChangePrUnguarded hs₁ hwrite') ?_
  rintro (e | pr) run' s₂ _ hopened
  · obtain rfl : run' = _ := hopened
    cases e <;> exact wp_raise fun _ _ _ => ⟨rfl, _, _, rfl⟩
  · refine wp_ret fun s₃ _ hr₃ => ?_
    rcases hopened with ⟨rfl, howns⟩ | ⟨rfl, howns⟩
    · exact .inl ⟨rfl, hr₃.owns howns⟩
    · exact .inr ⟨rfl, hr₃.owns howns⟩

theorem wp_closePr {n : Int}
    (hclose : ∀ s₁, Consistent s₁.db → Rely F s s₁ → CloseOk F run s₁ n)
    (hwrite : ∀ s₁, Rely F s s₁ → WriteOk run s₁ (.closePull n)) :
    (discipline F).wp t (closePr n) (fun _ run' s' => run' = run.mark (.closePr n) ∧ Rely F s s')
      run s := by
  refine wp_trace hclose fun s₁ _ hr => ?_
  refine wp_plain (P := fun req => req = .closePull n) ?_ ?_ fun _ s₂ _ hr₂ => ⟨rfl, hr.trans hr₂⟩
  · split_ifs
    · trivial
    · refine Prog.Calls.bind (calls_api fun _ => rfl) fun res => ?_
      repeat' split
      all_goals trivial
  · rintro s₂ _ hr₂ req rfl
    exact (hwrite s₂ (hr.trans hr₂)).mark _

end Sso
