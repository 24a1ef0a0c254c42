import Beluga.Sso.Rerun
import Mathlib.Data.List.Infix

/-! # One run of `createChangePr` among others

Rely on what the others leave (`RunsRely`), and every step ends as it should: one
lemma for each part of the program, `rerun_createChangePr` for the whole. An error is
only thrown after an answer was lost (`OrLost`).
-/

namespace Sso

open Interact

variable {deps : Deps} {contents : Contents} {input : CreateChangePrInput} {base : String}
  {g hub hub' : Hub deps}

/-! ## One run -/

/-- The call was answered by an error of the transport. -/
def answerLost : (op : Op) → Op.Rep op → Bool
  | .api _, .error _ => true
  | _, _ => false

/-- What a run may call and what it leaves to the others. The monitor says whether
it has lost an answer. -/
abbrev rerunLogic (deps : Deps) (contents : Contents) (input : CreateChangePrInput) (base : String)
    (g : Hub deps) : Logic (reruns deps contents input) Bool where
  inv := RunsInv deps input base g
  rely _ := RunsRely deps input g
  ok _ _ _ op := Permitted input op
  upd lost op r := lost || answerLost op r
  rely_refl := RunsRely.refl
  rely_trans := RunsRely.trans

/-- Ends in `R`; an error means that an answer was lost. -/
def OrLost {α : Type} (R : α → Hub deps → Prop) : Logic.Post (reruns deps contents input) Bool JsError α
  | .ok b, _, hub => R b hub
  | .error _, lost, _ => lost = true

/-- The target is on the branch. -/
def Written (input : CreateChangePrInput) (hub : Hub deps) : Prop :=
  ∃ b, hub.findRef input.branch = some b ∧ b.file = some input.content

section Run

variable {t : Nat} {lost : Bool} {α β : Type}

theorem rerun_bind {p : Async α} {f : α → Async β} {R : α → Hub deps → Prop}
    {R' : β → Hub deps → Prop} (hinv : RunsInv deps input base g hub)
    (hp : (rerunLogic deps contents input base g).wp t p (OrLost R) lost hub)
    (hf : ∀ b lost' hub', RunsInv deps input base g hub' → R b hub' →
      (rerunLogic deps contents input base g).wp t (f b) (OrLost R') lost' hub') :
    (rerunLogic deps contents input base g).wp t (p >>= f) (OrLost R') lost hub :=
  Logic.wp_seq hinv hp hf fun _ _ _ _ h => h

theorem rerun_ret {b : α} {R : α → Hub deps → Prop}
    (h : ∀ hub', RunsInv deps input base g hub' → RunsRely deps input g hub hub' → R b hub') :
    (rerunLogic deps contents input base g).wp t (.ret b) (OrLost R) lost hub :=
  Logic.wp_ret h

/-- A call: an answer of the repository, or the loss of one. -/
theorem rerun_api {req : ApiRequest} {R : Reply → Hub deps → Prop}
    (hok : Permitted input (.api req))
    (h : ∀ hub₁ a reply hub₂ hub₃, RunsInv deps input base g hub₁ → RunsRely deps input g hub hub₁ →
      hubServe contents hub₁ a req = some (reply, hub₂) → RunsInv deps input base g hub₂ →
      RunsRely deps input g hub₂ hub₃ → R reply hub₃) :
    (rerunLogic deps contents input base g).wp t (api req) (OrLost R) lost hub := by
  refine Logic.wp_perform fun hub₁ hinv₁ hr₁ => ⟨hok, fun a r hub₂ hx hinv₂ => ?_⟩
  refine Logic.wp_ofExcept fun hub₃ hinv₃ hr₃ => ?_
  obtain ⟨a', -, ⟨-, text, rfl⟩ | ⟨reply, hserve, rfl | ⟨text, rfl⟩⟩⟩ := reruns_exec_api hx
  · exact Bool.or_true lost
  · exact h hub₁ a' reply hub₂ hub₃ hinv₁ hr₁ hserve hinv₂ hr₃
  · exact Bool.or_true lost

theorem guardBranch_bind (hground : Grounded contents input base) (f : Unit → Async β) :
    (guardBranch input.branch >>= f) = f () := by
  rw [guardBranch, if_pos hground.branch]
  rfl

/-! ### The branch -/

theorem createRef_reply {a : GithubAnswer} {reply : Reply} {sha : String}
    (hx : hubServe contents hub a (.createRef ("refs/heads/" ++ input.branch) sha) =
      some (reply, hub')) :
    (hub'.findRef input.branch).isSome ∧ (reply.status = 201 ∨
      reply = { status := 422, json := some (messageJson "Reference already exists") }) := by
  simp only [hubServe, refBranch_append] at hx
  split at hx
  · next b hb =>
      cases hx
      exact ⟨Option.isSome_of_eq_some hb, .inr rfl⟩
  · next hnone =>
      cases hx
      refine ⟨?_, .inl rfl⟩
      rw [findRef_append, hnone, if_pos rfl]
      rfl

theorem exists_text : hasTextIgnoreCase "reference already exists"
    (errorText (some (messageJson "Reference already exists"))) = true := by decide

theorem rerun_findBranch (hground : Grounded contents input base)
    (hinv : RunsInv deps input base g hub) (hbranch : (hub.findRef input.branch).isSome) :
    (rerunLogic deps contents input base g).wp t (findBranch input.branch)
      (OrLost fun found hub' => found.isSome ∧ (hub'.findRef input.branch).isSome) lost hub := by
  unfold findBranch
  rw [guardBranch_bind hground]
  refine rerun_bind (R := fun res hub' => (hub'.findRef input.branch).isSome ∧
    ∃ tip, isSha tip ∧ res = { status := 200, json := some (.obj [("object", .obj [("sha", .str tip)])]) })
    hinv (rerun_api id ?_) ?_
  · intro hub₁ a reply hub₂ hub₃ hinv₁ hr₁ hx _ hr₃
    obtain ⟨b, hb⟩ := Option.isSome_iff_exists.mp (hr₁.branch hbranch)
    simp only [hubServe, hb] at hx
    cases hx
    exact ⟨hr₃.branch (Option.isSome_of_eq_some hb), b.tip, (hinv₁.branch b hb).1, rfl⟩
  · rintro _ lost' hub' hinv' ⟨hbranch', tip, htip, rfl⟩
    have hsha : (Json.asString (Json.field (Json.field (some (.obj [("object",
        .obj [("sha", .str tip)])])) "object") "sha")).filter isSha = some tip := by
      simp [Json.field, Json.asString, Option.filter, htip]
    simp only [hsha]
    exact rerun_ret fun hub₁ _ hr => ⟨rfl, hr.branch hbranch'⟩

theorem rerun_ensureBranch (hground : Grounded contents input base)
    (hinv : RunsInv deps input base g hub) :
    (rerunLogic deps contents input base g).wp t (ensureBranch input)
      (OrLost fun _ hub' => (hub'.findRef input.branch).isSome) lost hub := by
  unfold ensureBranch
  refine rerun_bind (R := fun reply hub' => (hub'.findRef input.branch).isSome ∧
    (reply.status = 201 ∨
      reply = { status := 422, json := some (messageJson "Reference already exists") })) hinv
    (rerun_api (fun _ => ⟨rfl, rfl⟩) ?_) ?_
  · intro hub₁ a reply hub₂ hub₃ _ _ hx _ hr₃
    obtain ⟨hbranch, hreply⟩ := createRef_reply hx
    exact ⟨hr₃.branch hbranch, hreply⟩
  · rintro ref lost' hub' hinv' ⟨hbranch, h201 | rfl⟩
    · rw [if_pos h201]
      exact rerun_ret fun hub₁ _ hr => hr.branch hbranch
    · rw [if_neg (by simp), if_pos ⟨rfl, exists_text⟩]
      refine rerun_bind hinv' (rerun_findBranch hground hinv' hbranch) ?_
      rintro found lost'' hub'' _ ⟨hfound, hbranch''⟩
      obtain ⟨sha, rfl⟩ := Option.isSome_iff_exists.mp hfound
      exact rerun_ret fun hub₁ _ hr => hr.branch hbranch''

/-! ### The file -/

theorem rerun_readContents (hinv : RunsInv deps input base g hub)
    (hbranch : (hub.findRef input.branch).isSome) :
    (rerunLogic deps contents input base g).wp t (readContents SSO_FILE_PATH input.branch)
      (OrLost fun file hub' => (hub'.findRef input.branch).isSome ∧
        ∃ text, file = some ⟨contents.blobSha text, text⟩ ∧
          (text = base ∨ text = input.content) ∧ (Written input hub → text = input.content))
      lost hub := by
  refine rerun_bind (R := fun res hub' => (hub'.findRef input.branch).isSome ∧
    ∃ text, res = { status := 200, json := some (.obj [("path", .str SSO_FILE_PATH),
        ("sha", .str (contents.blobSha text)), ("content", .str text)]) } ∧
      (text = base ∨ text = input.content) ∧ (Written input hub → text = input.content))
    hinv (rerun_api id ?_) ?_
  · intro hub₁ a reply hub₂ hub₃ hinv₁ hr₁ hx _ hr₃
    obtain ⟨b, hb⟩ := Option.isSome_iff_exists.mp (hr₁.branch hbranch)
    have hwritten : Written input hub → b.file = some input.content := by
      intro hfile
      obtain ⟨b', hb', hfile'⟩ := hr₁.file hfile
      rw [hb] at hb'
      cases hb'
      exact hfile'
    obtain ⟨text, htext, hcases⟩ : ∃ text, b.file = some text ∧
        (text = base ∨ text = input.content) := by
      rcases (hinv₁.branch b hb).2 with h | h
      · exact ⟨_, h, .inl rfl⟩
      · exact ⟨_, h, .inr rfl⟩
    simp only [hubServe, Contents.read, hb, if_true, htext] at hx
    cases hx
    refine ⟨hr₃.branch (Option.isSome_of_eq_some hb), text, rfl, hcases, fun hfile => ?_⟩
    exact Option.some.inj (htext.symm.trans (hwritten hfile))
  · rintro _ lost' hub' hinv' ⟨hbranch', text, rfl, htext⟩
    have hfile : toFile SSO_FILE_PATH { status := 200, json := some (.obj [("path",
        .str SSO_FILE_PATH), ("sha", .str (contents.blobSha text)), ("content", .str text)]) } =
        .ok (some ⟨contents.blobSha text, text⟩) := by
      simp [toFile, Json.field, Json.asString, Option.filter, contents.blobSha_isSha]
    rw [hfile]
    exact rerun_ret fun hub₁ _ hr => ⟨hr.branch hbranch', text, rfl, htext⟩

/-- A write over the base blob succeeds, or another run has written. -/
theorem putContents_reply (hground : Grounded contents input base)
    (hinv : RunsInv deps input base g hub) (hbranch : (hub.findRef input.branch).isSome)
    {a : GithubAnswer} {reply : Reply} {message : String}
    (hx : hubServe contents hub a (.putContents SSO_FILE_PATH message input.content
      input.baseBlobSha input.branch) = some (reply, hub')) :
    reply.status = 200 ∨ (reply.status = 409 ∨ reply.status = 422) ∧ Written input hub' := by
  obtain ⟨b, hb⟩ := Option.isSome_iff_exists.mp hbranch
  simp only [hubServe, hb] at hx
  split_ifs at hx with hblob htip hconflict
  · cases hx
    exact .inl rfl
  all_goals
    cases hx
    have hfile : b.file = some input.content := by
      refine (hinv.branch b hb).2.resolve_left fun hbase => hblob ⟨trivial, ?_⟩
      rw [hbase, Option.map_some, hground.blob]
    refine .inr ⟨?_, b, hb, hfile⟩
  · exact .inl rfl
  · exact .inr rfl

theorem rerun_putFile (hground : Grounded contents input base)
    (hinv : RunsInv deps input base g hub) (hbranch : (hub.findRef input.branch).isSome) :
    (rerunLogic deps contents input base g).wp t (putFile input input.baseBlobSha)
      (OrLost fun _ hub' => (hub'.findRef input.branch).isSome) lost hub := by
  unfold putFile
  rw [hground.path]
  refine rerun_bind (R := fun reply hub' => (hub'.findRef input.branch).isSome ∧
    (reply.status = 200 ∨ (reply.status = 409 ∨ reply.status = 422) ∧ Written input hub'))
    hinv (rerun_api (fun _ => ⟨rfl, rfl, rfl⟩) ?_) ?_
  · intro hub₁ a reply hub₂ hub₃ hinv₁ hr₁ hx _ hr₃
    have hbranch₁ := hr₁.branch hbranch
    refine ⟨hr₃.branch ((putContents_keeps hinv₁ hx).2.branch hbranch₁), ?_⟩
    exact (putContents_reply hground hinv₁ hbranch₁ hx).imp_right (And.imp_right hr₃.file)
  · rintro put lost' hub' hinv' ⟨hbranch', hput⟩
    split_ifs with hok hrefused
    · exact rerun_ret fun hub₁ _ hr => hr.branch hbranch'
    · -- the other run wrote the target, and it stays
      have hwritten : Written input hub' := by
        rcases hput with h200 | ⟨-, hwritten⟩
        · exact absurd (.inl h200) hok
        · exact hwritten
      refine rerun_bind hinv' (rerun_readContents hinv' hbranch') ?_
      rintro _ lost'' hub'' _ ⟨hbranch'', text, rfl, -, htext⟩
      simp only [htext hwritten, if_true]
      exact rerun_ret fun hub₁ _ hr => hr.branch hbranch''
    · rcases hput with h200 | ⟨hstatus, -⟩
      · exact absurd (.inl h200) hok
      · exact absurd hstatus hrefused

theorem rerun_ensureFile (hground : Grounded contents input base)
    (hinv : RunsInv deps input base g hub) (hbranch : (hub.findRef input.branch).isSome) :
    (rerunLogic deps contents input base g).wp t (ensureFile input)
      (OrLost fun _ hub' => (hub'.findRef input.branch).isSome) lost hub := by
  unfold ensureFile
  rw [hground.path]
  refine rerun_bind hinv (rerun_readContents hinv hbranch) ?_
  rintro _ lost' hub' hinv' ⟨hbranch', text, rfl, htext, -⟩
  simp only
  split_ifs with hcontent hblob
  · exact rerun_ret fun hub₁ _ hr => hr.branch hbranch'
  · -- the file is the base, so its blob is the base blob
    rcases htext with rfl | rfl
    · exact absurd hground.blob hblob
    · exact absurd rfl hcontent
  · rw [not_not.mp hblob]
    exact rerun_putFile hground hinv' hbranch'

/-! ### The pull request -/

theorem utf16Take_append {n : Nat} {xs ys : List Char} (hxs : ∀ c ∈ xs, c.toNat < 0x10000)
    (hn : xs.length ≤ n) : utf16Take n (xs ++ ys) = xs ++ utf16Take (n - xs.length) ys := by
  induction xs generalizing n with
  | nil => simp
  | cons c xs ih =>
      obtain ⟨n, rfl⟩ : ∃ m, n = m + 1 := ⟨n - 1, by simp at hn; omega⟩
      have hlen : xs.length ≤ n := by simpa using hn
      rw [List.cons_append, utf16Take, if_pos (hxs c List.mem_cons_self),
        ih (fun c hc => hxs c (List.mem_cons_of_mem _ hc)) hlen]
      simp

theorem hasText_of_infix {pattern before after : List Char} :
    hasText pattern (before ++ pattern ++ after) = true := by
  refine List.any_eq_true.mpr ⟨pattern ++ after, ?_, by simp⟩
  exact (List.mem_tails _ _).mpr ⟨before, by simp⟩

/-- The answer when an open pull request for the head is there. -/
def pullExists (head : String) : Reply where
  status := 422
  json := some (.obj [("message", .str "Validation Failed"),
    ("errors", .arr [messageJson ("A pull request already exists for " ++ head ++ ".")])])

theorem pullExists_errorText (head : String) : (errorText (pullExists head).json).toList =
    "Validation Failed | A ".toList ++ "pull request already exists".toList ++
      (" for ".toList ++ utf16Take 246 (head ++ ".").toList) := by
  have hjoin : (" | ".intercalate ["Validation Failed",
      "A pull request already exists for " ++ head ++ "."]).toList =
      "Validation Failed | A pull request already exists for ".toList ++ (head ++ ".").toList := by
    rw [String.intercalate_cons_cons, String.intercalate_singleton]
    simp only [String.toList_append, List.append_assoc]
    rfl
  -- the cut at 300 comes after the fixed part
  have htake : utf16Take 300 ("Validation Failed | A pull request already exists for ".toList ++
      (head ++ ".").toList) = "Validation Failed | A pull request already exists for ".toList ++
        utf16Take 246 (head ++ ".").toList :=
    utf16Take_append (by simp) (by simp)
  have htext : errorText (pullExists head).json =
      String.ofList (utf16Take 300 (" | ".intercalate ["Validation Failed",
        "A pull request already exists for " ++ head ++ "."]).toList) := rfl
  rw [htext, String.toList_ofList, hjoin, htake]
  rfl

theorem pullExists_text (head : String) :
    hasTextIgnoreCase "pull request already exists" (errorText (pullExists head).json) = true := by
  rw [hasTextIgnoreCase, pullExists_errorText, List.map_append, List.map_append]
  exact hasText_of_infix

/-- The pull request that was opened for the branch. -/
def OpenedAs (deps : Deps) (input : CreateChangePrInput) (g : Hub deps) (number : Int)
    (hub : Hub deps) : Prop :=
  ∃ p, heads deps input hub = heads deps input g ++ [p] ∧ p.number = number

theorem OpenedAs.mono {number : Int} (h : OpenedAs deps input g number hub)
    (hr : RunsRely deps input g hub hub') : OpenedAs deps input g number hub' := by
  obtain ⟨p, hp, hn⟩ := h
  exact ⟨p, hr.pulls p hp, hn⟩

/-- `POST /pulls` opens the pull request, or finds the open one. -/
theorem createPull_reply (hfresh : Fresh deps input g) (hinv : RunsInv deps input base g hub)
    (hinv' : RunsInv deps input base g hub') (hbranch : (hub.findRef input.branch).isSome)
    {a : GithubAnswer} {reply : Reply} {title target body : String}
    (hx : hubServe contents hub a (.createPull title input.branch target body) =
      some (reply, hub')) :
    ∃ p, heads deps input hub' = heads deps input g ++ [p] ∧
      (reply = { status := 201, json := some p.json } ∨ reply = pullExists input.branch) := by
  simp only [hubServe] at hx
  split_ifs at hx with hnone hany
  · rw [Option.isNone_iff_eq_none.mp hnone] at hbranch
    cases hbranch
  · cases hx
    obtain ⟨p, hp, hmatch⟩ := List.any_eq_true.mp hany
    obtain ⟨hours, href, hopen⟩ := of_decide_eq_true hmatch
    obtain ⟨q, hq⟩ := hinv.of_open hfresh hp hours href hopen
    exact ⟨q, hq, .inr rfl⟩
  · obtain ⟨hub₁, hadd, heq⟩ := Option.map_eq_some_iff.mp hx
    cases heq
    have hheads : heads deps input hub' = heads deps input hub ++ [runPull deps input a] := by
      rw [heads_append (Hub.addPull_pulls hadd).1]
      simp [atHead, runPull]
    refine ⟨runPull deps input a, ?_, .inl rfl⟩
    -- it is the last one, and only one was opened
    rcases hinv'.pulls with hsame | ⟨p, hp, -⟩
    · rcases hinv.pulls with hsame' | ⟨q, hq, -⟩
      · rw [hheads, hsame']
      · rw [hheads, hq] at hsame
        exact absurd (congrArg List.length hsame) (by simp)
    · rw [hheads] at hp
      have hlast := (List.append_inj' hp rfl).1
      rw [hheads, hlast]

/-- The newest of the head's pull requests is the one that was opened. -/
theorem listPulls_reply (hinv : RunsInv deps input base g hub) {a : GithubAnswer} {reply : Reply}
    {p : Pull} (hp : heads deps input hub = heads deps input g ++ [p])
    (hx : hubServe contents hub a (.listPulls deps.target.owner input.branch) =
      some (reply, hub')) :
    pickPr deps input.notBefore reply = .ok (some p.info) := by
  cases hx
  have hlisted : hub.listed deps.target.owner input.branch =
      p :: (heads deps input g).reverse.take 4 := by
    have hheads : hub.pulls.filter (fun p => p.headOwner = deps.target.owner ∧
        p.headRef = input.branch) = heads deps input g ++ [p] := hp
    rw [Hub.listed, hheads, List.reverse_append]
    rfl
  obtain ⟨hours, hopen, hnew⟩ : p.Ours deps ∧ p.status = .open ∧
      notOlder deps input.notBefore p.info := by
    rcases hinv.pulls with hsame | ⟨q, hq, hq'⟩
    · rw [hsame] at hp
      exact absurd (congrArg List.length hp) (by simp)
    · rw [hq] at hp
      obtain rfl := List.singleton_inj.mp (List.append_inj' hp rfl).2
      exact hq'
  have hstate : p.info.state = PrState.open := by simp [Pull.info, hopen]
  have hours' : isOurs deps (some p.json) = true := hours
  simp only [pickPr, Json.asArray, if_true, hlisted, List.map_cons, ourPrs]
  rw [List.filter_cons_of_pos (p := fun p => isOurs deps (some p)) hours',
    List.filterMap_cons_some (f := fun p => toPr (some p)) p.toPr_json,
    List.filter_cons_of_pos hnew, preferOpen, List.find?_cons_of_pos (by simpa using hstate)]
  rfl

theorem rerun_findPrByBranch (hground : Grounded contents input base)
    (hinv : RunsInv deps input base g hub) {p : Pull}
    (hp : heads deps input hub = heads deps input g ++ [p]) :
    (rerunLogic deps contents input base g).wp t
      (findPrByBranch deps input.branch input.notBefore)
      (OrLost fun found hub' => found = some p.info ∧ OpenedAs deps input g p.number hub')
      lost hub := by
  unfold findPrByBranch
  rw [guardBranch_bind hground]
  refine rerun_bind (R := fun res hub' => pickPr deps input.notBefore res = .ok (some p.info) ∧
    OpenedAs deps input g p.number hub') hinv (rerun_api id ?_) ?_
  · intro hub₁ a reply hub₂ hub₃ hinv₁ hr₁ hx hinv₂ hr₃
    have hp₁ := hr₁.pulls p hp
    have hsame : hub₂ = hub₁ := hubServe_read id hx
    rw [hsame] at hr₃
    exact ⟨listPulls_reply hinv₁ hp₁ hx, p, hr₃.pulls p hp₁, rfl⟩
  · rintro res lost' hub' hinv' ⟨hpick, hopened⟩
    rw [hpick]
    exact rerun_ret fun hub₁ _ hr => ⟨rfl, hopened.mono hr⟩

theorem rerun_trace {mark : Mark} {f : Unit → Async β} {R : β → Hub deps → Prop}
    (h : ∀ hub₁, RunsInv deps input base g hub₁ → RunsRely deps input g hub hub₁ →
      (rerunLogic deps contents input base g).wp t (f ()) (OrLost R) lost hub₁) :
    (rerunLogic deps contents input base g).wp t (trace mark >>= f) (OrLost R) lost hub := by
  refine Logic.wp_perform fun hub₁ hinv₁ hr₁ => ⟨trivial, fun a r hub₂ hx _ => ?_⟩
  have hsame : hub₂ = hub₁ := by
    simp only at hx
    split_ifs at hx
    cases a with
    | mark =>
        cases hx
        rfl
    | _ => simp [serveRun] at hx
  rw [hsame, show (rerunLogic deps contents input base g).upd lost (.trace mark) r = lost from
    Bool.or_false lost]
  exact h hub₁ hinv₁ hr₁

theorem rerun_ensurePull (hground : Grounded contents input base) (hfresh : Fresh deps input g)
    (hinv : RunsInv deps input base g hub) (hbranch : (hub.findRef input.branch).isSome) :
    (rerunLogic deps contents input base g).wp t (ensurePull deps input)
      (OrLost fun pr hub' => OpenedAs deps input g pr.prNumber hub') lost hub := by
  unfold ensurePull
  refine rerun_bind (R := fun reply hub' => ∃ p, heads deps input hub' = heads deps input g ++ [p] ∧
    (reply = { status := 201, json := some p.json } ∨ reply = pullExists input.branch))
    hinv (rerun_api (fun _ => rfl) ?_) ?_
  · intro hub₁ a reply hub₂ hub₃ hinv₁ hr₁ hx hinv₂ hr₃
    obtain ⟨p, hp, hreply⟩ := createPull_reply hfresh hinv₁ hinv₂ (hr₁.branch hbranch) hx
    exact ⟨p, hr₃.pulls p hp, hreply⟩
  · rintro created lost' hub' hinv' ⟨p, hp, rfl | rfl⟩
    · -- its own 201 answer
      rw [if_pos rfl]
      simp only [p.toPr_json]
      refine rerun_trace fun hub₁ _ hr₁ => rerun_ret fun hub₂ _ hr₂ => ?_
      exact ⟨p, hr₂.pulls p (hr₁.pulls p hp), rfl⟩
    · -- the one that is there
      rw [if_neg (by simp [pullExists]), if_pos ⟨rfl, pullExists_text _⟩]
      refine rerun_bind hinv' (rerun_findPrByBranch hground hinv' hp) ?_
      rintro _ lost'' hub'' _ ⟨rfl, hopened⟩
      exact rerun_trace fun hub₁ _ hr₁ => rerun_ret fun hub₂ _ hr₂ =>
        (hopened.mono hr₁).mono hr₂

/-! ### The whole -/

theorem rerun_createChangePrUnguarded (hground : Grounded contents input base)
    (hfresh : Fresh deps input g) (hinv : RunsInv deps input base g hub) :
    (rerunLogic deps contents input base g).wp t (createChangePrUnguarded deps input)
      (OrLost fun pr hub' => OpenedAs deps input g pr.prNumber hub') lost hub := by
  unfold createChangePrUnguarded
  have hblob : isSha input.baseBlobSha := by
    rw [← hground.blob]
    exact contents.blobSha_isSha base
  rw [guardBranch_bind hground, if_neg (not_not.mpr hground.path),
    if_neg (not_not.mpr ⟨hground.commit, hblob⟩)]
  refine rerun_bind hinv (rerun_ensureBranch hground hinv) fun _ lost₁ hub₁ hinv₁ hbranch₁ => ?_
  refine rerun_bind hinv₁ (rerun_ensureFile hground hinv₁ hbranch₁)
    fun _ lost₂ hub₂ hinv₂ hbranch₂ => ?_
  exact rerun_ensurePull hground hfresh hinv₂ hbranch₂

theorem rerun_createChangePr (hground : Grounded contents input base)
    (hfresh : Fresh deps input g) :
    (rerunLogic deps contents input base g).wp t (createChangePr deps input)
      (OrLost fun pr hub' => OpenedAs deps input g pr.prNumber hub') lost hub := by
  refine rerun_trace fun hub₁ hinv₁ _ => ?_
  refine Logic.wp_try hinv₁ (rerun_createChangePrUnguarded hground hfresh hinv₁) ?_
  rintro (e | pr) lost' hub' _ hpost
  · have hlost : lost' = true := hpost
    cases e <;> exact Logic.wp_raise fun _ _ _ => hlost
  · exact rerun_ret fun hub₂ _ hr => OpenedAs.mono hpost hr

end Run

end Sso
