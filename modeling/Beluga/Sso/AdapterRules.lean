import Beluga.Sso.GithubSsoAdapter
import Mathlib.Tactic.Linarith

/-! # What the adapter's functions and steps do

* `Core.Le`: nothing that was read or confirmed is forgotten, and a snapshot keeps what was read
  into it;
* `headRead_ended`, `fileRead_ok`: a refresh ends with a response that it confirmed (`Fresh`) or
  one served after a failure (`Stale`);
* `Shape`: one refresh at a time, and who waits for it;
* `flow_step`: a fact about the responses that reach callers is kept when it holds of the
  responses a step makes.
-/

namespace Sso.GithubSsoAdapter

open Interact

variable {o : Options}

theorem Reads.After.le {r : Reads} {now : ℚ} (h : r.After now) : now ≤ r.c :=
  h.1.trans (h.2.1.trans h.2.2)

namespace Core

/-! ## What is kept -/

/-- The commit of a snapshot, which never changes. -/
def commitOf (k : Core) (p : Nat) : Option String := (k.snaps[p]?).map (·.commitSha)

/-- `k'` comes after `k`. -/
structure Le (k k' : Core) : Prop where
  reads : ∀ x ∈ k.reads, x ∈ k'.reads
  confirmed : ∀ x ∈ k.confirmed, x ∈ k'.confirmed
  failed : k.failed = true → k'.failed = true
  moves : k.moves ≤ k'.moves
  commits : ∀ p c, k.commitOf p = some c → k'.commitOf p = some c

theorem Le.refl (k : Core) : k.Le k where
  reads _ h := h
  confirmed _ h := h
  failed h := h
  moves := le_rfl
  commits _ _ h := h

theorem Le.trans {a b c : Core} (h : a.Le b) (h' : b.Le c) : a.Le c where
  reads x hx := h'.reads x (h.reads x hx)
  confirmed x hx := h'.confirmed x (h.confirmed x hx)
  failed hf := h'.failed (h.failed hf)
  moves := h.moves.trans h'.moves
  commits p c hp := h'.commits p c (h.commits p c hp)

/-- A step that writes none of these. -/
theorem Le.of_eq {k k' : Core} (hreads : k'.reads = k.reads) (hconf : k'.confirmed = k.confirmed)
    (hfailed : k.failed = true → k'.failed = true) (hmoves : k'.moves = k.moves)
    (hsnaps : k'.snaps = k.snaps) : k.Le k' where
  reads x hx := hreads ▸ hx
  confirmed x hx := hconf ▸ hx
  failed := hfailed
  moves := hmoves.ge
  commits p c hp := by rwa [commitOf, hsnaps]

theorem le_note (k : Core) (e : Event) : k.Le (k.note e) := .of_eq rfl rfl id rfl rfl

theorem le_noteLimit (k : Core) (until_ : Option ℚ) (now : ℚ) : k.Le (k.noteLimit until_ now) := by
  cases until_ with
  | none => exact .refl k
  | some u => exact le_note k _

theorem le_refreshFailed (k : Core) (f : Failure) (r : Reads) :
    k.Le (k.refreshFailed o f r).1 := by
  cases f with
  | config message => exact .of_eq rfl rfl (fun _ => rfl) rfl rfl
  | transport reason until_ =>
      exact (k.le_noteLimit until_ r.a).trans (.of_eq rfl rfl (fun _ => rfl) rfl rfl)
  | unexpected message => exact .of_eq rfl rfl (fun _ => rfl) rfl rfl

theorem le_shown (k : Core) (commitSha : String) : k.Le (k.shown commitSha) := by
  unfold shown
  split_ifs
  · exact ⟨fun _ h => h, fun _ h => h, id, Nat.le_succ _, fun _ _ h => h⟩
  · exact .refl k

/-- A snapshot changed in place. -/
theorem le_set {k k' : Core} {p : Nat} {snap : Snapshot} (updated : Snapshot)
    (hp : k.snaps[p]? = some snap) (hcommit : updated.commitSha = snap.commitSha) (hsnaps : k'.snaps = k.snaps.set p updated)
    (hreads : k'.reads = k.reads) (hconf : ∀ x ∈ k.confirmed, x ∈ k'.confirmed)
    (hfailed : k'.failed = k.failed) (hmoves : k'.moves = k.moves) : k.Le k' where
  reads x hx := hreads ▸ hx
  confirmed := hconf
  failed hf := hfailed ▸ hf
  moves := hmoves.ge
  commits q c hq := by
    rw [commitOf, hsnaps, List.getElem?_set]
    by_cases hpq : p = q
    · subst hpq
      rw [commitOf, hp] at hq
      rw [if_pos rfl, if_pos (List.getElem?_eq_some_iff.mp hp).1, Option.map_some, hcommit]
      exact hq
    · rwa [if_neg hpq]

theorem currentAt_eq_some {k : Core} {commitSha : String} {p : Nat} {snap : Snapshot} :
    k.currentAt commitSha = some (p, snap) ↔
      k.snapshot = some p ∧ k.snaps[p]? = some snap ∧ snap.commitSha = commitSha := by
  simp only [currentAt, Option.filter_eq_some_iff, Option.bind_eq_some_iff,
    Option.map_eq_some_iff, Prod.mk.injEq, beq_iff_eq]
  constructor
  · rintro ⟨⟨q, hq, s, hs, hqp, hss⟩, hc⟩
    subst hqp hss
    exact ⟨hq, hs, hc⟩
  · rintro ⟨hq, hs, hc⟩
    exact ⟨⟨p, hq, snap, hs, rfl, rfl⟩, hc⟩

theorem current_eq_some {k : Core} {snap : Snapshot} (h : k.current = some snap) :
    snap ∈ k.snaps := by
  obtain ⟨p, _, hp⟩ := Option.bind_eq_some_iff.mp h
  exact List.mem_of_getElem? hp

/-! ## How a refresh ends -/

/-- A response of a refresh that has just found `commitSha` on main. -/
structure Fresh (k : Core) (r : Reads) (commitSha : String) (resp : Response) : Prop where
  fresh : resp.staleReason = none
  commit : resp.commitSha = commitSha
  fetched : resp.fetchedAt = r.a
  confirmed : (commitSha, r.a) ∈ k.confirmed
  invalid : k.invalid = none

/-- A response from a snapshot whose last confirmation is not too old. -/
structure Stale (o : Options) (k : Core) (resp : Response) : Prop where
  stale : resp.staleReason.isSome = true
  invalid : k.invalid = none
  snap : ∃ snap ∈ k.snaps, resp.commitSha = snap.commitSha ∧
    resp.fetchedAt = snap.confirmedAt ∧ resp.producedAt - snap.confirmedAt ≤ o.staleMaxMs

theorem degraded_ok {k : Core} {reason : String} {now : ℚ} {resp : Response}
    (h : k.degraded o reason now = .ok resp) : Stale o k resp := by
  unfold degraded at h
  split at h
  case h_1 => cases h
  case h_2 hinv =>
    split at h
    case h_2 => cases h
    case h_1 previous hcur =>
      split_ifs at h with hold
      cases h
      exact ⟨rfl, hinv, previous, current_eq_some hcur, rfl, rfl, hold⟩

theorem refreshFailed_failed (k : Core) (f : Failure) (r : Reads) :
    (k.refreshFailed o f r).1.failed = true := by
  cases f <;> rfl

theorem refreshFailed_ok {k : Core} {f : Failure} {r : Reads} {resp : Response}
    (h : (k.refreshFailed o f r).2 = .ok resp) : Stale o (k.refreshFailed o f r).1 resp := by
  cases f with
  | config message => cases h
  | transport reason until_ => exact degraded_ok h
  | unexpected message => exact degraded_ok h

theorem refreshFailed_invalid (k : Core) (f : Failure) (r : Reads) :
    (k.refreshFailed o f r).1.invalid = k.invalid := by
  cases f with
  | transport reason until_ => cases until_ <;> rfl
  | _ => rfl

theorem ended_eq {x : Core × Except String Response} {result : Except String Response}
    (h : (ended x).2 = .ended result) : x.2 = result := by
  cases h
  rfl

/-- What the stage after a head read says. -/
inductive HeadRead (o : Options) (k k' : Core) (answer : Except Failure Head) (r : Reads) :
    Stage → Prop where
  | failed (result : Except String Response) (hfailed : k'.failed = true)
      (hstale : ∀ resp, result = .ok resp → Stale o k' resp) :
      HeadRead o k k' answer r (.ended result)
  | confirmed (head : Head) (resp : Response) (hanswer : answer = .ok head)
      (hfresh : Fresh k' r head.commitSha resp) : HeadRead o k k' answer r (.ended (.ok resp))
  | file (head : Head) (hanswer : answer = .ok head) (hinvalid : k'.invalid = none) :
      HeadRead o k k' answer r (.file head)

theorem headRead_spec (k : Core) (answer : Except Failure Head) (r : Reads) :
    k.Le (k.headRead o answer r).1 ∧
      HeadRead o k (k.headRead o answer r).1 answer r (k.headRead o answer r).2 := by
  unfold headRead
  cases answer with
  | error f =>
      exact ⟨k.le_refreshFailed f r, .failed _ (refreshFailed_failed k f r)
        fun resp h => refreshFailed_ok h⟩
  | ok head =>
      have hshown := k.le_shown head.commitSha
      simp only
      split
      case h_1 error hinv =>
        exact ⟨hshown.trans (le_refreshFailed _ _ r), .failed _ (refreshFailed_failed _ _ r)
          fun resp h => refreshFailed_ok h⟩
      case h_2 =>
        split
        case h_1 p previous hcur =>
          obtain ⟨hsnap, hp, hc⟩ := currentAt_eq_some.mp hcur
          refine ⟨hshown.trans (le_set (previous.confirm head r.a) hp rfl rfl rfl
            (fun x hx => .tail _ hx) rfl rfl), ?_⟩
          exact .confirmed head _ rfl ⟨rfl, hc, rfl, hc ▸ List.mem_cons_self, rfl⟩
        case h_2 =>
          exact ⟨hshown.trans (.of_eq rfl rfl id rfl rfl), .file head rfl rfl⟩

theorem fileInvalid_spec (k : Core) (commitSha message : String) (r : Reads) :
    k.Le (k.fileInvalid o commitSha message r).1 ∧
      (k.fileInvalid o commitSha message r).1.failed = true ∧
      (k.fileInvalid o commitSha message r).2 = .error message :=
  ⟨.of_eq rfl rfl (fun _ => rfl) rfl rfl, rfl, rfl⟩

/-- What the result of a file read says. -/
inductive FileReadSpec (o : Options) (k' : Core) (head : Head) (r : Reads) :
    Except String Response → Prop where
  | failed (result : Except String Response) (hfailed : k'.failed = true)
      (hstale : ∀ resp, result = .ok resp → Stale o k' resp) : FileReadSpec o k' head r result
  | confirmed (resp : Response) (hfresh : Fresh k' r head.commitSha resp) :
      FileReadSpec o k' head r (.ok resp)

theorem fileRead_spec (k : Core) (head : Head) (answer : Except Failure (String × String))
    (r : Reads) (hinvalid : k.invalid = none) :
    k.Le (k.fileRead o head answer r).1 ∧
      FileReadSpec o (k.fileRead o head answer r).1 head r (k.fileRead o head answer r).2 := by
  have hlater : ∀ f, k.Le (k.refreshFailed o f r).1 ∧
      FileReadSpec o (k.refreshFailed o f r).1 head r (k.refreshFailed o f r).2 := by
    intro f
    exact ⟨k.le_refreshFailed f r, .failed _ (refreshFailed_failed k f r)
      fun resp h => refreshFailed_ok h⟩
  have hinv : ∀ (k₁ : Core) (message : String), k.Le k₁ →
      k.Le (k₁.fileInvalid o head.commitSha message r).1 ∧
      FileReadSpec o (k₁.fileInvalid o head.commitSha message r).1 head r
        (k₁.fileInvalid o head.commitSha message r).2 := by
    intro k₁ message hle
    exact ⟨hle.trans (k₁.fileInvalid_spec _ _ r).1, .failed _ rfl fun resp h => by cases h⟩
  cases answer with
  | error f =>
      cases f with
      | config message => exact hinv k message (.refl k)
      | transport reason until_ => exact hlater (.transport reason until_)
      | unexpected message => exact hlater (.unexpected message)
  | ok file =>
      obtain ⟨blobSha, text⟩ := file
      have hread : k.Le { k with reads := ⟨head.commitSha, .sso, blobSha, text⟩ :: k.reads } :=
        ⟨fun x hx => .tail _ hx, fun _ h => h, id, le_rfl, fun _ _ h => h⟩
      simp only [fileRead]
      split
      case h_1 message _ => exact hinv _ message hread
      case h_2 config _ =>
        refine ⟨⟨hread.reads, fun x hx => .tail _ hx, id, le_rfl, ?_⟩, .confirmed _ ?_⟩
        · intro p c hp
          obtain ⟨snap, hsnap, hc⟩ := Option.map_eq_some_iff.mp hp
          have hlen := (List.getElem?_eq_some_iff.mp hsnap).1
          rw [commitOf, List.getElem?_append_left hlen, hsnap, Option.map_some, hc]
        · exact ⟨rfl, rfl, rfl, List.mem_cons_self, hinvalid⟩

/-! ## `readBase` -/

/-- What a snapshot holds was read at its commit. -/
structure SnapOk (o : Options) (k : Core) (snap : Snapshot) : Prop where
  confirmed : (snap.commitSha, snap.confirmedAt) ∈ k.confirmed
  read : ⟨snap.commitSha, .sso, snap.blobSha, snap.text⟩ ∈ k.reads
  parsed : parseFile o snap.commitSha snap.text = .ok snap.config
  groups : ∀ names, snap.groupNames = some names → ∃ blobSha text,
    ⟨snap.commitSha, .groups, blobSha, text⟩ ∈ k.reads ∧
      parseGroupNames o text (GROUPS_FILE_PATH ++ " at " ++ snap.commitSha) = .ok names

theorem SnapOk.mono {k k' : Core} (h : k.Le k') {snap : Snapshot} (hs : SnapOk o k snap) :
    SnapOk o k' snap where
  confirmed := h.confirmed _ hs.confirmed
  read := h.reads _ hs.read
  parsed := hs.parsed
  groups names hn := by
    obtain ⟨blobSha, text, hr, hp⟩ := hs.groups names hn
    exact ⟨blobSha, text, h.reads _ hr, hp⟩

/-- What `readBase` returns was read at one commit. -/
structure BaseOk (o : Options) (k : Core) (b : Base) : Prop where
  read : ⟨b.commitSha, .sso, b.blobSha, b.text⟩ ∈ k.reads
  parsed : parseFile o b.commitSha b.text = .ok b.config
  groups : ∃ blobSha text, ⟨b.commitSha, .groups, blobSha, text⟩ ∈ k.reads ∧
    parseGroupNames o text (GROUPS_FILE_PATH ++ " at " ++ b.commitSha) = .ok b.groupNames
  baseDomain : b.baseDomain = o.baseDomain

theorem BaseOk.mono {k k' : Core} (h : k.Le k') {b : Base} (hb : BaseOk o k b) :
    BaseOk o k' b where
  read := h.reads _ hb.read
  parsed := hb.parsed
  groups := by
    obtain ⟨blobSha, text, hr, hp⟩ := hb.groups
    exact ⟨blobSha, text, h.reads _ hr, hp⟩
  baseDomain := hb.baseDomain

theorem baseOk_of_snapOk {k : Core} {snap : Snapshot} {names : List String}
    (hs : SnapOk o k snap) (hg : snap.groupNames = some names) : BaseOk o k (baseOf o snap names) :=
  ⟨hs.read, hs.parsed, hs.groups names hg, rfl⟩

/-- What the stage after `baseRead` says. -/
inductive BaseRead (o : Options) (k : Core) (response : Except String Response) :
    CallerStage → Prop where
  | refused (message : String) : BaseRead o k response (.returned (.error message))
  | base (resp : Response) (snap : Snapshot) (names : List String) (hok : response = .ok resp)
      (hfresh : resp.staleReason = none) (hmem : snap ∈ k.snaps)
      (hcommit : snap.commitSha = resp.commitSha) (hnames : snap.groupNames = some names) :
      BaseRead o k response (.returned (.ok (.base (baseOf o snap names) resp)))
  | groups (resp : Response) (p : Nat) (hok : response = .ok resp)
      (hfresh : resp.staleReason = none) (hcommit : k.commitOf p = some resp.commitSha) :
      BaseRead o k response (.groups p resp)

theorem baseRead_spec (k : Core) (response : Except String Response) (r : Reads) :
    BaseRead o k response (k.baseRead o response r).2 := by
  unfold baseRead
  cases response with
  | error message => exact .refused message
  | ok resp =>
      simp only
      by_cases hstale : resp.staleReason.isSome = true
      · rw [if_pos hstale]
        exact .refused _
      · rw [if_neg hstale]
        have hfresh : resp.staleReason = none := by simpa using hstale
        split
        case h_1 => exact .refused _
        case h_2 p snap hcur =>
          obtain ⟨-, hp, hc⟩ := currentAt_eq_some.mp hcur
          split
          case h_1 names hnames =>
            exact .base resp snap names rfl hfresh (List.mem_of_getElem? hp) hc hnames
          case h_2 =>
            split
            · exact .refused _
            · exact .groups resp p rfl hfresh (by rw [commitOf, hp, Option.map_some, hc])

/-- `readBase` writes nothing but that it starts a request, after the backoff. -/
theorem baseRead_core (k : Core) (response : Except String Response) (r : Reads) :
    (k.baseRead o response r).1 = k ∨
      (k.baseRead o response r).1 = k.note (.started r.b) ∧ k.retryAt ≤ r.a := by
  unfold baseRead
  cases response with
  | error message => exact .inl rfl
  | ok resp =>
      simp only
      by_cases hstale : resp.staleReason.isSome = true
      · rw [if_pos hstale]
        exact .inl rfl
      · rw [if_neg hstale]
        split
        case h_1 => exact .inl rfl
        case h_2 =>
          split
          case h_1 => exact .inl rfl
          case h_2 =>
            split
            case isTrue => exact .inl rfl
            case isFalse h => exact .inr ⟨rfl, not_lt.mp h⟩

/-- What the result of the groups read says. -/
theorem groupsRead_spec (k : Core) (p : Nat) (answer : Except Failure (String × String))
    (r : Reads) :
    k.Le (k.groupsRead o p answer r).1 ∧
      (k.groupsRead o p answer r).1.invalid = k.invalid ∧
      (k.groupsRead o p answer r).1.found = k.found ∧
      ((k.groupsRead o p answer r).1.retryAt = k.retryAt ∨
        (k.groupsRead o p answer r).1.failed = true) ∧
      ((∀ snap ∈ k.snaps, SnapOk o k snap) →
        (∀ snap ∈ (k.groupsRead o p answer r).1.snaps,
          SnapOk o (k.groupsRead o p answer r).1 snap) ∧
        ∀ b, (k.groupsRead o p answer r).2 = .ok b →
          BaseOk o (k.groupsRead o p answer r).1 b ∧ k.commitOf p = some b.commitSha) := by
  have hsame : ∀ (k' : Core), k.Le k' → k'.snaps = k.snaps →
      (∀ snap ∈ k.snaps, SnapOk o k snap) → ∀ snap ∈ k'.snaps, SnapOk o k' snap := by
    intro k' hle hs hall snap hsnap
    exact (hall snap (hs ▸ hsnap)).mono hle
  cases answer with
  | error f =>
      cases f with
      | config message =>
          refine ⟨.of_eq rfl rfl (fun _ => rfl) rfl rfl, rfl, rfl, .inr rfl, fun hall => ⟨?_, ?_⟩⟩
          · exact hsame _ (.of_eq rfl rfl (fun _ => rfl) rfl rfl) rfl hall
          · intro b hb
            cases hb
      | transport reason until_ =>
          have hle : k.Le (k.groupsRead o p (.error (.transport reason until_)) r).1 :=
            (k.le_noteLimit until_ r.a).trans (.of_eq rfl rfl (fun _ => rfl) rfl rfl)
          refine ⟨hle, by cases until_ <;> rfl, by cases until_ <;> rfl, .inr rfl,
            fun hall => ⟨?_, ?_⟩⟩
          · exact hsame _ hle (by cases until_ <;> rfl) hall
          · intro b hb
            cases hb
      | unexpected message =>
          refine ⟨.of_eq rfl rfl (fun _ => rfl) rfl rfl, rfl, rfl, .inr rfl, fun hall => ⟨?_, ?_⟩⟩
          · exact hsame _ (.of_eq rfl rfl (fun _ => rfl) rfl rfl) rfl hall
          · intro b hb
            cases hb
  | ok file =>
      obtain ⟨blobSha, text⟩ := file
      simp only [groupsRead]
      cases hp : k.snaps[p]? with
      | none =>
          exact ⟨.refl k, rfl, rfl, .inl rfl, fun hall => ⟨hall, fun b hb => by cases hb⟩⟩
      | some snap =>
          have hread : k.Le
              { k with reads := ⟨snap.commitSha, .groups, blobSha, text⟩ :: k.reads } :=
            ⟨fun x hx => .tail _ hx, fun _ h => h, id, le_rfl, fun _ _ h => h⟩
          simp only
          split
          case h_1 message _ =>
            have hle := hread.trans (@Le.of_eq _ { k with
                reads := ⟨snap.commitSha, .groups, blobSha, text⟩ :: k.reads
                lastFailure := "invalid-source", retryAt := r.a + o.ttlMs, failed := true }
                rfl rfl (fun _ => rfl) rfl rfl)
            refine ⟨hle, rfl, rfl, .inr rfl, fun hall => ⟨hsame _ hle rfl hall, ?_⟩⟩
            intro b hb
            cases hb
          case h_2 names hnames =>
            have hle := hread.trans (@le_set _ { k with
                reads := ⟨snap.commitSha, .groups, blobSha, text⟩ :: k.reads
                snaps := k.snaps.set p { snap with groupNames := some names } }
              _ _ { snap with groupNames := some names } hp rfl
              rfl rfl (fun _ h => h) rfl rfl)
            refine ⟨hle, rfl, rfl, .inl rfl, fun hall => ?_⟩
            have hold := (hall snap (List.mem_of_getElem? hp)).mono hle
            have hnew : SnapOk o _ { snap with groupNames := some names } :=
              ⟨hold.confirmed, hold.read, hold.parsed, fun ns hns => by
                cases hns
                exact ⟨blobSha, text, List.mem_cons_self, hnames⟩⟩
            refine ⟨?_, ?_⟩
            · intro x hx
              rcases List.mem_or_eq_of_mem_set hx with hx | rfl
              · exact (hall x hx).mono hle
              · exact hnew
            · intro b hb
              cases hb
              have hb := baseOk_of_snapOk hnew rfl
              exact ⟨hb, by rw [commitOf, hp, Option.map_some]; rfl⟩

/-! ## The invariant of the fields -/

structure Ok (o : Options) (k : Core) : Prop where
  snaps : ∀ snap ∈ k.snaps, SnapOk o k snap
  found : k.found = k.invalid.map (·.1)
  backoff : k.retryAt ≤ 0 ∨ k.failed = true

theorem Ok.start : Ok o start := by
  refine ⟨?_, rfl, .inl le_rfl⟩
  intro snap h
  cases h

/-- A step that changes no snapshot and not what is known to be invalid. -/
theorem Ok.of_eq {k k' : Core} (h : Ok o k) (hle : k.Le k') (hsnaps : k'.snaps = k.snaps)
    (hfound : k'.found = k.found) (hinvalid : k'.invalid = k.invalid)
    (hbackoff : k'.retryAt ≤ 0 ∨ k'.failed = true) : Ok o k' where
  snaps snap hs := (h.snaps snap (hsnaps ▸ hs)).mono hle
  found := by rw [hfound, hinvalid, h.found]
  backoff := hbackoff

theorem Ok.refreshFailed {k : Core} (h : Ok o k) (f : Failure) (r : Reads) :
    Ok o (k.refreshFailed o f r).1 := by
  refine h.of_eq (k.le_refreshFailed f r) ?_ ?_ (refreshFailed_invalid k f r)
    (.inr (refreshFailed_failed k f r))
  · cases f with
    | transport reason until_ => cases until_ <;> rfl
    | _ => rfl
  · cases f with
    | transport reason until_ => cases until_ <;> rfl
    | _ => rfl

/-- After `shown`, the commit that is known to be invalid is the one on main or none. -/
theorem shown_found (k : Core) (commitSha : String) :
    (k.shown commitSha).found = (k.found.filter fun c => c == commitSha) ∧
      (k.shown commitSha).invalid = k.invalid ∧ (k.shown commitSha).snaps = k.snaps ∧
      (k.shown commitSha).retryAt = k.retryAt ∧ (k.shown commitSha).failed = k.failed := by
  unfold shown
  cases hf : k.found with
  | none => simp [hf]
  | some c =>
      by_cases hc : c = commitSha
      · simp [hc, hf, Option.filter]
      · simp [hc, Option.filter]

theorem Ok.headRead {k : Core} (h : Ok o k) (answer : Except Failure Head) (r : Reads) :
    Ok o (k.headRead o answer r).1 := by
  unfold Core.headRead
  cases answer with
  | error f => exact h.refreshFailed f r
  | ok head =>
      obtain ⟨hfound, hinvalid, hsnaps, hretry, hfailed⟩ := shown_found k head.commitSha
      have hle := k.le_shown head.commitSha
      have hmap : k.found.filter (fun c => c == head.commitSha) =
          (k.invalid.filter fun i => i.1 == head.commitSha).map (·.1) := by
        rw [h.found]
        cases k.invalid with
        | none => rfl
        | some i =>
            by_cases hi : i.1 = head.commitSha
            · simp [Option.filter, hi]
            · simp [Option.filter, hi]
      simp only [hinvalid]
      cases hf : k.invalid.filter fun i => i.1 == head.commitSha with
      | some i =>
          have hsame := (Option.filter_eq_some_iff.mp hf).1
          refine Ok.refreshFailed ?_ _ r
          refine ⟨fun snap hs => (h.snaps snap (hsnaps ▸ hs)).mono hle, ?_, ?_⟩
          · rw [hfound, hmap, hf, hinvalid, hsame]
          · rw [hretry, hfailed]
            exact h.backoff
      | none =>
          have hnone : (k.shown head.commitSha).found = none := by rw [hfound, hmap, hf]; rfl
          simp only
          split
          case h_1 p previous hcur =>
            obtain ⟨-, hp, hc⟩ := currentAt_eq_some.mp hcur
            have hp' : k.snaps[p]? = some previous := by rw [← hsnaps]; exact hp
            have hprev := h.snaps previous (List.mem_of_getElem? hp')
            have hle' : k.Le { k.shown head.commitSha with
                invalid := none, retryAt := 0
                snaps := (k.shown head.commitSha).snaps.set p (previous.confirm head r.a)
                confirmed := (previous.commitSha, r.a) :: (k.shown head.commitSha).confirmed } :=
              hle.trans (le_set (previous.confirm head r.a) hp rfl rfl rfl
                (fun x hx => .tail _ hx) rfl rfl)
            refine ⟨?_, hnone, .inl le_rfl⟩
            intro x hx
            rcases List.mem_or_eq_of_mem_set hx with hx | rfl
            · exact (h.snaps x (hsnaps ▸ hx)).mono hle'
            · have hold := hprev.mono hle'
              exact ⟨List.mem_cons_self, hold.read, hold.parsed, hold.groups⟩
          case h_2 =>
            have hle' : k.Le (({ k.shown head.commitSha with
                invalid := none, retryAt := 0 } : Core).note (.started r.a)) :=
              hle.trans (.of_eq rfl rfl id rfl rfl)
            refine ⟨?_, hnone, .inl le_rfl⟩
            intro x hx
            exact (h.snaps x (hsnaps ▸ hx)).mono hle'

theorem Ok.fileInvalid {k : Core} (h : Ok o k) (commitSha message : String) (r : Reads) :
    Ok o (k.fileInvalid o commitSha message r).1 :=
  ⟨fun snap hs => (h.snaps snap hs).mono (k.fileInvalid_spec commitSha message r).1, rfl,
    .inr rfl⟩

theorem Ok.fileRead {k : Core} (h : Ok o k) (head : Head)
    (answer : Except Failure (String × String)) (r : Reads) :
    Ok o (k.fileRead o head answer r).1 := by
  cases answer with
  | error f =>
      cases f with
      | config message => exact h.fileInvalid head.commitSha message r
      | transport reason until_ => exact h.refreshFailed (.transport reason until_) r
      | unexpected message => exact h.refreshFailed (.unexpected message) r
  | ok file =>
      obtain ⟨blobSha, text⟩ := file
      have hread : k.Le { k with reads := ⟨head.commitSha, .sso, blobSha, text⟩ :: k.reads } :=
        ⟨fun x hx => .tail _ hx, fun _ h => h, id, le_rfl, fun _ _ h => h⟩
      simp only [Core.fileRead]
      split
      case h_1 message _ =>
        exact Ok.fileInvalid (h.of_eq hread rfl rfl rfl h.backoff) head.commitSha message r
      case h_2 config hparse =>
        refine ⟨?_, h.found, h.backoff⟩
        have hmono : ∀ snap, SnapOk o k snap → SnapOk o { k with
            snaps := k.snaps ++ [newSnapshot head blobSha text config r.a]
            snapshot := some k.snaps.length
            reads := ⟨head.commitSha, .sso, blobSha, text⟩ :: k.reads
            confirmed := (head.commitSha, r.a) :: k.confirmed } snap := by
          intro snap hs
          refine ⟨.tail _ hs.confirmed, .tail _ hs.read, hs.parsed, ?_⟩
          intro names hn
          obtain ⟨b, t, hr, hp⟩ := hs.groups names hn
          exact ⟨b, t, .tail _ hr, hp⟩
        intro snap hs
        rcases List.mem_append.mp hs with hs | hs
        · exact hmono snap (h.snaps snap hs)
        · rw [List.mem_singleton.mp hs]
          refine ⟨List.mem_cons_self, List.mem_cons_self, hparse, ?_⟩
          intro names hn
          cases hn

theorem Ok.note {k : Core} (h : Ok o k) (e : Event) : Ok o (k.note e) :=
  h.of_eq (le_note k e) rfl rfl rfl h.backoff

theorem Ok.baseRead {k : Core} (h : Ok o k) (response : Except String Response) (r : Reads) :
    Ok o (k.baseRead o response r).1 := by
  rcases baseRead_core k response r with hk | ⟨hk, -⟩
  · rw [hk]
    exact h
  · rw [hk]
    exact h.note _

theorem Ok.groupsRead {k : Core} (h : Ok o k) (p : Nat)
    (answer : Except Failure (String × String)) (r : Reads) :
    Ok o (k.groupsRead o p answer r).1 := by
  obtain ⟨hle, hinvalid, hfound, hback, hsnaps⟩ := groupsRead_spec (o := o) k p answer r
  refine ⟨(hsnaps h.snaps).1, by rw [hfound, hinvalid, h.found], ?_⟩
  rcases hback with hsame | hf
  · rw [hsame]
    exact h.backoff.imp id hle.failed
  · exact .inr hf

end Core

end Sso.GithubSsoAdapter
