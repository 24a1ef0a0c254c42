import Beluga.Agent.OperationsAgent
import Beluga.Py.Access

/-! # What the policy lets the agent run

* `mem_calls_iff`: the command that is started, by the policy and the request;
* `run_meets_iff`: when only strict entries of the policy let a command be started;
* `correlation_iff`: when evidence carries the correlation id, and its id belongs to one request.
-/

namespace Agent

open Py

variable {m : Machine} {document : Value} {policy : Policy} {tool correlation_id : String}
  {kubeconfig : Option String} {invocation : ResolvedInvocation}

/-! ## Entries of the policy -/

/-- The class is the text itself, as no other value has it for its text. -/
theorem riskClass_iff {spec : Entries} :
    (getD spec "riskClass" (.str "unknown")).text m.py = "read-only-diagnostic" ↔
      get spec "riskClass" = .str "read-only-diagnostic" := by
  have hhead : 'r' ∈ "read-only-diagnostic".toList.head? := by decide
  rw [text_eq_iff m.py hhead (by decide), getD_eq_iff (fun h => by cases h)]
  intro h
  exact absurd (Value.str.inj h) (by decide)

/-- What the code asks of an entry. -/
structure Allowing (spec : Entries) : Prop where
  riskClass : get spec "riskClass" = .str "read-only-diagnostic"
  approvalRequired : (getD spec "approvalRequired" (.bool true)).truthy = false
  executable : (getD spec "executable" (.bool false)).truthy = true

theorem authorize_allow_iff : (authorize m policy invocation).decision = .allow ↔
    (∃ spec, policy.tools.lookup invocation.tool = some (.dict spec) ∧ Allowing spec) ∧
      ∃ command, TOOL_COMMANDS.lookup invocation.tool = some command := by
  unfold authorize
  cases hget : get policy.tools invocation.tool with
  | dict spec =>
      have hlookup := (get_eq_iff (fun h => by cases h)).mp hget
      dsimp only
      have hone : (∃ spec', policy.tools.lookup invocation.tool = some (.dict spec') ∧
          Allowing spec') ↔ Allowing spec := by
        rw [hlookup]
        constructor
        · rintro ⟨spec', heq, h⟩
          obtain rfl := Value.dict.inj (Option.some.inj heq)
          exact h
        · intro h
          exact ⟨spec, rfl, h⟩
      rw [hone, ← Option.isSome_iff_exists]
      by_cases hrisk : get spec "riskClass" = .str "read-only-diagnostic"
      · rw [if_neg (by rw [ne_eq, not_not]; exact riskClass_iff.mpr hrisk)]
        cases happroval : (getD spec "approvalRequired" (.bool true)).truthy with
        | true =>
            refine ⟨fun h => (by cases h), fun h => ?_⟩
            rw [h.1.approvalRequired] at happroval
            cases happroval
        | false =>
            cases hexecutable : (getD spec "executable" (.bool false)).truthy with
            | false =>
                refine ⟨fun h => (by cases h), fun h => ?_⟩
                rw [h.1.executable] at hexecutable
                cases hexecutable
            | true =>
                cases hcommand : TOOL_COMMANDS.lookup invocation.tool with
                | none => exact ⟨fun h => (by cases h), fun h => (by cases h.2)⟩
                | some command =>
                    exact ⟨fun _ => ⟨⟨hrisk, happroval, hexecutable⟩, rfl⟩, fun _ => rfl⟩
      · rw [if_pos fun h => hrisk (riskClass_iff.mp h)]
        exact ⟨fun h => (by cases h), fun h => absurd h.1.riskClass hrisk⟩
  | _ =>
      refine ⟨fun h => (by cases h), ?_⟩
      rintro ⟨⟨spec, hlookup, -⟩, -⟩
      rw [(get_eq_iff (fun h => by cases h)).mpr hlookup] at hget
      cases hget

/-! ## The correlation id -/

theorem splitColon_append {front : List Char} (h : ':' ∉ front) (n : ℕ) (rest : List Char) :
    splitColon (n + 1) (front ++ ':' :: rest) = front :: splitColon n rest := by
  have hfront : ∀ c ∈ front, decide (c ≠ ':') = true := by
    intro c hc
    exact decide_eq_true fun heq => h (heq ▸ hc)
  have hdrop : (front ++ ':' :: rest).dropWhile (fun c => decide (c ≠ ':')) = ':' :: rest := by
    rw [List.dropWhile_append_of_pos hfront, List.dropWhile_cons_of_neg (by decide)]
  have htake : (front ++ ':' :: rest).takeWhile (fun c => decide (c ≠ ':')) = front := by
    rw [List.takeWhile_append_of_pos hfront, List.takeWhile_cons_of_neg (by decide), List.append_nil]
  rw [splitColon, hdrop, htake]

/-- A text up to its first colon. -/
def upToColon (cs : List Char) : List Char := cs.takeWhile (· ≠ ':')

theorem upToColon_eq_self {cs : List Char} : upToColon cs = cs ↔ ':' ∉ cs := by
  rw [upToColon, List.takeWhile_eq_self_iff]
  constructor
  · intro h hmem
    exact absurd (h _ hmem) (by decide)
  · intro h c hc
    exact decide_eq_true fun heq => h (heq ▸ hc)

theorem resolutionId_toList (correlation_id tool : String) : (resolutionId correlation_id tool).toList =
    "resolution".toList ++ ':' :: (correlation_id.toList ++ ':' :: tool.toList) := by
  have hfront : "resolution:".toList = "resolution".toList ++ [':'] := by decide
  have hcolon : ":".toList = [':'] := by decide
  simp only [resolutionId, String.toList_append, hfront, hcolon, List.append_assoc,
    List.cons_append, List.nil_append]

theorem split_resolutionId (correlation_id tool : String) :
    (splitColon 2 (resolutionId correlation_id tool).toList)[1]? =
      some (upToColon correlation_id.toList) := by
  rw [resolutionId_toList, splitColon_append (by decide)]
  by_cases hcolon : ':' ∈ correlation_id.toList
  · obtain ⟨front, rest, heq, hfront⟩ := List.eq_append_cons_of_mem hcolon
    have htake : upToColon correlation_id.toList = front := by
      have hall : ∀ c ∈ front, decide (c ≠ ':') = true := fun c hc =>
        decide_eq_true fun h => hfront (h ▸ hc)
      rw [heq, upToColon, List.takeWhile_append_of_pos hall, List.takeWhile_cons_of_neg (by decide),
        List.append_nil]
    rw [htake, heq, List.append_assoc, List.cons_append, splitColon_append hfront]
    rfl
  · rw [splitColon_append hcolon, upToColon_eq_self.mpr hcolon]
    rfl

theorem resolve_ok (h : resolve_invocation m policy tool correlation_id = .ok invocation) :
    blank correlation_id = false ∧ (policy.tools.lookup tool).isSome = true ∧
      invocation.tool = tool ∧ invocation.resolution_id = resolutionId correlation_id tool := by
  unfold resolve_invocation at h
  split_ifs at h with hblank htool
  obtain rfl := Except.ok.inj h
  exact ⟨by simpa using hblank, by simpa using htool, rfl, rfl⟩

theorem exists_resolve (hblank : blank correlation_id = false)
    (htool : (policy.tools.lookup tool).isSome = true) :
    ∃ invocation, resolve_invocation m policy tool correlation_id = .ok invocation := by
  unfold resolve_invocation
  rw [if_neg (by simp [hblank]), if_neg (by simp [Option.isSome_iff_ne_none.mp htool])]
  exact ⟨_, rfl⟩

theorem exists_evidence (h : resolve_invocation m policy tool correlation_id = .ok invocation)
    (decision : AuthorizationDecision) : ∃ evidence,
      startEvidence m invocation decision = .ok evidence ∧
        evidence.correlation_id = String.ofList (upToColon correlation_id.toList) := by
  obtain ⟨-, -, -, hid⟩ := resolve_ok h
  unfold startEvidence
  rw [hid, split_resolutionId]
  exact ⟨_, rfl, rfl⟩

/-! ## What is started -/

/-- The entry of a tool lets the code start its command for this request. -/
structure Started (m : Machine) (document : Value) (tool correlation_id : String)
    (kubeconfig : Option String) (spec : Entries) (command : List String) (resolved : String) :
    Prop where
  policy : ∃ policy, load_policy m document = .ok policy ∧
    policy.tools.lookup tool = some (.dict spec)
  correlated : blank correlation_id = false
  allowing : Allowing spec
  command : TOOL_COMMANDS.lookup tool = some command
  kubeconfig : ∃ path, kubeconfig = some path ∧ validate_kubeconfig m path = .ok resolved

/-- The command of an execution, where there is one. -/
theorem execute_calls {decision : AuthorizationDecision} {path : String}
    (h : resolve_invocation m policy tool correlation_id = .ok invocation) {call : Call} :
    call ∈ (execute_read_only m invocation decision path).calls ↔ decision.decision = .allow ∧
      ∃ command resolved, TOOL_COMMANDS.lookup tool = some command ∧
        validate_kubeconfig m path = .ok resolved ∧ call = ⟨commandOf command, resolved⟩ := by
  obtain ⟨evidence, hstart, -⟩ := exists_evidence h decision
  obtain ⟨-, -, rfl, -⟩ := resolve_ok h
  unfold execute_read_only
  rw [hstart]
  dsimp only
  by_cases hallow : decision.decision = .allow
  · rw [if_neg (by rwa [ne_eq, not_not]), and_iff_right hallow]
    cases hkube : validate_kubeconfig m path with
    | error failure => simp
    | ok resolved =>
        cases hcommand : TOOL_COMMANDS.lookup invocation.tool with
        | none => simp
        | some command =>
            cases hrun : m.runner ⟨commandOf command, resolved⟩ with
            | error name => simp [hrun]
            | ok completed => simp [hrun]
  · rw [if_pos hallow]
    simp [hallow]

theorem mem_calls_iff {call : Call} :
    call ∈ (run m document tool correlation_id kubeconfig).calls ↔
      ∃ spec command resolved, Started m document tool correlation_id kubeconfig spec command
        resolved ∧ call = ⟨commandOf command, resolved⟩ := by
  unfold run
  cases hload : load_policy m document with
  | error failure =>
      refine ⟨fun h => (by cases h), ?_⟩
      rintro ⟨spec, command, resolved, ⟨⟨policy, hpolicy, -⟩, -⟩, -⟩
      rw [hload] at hpolicy
      cases hpolicy
  | ok policy =>
      dsimp only
      cases hresolve : resolve_invocation m policy tool correlation_id with
      | error failure =>
          refine ⟨fun h => (by cases h), ?_⟩
          rintro ⟨spec, command, resolved, ⟨⟨policy', hpolicy, hlookup⟩, hblank, -⟩, -⟩
          obtain rfl := Except.ok.inj (hload.symm.trans hpolicy)
          obtain ⟨invocation, hinvocation⟩ := exists_resolve (m := m) hblank (by rw [hlookup]; rfl)
          rw [hresolve] at hinvocation
          cases hinvocation
      | ok invocation =>
          obtain ⟨hblank, -, htool, -⟩ := resolve_ok hresolve
          dsimp only
          cases kubeconfig with
          | none =>
              refine ⟨fun h => (by cases h), ?_⟩
              rintro ⟨spec, command, resolved, ⟨-, -, -, -, ⟨path, hpath, -⟩⟩, -⟩
              cases hpath
          | some path =>
              dsimp only
              rw [execute_calls hresolve, authorize_allow_iff, htool]
              constructor
              · rintro ⟨⟨⟨spec, hspec, hallow⟩, -⟩, command, resolved, hcommand, hkube, rfl⟩
                exact ⟨spec, command, resolved, ⟨⟨policy, hload, hspec⟩, hblank, hallow, hcommand,
                  ⟨path, rfl, hkube⟩⟩, rfl⟩
              · rintro ⟨spec, command, resolved, h, rfl⟩
                obtain ⟨policy', hpolicy, hspec⟩ := h.policy
                obtain rfl := Except.ok.inj (hload.symm.trans hpolicy)
                obtain ⟨path', hpath, hkube⟩ := h.kubeconfig
                obtain rfl := Option.some.inj hpath
                exact ⟨⟨⟨spec, hspec, h.allowing⟩, command, h.command⟩, command, resolved, h.command,
                  hkube, rfl⟩

/-- Where no command was started, there is an error or a denial. -/
theorem run_otherwise (h : (run m document tool correlation_id kubeconfig).calls = []) :
    (∃ failure, (run m document tool correlation_id kubeconfig).result = .error failure) ∨
      ∃ evidence, (run m document tool correlation_id kubeconfig).result = .ok evidence ∧
        evidence.execution_status = "denied-before-executor" := by
  unfold run at h ⊢
  cases hload : load_policy m document with
  | error failure => exact .inl ⟨failure, rfl⟩
  | ok policy =>
      rw [hload] at h
      dsimp only at h ⊢
      cases hresolve : resolve_invocation m policy tool correlation_id with
      | error failure => exact .inl ⟨failure, rfl⟩
      | ok invocation =>
          rw [hresolve] at h
          dsimp only at h ⊢
          cases kubeconfig with
          | none => exact .inl ⟨_, rfl⟩
          | some path =>
              dsimp only at h ⊢
              obtain ⟨evidence, hstart, -⟩ := exists_evidence hresolve (authorize m policy invocation)
              unfold execute_read_only at h ⊢
              rw [hstart] at h ⊢
              dsimp only at h ⊢
              by_cases hallow : (authorize m policy invocation).decision = .allow
              · rw [if_neg (by rwa [ne_eq, not_not])] at h ⊢
                cases hkube : validate_kubeconfig m path with
                | error failure => exact .inl ⟨failure, rfl⟩
                | ok resolved =>
                    rw [hkube] at h
                    cases hcommand : TOOL_COMMANDS.lookup invocation.tool with
                    | none => exact .inl ⟨_, rfl⟩
                    | some command =>
                        rw [hcommand] at h
                        dsimp only at h
                        split at h
                        · cases h
                        · cases h
              · rw [if_pos hallow]
                exact .inr ⟨_, rfl, rfl⟩

/-! ## Strict entries -/

/-- An entry that enables its tool by the exact values. -/
structure Strict (spec : Entries) : Prop where
  riskClass : get spec "riskClass" = .str "read-only-diagnostic"
  approvalRequired : get spec "approvalRequired" = .bool false
  executable : get spec "executable" = .bool true

/-- What is relied on: a command is started for a strict entry only, and is the fixed one. -/
structure Meets (m : Machine) (document : Value) (tool correlation_id : String)
    (kubeconfig : Option String) : Prop where
  started : ∀ call ∈ (run m document tool correlation_id kubeconfig).calls,
    ∃ policy spec command, load_policy m document = .ok policy ∧
      policy.tools.lookup tool = some (.dict spec) ∧ Strict spec ∧
      TOOL_COMMANDS.lookup tool = some command ∧
      call.command = command ++ ["--context", "beluga", "--request-timeout=15s"]
  otherwise : (run m document tool correlation_id kubeconfig).calls = [] →
    (∃ failure, (run m document tool correlation_id kubeconfig).result = .error failure) ∨
      ∃ evidence, (run m document tool correlation_id kubeconfig).result = .ok evidence ∧
        evidence.execution_status = "denied-before-executor"

/-- The request is one that the code does not refuse for another reason than the values of
`approvalRequired` and `executable`. -/
structure Otherwise (m : Machine) (document : Value) (tool correlation_id : String)
    (kubeconfig : Option String) (spec : Entries) : Prop where
  policy : ∃ policy, load_policy m document = .ok policy ∧
    policy.tools.lookup tool = some (.dict spec)
  correlated : blank correlation_id = false
  riskClass : get spec "riskClass" = .str "read-only-diagnostic"
  command : (TOOL_COMMANDS.lookup tool).isSome = true
  kubeconfig : ∃ path resolved, kubeconfig = some path ∧ validate_kubeconfig m path = .ok resolved

/-- Only strict entries let a command be started, if and only if the entry of a request that is not
refused otherwise has `approvalRequired` true or absent, or of another value that counts as true, or
`executable` false or absent, or of another value that counts as false, or is strict in both. -/
theorem run_meets_iff (m : Machine) (document : Value) (tool correlation_id : String)
    (kubeconfig : Option String) :
    Meets m document tool correlation_id kubeconfig ↔
      ∀ spec, Otherwise m document tool correlation_id kubeconfig spec →
        (getD spec "approvalRequired" (.bool true)).truthy = true ∨
          (getD spec "executable" (.bool false)).truthy = false ∨
          (get spec "approvalRequired" = .bool false ∧ get spec "executable" = .bool true) := by
  constructor
  · intro hmeets spec h
    by_contra hnot
    obtain ⟨happroval, hnot⟩ := not_or.mp hnot
    obtain ⟨hexecutable, hnot⟩ := not_or.mp hnot
    obtain ⟨command, hcommand⟩ := Option.isSome_iff_exists.mp h.command
    obtain ⟨path, resolved, hpath, hresolved⟩ := h.kubeconfig
    have hallowing : Allowing spec := ⟨h.riskClass, by simpa using happroval, by simpa using hexecutable⟩
    have hmem := mem_calls_iff.mpr ⟨spec, command, resolved,
      ⟨h.policy, h.correlated, hallowing, hcommand, ⟨path, hpath, hresolved⟩⟩, rfl⟩
    obtain ⟨policy, spec', -, hpolicy, hspec', hstrict, -⟩ := hmeets.started _ hmem
    obtain ⟨policy', hpolicy', hspec⟩ := h.policy
    obtain rfl := Except.ok.inj (hpolicy.symm.trans hpolicy')
    obtain rfl := Value.dict.inj (Option.some.inj (hspec'.symm.trans hspec))
    exact hnot ⟨hstrict.approvalRequired, hstrict.executable⟩
  · intro h
    refine ⟨fun call hcall => ?_, run_otherwise⟩
    obtain ⟨spec, command, resolved, hstarted, rfl⟩ := mem_calls_iff.mp hcall
    obtain ⟨policy, hpolicy, hspec⟩ := hstarted.policy
    obtain ⟨path, hpath, hresolved⟩ := hstarted.kubeconfig
    have hothers := h spec ⟨⟨policy, hpolicy, hspec⟩, hstarted.correlated,
      hstarted.allowing.riskClass, by rw [hstarted.command]; rfl, ⟨path, resolved, hpath, hresolved⟩⟩
    rw [hstarted.allowing.approvalRequired, hstarted.allowing.executable] at hothers
    simp only [Bool.false_eq_true, Bool.true_eq_false, false_or] at hothers
    exact ⟨policy, spec, command, hpolicy, hspec,
      ⟨hstarted.allowing.riskClass, hothers.1, hothers.2⟩, hstarted.command, rfl⟩

def sampleMachine : Machine where
  py :=
    { quote := fun s => "'" ++ s ++ "'"
      float := fun _ => "0.0"
      float_head := Py.float_head_zero }
  canonical_json _ := ""
  sha256_text s := s
  started_at := "2026-01-01T00:00:00Z"
  completed_at := "2026-01-01T00:00:01Z"
  resolve path := path
  is_file _ := true
  shared := "/home/.kube/config"
  runner _ := .ok ⟨0, some "", some ""⟩
  summarize _ _ := .ok none

/-- A policy with one tool. -/
def onePolicy (approvalRequired executable : Value) : Value :=
  .dict [("schemaVersion", .str "beluga-agent-policy/v1"), ("policyVersion", .str "v1"),
    ("mode", .str "read-only-poc"), ("tools", .dict [("cluster.nodes", .dict
      [("riskClass", .str "read-only-diagnostic"), ("approvalRequired", approvalRequired),
        ("executable", executable)])])]

/-- `null` for `approvalRequired` and the string `false` for `executable` start a command. -/
theorem null_and_text_enable :
    (run sampleMachine (onePolicy .none (.str "false")) "cluster.nodes" "incident"
      (some "/tmp/beluga.yaml")).calls = [⟨["kubectl", "get", "nodes", "-o", "json", "--context",
        "beluga", "--request-timeout=15s"], "/tmp/beluga.yaml"⟩] ∧
      ¬ Meets sampleMachine (onePolicy .none (.str "false")) "cluster.nodes" "incident"
        (some "/tmp/beluga.yaml") := by
  have hcalls : (run sampleMachine (onePolicy .none (.str "false")) "cluster.nodes" "incident"
      (some "/tmp/beluga.yaml")).calls = [⟨["kubectl", "get", "nodes", "-o", "json", "--context",
        "beluga", "--request-timeout=15s"], "/tmp/beluga.yaml"⟩] := by decide +kernel
  refine ⟨hcalls, fun hmeets => ?_⟩
  obtain ⟨policy, spec, command, hpolicy, hspec, hstrict, -⟩ := hmeets.started _ (by
    rw [hcalls]
    exact List.mem_cons_self)
  obtain rfl := Except.ok.inj hpolicy
  obtain rfl := Value.dict.inj (Option.some.inj hspec)
  have happroval := hstrict.approvalRequired
  cases happroval

/-! ## Ids of requests -/

/-- Evidence carries the correlation id that was given, and no other request has its id. -/
structure Faithful (m : Machine) (policy : Policy) (tool correlation_id : String)
    (invocation : ResolvedInvocation) : Prop where
  carried : ∀ decision kubeconfig evidence,
    (execute_read_only m invocation decision kubeconfig).result = .ok evidence →
      evidence.correlation_id = correlation_id
  distinct : ∀ tool' correlation_id' invocation',
    resolve_invocation m policy tool' correlation_id' = .ok invocation' →
      invocation'.resolution_id = invocation.resolution_id →
        correlation_id' = correlation_id ∧ tool' = tool

theorem finish_correlation {evidence evidence' : ExecutionEvidence} {completed : Completed}
    (h : finish m evidence completed = .ok evidence') :
    evidence'.correlation_id = evidence.correlation_id := by
  unfold finish at h
  dsimp only at h
  split at h
  · cases h
  · obtain rfl := Except.ok.inj h
    rfl

theorem execute_correlation (h : resolve_invocation m policy tool correlation_id = .ok invocation)
    {decision : AuthorizationDecision} {path : String} {evidence : ExecutionEvidence}
    (hresult : (execute_read_only m invocation decision path).result = .ok evidence) :
    evidence.correlation_id = String.ofList (upToColon correlation_id.toList) := by
  obtain ⟨started, hstart, hid⟩ := exists_evidence h decision
  rw [← hid]
  unfold execute_read_only at hresult
  rw [hstart] at hresult
  dsimp only at hresult
  split_ifs at hresult
  · obtain rfl := Except.ok.inj hresult
    rfl
  · split at hresult
    · cases hresult
    · split at hresult
      · cases hresult
      · split at hresult
        · cases hresult
        · exact finish_correlation hresult

/-- Ids of two requests are the same where a part of the one tool's name belongs to the other
correlation id. -/
theorem same_id_iff {c c' t t' : List Char} (hc : ':' ∉ c) :
    c' ++ ':' :: t' = c ++ ':' :: t ↔
      (c' = c ∧ t' = t) ∨ ∃ x, c' = c ++ ':' :: x ∧ t = x ++ ':' :: t' := by
  constructor
  · intro h
    rcases List.append_eq_append_iff.mp h with ⟨x, rfl, hx⟩ | ⟨x, rfl, hx⟩
    · -- the other correlation id is the shorter one
      cases x with
      | nil => exact .inl ⟨(List.append_nil _).symm, (List.cons.inj hx).2⟩
      | cons d x =>
          obtain rfl := (List.cons.inj hx).1
          exact absurd (List.mem_append_right _ List.mem_cons_self) hc
    · cases x with
      | nil => exact .inl ⟨List.append_nil _, (List.cons.inj hx).2.symm⟩
      | cons d x =>
          obtain ⟨rfl, htail⟩ := List.cons.inj hx
          exact .inr ⟨x, rfl, htail⟩
  · rintro (⟨rfl, rfl⟩ | ⟨x, rfl, rfl⟩)
    · rfl
    · simp

theorem resolutionId_eq_iff {tool' correlation_id' : String} :
    resolutionId correlation_id' tool' = resolutionId correlation_id tool ↔
      correlation_id'.toList ++ ':' :: tool'.toList = correlation_id.toList ++ ':' :: tool.toList := by
  rw [← String.toList_inj, resolutionId_toList, resolutionId_toList, List.append_cancel_left_eq,
    List.cons_inj_right]

theorem blank_append {s t : String} (h : blank s = false) : blank (s ++ t) = false := by
  unfold blank at h ⊢
  rw [String.toList_append, List.all_append, h, Bool.false_and]

/-- A request's evidence and id are its own if and only if its correlation id has no colon, and no
tool of the policy is what follows a colon in the name of its tool. -/
theorem correlation_iff (m : Machine) (policy : Policy) (tool correlation_id : String)
    (invocation : ResolvedInvocation)
    (h : resolve_invocation m policy tool correlation_id = .ok invocation) :
    Faithful m policy tool correlation_id invocation ↔
      ':' ∉ correlation_id.toList ∧ ∀ tool', (policy.tools.lookup tool').isSome = true →
        ¬ (':' :: tool'.toList) <:+ tool.toList := by
  obtain ⟨hblank, htool, -, hid⟩ := resolve_ok h
  constructor
  · intro hfaithful
    have hcolon : ':' ∉ correlation_id.toList := by
      obtain ⟨evidence, hstart, hcarried⟩ := exists_evidence h ⟨.deny, "", "", true⟩
      have hdenied : (execute_read_only m invocation ⟨.deny, "", "", true⟩ "").result =
          .ok { evidence with
            execution_status := "denied-before-executor", completed_at := some m.completed_at } := by
        unfold execute_read_only
        rw [hstart]
        rfl
      have hsame := hfaithful.carried _ _ _ hdenied
      rw [show evidence.correlation_id = correlation_id from hsame, ← String.toList_inj,
        String.toList_ofList] at hcarried
      exact upToColon_eq_self.mp hcarried.symm
    refine ⟨hcolon, fun tool' htool' hsuffix => ?_⟩
    obtain ⟨x, hx⟩ := hsuffix
    have hblank' : blank (correlation_id ++ String.ofList (':' :: x)) = false := blank_append hblank
    obtain ⟨invocation', hinvocation'⟩ := exists_resolve (m := m) hblank' htool'
    obtain ⟨-, -, -, hid'⟩ := resolve_ok hinvocation'
    have hsame : invocation'.resolution_id = invocation.resolution_id := by
      rw [hid, hid', resolutionId_eq_iff, same_id_iff hcolon]
      refine .inr ⟨x, ?_, hx.symm⟩
      rw [String.toList_append, String.toList_ofList]
    obtain ⟨-, rfl⟩ := hfaithful.distinct _ _ _ hinvocation' hsame
    have hlen := congrArg List.length hx
    simp only [List.length_append, List.length_cons] at hlen
    omega
  · rintro ⟨hcolon, hfree⟩
    constructor
    case carried =>
      intro decision path evidence hresult
      rw [execute_correlation h hresult, upToColon_eq_self.mpr hcolon, String.ofList_toList]
    case distinct =>
      intro tool' correlation_id' invocation' h' hsame
      obtain ⟨-, htool', -, hid'⟩ := resolve_ok h'
      rw [hid, hid', resolutionId_eq_iff, same_id_iff hcolon] at hsame
      rcases hsame with ⟨hcorrelation, htool''⟩ | ⟨x, -, hx⟩
      · exact ⟨String.toList_inj.mp hcorrelation, String.toList_inj.mp htool''⟩
      · exact absurd ⟨x, hx.symm⟩ (hfree tool' htool')

/-- A policy where the name of one tool is the end of another's, after a colon. -/
def twoTools : Policy := ⟨.str "v1", [("nodes", .dict []), ("cluster:nodes", .dict [])]⟩

/-- A request with the ids that it would get. -/
def requestOf (tool correlation_id : String) : ResolvedInvocation where
  resolution_id := resolutionId correlation_id tool
  policy_version := .str "v1"
  tool
  tool_contract_version := TOOL_CONTRACT_VERSION
  target := "kube-context:beluga"
  normalized_arguments := []
  canonicalization_version := CANONICALIZATION_VERSION
  invocation_digest := "sha256:"

theorem correlation_iff_nodes :
    resolve_invocation sampleMachine twoTools "nodes" "incident-7" =
        .ok (requestOf "nodes" "incident-7") ∧
      (Faithful sampleMachine twoTools "nodes" "incident-7" (requestOf "nodes" "incident-7") ↔
        ':' ∉ "incident-7".toList ∧ ∀ tool', (twoTools.tools.lookup tool').isSome = true →
          ¬ (':' :: tool'.toList) <:+ "nodes".toList) :=
  have hresolve : resolve_invocation sampleMachine twoTools "nodes" "incident-7" =
      .ok (requestOf "nodes" "incident-7") := rfl
  ⟨hresolve, correlation_iff sampleMachine twoTools "nodes" "incident-7" _ hresolve⟩

/-- A correlation id with a colon is cut in the evidence, and the id of its request is the id of
another one. -/
theorem colon_is_cut :
    resolve_invocation sampleMachine twoTools "nodes" "incident:cluster" =
        .ok (requestOf "nodes" "incident:cluster") ∧
      resolve_invocation sampleMachine twoTools "cluster:nodes" "incident" =
        .ok (requestOf "cluster:nodes" "incident") ∧
      (requestOf "nodes" "incident:cluster").resolution_id =
        (requestOf "cluster:nodes" "incident").resolution_id ∧
      (execute_read_only sampleMachine (requestOf "nodes" "incident:cluster")
        ⟨.deny, "tool-disabled-by-policy", "read-only-diagnostic", false⟩ "").result.map
          (·.correlation_id) = .ok "incident" ∧
      ¬ Faithful sampleMachine twoTools "nodes" "incident:cluster"
        (requestOf "nodes" "incident:cluster") := by
  have hsame : (requestOf "nodes" "incident:cluster").resolution_id =
      (requestOf "cluster:nodes" "incident").resolution_id := by decide +kernel
  refine ⟨rfl, rfl, hsame, by rfl, fun hfaithful => ?_⟩
  obtain ⟨hid, -⟩ := hfaithful.distinct "cluster:nodes" "incident" _ rfl hsame.symm
  exact absurd hid (by decide +kernel)

end Agent
