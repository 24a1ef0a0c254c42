import Beluga.Py.Strings
import Beluga.Py.Values
import Mathlib.Data.List.TakeWhile

/-! # The operations agent

`operations_agent.py`: a tool of the policy is resolved, authorized and run. The machine that
it runs on is a parameter: its clock, its files, what a command answers, and how JSON is written
and hashed. An exception that is not an `AgentPolicyError` is one that `main` does not catch. -/

namespace Agent

open Py

/-! ## Strings -/

/-- `s.split(":", n)`. -/
def splitColon : ℕ → List Char → List (List Char)
  | 0, cs => [cs]
  | n + 1, cs =>
      match cs.dropWhile (· ≠ ':') with
      | [] => [cs]
      | _ :: rest => cs.takeWhile (· ≠ ':') :: splitColon n rest

/-! ## The policy -/

inductive Failure where
  /-- `AgentPolicyError`. -/
  | policy (reason : String)
  /-- An exception that is not caught. -/
  | uncaught (name : String)
  deriving DecidableEq

def SCHEMA_VERSION : String := "beluga-agent-evidence/v1"

def CANONICALIZATION_VERSION : String := "beluga-json-c14n/v1"

def TOOL_CONTRACT_VERSION : String := "beluga-operations-tools/v1"

def TOOL_COMMANDS : List (String × List String) :=
  [("cluster.nodes", ["kubectl", "get", "nodes", "-o", "json"]),
    ("cluster.pods", ["kubectl", "get", "pods", "-A", "-o", "json"]),
    ("cluster.events", ["kubectl", "get", "events", "-A", "-o", "json"]),
    ("gitops.applications",
      ["kubectl", "get", "applications.argoproj.io", "-n", "argocd", "-o", "json"])]

/-- A policy that was loaded: its version and its tools. -/
structure Policy where
  policyVersion : Value
  tools : Entries

structure ResolvedInvocation where
  resolution_id : String
  policy_version : Value
  tool : String
  tool_contract_version : String
  target : String
  normalized_arguments : Entries
  canonicalization_version : String
  invocation_digest : String

inductive Decision where
  | allow
  | deny
  deriving DecidableEq

def Decision.text : Decision → String
  | .allow => "allow"
  | .deny => "deny"

structure AuthorizationDecision where
  decision : Decision
  reason : String
  risk_class : String
  approval_required : Bool

structure ExecutionEvidence where
  schema_version : String
  correlation_id : String
  resolution_id : String
  invocation_digest : String
  policy_version : Value
  tool : String
  tool_contract_version : String
  target : String
  risk_class : String
  approval_required : Bool
  authorization_decision : String
  authorization_reason : String
  canonicalization_version : String
  started_at : String
  completed_at : Option String := none
  execution_status : String := "not-executed"
  exit_code : Option ℤ := none
  stdout_sha256 : Option String := none
  stdout_bytes : Option ℕ := none
  stderr_sha256 : Option String := none
  stderr_bytes : Option ℕ := none
  findings : Option Value := none

/-! ## The machine -/

/-- A command that is started, and the kubeconfig in its environment. -/
structure Call where
  command : List String
  kubeconfig : String
  deriving DecidableEq

structure Completed where
  returncode : ℤ
  stdout : Option String
  stderr : Option String

structure Machine where
  py : Text
  canonical_json : Value → String
  sha256_text : String → String
  started_at : String
  completed_at : String
  /-- `path.expanduser().resolve()`. -/
  resolve : String → String
  is_file : String → Bool
  /-- `~/.kube/config`, resolved. -/
  shared : String
  runner : Call → Except String Completed
  /-- What is made of the output of a tool. -/
  summarize : String → String → Except String (Option Value)

/-- What happened: the commands that were started, and the result. -/
structure Outcome where
  calls : List Call
  result : Except Failure ExecutionEvidence

section Agent

variable (m : Machine)

def load_policy (data : Value) : Except Failure Policy :=
  match data with
  | .dict entries =>
      if !(get entries "schemaVersion").eq (.str "beluga-agent-policy/v1") then
        .error (.policy "unsupported-policy-schema")
      else if !(get entries "mode").eq (.str "read-only-poc") then
        .error (.policy "unsupported-policy-mode")
      else if blank ((getD entries "policyVersion" (.str "")).text m.py) then
        .error (.policy "policy-version-required")
      else match get entries "tools" with
        | .dict tools =>
            if tools.isEmpty then .error (.policy "tool-policy-required")
            else .ok { policyVersion := get entries "policyVersion", tools }
        | _ => .error (.policy "tool-policy-required")
  | _ => .error (.uncaught "AttributeError")

def resolutionId (correlation_id tool : String) : String :=
  "resolution:" ++ correlation_id ++ ":" ++ tool

def resolve_invocation (policy : Policy) (tool correlation_id : String) :
    Except Failure ResolvedInvocation :=
  if blank correlation_id then .error (.policy "correlation-id-required")
  else if (policy.tools.lookup tool).isNone then .error (.policy "unknown-tool")
  else
    let target := "kube-context:beluga"
    let digest_input := Value.dict [("policy_version", policy.policyVersion), ("tool", .str tool),
      ("tool_contract_version", .str TOOL_CONTRACT_VERSION), ("target", .str target),
      ("normalized_arguments", .dict []),
      ("canonicalization_version", .str CANONICALIZATION_VERSION)]
    .ok {
      resolution_id := resolutionId correlation_id tool
      policy_version := policy.policyVersion
      tool
      tool_contract_version := TOOL_CONTRACT_VERSION
      target
      normalized_arguments := []
      canonicalization_version := CANONICALIZATION_VERSION
      invocation_digest := "sha256:" ++ m.sha256_text (m.canonical_json digest_input) }

def authorize (policy : Policy) (invocation : ResolvedInvocation) : AuthorizationDecision :=
  match get policy.tools invocation.tool with
  | .dict spec =>
      let risk_class := (getD spec "riskClass" (.str "unknown")).text m.py
      let approval_required := (getD spec "approvalRequired" (.bool true)).truthy
      let executable := (getD spec "executable" (.bool false)).truthy
      if risk_class ≠ "read-only-diagnostic" then
        ⟨.deny, "non-read-only-tool-disabled-in-poc", risk_class, approval_required⟩
      else if approval_required then
        ⟨.deny, "unexpected-approval-requirement", risk_class, true⟩
      else if !executable then ⟨.deny, "tool-disabled-by-policy", risk_class, false⟩
      else if (TOOL_COMMANDS.lookup invocation.tool).isNone then
        ⟨.deny, "tool-command-not-implemented", risk_class, false⟩
      else ⟨.allow, "read-only-tool-allowed", risk_class, false⟩
  | _ => ⟨.deny, "tool-policy-missing", "unknown", true⟩

def validate_kubeconfig (path : String) : Except Failure String :=
  let resolved := m.resolve path
  if !m.is_file resolved then .error (.policy "kubeconfig-not-found")
  else if resolved = m.shared then .error (.policy "shared-kubeconfig-refused")
  else .ok resolved

/-- What is known before anything is executed. -/
def startEvidence (invocation : ResolvedInvocation) (decision : AuthorizationDecision) :
    Except Failure ExecutionEvidence :=
  match (splitColon 2 invocation.resolution_id.toList)[1]? with
  | none => .error (.uncaught "IndexError")
  | some correlation_id => .ok {
      schema_version := SCHEMA_VERSION
      correlation_id := String.ofList correlation_id
      resolution_id := invocation.resolution_id
      invocation_digest := invocation.invocation_digest
      policy_version := invocation.policy_version
      tool := invocation.tool
      tool_contract_version := invocation.tool_contract_version
      target := invocation.target
      risk_class := decision.risk_class
      approval_required := decision.approval_required
      authorization_decision := decision.decision.text
      authorization_reason := decision.reason
      canonicalization_version := invocation.canonicalization_version
      started_at := m.started_at }

/-- The command of a tool, with the context and the timeout. -/
def commandOf (command : List String) : List String :=
  command ++ ["--context", "beluga", "--request-timeout=15s"]

/-- The evidence of a command that ended. -/
def finish (evidence : ExecutionEvidence) (completed : Completed) :
    Except Failure ExecutionEvidence :=
  let stdout := completed.stdout.getD ""
  let stderr := completed.stderr.getD ""
  let findings := if completed.returncode = 0 then m.summarize evidence.tool stdout else .ok none
  match findings with
  | .error name => .error (.uncaught name)
  | .ok findings => .ok { evidence with
      completed_at := some m.completed_at
      exit_code := some completed.returncode
      stdout_sha256 := some (m.sha256_text stdout)
      stdout_bytes := some stdout.utf8ByteSize
      stderr_sha256 := some (m.sha256_text stderr)
      stderr_bytes := some stderr.utf8ByteSize
      execution_status := if completed.returncode = 0 then "succeeded" else "failed"
      findings }

def execute_read_only (invocation : ResolvedInvocation) (decision : AuthorizationDecision)
    (kubeconfig : String) : Outcome :=
  match startEvidence m invocation decision with
  | .error failure => ⟨[], .error failure⟩
  | .ok evidence =>
      if decision.decision ≠ .allow then
        ⟨[], .ok { evidence with
          execution_status := "denied-before-executor", completed_at := some m.completed_at }⟩
      else match validate_kubeconfig m kubeconfig with
        | .error failure => ⟨[], .error failure⟩
        | .ok resolved =>
            match TOOL_COMMANDS.lookup invocation.tool with
            | none => ⟨[], .error (.uncaught "KeyError")⟩
            | some command =>
                let call := ⟨commandOf command, resolved⟩
                match m.runner call with
                | .error name => ⟨[call], .error (.uncaught name)⟩
                | .ok completed => ⟨[call], finish m evidence completed⟩

/-- `main` with the command `run`. -/
def run (document : Value) (tool correlation_id : String) (kubeconfig : Option String) : Outcome :=
  match load_policy m document with
  | .error failure => ⟨[], .error failure⟩
  | .ok policy =>
      match resolve_invocation m policy tool correlation_id with
      | .error failure => ⟨[], .error failure⟩
      | .ok invocation =>
          match kubeconfig with
          | none => ⟨[], .error (.policy "explicit-kubeconfig-required")⟩
          | some path => execute_read_only m invocation (authorize m policy invocation) path

end Agent

end Agent
