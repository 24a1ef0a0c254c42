import Beluga.Py.Access
import Beluga.Py.Strings

/-! # Plugins of APISIX routes

`check-apisix-route-rate-limit.py`: which plugins of a route protect it, how the plugins of several
sources are merged, and how a list of plugins is read. How YAML and networks are read, and how
Python sorts values, are parameters. -/

namespace Apisix

open Py

inductive IpVersion where
  | v4
  | v6
  deriving DecidableEq

structure Runtime where
  py : Text
  /-- `yaml.safe_load(text)`; `invalid` is a `YAMLError`. -/
  safeLoad : String → Try Value
  /-- The version and the length of the network part of `ipaddress.ip_network(entry, strict=False)`,
  if that is no `ValueError`. -/
  ipNetwork : String → Option (IpVersion × ℕ)
  /-- `sorted(values)`. -/
  sorted : List Value → Try (List Value)
  /-- `text.lower()`. -/
  lower : String → String

abbrev Plugin := Entries

/-! ## Plugins that protect -/

/-- A positive number that is not a boolean. -/
def is_positive_number : Value → Bool
  | .int n => 0 < n
  | .float x => Js.Num.lt (.fin 0) x
  | _ => false

def is_non_negative_number : Value → Bool
  | .int n => 0 ≤ n
  | .float x => Js.Num.le (.fin 0) x
  | _ => false

def is_plugin_enabled (p : Plugin) : Bool :=
  if isBool false (getD p "enable" (.bool true)) then false
  else if isBool true (get p "disable") then false
  else match get p "_meta" with
    | .dict entries => !isBool true (get entries "disable")
    | _ => true

section Checks

variable (rt : Runtime)

/-- A string that is not blank. -/
def textEntry : Value → Option String
  | .str s => if blank s then none else some s
  | _ => none

/-- The allowlist of an `ip-restriction`, if it is one of texts. -/
def allowList (config : Entries) : Option (List String) :=
  match orElse (get config "allow") (get config "whitelist") with
  | .list (item :: items) => (item :: items).mapM textEntry
  | _ => none

def broadReason (entry : String) : Option String :=
  match rt.ipNetwork entry with
  | none => some ("invalid IP/CIDR '" ++ entry ++ "'")
  | some (.v4, n) =>
      if n < 8 then some ("overly broad IPv4 CIDR '" ++ entry ++ "' (prefix /" ++ toString n ++ " < /8)")
      else none
  | some (.v6, n) =>
      if n < 7 then some ("overly broad IPv6 CIDR '" ++ entry ++ "' (prefix /" ++ toString n ++ " < /7)")
      else none

/-- What the loop returns at a plugin, if it returns there. -/
def ipVerdict (p : Plugin) : Option (Bool × String) :=
  if !(get p "name").eq (.str "ip-restriction") then none
  else if !is_plugin_enabled p then none
  else match get p "config" with
    | .dict config =>
        match allowList config with
        | none => none
        | some allow =>
            match (allow.map strip).findSome? (broadReason rt) with
            | some reason => some (false, "ip-restriction allowlist rejected: " ++ reason)
            | none => some (true, "ip-restriction allowlist active (" ++ toString allow.length ++
                " valid CIDRs/IPs)")
    | _ => none

def check_ip_restriction (plugins : List Plugin) : Bool × String :=
  (plugins.findSome? (ipVerdict rt)).getD (false, "")

/-- A setting of a rate limiting plugin. -/
structure Limit where
  field : String
  fallback : Value
  accepts : Value → Bool
  expected : String

/-- The two settings of each rate limiting plugin. -/
def LIMITS : List (String × Limit × Limit) :=
  [("limit-req", ⟨"rate", .none, is_positive_number, "positive number"⟩,
      ⟨"burst", .int 0, is_non_negative_number, "non-negative number"⟩),
    ("limit-count", ⟨"count", .none, is_positive_number, "positive integer"⟩,
      ⟨"time_window", .none, is_positive_number, "positive number"⟩),
    ("limit-conn", ⟨"conn", .none, is_positive_number, "positive integer"⟩,
      ⟨"burst", .int 0, is_non_negative_number, "non-negative number"⟩)]

inductive RateVerdict where
  | skip
  | reason (text : String)
  | passed (text : String)

def Limit.value (limit : Limit) (config : Entries) : Value := getD config limit.field limit.fallback

def Limit.reason (limit : Limit) (name : String) (config : Entries) : RateVerdict :=
  .reason (name ++ " " ++ limit.field ++ " must be " ++ limit.expected ++ " (got " ++
    (limit.value config).repr rt.py ++ ")")

def rateVerdict (p : Plugin) : RateVerdict :=
  match LIMITS.find? fun entry => (get p "name").eq (.str entry.1) with
  | none => .skip
  | some (name, first, second) =>
      if !is_plugin_enabled p then .reason (name ++ " is disabled (enable=false)")
      else match get p "config" with
        | .dict config =>
            if !first.accepts (first.value config) then first.reason rt name config
            else if !second.accepts (second.value config) then second.reason rt name config
            else .passed (name ++ " enabled (" ++ first.field ++ "=" ++
              (first.value config).text rt.py ++ ", " ++ second.field ++ "=" ++
              (second.value config).text rt.py ++ ")")
        | _ => .reason (name ++ " config missing or invalid")

/-- The loop over the plugins, with the reasons so far. -/
def rateLoop (reasons : List String) : List Plugin → Bool × String
  | [] =>
      if reasons.isEmpty then (false, "missing rate limiting plugin (limit-req, limit-count, limit-conn)")
      else (false, "; ".intercalate reasons)
  | p :: rest =>
      match rateVerdict rt p with
      | .skip => rateLoop reasons rest
      | .reason text => rateLoop (reasons ++ [text]) rest
      | .passed text => (true, text)

def check_rate_limiting (plugins : List Plugin) : Bool × String := rateLoop rt [] plugins

end Checks

/-! ## Lists of plugins -/

/-- `merged[p["name"]] = p`. -/
def replaceNamed : List Plugin → Plugin → List Plugin
  | [], p => [p]
  | q :: rest, p => if (get q "name").eq (get p "name") then p :: rest else q :: replaceNamed rest p

def mergePlugin (merged : List Plugin) (p : Plugin) : Try (List Plugin) :=
  if (p.lookup "name").isNone then .ok merged
  else if hashable (get p "name") then .ok (replaceNamed merged p)
  else .error .raised

/-- Later sources override earlier ones by the name of a plugin. -/
def merge_plugins (plugin_sources : List (List Plugin)) : Try (List Plugin) :=
  plugin_sources.flatten.foldlM mergePlugin []

def listedPlugin (context : String) (item : Value × ℕ) : Try Plugin :=
  match item.1 with
  | .dict p =>
      if (p.lookup "name").isSome then .ok p
      else .error (.invalid (context ++ ": plugin item #" ++ toString item.2 ++
        " missing required 'name' field"))
  | _ => .error (.invalid (context ++ ": plugin item #" ++ toString item.2 ++ " is not a dict"))

def keyedPlugin (context : String) (entry : String × Value) : Try Plugin :=
  match entry.2 with
  | .dict config => .ok [("name", .str entry.1), ("enable", getD config "enable" (.bool true)),
      ("config", .dict (config.filter fun setting => setting.1 ≠ "enable"))]
  | .bool enable => .ok [("name", .str entry.1), ("enable", .bool enable), ("config", .dict [])]
  | v => .error (.invalid (context ++ ": plugin '" ++ entry.1 ++ "' value must be dict or bool (got " ++
      v.typeName ++ ")"))

def normalize_plugin_list (raw_plugins : Value) (context : String) : Try (List Plugin) :=
  match raw_plugins with
  | .none => .ok []
  | .list items => items.zipIdx.mapM (listedPlugin context)
  | .dict d => d.mapM (keyedPlugin context)
  | v => .error (.invalid (context ++ ": plugins must be a list or dict (got " ++ v.typeName ++ ")"))

end Apisix
