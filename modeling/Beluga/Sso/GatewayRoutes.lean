import Beluga.Py.Access
import Beluga.Py.Strings
import Beluga.Sso.GroupAudit

/-! # The routes of the gateway

`audit_gateway_routes` and `audit_allowed_groups` of `check-gateway-sso.py`, over rendered documents
of any shape. The path of a URL, and how Python shows a set, are parameters. -/

namespace Sso.Gateway

open Py

/-! ## Path patterns -/

/-- `pattern` matches `path`, as APISIX reads patterns. -/
def path_matches (pattern path : Value) : Try Bool :=
  match pattern with
  | .str s =>
      let cs := s.toList
      if s = "/*" ∨ s = "*" then .ok true
      else if "/*".toList.isSuffixOf cs then
        let front := String.ofList (cs.take (cs.length - 2))
        if path.eq (.str front) then .ok true else startsWith (front ++ "/") path
      else if "*".toList.isSuffixOf cs then startsWith (String.ofList cs.dropLast) path
      else .ok (path.eq (.str s))
  | _ => .error .raised

def BYPASS : List String := ["/catalog/*", "/management/*", "/health", "/v1/*"]

/-- `p in ("/catalog/*", "/management/*", "/health", "/v1/*")`. -/
def isBypass (p : Value) : Bool := BYPASS.any fun b => p.eq (.str b)

/-! ## Rules -/

/-- `doc.get("spec", {}).get("http", [])`. -/
def httpRules (doc : Entries) : Try (List Value) := do
  let spec ← entries (getD doc "spec" (.dict []))
  iter (getD spec "http" (.list []))

/-- The value of `match` and `key` in a rule. -/
def matchValue (rule : Entries) (key : String) : Try Value := do
  let m ← entries (getD rule "match" (.dict []))
  .ok (getD m key (.list []))

def hostsOf (rule : Entries) : Try (List Value) := do
  let hosts ← matchValue rule "hosts"
  let items ← iter hosts
  items.mapM hashed

def pathsOf (rule : Entries) : Try (List Value) := do
  let paths ← matchValue rule "paths"
  iter paths

/-- A rule under each of its hosts. -/
def hostRules (v : Value) : Try (List (Value × Entries)) := do
  let rule ← entries v
  let hosts ← hostsOf rule
  .ok (hosts.map fun host => (host, rule))

def docRules (doc : Entries) : Try (List (Value × Entries)) :=
  if !(get doc "kind").eq (.str "ApisixRoute") then .ok []
  else do
    let rules ← httpRules doc
    let pairs ← rules.mapM hostRules
    .ok pairs.flatten

def routes_by_host (docs : List Entries) : Try (List (Value × Entries)) := do
  let pairs ← docs.mapM docRules
  .ok pairs.flatten

/-- `routes_by_host.get(host, [])`. -/
def rulesFor (routes : List (Value × Entries)) (host : Value) : List Entries :=
  (routes.filter fun pair => pair.1.eq host).map Prod.snd

/-- The plugins of a rule that are enabled, in order. -/
def pluginList (rule : Entries) : Try (List Entries) := do
  let items ← iter (getD rule "plugins" (.list []))
  let plugins ← items.mapM entries
  .ok (plugins.filter fun p => (getD p "enable" (.bool false)).truthy)

/-- `{p.get("name"): p for p in ...}`, as pairs. -/
def named (plugins : List Entries) : Try (List (Value × Entries)) :=
  plugins.mapM fun p => do
    let name ← hashed (get p "name")
    .ok (name, p)

def pluginsOf (rule : Entries) : Try (List (Value × Entries)) := do
  let plugins ← pluginList rule
  named plugins

/-- `plugins.get(name)`: of two plugins with a name the last one counts. -/
def pluginNamed (plugins : List (Value × Entries)) (name : String) : Option Entries :=
  (plugins.reverse.find? fun pair => pair.1.eq (.str name)).map Prod.snd

/-- `plugin.get("config", {}).get("headers", {}).get("remove", [])`. -/
def removeValue (plugin : Entries) : Try Value := do
  let config ← entries (getD plugin "config" (.dict []))
  let headers ← entries (getD config "headers" (.dict []))
  .ok (getD headers "remove" (.list []))

def removedOf (plugin : Entries) : Try (List Value) := do
  let value ← removeValue plugin
  let items ← iter value
  items.mapM hashed

/-! ## The audit of the routes -/

structure Runtime where
  py : Text
  /-- `f"{names}"` of a set. -/
  setText : List String → String
  /-- `urllib.parse.urlparse(url).path`. -/
  urlPath : String → Try String

/-- What an audit returns. -/
structure Report where
  errors : List String
  checked : List String
  deriving DecidableEq

def Report.join (reports : List Report) : Report where
  errors := reports.flatMap (·.errors)
  checked := reports.flatMap (·.checked)

def errorIf (p : Bool) (text : String) : List String := if p then [text] else []

section Audit

variable (rt : Runtime)

def shown (v : Value) : String := v.text rt.py

def ruleName (rule : Entries) : String := shown rt (getD rule "name" (.str "unnamed"))

/-- The path of `redirect_uri`. -/
def redirectPath (uri : Value) : Try String :=
  if !uri.truthy then .ok ""
  else match uri with
    | .str url => rt.urlPath url
    | _ => .error .raised

/-- The checks of a path that the rule itself has to match. -/
def reachable (missing unmatched matched : String) (path : Value) (paths : List Value) :
    Try Report :=
  if !path.truthy then .ok ⟨[missing], []⟩
  else do
    let found ← paths.anyM fun p => path_matches p path
    .ok (if found then ⟨[], [matched]⟩ else ⟨[unmatched], []⟩)

def redirectReport (name : String) (pathsText path : String) (paths : List Value) : Try Report :=
  reachable ("Route '" ++ name ++ "': openid-connect redirect_uri is missing or invalid")
    ("Route '" ++ name ++ "': redirect_uri path '" ++ path ++
      "' is not matched by any route path in " ++ pathsText)
    ("Route '" ++ name ++ "': redirect_uri path '" ++ path ++ "' matched by " ++ pathsText)
    (.str path) paths

def logoutReport (name : String) (pathsText : String) (path : Value) (paths : List Value) :
    Try Report :=
  reachable ("Route '" ++ name ++ "': openid-connect logout_path is missing")
    ("Route '" ++ name ++ "': logout_path '" ++ shown rt path ++
      "' is not matched by any route path in " ++ pathsText)
    ("Route '" ++ name ++ "': logout_path '" ++ shown rt path ++ "' matched by " ++ pathsText)
    path paths

def clientSecret : String := "$env://APISIX_OIDC_CLIENT_SECRET"

def sessionSecret : String := "$env://APISIX_OIDC_SESSION_SECRET"

/-- The client, the secrets and the verification of the `openid-connect` plugin. -/
def configErrors (name : String) (ep config session : Entries) : List String :=
  let expected := getD ep "clientId" (.str "apisix-gateway")
  let secret := getD config "client_secret" (.str "")
  let sessionValue := getD session "secret" (.str "")
  errorIf (!(get config "client_id").eq expected)
    ("Route '" ++ name ++ "': openid-connect client_id must be '" ++ shown rt expected ++ "', got " ++
      (get config "client_id").repr rt.py) ++
  errorIf (!secret.eq (.str clientSecret))
    ("Route '" ++ name ++ "': client_secret must use '" ++ clientSecret ++ "', got " ++
      secret.repr rt.py) ++
  errorIf (!sessionValue.eq (.str sessionSecret))
    ("Route '" ++ name ++ "': session.secret must use '" ++ sessionSecret ++ "', got " ++
      sessionValue.repr rt.py) ++
  errorIf (!(getD config "ssl_verify" (.bool false)).truthy)
    ("Route '" ++ name ++ "': openid-connect ssl_verify must be true")

def oidcReport (name : String) (ep oidc : Entries) (pathsText : String) (paths : List Value) :
    Try Report := do
  let config ← entries (getD oidc "config" (.dict []))
  let session ← entries (getD config "session" (.dict []))
  let path ← redirectPath rt (getD config "redirect_uri" (.str ""))
  let redirect ← redirectReport name pathsText path paths
  let logout ← logoutReport rt name pathsText (getD config "logout_path" (.str "")) paths
  .ok (.join [⟨configErrors rt name ep config session, []⟩, redirect, logout])

/-- The headers that `proxy-rewrite` has to remove. -/
def expectedRemoved (ep : Entries) : List String :=
  if (get ep "allowedGroups").truthy then ["X-Access-Token", "X-ID-Token"]
  else ["X-Userinfo", "X-Access-Token", "X-ID-Token"]

def headerErrors (name : String) (ep : Entries) (removed : List Value) : List String :=
  let missing := (expectedRemoved ep).filter fun h => !contains removed (.str h)
  errorIf ((get ep "allowedGroups").truthy && contains removed (.str "X-Userinfo"))
    ("Route '" ++ name ++ "': proxy-rewrite must not remove X-Userinfo when allowedGroups is set " ++
      "(rewrite phase would erase it before the group check)") ++
  errorIf (!missing.isEmpty)
    ("Route '" ++ name ++ "': proxy-rewrite must remove " ++ rt.setText (expectedRemoved ep) ++
      ", missing " ++ rt.setText missing)

def rewriteErrors (name : String) (ep : Entries) (plugins : List (Value × Entries)) :
    Try (List String) :=
  match pluginNamed plugins "proxy-rewrite" with
  | none => .ok ["Route '" ++ name ++ "' is missing proxy-rewrite plugin to sanitize headers"]
  | some rewrite => do
      let removed ← removedOf rewrite
      .ok (headerErrors rt name ep removed)

/-- A rule that is taken for a route of the API. -/
def bypassReport (name host pathsText : String) (plugins : List (Value × Entries)) : Report :=
  if (pluginNamed plugins "openid-connect").isSome then
    ⟨["Route '" ++ name ++ "' for host '" ++ host ++ "' matches API paths " ++ pathsText ++
      " but has openid-connect plugin enabled (must bypass SSO)"], []⟩
  else ⟨[], ["Route '" ++ name ++ "' (API bypass) correctly omits openid-connect"]⟩

def protectedReport (name host pathsText : String) (ep : Entries) (paths : List Value)
    (plugins : List (Value × Entries)) : Try Report :=
  match pluginNamed plugins "openid-connect" with
  | none => .ok
      ⟨["Route '" ++ name ++ "' for host '" ++ host ++ "' is missing openid-connect plugin"], []⟩
  | some oidc => do
      let report ← oidcReport rt name ep oidc pathsText paths
      let errors ← rewriteErrors rt name ep plugins
      .ok (.join [report, ⟨errors, ["Route '" ++ name ++ "' (" ++ host ++
        ") verified: OIDC enabled, env secret, header sanitization"]⟩])

def ruleReport (ep : Entries) (host : String) (rule : Entries) : Try Report := do
  let pathsValue ← matchValue rule "paths"
  let plugins ← pluginsOf rule
  let paths ← iter pathsValue
  let name := ruleName rt rule
  let pathsText := shown rt pathsValue
  if paths.any isBypass then .ok (bypassReport name host pathsText plugins)
  else protectedReport rt name host pathsText ep paths plugins

def endpointReport (routes : List (Value × Entries)) (ep : Entries) : Try Report :=
  let name := shown rt (getD ep "name" (.str "unnamed"))
  let target_host := get ep "host"
  let host := shown rt target_host
  if !target_host.truthy then
    .ok ⟨["Endpoint '" ++ name ++ "' missing 'host' in sso.yaml"], []⟩
  else if !hashable target_host then .error .raised
  else if (rulesFor routes target_host).isEmpty then
    .ok ⟨["Endpoint '" ++ name ++ "' with host '" ++ host ++
      "' declared with mode: gateway-oidc but no matching ApisixRoute found"], []⟩
  else do
    let reports ← (rulesFor routes target_host).mapM (ruleReport rt ep host)
    .ok (.join reports)

def audit_gateway_routes (docs gateway_endpoints : List Entries) : Try Report := do
  let routes ← routes_by_host docs
  let reports ← gateway_endpoints.mapM (endpointReport rt routes)
  .ok (.join reports)

end Audit

/-! ## The groups of a Lua function -/

/-- A match of `LUA_GROUP_RE` at the beginning: its group, and what is left. -/
def luaGroupAt (cs : List Char) : Option (String × List Char) := do
  let cs ← (['['] : List Char).isPrefixOf? cs
  let cs ← (['"'] : List Char).isPrefixOf? (cs.dropWhile isSpace)
  let name := cs.takeWhile (· ≠ '"')
  let cs ← (['"'] : List Char).isPrefixOf? (cs.dropWhile (· ≠ '"'))
  let cs ← ([']'] : List Char).isPrefixOf? (cs.dropWhile isSpace)
  let cs ← (['='] : List Char).isPrefixOf? (cs.dropWhile isSpace)
  let cs ← ("true".toList).isPrefixOf? (cs.dropWhile isSpace)
  some (String.ofList name, cs)

/-- The groups of the matches that follow each other, after `skip` characters. -/
def groupsAfter : ℕ → List Char → List String
  | _, [] => []
  | skip + 1, _ :: cs => groupsAfter skip cs
  | 0, c :: cs =>
      match luaGroupAt (c :: cs) with
      | some (name, rest) => name :: groupsAfter (cs.length - rest.length) cs
      | none => groupsAfter 0 cs

/-- `LUA_GROUP_RE.findall(lua)`: the allow-table. -/
def luaGroups (lua : String) : List String := groupsAfter 0 lua.toList

/-! ## The audit of the groups -/

/-- The list, if it is a non-empty list of strings. -/
def stringList : Value → Option (List String)
  | .list (item :: items) => (item :: items).mapM fun v => match v with
      | .str s => some s
      | _ => none
  | _ => none

def MAX_GROUP_SESSION_SECONDS : ℤ := 3600

/-- A timeout in seconds that is short enough. -/
def timeoutOk : Value → Bool
  | .int n => 0 < n && n ≤ MAX_GROUP_SESSION_SECONDS
  | _ => false

section Groups

variable (rt : Runtime)

/-- `sorted(names)`, shown. -/
def sortedText (names : List String) : String :=
  (Value.list ((names.insertionSort (· ≤ ·)).map .str)).text rt.py

/-- Of `openid-connect`: the header for the group check, and the age of a session. -/
def sessionErrors (name : String) (config session : Entries) : List String :=
  let timeout := get session "absolute_timeout"
  errorIf (match get config "set_userinfo_header" with
      | .bool true => false
      | _ => true)
    ("Route '" ++ name ++ "': allowedGroups requires openid-connect set_userinfo_header: true") ++
  errorIf (!timeoutOk timeout)
    ("Route '" ++ name ++ "': allowedGroups requires openid-connect session.absolute_timeout in 1.." ++
      toString MAX_GROUP_SESSION_SECONDS ++ ", got " ++ timeout.repr rt.py)

/-- `order.index(name)`. -/
def indexOf (order : List Value) (name : String) : ℕ := order.findIdx fun v => v.eq (.str name)

def orderErrors (name : String) (order : List Value) : List String :=
  errorIf (!contains order (.str "openid-connect") ||
      indexOf order "serverless-post-function" < indexOf order "openid-connect")
    ("Route '" ++ name ++ "': serverless-post-function (access phase) must come after " ++
      "openid-connect (rewrite phase)")

def phaseErrors (name : String) (config : Entries) : List String :=
  errorIf (!(get config "phase").eq (.str "access"))
    ("Route '" ++ name ++ "': group check must run in phase 'access', got " ++
      (get config "phase").repr rt.py)

/-- The one Lua function. -/
def luaOf (config : Entries) : Option String :=
  match getD config "functions" (.list []) with
  | .list [.str lua] => some lua
  | _ => none

def sameSet (xs ys : List String) : Bool := xs.all (· ∈ ys) && ys.all (· ∈ xs)

def luaErrors (name : String) (groups : List String) (lua : String) : List String :=
  let found := luaGroups lua
  errorIf (!sameSet found groups || found.length ≠ groups.length)
    ("Route '" ++ name ++ "': Lua allow-table " ++ sortedText rt found ++ " != allowedGroups " ++
      sortedText rt groups) ++
  errorIf (!Py.hasText "set_header(ctx, \"X-Userinfo\", nil)" lua)
    ("Route '" ++ name ++ "': Lua group check must remove X-Userinfo") ++
  errorIf (!Py.hasText "return 403" lua)
    ("Route '" ++ name ++ "': Lua group check must answer 403 when no group matches")

/-- The checks of the group check itself. -/
def guardReport (name host : String) (groups : List String) (order : List Value)
    (plugins : List (Value × Entries)) (guard : Entries) : Try Report := do
  let config ← entries (getD guard "config" (.dict []))
  let errors := orderErrors name order ++ phaseErrors rt name config
  match luaOf config with
  | none => .ok ⟨errors ++ ["Route '" ++ name ++ "': group check must be exactly one Lua function"], []⟩
  | some lua => do
      let value ← removeValue ((pluginNamed plugins "proxy-rewrite").getD [])
      let erased ← inValue "X-Userinfo" value
      .ok ⟨errors ++ luaErrors rt name groups lua ++ errorIf erased
          ("Route '" ++ name ++ "': proxy-rewrite must not remove X-Userinfo when allowedGroups is set"),
        ["Route '" ++ name ++ "' (" ++ host ++ ") group check verified: " ++ sortedText rt groups]⟩

def guardedReport (host : String) (groups : List String) (rule : Entries) : Try Report := do
  let list ← pluginList rule
  let plugins ← named list
  let name := ruleName rt rule
  let oidc := (pluginNamed plugins "openid-connect").getD []
  let config ← entries (getD oidc "config" (.dict []))
  let session ← entries (getD config "session" (.dict []))
  let errors := sessionErrors rt name config session
  match pluginNamed plugins "serverless-post-function" with
  | none => .ok ⟨errors ++ ["Route '" ++ name ++
      "': allowedGroups set but serverless-post-function group check is missing"], []⟩
  | some guard => do
      let report ← guardReport rt name host groups (list.map fun p => get p "name") plugins guard
      .ok (.join [⟨errors, []⟩, report])

/-- A rule, unless it is taken for a route of the API. -/
def guardedRule (rule : Entries) : Try (Option Entries) := do
  let paths ← pathsOf rule
  .ok (if paths.any isBypass then none else some rule)

def groupReport (knownGroups : List String) (routes : List (Value × Entries)) (ep : Entries) :
    Try Report :=
  let name := shown rt (getD ep "name" (.str "unnamed"))
  let host := get ep "host"
  match ep.lookup "allowedGroups" with
  | none => .ok ⟨[], []⟩
  | some value =>
      if !(get ep "mode").eq (.str "gateway-oidc") then
        .ok ⟨["Endpoint '" ++ name ++ "': allowedGroups is only allowed with mode gateway-oidc"], []⟩
      else match stringList value with
        | none => .ok
            ⟨["Endpoint '" ++ name ++ "': allowedGroups must be a non-empty list of strings"], []⟩
        | some groups =>
            let errors := listErrors ⟨fun _ => "", rt.py.quote⟩ knownGroups name groups
            if !errors.isEmpty then .ok ⟨errors, []⟩
            else if !hashable host then .error .raised
            else do
              let rules ← (rulesFor routes host).mapM guardedRule
              if rules.reduceOption.isEmpty then
                .ok ⟨["Endpoint '" ++ name ++
                  "': no ApisixRoute found to carry the allowedGroups check"], []⟩
              else do
                let reports ← rules.reduceOption.mapM (guardedReport rt (shown rt host) groups)
                .ok (.join reports)

def audit_allowed_groups (docs endpoints : List Entries) (knownGroups : List String) :
    Try Report := do
  let routes ← routes_by_host docs
  let reports ← endpoints.mapM (groupReport rt knownGroups routes)
  .ok (.join reports)

end Groups

end Sso.Gateway
