import Beluga.Js.Schemas
import Beluga.Js.Strings
import Beluga.Text.Regex

/-! # The schema of `sso.yaml` (`schema/sso.ts`)

The raw file schema, the resolved configuration with its semantic rules, and
`resolveSsoFile`. `new URL`, the URL check of zod and the texts of zod's own
issues are parameters (`Web`); the issues `superRefine` adds are the source's.
-/

namespace Sso

open Js

/-- Issues of a schema: where, and what. -/
structure Issue where
  path : List String
  message : String
  deriving DecidableEq, Repr

structure Url where
  protocol : String
  host : String
  hostname : String
  pathname : String
  deriving DecidableEq, Repr

inductive SsoEndpointMode where
  | gatewayOidc | appOidc | none
  deriving DecidableEq, Repr

def SsoEndpointMode.text : SsoEndpointMode → String
  | .gatewayOidc => "gateway-oidc"
  | .appOidc => "app-oidc"
  | .none => "none"

/-- An endpoint of the file, and of the resolved configuration. -/
structure SsoEndpoint where
  name : String
  host : String
  mode : SsoEndpointMode
  clientId : String
  protectedPathPrefixes : List String
  bypassPathPrefixes : List String
  redirectPath : String
  logoutPath : Option String
  allowedGroups : Option (List String)
  deriving DecidableEq, Repr

structure RawSso where
  realm : String
  issuerHost : String
  issuer : Option String
  endpoints : List SsoEndpoint
  deriving DecidableEq, Repr

structure RawSsoFile where
  sso : RawSso
  deriving DecidableEq, Repr

structure SsoConfig where
  realm : String
  issuerHost : String
  issuer : String
  endpoints : List SsoEndpoint
  deriving DecidableEq, Repr

/-- What the runtime and zod answer. -/
structure Web where
  /-- `new URL(val)`, `none` where it throws. -/
  url : String → Option Url
  /-- The check `z.string().url()`. -/
  zodUrl : String → Bool
  /-- The issues of a value the raw schema refuses. -/
  rawIssues : Json → List Issue
  /-- The issues of a configuration with a field the schema refuses. -/
  fieldIssues : SsoConfig → List Issue

/-! ## Field schemas -/

def alnum (c : Char) : Bool :=
  ('a' ≤ c && c ≤ 'z') || ('A' ≤ c && c ≤ 'Z') || ('0' ≤ c && c ≤ '9')

/-- `labelRegex`: 1 to 63 characters, letters or digits at both ends. -/
def labelRegex (label : List Char) : Bool :=
  decide (1 ≤ label.length) && decide (label.length ≤ 63) &&
    label.all (fun c => alnum c || c == '-') &&
    label.head?.all alnum && label.getLast?.all alnum

def isValidDnsName (val : String) : Bool :=
  decide (0 < Js.length val) && decide (Js.length val ≤ 253) &&
    (val.toList.splitOn '.').all labelRegex

/-- `s.trim() === ""`. -/
def blank (s : String) : Bool := s.toList.all Text.Regex.space

def dnsHost (host : String) : Bool :=
  decide (1 ≤ Js.length host) && decide (Js.length host ≤ 253) && isValidDnsName host

def httpsUrl (web : Web) (val : String) : Bool :=
  web.zodUrl val && (web.url val).any fun u => u.protocol == "https:"

def pathPrefix (p : String) : Bool := p.toList.head? == some '/'

def redirectPath (p : String) : Bool := p == "" || pathPrefix p

/-- `/^[a-z0-9-]+$/`. -/
def allowedGroup (g : String) : Bool :=
  decide (0 < g.toList.length) &&
    g.toList.all fun c => ('a' ≤ c && c ≤ 'z') || ('0' ≤ c && c ≤ '9') || c == '-'

def dnsHostSchema : Schema String := Schema.string.refine dnsHost

def httpsUrlSchema (web : Web) : Schema String := Schema.string.refine (httpsUrl web)

def pathPrefixSchema : Schema String := Schema.string.refine pathPrefix

def redirectPathSchema : Schema String := Schema.string.refine redirectPath

/-- The logout path is checked as the redirect path is. -/
def logoutPathSchema : Schema String := Schema.string.refine redirectPath

def allowedGroupSchema : Schema String := Schema.string.refine allowedGroup

/-- `z.string().min(1)`. -/
def ssoEndpointName : Schema String := Schema.string.refine fun s => s != ""

def SsoEndpointMode.ofText (s : String) : Option SsoEndpointMode :=
  if s = "gateway-oidc" then some .gatewayOidc
  else if s = "app-oidc" then some .appOidc
  else if s = "none" then some .none
  else Option.none

theorem SsoEndpointMode.text_of_ofText {s : String} {m : SsoEndpointMode}
    (h : ofText s = some m) : s = m.text := by
  unfold ofText at h
  split_ifs at h with h1 h2 h3
  · cases h; exact h1
  · cases h; exact h2
  · cases h; exact h3

def ssoEndpointModeSchema : Schema SsoEndpointMode :=
  Schema.string.convert SsoEndpointMode.ofText fun hx hy =>
    (SsoEndpointMode.text_of_ofText hx).trans (SsoEndpointMode.text_of_ofText hy).symm

/-! ## The raw file -/

/-- The members of an endpoint, in the order of the source. -/
def ssoEndpointFields : Fields (String × String × SsoEndpointMode × String × List String ×
    List String × String × Option String × Option (List String)) :=
  (Fields.required "name" ssoEndpointName).and <|
  (Fields.required "host" dnsHostSchema).and <|
  (Fields.required "mode" ssoEndpointModeSchema).and <|
  (Fields.required "clientId" Schema.string).and <|
  (Fields.required "protectedPathPrefixes" pathPrefixSchema.array).and <|
  (Fields.required "bypassPathPrefixes" pathPrefixSchema.array).and <|
  (Fields.required "redirectPath" redirectPathSchema).and <|
  (Fields.optional "logoutPath" logoutPathSchema).and <|
  Fields.optional "allowedGroups" allowedGroupSchema.array

def SsoEndpoint.ofFields : (String × String × SsoEndpointMode × String × List String ×
    List String × String × Option String × Option (List String)) → Option SsoEndpoint
  | (name, host, mode, clientId, protectedPathPrefixes, bypassPathPrefixes, redirectPath,
      logoutPath, allowedGroups) =>
      some { name, host, mode, clientId, protectedPathPrefixes, bypassPathPrefixes,
             redirectPath, logoutPath, allowedGroups }

theorem SsoEndpoint.ofFields_inj {x y} {e : SsoEndpoint} (hx : ofFields x = some e)
    (hy : ofFields y = some e) : x = y := by
  obtain ⟨_, _, _, _, _, _, _, _, _⟩ := x
  obtain ⟨_, _, _, _, _, _, _, _, _⟩ := y
  cases hx
  cases hy
  rfl

def rawSsoEndpointSchema : Schema SsoEndpoint :=
  ssoEndpointFields.strict.convert SsoEndpoint.ofFields SsoEndpoint.ofFields_inj

def rawSsoFields (web : Web) :
    Fields (String × String × Option String × List SsoEndpoint) :=
  (Fields.required "realm" ssoEndpointName).and <|
  (Fields.required "issuerHost" dnsHostSchema).and <|
  (Fields.optional "issuer" (httpsUrlSchema web)).and <|
  Fields.required "endpoints" rawSsoEndpointSchema.array

def RawSso.ofFields : (String × String × Option String × List SsoEndpoint) → Option RawSso
  | (realm, issuerHost, issuer, endpoints) => some { realm, issuerHost, issuer, endpoints }

theorem RawSso.ofFields_inj {x y} {r : RawSso} (hx : ofFields x = some r)
    (hy : ofFields y = some r) : x = y := by
  obtain ⟨_, _, _, _⟩ := x
  obtain ⟨_, _, _, _⟩ := y
  cases hx
  cases hy
  rfl

def rawSsoSchema (web : Web) : Schema RawSso :=
  (rawSsoFields web).strict.convert RawSso.ofFields RawSso.ofFields_inj

def RawSsoFile.ofSso (sso : RawSso) : Option RawSsoFile := some { sso }

theorem RawSsoFile.ofSso_inj {x y : RawSso} {r : RawSsoFile} (hx : ofSso x = some r)
    (hy : ofSso y = some r) : x = y := by
  cases hx
  cases hy
  rfl

def rawSsoFileSchema (web : Web) : Schema RawSsoFile :=
  (Fields.required "sso" (rawSsoSchema web)).strict.convert RawSsoFile.ofSso
    RawSsoFile.ofSso_inj

/-! ## The resolved configuration -/

/-- `if (bad) ctx.addIssue({ path, message })`. -/
def issueIf (bad : Prop) [Decidable bad] (path : List String) (message : String) : List Issue :=
  if bad then [⟨path, message⟩] else []

theorem issueIf_eq_nil {bad : Prop} [Decidable bad] {path : List String} {message : String} :
    issueIf bad path message = [] ↔ ¬ bad := by
  unfold issueIf
  split_ifs with h <;> simp [h]

def quotedName (endpoint : SsoEndpoint) : String := "\"" ++ endpoint.name ++ "\""

def withMode (endpoint : SsoEndpoint) : String :=
  "Endpoint " ++ quotedName endpoint ++ " with mode \"" ++ endpoint.mode.text ++ "\""

/-- The rules on a list of allowed groups. -/
def groupIssues (endpoint : SsoEndpoint) (groups : List String) : List Issue :=
  if endpoint.mode ≠ .gatewayOidc then
    [⟨["allowedGroups"],
      withMode endpoint ++ " must not set allowedGroups (gateway-oidc only)"⟩]
  else if groups.length = 0 then
    [⟨["allowedGroups"], "Endpoint " ++ quotedName endpoint ++
      " allowedGroups must not be empty (omit the field for no group check)"⟩]
  else
    issueIf (groups.eraseDups.length ≠ groups.length) ["allowedGroups"]
      ("Endpoint " ++ quotedName endpoint ++ " allowedGroups must not contain duplicates") ++
    issueIf ("admins" ∉ groups) ["allowedGroups"]
      ("Endpoint " ++ quotedName endpoint ++
        " allowedGroups must include \"admins\" (anti lock-out)")

/-- The rules on a gateway endpoint. -/
def gatewayIssues (endpoint : SsoEndpoint) : List Issue :=
  let gateway := "Gateway-OIDC endpoint " ++ quotedName endpoint ++ " must have "
  issueIf (endpoint.protectedPathPrefixes.length = 0) ["protectedPathPrefixes"]
    (gateway ++ "non-empty protectedPathPrefixes") ++
  issueIf (blank endpoint.redirectPath) ["redirectPath"]
    (gateway ++ "a non-empty redirectPath") ++
  issueIf (endpoint.logoutPath.all blank) ["logoutPath"] (gateway ++ "a non-empty logoutPath")

/-- The issues `ssoEndpointSchema` adds to an endpoint. -/
def endpointIssues (endpoint : SsoEndpoint) : List Issue :=
  issueIf ((endpoint.mode = .gatewayOidc ∨ endpoint.mode = .appOidc) ∧ blank endpoint.clientId)
    ["clientId"] (withMode endpoint ++ " must have a non-empty clientId") ++
  (match endpoint.allowedGroups with
  | none => []
  | some groups => groupIssues endpoint groups) ++
  (if endpoint.mode = .gatewayOidc then gatewayIssues endpoint else [])

/-- `pathname.replace(/\/+$/, "")`. -/
def withoutSlashes (pathname : String) : String :=
  String.ofList (pathname.toList.reverse.dropWhile (· == '/')).reverse

/-- The endpoints whose name an earlier one has, with their index. -/
def duplicateNames : Nat → List String → List SsoEndpoint → List Issue
  | _, _, [] => []
  | i, seen, ep :: rest =>
      if ep.name ∈ seen then
        ⟨["endpoints", toString i, "name"], "Duplicate endpoint name \"" ++ ep.name ++ "\""⟩ ::
          duplicateNames (i + 1) seen rest
      else duplicateNames (i + 1) (ep.name :: seen) rest

/-- The issues `ssoConfigSchema` adds to the whole configuration. -/
def configIssues (web : Web) (config : SsoConfig) : List Issue :=
  (match web.url config.issuer with
  | none => []
  | some u =>
      let expectedPath := "/realms/" ++ config.realm
      issueIf (u.hostname ≠ config.issuerHost ∧ u.host ≠ config.issuerHost) ["issuer"]
        ("Issuer host \"" ++ u.host ++ "\" does not match issuerHost \"" ++
          config.issuerHost ++ "\"") ++
      issueIf (u.pathname ≠ expectedPath ∧ withoutSlashes u.pathname ≠ expectedPath) ["issuer"]
        ("Issuer path \"" ++ u.pathname ++ "\" does not match expected path \"" ++
          expectedPath ++ "\"")) ++
  duplicateNames 0 [] config.endpoints

/-- The field schemas of an endpoint, on the endpoint itself. -/
def endpointFieldsOk (endpoint : SsoEndpoint) : Bool :=
  endpoint.name != "" && dnsHost endpoint.host &&
    endpoint.protectedPathPrefixes.all pathPrefix && endpoint.bypassPathPrefixes.all pathPrefix &&
    redirectPath endpoint.redirectPath && endpoint.logoutPath.all redirectPath &&
    endpoint.allowedGroups.all fun groups => groups.all allowedGroup

/-- Issues of the endpoints, each below its index. -/
def endpointsIssues (endpoints : List SsoEndpoint) : List Issue :=
  endpoints.zipIdx.flatMap fun ep =>
    (endpointIssues ep.1).map fun issue =>
      { issue with path := "endpoints" :: toString ep.2 :: issue.path }

/-- `ssoConfigSchema.safeParse(config)`, on a configuration of the right types. -/
def ssoConfigSchema (web : Web) (config : SsoConfig) : Except (List Issue) SsoConfig :=
  if config.realm != "" && dnsHost config.issuerHost && httpsUrl web config.issuer &&
      config.endpoints.all endpointFieldsOk then
    match endpointsIssues config.endpoints ++ configIssues web config with
    | [] => .ok config
    | issues => .error issues
  else .error (web.fieldIssues config)

/-! ## `resolveSsoFile` -/

def summarize (issues : List Issue) : String :=
  "; ".intercalate (issues.map fun issue =>
    (if ".".intercalate issue.path = "" then "root" else ".".intercalate issue.path) ++ ": " ++
      issue.message)

def dotted (host : String) : Bool := '.' ∈ host.toList

def qualify (baseDomain host : String) : String :=
  if dotted host then host else host ++ "." ++ baseDomain

/-- The hosts of the file, with the paths that name them. -/
def fileHosts (sso : RawSso) : List (String × String) :=
  ("issuerHost", sso.issuerHost) ::
    sso.endpoints.zipIdx.map fun ep => ("endpoints." ++ toString ep.2 ++ ".host", ep.1.host)

def resolvedConfig (sso : RawSso) (baseDomain : String) : SsoConfig :=
  let fqdnIssuerHost := qualify baseDomain sso.issuerHost
  { realm := sso.realm
    issuerHost := fqdnIssuerHost
    issuer := sso.issuer.getD ("https://" ++ fqdnIssuerHost ++ "/realms/" ++ sso.realm)
    endpoints := sso.endpoints.map fun ep => { ep with host := qualify baseDomain ep.host } }

def hostsWithDot (sso : RawSso) : List (String × String) :=
  (fileHosts sso).filter fun h => dotted h.2

/-- One file is one form: an issuer and a dot in every host, or neither. -/
def mixedForms (sso : RawSso) : Bool :=
  if sso.issuer.isSome then (hostsWithDot sso).length != (fileHosts sso).length
  else (hostsWithDot sso).length != 0

def mixedSummary (sso : RawSso) : String :=
  let offenders := if sso.issuer.isSome then (fileHosts sso).filter fun h => !dotted h.2
    else hostsWithDot sso
  "root: mixed forms: " ++
    (if sso.issuer.isSome then "FQDN form (issuer given) needs a dotted host everywhere"
      else "label form (no issuer) needs bare labels everywhere") ++
    "; offending: " ++ ", ".intercalate (offenders.map (·.1))

/-- The error is the summary. -/
def resolveSsoFile (web : Web) (raw : Json) (baseDomain : String) : Except String SsoConfig :=
  if !isValidDnsName baseDomain || !dotted baseDomain then
    .error ("baseDomain: \"" ++ baseDomain ++ "\" is not a valid multi-label DNS name")
  else
    match (rawSsoFileSchema web).read raw with
    | none => .error (summarize (web.rawIssues raw))
    | some file =>
        if mixedForms file.sso then .error (mixedSummary file.sso)
        else (ssoConfigSchema web (resolvedConfig file.sso baseDomain)).mapError summarize

end Sso
