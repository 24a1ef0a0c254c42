import Beluga.Sso.GatewayRoutes
import Mathlib.Data.List.ReduceOption

/-! # Which routes the audits of the gateway let pass

* `audit_clean_iff`: what holds of the routes where `audit_gateway_routes` reports nothing;
* `guarded_of_clean`: what `audit_allowed_groups` adds for an endpoint with groups;
* `audits_sound_iff`: when a route that can be reached outside of the API is protected.
-/

namespace Sso.Gateway

open Py

variable {rt : Runtime} {docs : List Entries} {routes : List (Value × Entries)}
  {ep rule : Entries} {host : Value}

/-! ## Reports without errors -/

/-- An audit that returns, and reports no error. -/
def Clean (report : Try Report) : Prop := ∃ r, report = .ok r ∧ r.errors = []

@[simp] theorem clean_ok {r : Report} : Clean (.ok r) ↔ r.errors = [] := by
  simp [Clean]

@[simp] theorem not_clean_error {e : Exn} : ¬ Clean (.error e) := by
  simp [Clean]

@[simp] theorem clean_bind {α : Type} {x : Try α} {f : α → Try Report} :
    Clean (x >>= f) ↔ ∃ a, x = .ok a ∧ Clean (f a) := by
  cases x with
  | error e => exact ⟨fun h => absurd h not_clean_error, fun h => by simp at h⟩
  | ok a =>
      constructor
      · intro h
        exact ⟨a, rfl, h⟩
      · intro h
        rcases h with ⟨b, hb, h⟩
        rw [Except.ok.inj hb]
        exact h

@[simp] theorem errorIf_nil {p : Bool} {text : String} : errorIf p text = [] ↔ p = false := by
  cases p <;> simp [errorIf]

@[simp] theorem join_errors {reports : List Report} :
    (Report.join reports).errors = [] ↔ ∀ r ∈ reports, r.errors = [] := by
  simp [Report.join]

theorem clean_each {α : Type} {xs : List α} {f : α → Try Report} :
    Clean (xs.mapM f >>= fun reports => .ok (.join reports)) ↔ ∀ x ∈ xs, Clean (f x) := by
  rw [clean_bind]
  constructor
  · intro h x hx
    rcases h with ⟨reports, hmap, hclean⟩
    rcases ok_of_mapM hmap hx with ⟨r, hr, hfx⟩
    exact ⟨r, hfx, join_errors.mp (clean_ok.mp hclean) r hr⟩
  · intro h
    rcases exists_mapM (fun x hx => (h x hx).imp fun r hr => hr.1) with ⟨reports, hmap⟩
    refine ⟨reports, hmap, clean_ok.mpr (join_errors.mpr fun r hr => ?_)⟩
    rcases (mem_of_mapM hmap).mp hr with ⟨x, hx, hfx⟩
    rcases h x hx with ⟨r', hfx', hnil⟩
    rw [Except.ok.inj (hfx.symm.trans hfx')]
    exact hnil

/-! ## The rules of a host -/

/-- A rule of an ApisixRoute that lists the host. -/
def Lists (docs : List Entries) (host : Value) (rule : Entries) : Prop :=
  ∃ doc ∈ docs, get doc "kind" = .str "ApisixRoute" ∧
    ∃ rules, httpRules doc = .ok rules ∧ .dict rule ∈ rules ∧
      ∃ hosts, hostsOf rule = .ok hosts ∧ ∃ h ∈ hosts, h.eq host = true

theorem mem_hostRules {v : Value} {pairs : List (Value × Entries)} (h : hostRules v = .ok pairs)
    {pair : Value × Entries} : pair ∈ pairs ↔
      v = .dict pair.2 ∧ ∃ hosts, hostsOf pair.2 = .ok hosts ∧ pair.1 ∈ hosts := by
  rcases bind_ok_iff.mp h with ⟨rule, hrule, h⟩
  rcases bind_ok_iff.mp h with ⟨hosts, hhosts, h⟩
  rw [← Except.ok.inj h, entries_ok.mp hrule]
  rcases pair with ⟨key, rule'⟩
  simp only [List.mem_map, Prod.mk.injEq, Value.dict.injEq]
  constructor
  · intro hmem
    rcases hmem with ⟨k, hk, rfl, rfl⟩
    exact ⟨rfl, hosts, hhosts, hk⟩
  · intro hmem
    rcases hmem with ⟨rfl, hosts', hhosts', hk⟩
    rw [← Except.ok.inj (hhosts.symm.trans hhosts')] at hk
    exact ⟨key, hk, rfl, rfl⟩

theorem mem_docRules {doc : Entries} {pairs : List (Value × Entries)} (h : docRules doc = .ok pairs)
    {pair : Value × Entries} : pair ∈ pairs ↔
      get doc "kind" = .str "ApisixRoute" ∧ ∃ rules, httpRules doc = .ok rules ∧
        .dict pair.2 ∈ rules ∧ ∃ hosts, hostsOf pair.2 = .ok hosts ∧ pair.1 ∈ hosts := by
  unfold docRules at h
  by_cases hkind : get doc "kind" = .str "ApisixRoute"
  · have hsame : (!(get doc "kind").eq (.str "ApisixRoute")) = false := by simp [hkind]
    rw [hsame, if_neg Bool.false_ne_true] at h
    rcases bind_ok_iff.mp h with ⟨rules, hrules, h⟩
    rcases bind_ok_iff.mp h with ⟨lists, hlists, h⟩
    rw [← Except.ok.inj h, List.mem_flatten]
    constructor
    · intro hmem
      rcases hmem with ⟨list, hlist, hpair⟩
      rcases (mem_of_mapM hlists).mp hlist with ⟨v, hv, hread⟩
      rcases (mem_hostRules hread).mp hpair with ⟨rfl, hosts⟩
      exact ⟨hkind, rules, hrules, hv, hosts⟩
    · intro hmem
      rcases hmem with ⟨-, rules', hrules', hrule, hosts⟩
      rw [← Except.ok.inj (hrules.symm.trans hrules')] at hrule
      rcases ok_of_mapM hlists hrule with ⟨list, hlist, hread⟩
      exact ⟨list, hlist, (mem_hostRules hread).mpr ⟨rfl, hosts⟩⟩
  · have hother : (!(get doc "kind").eq (.str "ApisixRoute")) = true := by
      rw [Bool.not_eq_true', ← Bool.not_eq_true, eq_str]
      exact hkind
    rw [if_pos hother] at h
    rw [← Except.ok.inj h]
    simp [hkind]

theorem mem_rulesFor (h : routes_by_host docs = .ok routes) :
    rule ∈ rulesFor routes host ↔ Lists docs host rule := by
  rcases bind_ok_iff.mp h with ⟨lists, hlists, h⟩
  rw [← Except.ok.inj h]
  unfold rulesFor
  simp only [List.mem_map, List.mem_filter, List.mem_flatten]
  constructor
  · intro hmem
    rcases hmem with ⟨pair, ⟨⟨list, hlist, hpair⟩, heq⟩, rfl⟩
    rcases (mem_of_mapM hlists).mp hlist with ⟨doc, hdoc, hread⟩
    rcases (mem_docRules hread).mp hpair with ⟨hkind, rules, hrules, hrule, hosts, hhosts, hkey⟩
    exact ⟨doc, hdoc, hkind, rules, hrules, hrule, hosts, hhosts, pair.1, hkey, heq⟩
  · intro hmem
    rcases hmem with ⟨doc, hdoc, hkind, rules, hrules, hrule, hosts, hhosts, key, hkey, heq⟩
    rcases ok_of_mapM hlists hdoc with ⟨list, hlist, hread⟩
    have hpair : (key, rule) ∈ list :=
      (mem_docRules hread).mpr ⟨hkind, rules, hrules, hrule, hosts, hhosts, hkey⟩
    exact ⟨(key, rule), ⟨⟨list, hlist, hpair⟩, heq⟩, rfl⟩

/-! ## What the audit asks of a rule -/

/-- The rule matches a request path. -/
def Matches (rule : Entries) (path : String) : Prop :=
  ∃ paths, pathsOf rule = .ok paths ∧ ∃ p ∈ paths, path_matches p (.str path) = .ok true

/-- A request path that only the API is meant for. -/
def Bypassed (path : String) : Prop := ∃ b ∈ BYPASS, path_matches (.str b) (.str path) = .ok true

/-- The rule can be reached outside of the API. -/
def Open (rule : Entries) : Prop := ∃ path, Matches rule path ∧ ¬ Bypassed path

/-- The rule lists one of the patterns of the API. -/
def ListsBypass (rule : Entries) : Prop :=
  ∃ paths, pathsOf rule = .ok paths ∧ ∃ b ∈ BYPASS, Value.str b ∈ paths

/-- The plugin in force under a name. -/
def InForce (rule : Entries) (name : String) (plugin : Entries) : Prop :=
  ∃ plugins, pluginsOf rule = .ok plugins ∧ pluginNamed plugins name = some plugin

/-- The settings of a plugin, and of the session in them. -/
def Settings (oidc config session : Entries) : Prop :=
  getD oidc "config" (.dict []) = .dict config ∧ getD config "session" (.dict []) = .dict session

/-- The client of the endpoint, and secrets from the environment. -/
structure Authenticates (ep config session : Entries) : Prop where
  client : (get config "client_id").eq (getD ep "clientId" (.str "apisix-gateway")) = true
  secret : get config "client_secret" = .str clientSecret
  session : get session "secret" = .str sessionSecret

/-- The paths of the login are matched by the rule. -/
structure Reaches (rt : Runtime) (config : Entries) (paths : List Value) : Prop where
  redirect : ∃ path, redirectPath rt (getD config "redirect_uri" (.str "")) = .ok path ∧ path ≠ "" ∧
    (paths.anyM fun p => path_matches p (.str path)) = .ok true
  logout : (getD config "logout_path" (.str "")).truthy = true ∧
    (paths.anyM fun p => path_matches p (getD config "logout_path" (.str ""))) = .ok true

/-- The headers are removed; the one that the group check reads is not. -/
structure Removes (ep : Entries) (removed : List Value) : Prop where
  headers : ∀ h ∈ expectedRemoved ep, Value.str h ∈ removed
  kept : (get ep "allowedGroups").truthy = true → Value.str "X-Userinfo" ∉ removed

/-- What is asked of the plugins of a rule that is not taken for a route of the API. -/
structure Checked (rt : Runtime) (ep rule : Entries) (paths : List Value) : Prop where
  oidc : ∃ oidc config session, InForce rule "openid-connect" oidc ∧ Settings oidc config session ∧
    Authenticates ep config session ∧ (getD config "ssl_verify" (.bool false)).truthy = true ∧
    Reaches rt config paths
  rewrite : ∃ rewrite removed, InForce rule "proxy-rewrite" rewrite ∧
    removedOf rewrite = .ok removed ∧ Removes ep removed

/-- What is asked of a rule. -/
structure RuleAccepted (rt : Runtime) (ep rule : Entries) : Prop where
  readable : ∃ plugins paths, pluginsOf rule = .ok plugins ∧ pathsOf rule = .ok paths
  bypass : ListsBypass rule → ∀ oidc, ¬ InForce rule "openid-connect" oidc
  checked : ¬ ListsBypass rule → ∃ paths, pathsOf rule = .ok paths ∧ Checked rt ep rule paths

/-- What is asked of an endpoint. -/
structure EndpointAccepted (rt : Runtime) (docs : List Entries) (ep : Entries) : Prop where
  host : (get ep "host").truthy = true ∧ hashable (get ep "host") = true
  routed : ∃ rule, Lists docs (get ep "host") rule
  rules : ∀ rule, Lists docs (get ep "host") rule → RuleAccepted rt ep rule

structure Accepted (rt : Runtime) (docs gateway_endpoints : List Entries) : Prop where
  readable : ∃ routes, routes_by_host docs = .ok routes
  endpoints : ∀ ep ∈ gateway_endpoints, EndpointAccepted rt docs ep

theorem reachable_clean {missing unmatched matched : String} {path : Value} {paths : List Value} :
    Clean (reachable missing unmatched matched path paths) ↔
      path.truthy = true ∧ (paths.anyM fun p => path_matches p path) = .ok true := by
  unfold reachable
  cases path.truthy with
  | false => simp
  | true =>
      rw [if_neg (by simp), clean_bind]
      constructor
      · intro h
        rcases h with ⟨found, hfound, hclean⟩
        cases found with
        | true => exact ⟨rfl, hfound⟩
        | false => simp at hclean
      · intro h
        exact ⟨true, h.2, by simp⟩

theorem configErrors_nil {name : String} {config session : Entries} :
    configErrors rt name ep config session = [] ↔
      Authenticates ep config session ∧ (getD config "ssl_verify" (.bool false)).truthy = true := by
  unfold configErrors
  have hne : ∀ s : String, Value.str s ≠ .none := fun s h => by cases h
  have hempty : ∀ s : String, s ≠ "" → Value.str "" ≠ .str s := fun s hs h =>
    hs (Value.str.inj h).symm
  have hsecret : clientSecret ≠ "" := by decide
  have hsession : sessionSecret ≠ "" := by decide
  simp only [List.append_eq_nil_iff, errorIf_nil, Bool.not_eq_false', eq_str,
    getD_eq_iff (hne _) (hempty _ hsecret), getD_eq_iff (hne _) (hempty _ hsession)]
  constructor
  · intro h
    exact ⟨⟨h.1.1.1, h.1.1.2, h.1.2⟩, h.2⟩
  · intro h
    exact ⟨⟨⟨h.1.client, h.1.secret⟩, h.1.session⟩, h.2⟩

theorem oidcReport_clean {name pathsText : String} {oidc : Entries} {paths : List Value} :
    Clean (oidcReport rt name ep oidc pathsText paths) ↔
      ∃ config session, Settings oidc config session ∧ Authenticates ep config session ∧
        (getD config "ssl_verify" (.bool false)).truthy = true ∧ Reaches rt config paths := by
  unfold oidcReport Settings
  simp only [clean_bind, entries_ok]
  constructor
  · intro h
    rcases h with ⟨config, hconfig, session, hsession, path, hpath, redirect, hredirect, logout,
      hlogout, hclean⟩
    have herrors := join_errors.mp (clean_ok.mp hclean)
    simp only [List.forall_mem_cons] at herrors
    rcases configErrors_nil.mp herrors.1 with ⟨hauth, hverify⟩
    have hreached := reachable_clean.mp ⟨redirect, hredirect, herrors.2.1⟩
    have hlogged := reachable_clean.mp ⟨logout, hlogout, herrors.2.2.1⟩
    refine ⟨config, session, ⟨hconfig, hsession⟩, hauth, hverify, ⟨path, hpath, ?_, hreached.2⟩, hlogged⟩
    simpa [Value.truthy] using hreached.1
  · intro h
    rcases h with ⟨config, session, ⟨hconfig, hsession⟩, hauth, hverify, hreaches⟩
    rcases hreaches.redirect with ⟨path, hpath, hne, hmatch⟩
    have hredirect : Clean (redirectReport name pathsText path paths) :=
      reachable_clean.mpr ⟨by simpa [Value.truthy] using hne, hmatch⟩
    have hlogout : Clean (logoutReport rt name pathsText (getD config "logout_path" (.str "")) paths) :=
      reachable_clean.mpr hreaches.logout
    rcases hredirect with ⟨redirect, hredirect, hredirectNil⟩
    rcases hlogout with ⟨logout, hlogout, hlogoutNil⟩
    refine ⟨config, hconfig, session, hsession, path, hpath, redirect, hredirect, logout, hlogout, ?_⟩
    rw [clean_ok, join_errors]
    simp only [List.forall_mem_cons]
    exact ⟨configErrors_nil.mpr ⟨hauth, hverify⟩, hredirectNil, hlogoutNil, List.forall_mem_nil _⟩

theorem headerErrors_nil {name : String} {removed : List Value} :
    headerErrors rt name ep removed = [] ↔ Removes ep removed := by
  unfold headerErrors
  rw [List.append_eq_nil_iff, errorIf_nil, errorIf_nil, Bool.not_eq_false', List.isEmpty_iff,
    List.filter_eq_nil_iff]
  constructor
  · intro h
    refine ⟨fun x hx => by simpa using h.2 x hx, fun hgroups hmem => ?_⟩
    have hkept := h.1
    rw [hgroups, contains_str.mpr hmem] at hkept
    cases hkept
  · intro h
    refine ⟨?_, fun x hx => by simpa using h.headers x hx⟩
    rw [← Bool.not_eq_true, Bool.and_eq_true, contains_str]
    exact fun hboth => h.kept hboth.1 hboth.2

theorem ruleReport_clean {host : String} :
    Clean (ruleReport rt ep host rule) ↔ RuleAccepted rt ep rule := by
  have hlisted : ∀ {paths : List Value}, paths.any isBypass = true ↔
      ∃ b ∈ BYPASS, Value.str b ∈ paths := by
    intro paths
    simp only [List.any_eq_true, isBypass, eq_str]
    constructor
    · intro h
      rcases h with ⟨p, hp, b, hb, rfl⟩
      exact ⟨b, hb, hp⟩
    · intro h
      rcases h with ⟨b, hb, hp⟩
      exact ⟨.str b, hp, b, hb, rfl⟩
  unfold ruleReport
  simp only [clean_bind]
  constructor
  · intro h
    rcases h with ⟨value, hvalue, plugins, hplugins, paths, hpaths, hclean⟩
    have hread : pathsOf rule = .ok paths := bind_ok_iff.mpr ⟨value, hvalue, hpaths⟩
    refine ⟨⟨plugins, paths, hplugins, hread⟩, fun hbypass oidc hforce => ?_, fun hbypass => ?_⟩
    · rcases hbypass with ⟨paths', hread', hany⟩
      rw [← Except.ok.inj (hread.symm.trans hread')] at hany
      rcases hforce with ⟨plugins', hplugins', hforce⟩
      rw [← Except.ok.inj (hplugins.symm.trans hplugins')] at hforce
      rw [if_pos (hlisted.mpr hany), bypassReport, hforce] at hclean
      simp at hclean
    · have hnot : ¬ paths.any isBypass = true := fun hany =>
        hbypass ⟨paths, hread, hlisted.mp hany⟩
      rw [if_neg hnot, protectedReport] at hclean
      cases hoidc : pluginNamed plugins "openid-connect" with
      | none =>
          rw [hoidc] at hclean
          simp at hclean
      | some oidc =>
          rw [hoidc] at hclean
          simp only [clean_bind] at hclean
          rcases hclean with ⟨report, hreport, errors, herrors, hclean⟩
          have hnil := join_errors.mp (clean_ok.mp hclean)
          simp only [List.forall_mem_cons] at hnil
          rcases oidcReport_clean.mp ⟨report, hreport, hnil.1⟩ with ⟨config, session, hset, hall⟩
          refine ⟨paths, hread, ⟨oidc, config, session, ⟨plugins, hplugins, hoidc⟩, hset, hall⟩, ?_⟩
          unfold rewriteErrors at herrors
          cases hrewrite : pluginNamed plugins "proxy-rewrite" with
          | none =>
              rw [hrewrite] at herrors
              rw [← Except.ok.inj herrors] at hnil
              simp at hnil
          | some rewrite =>
              rw [hrewrite] at herrors
              rcases bind_ok_iff.mp herrors with ⟨removed, hremoved, herrors⟩
              rw [← Except.ok.inj herrors] at hnil
              exact ⟨rewrite, removed, ⟨plugins, hplugins, hrewrite⟩, hremoved,
                headerErrors_nil.mp hnil.2.1⟩
  · intro h
    rcases h.readable with ⟨plugins, paths, hplugins, hread⟩
    rcases bind_ok_iff.mp hread with ⟨value, hvalue, hpaths⟩
    refine ⟨value, hvalue, plugins, hplugins, paths, hpaths, ?_⟩
    by_cases hany : paths.any isBypass = true
    · rw [if_pos hany, bypassReport]
      have hnone := h.bypass ⟨paths, hread, hlisted.mp hany⟩
      cases hoidc : pluginNamed plugins "openid-connect" with
      | none => simp
      | some oidc => exact absurd ⟨plugins, hplugins, hoidc⟩ (hnone oidc)
    · have hnot : ¬ ListsBypass rule := by
        intro hbypass
        rcases hbypass with ⟨paths', hread', hmem⟩
        rw [← Except.ok.inj (hread.symm.trans hread')] at hmem
        exact hany (hlisted.mpr hmem)
      rcases h.checked hnot with ⟨paths', hread', hchecked⟩
      rw [← Except.ok.inj (hread.symm.trans hread')] at hchecked
      rcases hchecked.oidc with ⟨oidc, config, session, ⟨plugins', hplugins', hoidc⟩, hset, hall⟩
      rw [← Except.ok.inj (hplugins.symm.trans hplugins')] at hoidc
      rcases hchecked.rewrite with ⟨rewrite, removed, ⟨plugins', hplugins', hrewrite⟩, hremoved, hr⟩
      rw [← Except.ok.inj (hplugins.symm.trans hplugins')] at hrewrite
      rw [if_neg hany, protectedReport, hoidc]
      simp only [clean_bind]
      have hreport : Clean (oidcReport rt (ruleName rt rule) ep oidc (shown rt value) paths) :=
        oidcReport_clean.mpr ⟨config, session, hset, hall⟩
      rcases hreport with ⟨report, hreport, hnil⟩
      refine ⟨report, hreport, [], ?_, ?_⟩
      · rw [rewriteErrors, hrewrite]
        exact bind_ok_iff.mpr ⟨removed, hremoved, by rw [headerErrors_nil.mpr hr]⟩
      · rw [clean_ok, join_errors]
        simp only [List.forall_mem_cons]
        exact ⟨hnil, trivial, List.forall_mem_nil _⟩

theorem endpointReport_clean (hroutes : routes_by_host docs = .ok routes) :
    Clean (endpointReport rt routes ep) ↔ EndpointAccepted rt docs ep := by
  unfold endpointReport
  by_cases htruthy : (get ep "host").truthy = true
  · by_cases hhash : hashable (get ep "host") = true
    · rw [if_neg (by simp [htruthy]), if_neg (by simp [hhash])]
      by_cases hempty : (rulesFor routes (get ep "host")).isEmpty = true
      · rw [if_pos hempty]
        simp only [clean_ok, List.cons_ne_nil, false_iff]
        intro h
        rcases h.routed with ⟨rule, hrule⟩
        rw [← mem_rulesFor hroutes, List.isEmpty_iff.mp hempty] at hrule
        cases hrule
      · rw [if_neg hempty, clean_each]
        constructor
        · intro h
          have hne : rulesFor routes (get ep "host") ≠ [] := fun hnil => hempty (List.isEmpty_iff.mpr hnil)
          rcases List.exists_mem_of_ne_nil _ hne with ⟨rule, hrule⟩
          refine ⟨⟨htruthy, hhash⟩, ⟨rule, (mem_rulesFor hroutes).mp hrule⟩, fun rule' hrule' => ?_⟩
          exact ruleReport_clean.mp (h rule' ((mem_rulesFor hroutes).mpr hrule'))
        · intro h rule' hrule'
          exact ruleReport_clean.mpr (h.rules rule' ((mem_rulesFor hroutes).mp hrule'))
    · rw [if_neg (by simp [htruthy]), if_pos (by simpa using hhash)]
      exact ⟨fun h => absurd h not_clean_error, fun h => absurd h.host.2 hhash⟩
  · rw [if_pos (by simpa using htruthy)]
    simp only [clean_ok, List.cons_ne_nil, false_iff]
    exact fun h => htruthy h.host.1

theorem audit_clean_iff {gateway_endpoints : List Entries} :
    Clean (audit_gateway_routes rt docs gateway_endpoints) ↔
      Accepted rt docs gateway_endpoints := by
  unfold audit_gateway_routes
  rw [clean_bind]
  constructor
  · intro h
    rcases h with ⟨routes, hroutes, hclean⟩
    rw [clean_each] at hclean
    exact ⟨⟨routes, hroutes⟩, fun ep hep => (endpointReport_clean hroutes).mp (hclean ep hep)⟩
  · intro h
    rcases h.readable with ⟨routes, hroutes⟩
    refine ⟨routes, hroutes, clean_each.mpr fun ep hep => ?_⟩
    exact (endpointReport_clean hroutes).mpr (h.endpoints ep hep)

/-! ## What the audit of the groups adds -/

/-- The group check of a rule has the groups of the endpoint for its allow-table. -/
def Guarded (ep rule : Entries) : Prop :=
  ∃ groups guard config lua, get ep "allowedGroups" = .list (groups.map .str) ∧
    InForce rule "serverless-post-function" guard ∧ getD guard "config" (.dict []) = .dict config ∧
    get config "phase" = .str "access" ∧ get config "functions" = .list [.str lua] ∧
    (luaGroups lua).Perm groups

theorem stringList_some {v : Value} {groups : List String} (h : stringList v = some groups) :
    v = .list (groups.map .str) ∧ groups ≠ [] := by
  have hitems : ∀ {f : Value → Option String} {items : List Value} {groups : List String},
      (∀ v s, f v = some s → v = .str s) → items.mapM f = some groups →
        items = groups.map .str := by
    intro f items groups hf
    induction items generalizing groups with
    | nil =>
        intro h
        rw [← Option.some.inj h]
        rfl
    | cons item items ih =>
        intro h
        rw [List.mapM_cons] at h
        rcases Option.bind_eq_some_iff.mp h with ⟨g, hg, h⟩
        rcases Option.bind_eq_some_iff.mp h with ⟨gs, hgs, h⟩
        rw [← Option.some.inj h, List.map_cons, ← ih hgs, hf item g hg]
  cases v with
  | list items =>
      cases items with
      | nil => cases h
      | cons item items =>
          have heq := hitems (fun v s hs => by cases v <;> cases hs; rfl) h
          refine ⟨congrArg Value.list heq, fun hnil => ?_⟩
          rw [hnil] at heq
          cases heq
  | _ => cases h

theorem luaOf_some {config : Entries} {lua : String} (h : luaOf config = some lua) :
    get config "functions" = .list [.str lua] := by
  unfold luaOf at h
  split at h
  · next lua' heq =>
      rw [Option.some.inj h] at heq
      exact (getD_eq_iff (fun h => by cases h) (fun h => by cases h)).mp heq
  · cases h

theorem perm_of_sameSet {found groups : List String} (hset : sameSet found groups = true)
    (hlength : found.length = groups.length) (hnodup : groups.Nodup) : found.Perm groups := by
  rw [sameSet, Bool.and_eq_true, List.all_eq_true, List.all_eq_true] at hset
  have hsub : groups ⊆ found := fun g hg => of_decide_eq_true (hset.2 g hg)
  exact ((List.subperm_of_subset hnodup hsub).perm_of_length_le hlength.le).symm

theorem guardReport_clean {name host : String} {groups : List String} {order : List Value}
    {plugins : List (Value × Entries)} {guard : Entries} (hnodup : groups.Nodup)
    (h : Clean (guardReport rt name host groups order plugins guard)) :
    ∃ config lua, getD guard "config" (.dict []) = .dict config ∧
      get config "phase" = .str "access" ∧ get config "functions" = .list [.str lua] ∧
      (luaGroups lua).Perm groups := by
  unfold guardReport at h
  rw [clean_bind] at h
  rcases h with ⟨config, hconfig, h⟩
  cases hlua : luaOf config with
  | none =>
      rw [hlua] at h
      simp at h
  | some lua =>
      rw [hlua] at h
      simp only [clean_bind, clean_ok, List.append_eq_nil_iff] at h
      rcases h with ⟨value, -, erased, -, ⟨⟨-, hphase⟩, hgroups⟩, -⟩
      rw [phaseErrors, errorIf_nil, Bool.not_eq_false', eq_str] at hphase
      rw [luaErrors, List.append_eq_nil_iff, List.append_eq_nil_iff, errorIf_nil] at hgroups
      have hsame := hgroups.1.1
      rw [Bool.or_eq_false_iff, Bool.not_eq_false', decide_eq_false_iff_not, not_not] at hsame
      exact ⟨config, lua, entries_ok.mp hconfig, hphase, luaOf_some hlua,
        perm_of_sameSet hsame.1 hsame.2 hnodup⟩

theorem guardedReport_clean {host : String} {groups : List String} (hnodup : groups.Nodup)
    (h : Clean (guardedReport rt host groups rule)) :
    ∃ guard config lua, InForce rule "serverless-post-function" guard ∧
      getD guard "config" (.dict []) = .dict config ∧ get config "phase" = .str "access" ∧
      get config "functions" = .list [.str lua] ∧ (luaGroups lua).Perm groups := by
  unfold guardedReport at h
  simp only [clean_bind] at h
  rcases h with ⟨list, hlist, plugins, hplugins, config, -, session, -, h⟩
  cases hguard : pluginNamed plugins "serverless-post-function" with
  | none =>
      rw [hguard] at h
      simp at h
  | some guard =>
      rw [hguard] at h
      simp only [clean_bind] at h
      rcases h with ⟨report, hreport, hclean⟩
      have hnil := join_errors.mp (clean_ok.mp hclean)
      simp only [List.forall_mem_cons] at hnil
      rcases guardReport_clean hnodup ⟨report, hreport, hnil.2.1⟩ with ⟨config', lua, hall⟩
      exact ⟨guard, config', lua, ⟨plugins, bind_ok_iff.mpr ⟨list, hlist, hplugins⟩, hguard⟩, hall⟩

/-- The groups that are checked, and the rules that they are checked in. -/
theorem groupReport_clean {knownGroups : List String} {value : Value}
    (hlookup : ep.lookup "allowedGroups" = some value)
    (h : Clean (groupReport rt knownGroups routes ep)) :
    ∃ groups rules, value = .list (groups.map .str) ∧ groups.Nodup ∧
      (rulesFor routes (get ep "host")).mapM guardedRule = .ok rules ∧
      ∀ rule ∈ rules.reduceOption,
        Clean (guardedReport rt (shown rt (get ep "host")) groups rule) := by
  unfold groupReport at h
  rw [hlookup] at h
  dsimp only at h
  by_cases hmode : (!(get ep "mode").eq (.str "gateway-oidc")) = true
  · rw [if_pos hmode] at h
    simp at h
  · rw [if_neg hmode] at h
    cases hlist : stringList value with
    | none =>
        rw [hlist] at h
        simp at h
    | some groups =>
        rw [hlist] at h
        rcases stringList_some hlist with ⟨hvalue, hne⟩
        dsimp only at h
        split_ifs at h with herrors
        · have hnil := clean_ok.mp h
          dsimp only at hnil
          rw [hnil] at herrors
          cases herrors
        · exact absurd h not_clean_error
        · rw [Bool.not_eq_true', Bool.not_eq_false, List.isEmpty_iff] at herrors
          rw [clean_bind] at h
          rcases h with ⟨rules, hrules, h⟩
          refine ⟨groups, rules, hvalue, ((listErrors_nil hne).mp herrors).nodup, hrules, ?_⟩
          split_ifs at h
          · simp at h
          · exact clean_each.mp h

theorem guarded_of_clean {endpoints : List Entries} {knownGroups : List String}
    (h : Clean (audit_allowed_groups rt docs endpoints knownGroups)) (hep : ep ∈ endpoints)
    (hgroups : (get ep "allowedGroups").truthy = true) (hlists : Lists docs (get ep "host") rule)
    (hbypass : ¬ ListsBypass rule) : Guarded ep rule := by
  unfold audit_allowed_groups at h
  rw [clean_bind] at h
  rcases h with ⟨routes, hroutes, h⟩
  rw [clean_each] at h
  have hvalue : ∃ value, ep.lookup "allowedGroups" = some value := by
    rw [← Option.ne_none_iff_exists']
    intro hnone
    rw [Py.get, getD, hnone] at hgroups
    cases hgroups
  rcases hvalue with ⟨value, hlookup⟩
  rcases groupReport_clean hlookup (h ep hep) with ⟨groups, rules, hvalue, hnodup, hrules, hclean⟩
  have hget : get ep "allowedGroups" = .list (groups.map .str) := by
    rw [Py.get, getD, hlookup, ← hvalue]
    rfl
  rcases ok_of_mapM hrules ((mem_rulesFor hroutes).mpr hlists) with ⟨r, hr, hguarded⟩
  rcases bind_ok_iff.mp hguarded with ⟨paths, hpaths, hguarded⟩
  have hany : ¬ paths.any isBypass = true := by
    intro hany
    rcases List.any_eq_true.mp hany with ⟨p, hp, hb⟩
    rcases List.any_eq_true.mp hb with ⟨b, hb, hpb⟩
    rw [eq_str.mp hpb] at hp
    exact hbypass ⟨paths, hpaths, b, hb, hp⟩
  rw [if_neg hany] at hguarded
  have hmem : rule ∈ rules.reduceOption := by
    rw [List.reduceOption_mem_iff, Except.ok.inj hguarded]
    exact hr
  rcases guardedReport_clean hnodup (hclean rule hmem) with ⟨guard, config, lua, hforce, hall⟩
  exact ⟨groups, guard, config, lua, hget, hforce, hall⟩

/-! ## Protected routes -/

/-- A login with the client of the endpoint and verified certificates, and headers that are removed. -/
structure Protected (ep rule : Entries) : Prop where
  oidc : ∃ oidc config session, InForce rule "openid-connect" oidc ∧ Settings oidc config session ∧
    Authenticates ep config session ∧ get config "ssl_verify" = .bool true
  rewrite : ∃ rewrite removed, InForce rule "proxy-rewrite" rewrite ∧
    removedOf rewrite = .ok removed ∧ ∀ h ∈ expectedRemoved ep, Value.str h ∈ removed

/-- What the audits stand for: without an error, every rule of an endpoint that can be reached
outside of the API is protected, and guarded where groups are declared. -/
def Sound (rt : Runtime) (docs gateway_endpoints : List Entries) : Prop :=
  Clean (audit_gateway_routes rt docs gateway_endpoints) →
    ∀ ep ∈ gateway_endpoints, ∀ rule, Lists docs (get ep "host") rule → Open rule →
      Protected ep rule ∧
        ((get ep "allowedGroups").truthy = true → ∀ endpoints knownGroups, ep ∈ endpoints →
          Clean (audit_allowed_groups rt docs endpoints knownGroups) → Guarded ep rule)

/-- `ssl_verify` of the login of a rule is the value true. -/
def Verifies (rule : Entries) : Prop :=
  ∀ oidc config session, InForce rule "openid-connect" oidc → Settings oidc config session →
    get config "ssl_verify" = .bool true

theorem inForce_unique {name : String} {plugin plugin' : Entries} (h : InForce rule name plugin)
    (h' : InForce rule name plugin') : plugin = plugin' := by
  rcases h with ⟨plugins, hplugins, hnamed⟩
  rcases h' with ⟨plugins', hplugins', hnamed'⟩
  rw [← Except.ok.inj (hplugins.symm.trans hplugins'), hnamed] at hnamed'
  exact Option.some.inj hnamed'

/-- The audits are sound if and only if, where everything else that they ask for holds, no rule of
an endpoint that can be reached outside of the API lists a pattern of the API, and its `ssl_verify`
is the value true. -/
theorem audits_sound_iff (rt : Runtime) (docs gateway_endpoints : List Entries) :
    Sound rt docs gateway_endpoints ↔
      (Accepted rt docs gateway_endpoints → ∀ ep ∈ gateway_endpoints, ∀ rule,
        Lists docs (get ep "host") rule → Open rule → ¬ ListsBypass rule ∧ Verifies rule) := by
  unfold Sound
  rw [audit_clean_iff]
  constructor
  · intro h haccepted ep hep rule hlists hopen
    rcases h haccepted ep hep rule hlists hopen with ⟨hprotected, -⟩
    have hrule := (haccepted.endpoints ep hep).rules rule hlists
    rcases hprotected.oidc with ⟨oidc, config, session, hforce, hset, -, hssl⟩
    refine ⟨fun hbypass => hrule.bypass hbypass oidc hforce, ?_⟩
    intro oidc' config' session' hforce' hset'
    rw [inForce_unique hforce' hforce] at hset'
    rw [Value.dict.inj (hset'.1.symm.trans hset.1)]
    exact hssl
  · intro h haccepted ep hep rule hlists hopen
    rcases h haccepted ep hep rule hlists hopen with ⟨hbypass, hverifies⟩
    have hrule := (haccepted.endpoints ep hep).rules rule hlists
    rcases hrule.checked hbypass with ⟨paths, -, hchecked⟩
    rcases hchecked.oidc with ⟨oidc, config, session, hforce, hset, hauth, -, -⟩
    rcases hchecked.rewrite with ⟨rewrite, removed, hrewrite, hremoved, hremoves⟩
    refine ⟨⟨⟨oidc, config, session, hforce, hset, hauth, hverifies oidc config session hforce hset⟩,
      ⟨rewrite, removed, hrewrite, hremoved, hremoves.headers⟩⟩, ?_⟩
    intro hgroups endpoints knownGroups hmem hclean
    exact guarded_of_clean hclean hmem hgroups hlists hbypass

/-! ## A route that is published -/

def sampleRuntime : Runtime where
  py :=
    { quote := fun s => "'" ++ s ++ "'"
      float := fun _ => "0.0"
      float_head := Py.float_head_zero }
  setText := fun names => ", ".intercalate names
  urlPath := fun url => .ok url

/-- A rule of the catalog's host without plugins. -/
def mixedRule : Entries :=
  [("name", .str "catalog-ui"), ("match", .dict
    [("hosts", .list [.str "catalog.local.beluga.internal"]),
      ("paths", .list [.str "/catalog/*", .str "/*"])])]

def mixedDocs : List Entries :=
  [[("kind", .str "ApisixRoute"), ("spec", .dict [("http", .list [.dict mixedRule])])]]

def catalogEndpoint : Entries :=
  [("name", .str "catalog-ui"), ("host", .str "catalog.local.beluga.internal"),
    ("mode", .str "gateway-oidc")]

/-- A rule with a path of the API and all other paths, and no login, is passed. -/
theorem mixed_rule_passes :
    audit_gateway_routes sampleRuntime mixedDocs [catalogEndpoint] =
        .ok ⟨[], ["Route 'catalog-ui' (API bypass) correctly omits openid-connect"]⟩ ∧
      ¬ Sound sampleRuntime mixedDocs [catalogEndpoint] := by
  have hclean : audit_gateway_routes sampleRuntime mixedDocs [catalogEndpoint] =
      .ok ⟨[], ["Route 'catalog-ui' (API bypass) correctly omits openid-connect"]⟩ := by rfl
  refine ⟨hclean, fun hsound => ?_⟩
  have hlists : Lists mixedDocs (get catalogEndpoint "host") mixedRule :=
    ⟨_, List.mem_cons_self, rfl, _, rfl, List.mem_cons_self, _, rfl, _, List.mem_cons_self, by decide⟩
  have hopen : Open mixedRule := by
    refine ⟨"/", ⟨_, rfl, .str "/*", by simp, rfl⟩, ?_⟩
    unfold Bypassed
    decide
  rcases hsound ⟨_, hclean, rfl⟩ _ List.mem_cons_self mixedRule hlists hopen with ⟨hprotected, -⟩
  rcases hprotected.oidc with ⟨oidc, config, session, ⟨plugins, hplugins, hnamed⟩, -⟩
  have hnone : pluginsOf mixedRule = .ok [] := rfl
  rw [← Except.ok.inj (hnone.symm.trans hplugins)] at hnamed
  cases hnamed

end Sso.Gateway
