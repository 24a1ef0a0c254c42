import Beluga.Sso.EditRules

/-! # The two forms of `sso.yaml`

A file in label form has bare hosts and no issuer; in FQDN form every host has its domain
and the issuer is given.

* `fqdnForm`: a file in label form, rewritten in FQDN form;
* `fileOf`: a configuration written back as a file;
* `resolve_forms`: a file and its FQDN form resolve alike, writing a configuration back
  changes nothing, and a file that mixes the forms does not resolve.
-/

namespace Sso

open Js

/-! ## Names -/

theorem length_append (a b : String) : Js.length (a ++ b) = Js.length a + Js.length b := by
  simp only [Js.length, utf16, String.toList_append, List.flatMap_append, List.length_append]

/-- `${label}.${domain}`. -/
def withDomain (baseDomain label : String) : String := label ++ "." ++ baseDomain

theorem toList_withDomain (baseDomain label : String) :
    (withDomain baseDomain label).toList = label.toList ++ '.' :: baseDomain.toList := by
  rw [withDomain, String.toList_append, String.toList_append, List.append_assoc]
  rfl

theorem dotted_withDomain (baseDomain label : String) :
    dotted (withDomain baseDomain label) = true := by
  rw [dotted, toList_withDomain]
  exact decide_eq_true (List.mem_append_right _ List.mem_cons_self)

theorem length_withDomain (baseDomain label : String) :
    Js.length (withDomain baseDomain label) = Js.length label + 1 + Js.length baseDomain := by
  rw [withDomain, length_append, length_append]
  rfl

theorem splitOn_withDomain {baseDomain label : String} :
    (withDomain baseDomain label).toList.splitOn '.' =
      label.toList.splitOn '.' ++ baseDomain.toList.splitOn '.' := by
  rw [toList_withDomain, List.splitOn_append_cons_self]

theorem length_pos {s : String} (h : s ≠ "") : 0 < Js.length s := by
  have hchars : s.toList ≠ [] := fun hnil => h (String.toList_inj.mp hnil)
  obtain ⟨c, cs, heq⟩ := List.exists_cons_of_ne_nil hchars
  have hunits := List.length_pos_iff.mpr (units_ne_nil c)
  rw [Js.length, utf16, heq, List.flatMap_cons, List.length_append]
  omega

/-- A name that is valid with a domain is valid without it, and so is the domain. -/
theorem valid_withDomain {baseDomain label : String}
    (h : isValidDnsName (withDomain baseDomain label) = true) :
    isValidDnsName label = true ∧ isValidDnsName baseDomain = true := by
  simp only [isValidDnsName, Bool.and_eq_true, decide_eq_true_eq, splitOn_withDomain,
    List.all_append, length_withDomain] at h ⊢
  obtain ⟨⟨-, hlength⟩, hlabels, hdomain⟩ := h
  have hpos : ∀ s : String, (s.toList.splitOn '.').all labelRegex = true → 0 < Js.length s := by
    intro s hs
    apply length_pos
    rintro rfl
    exact absurd hs (by decide)
  have hlabel := hpos label hlabels
  have hbase := hpos baseDomain hdomain
  exact ⟨⟨⟨hlabel, by omega⟩, hlabels⟩, ⟨⟨hbase, by omega⟩, hdomain⟩⟩

theorem dnsHost_iff {host : String} : dnsHost host = true ↔ isValidDnsName host = true := by
  simp only [dnsHost, isValidDnsName, Bool.and_eq_true, decide_eq_true_eq]
  constructor
  · exact fun h => h.2
  · exact fun h => ⟨⟨h.1.1, h.1.2⟩, h⟩

/-! ## The FQDN form of a file -/

def qualifyValue (baseDomain : String) : Json → Json
  | .str h => .str (withDomain baseDomain h)
  | v => v

/-- A member that is a string. -/
def memberText (v : Json) (key : String) : String := (Json.asString (member v key)).getD ""

def realmIssuer (issuerHost realm : String) : String :=
  "https://" ++ issuerHost ++ "/realms/" ++ realm

def fqdnEndpoint (baseDomain : String) : Json → Json :=
  modifyMember "host" (qualifyValue baseDomain)

def fqdnSso (baseDomain : String) (v : Json) : Json :=
  setMember "issuer"
    (.str (realmIssuer (withDomain baseDomain (memberText v "issuerHost")) (memberText v "realm")))
    (modifyMember "issuerHost" (qualifyValue baseDomain)
      (modifyMember "endpoints" (mapItems (fqdnEndpoint baseDomain)) v))

/-- Every host with its domain, and the issuer that follows from them. -/
def fqdnForm (baseDomain : String) : Json → Json := modifyMember "sso" (fqdnSso baseDomain)

/-- The hosts that a file names. -/
def hostTexts (raw : Json) : List String :=
  match member raw "sso" with
  | none => []
  | some sso =>
      (Json.asString (member sso "issuerHost")).toList ++
        ((Json.asArray (member sso "endpoints")).getD []).filterMap fun ep =>
          Json.asString (member ep "host")

/-- Bare hosts, and no issuer. -/
structure LabelForm (raw : Json) : Prop where
  bare : ∀ host ∈ hostTexts raw, dotted host = false
  noIssuer : ∀ sso, member raw "sso" = some sso → member sso "issuer" = none

section Read

variable {web : Web} {baseDomain : String} {v : Json}

def SsoEndpoint.qualified (baseDomain : String) (e : SsoEndpoint) : SsoEndpoint :=
  { e with host := withDomain baseDomain e.host }

def RawSso.qualified (baseDomain : String) (sso : RawSso) : RawSso where
  realm := sso.realm
  issuerHost := withDomain baseDomain sso.issuerHost
  issuer := some (realmIssuer (withDomain baseDomain sso.issuerHost) sso.realm)
  endpoints := sso.endpoints.map (·.qualified baseDomain)

/-- A host with its domain is one without it that stays short enough. -/
theorem read_host {x : Option Json} {host : String} :
    (x.map (qualifyValue baseDomain)).bind dnsHostSchema.read = some host ↔
      ∃ label, x.bind dnsHostSchema.read = some label ∧
        dnsHost (withDomain baseDomain label) = true ∧ host = withDomain baseDomain label := by
  rcases x with - | v
  · constructor
    · intro h
      cases h
    · rintro ⟨label, h, -⟩
      cases h
  · show dnsHostSchema.read (qualifyValue baseDomain v) = some host ↔
      ∃ label, dnsHostSchema.read v = some label ∧ _
    simp only [dnsHostSchema, Schema.read_refine]
    cases v with
    | str label =>
        constructor
        · rintro ⟨h, hhost⟩
          cases h
          have hlabel := (valid_withDomain (dnsHost_iff.mp hhost)).1
          exact ⟨label, ⟨rfl, dnsHost_iff.mpr hlabel⟩, hhost, rfl⟩
        · rintro ⟨label', ⟨h, -⟩, hhost, rfl⟩
          cases h
          exact ⟨rfl, hhost⟩
    | null | bool _ | num _ | arr _ | obj _ =>
        constructor
        · rintro ⟨h, -⟩
          cases h
        · rintro ⟨label, ⟨h, -⟩, -⟩
          cases h

theorem read_fqdnEndpoint (v : Json) (e' : SsoEndpoint) :
    rawSsoEndpointSchema.read (fqdnEndpoint baseDomain v) = some e' ↔
      ∃ e, rawSsoEndpointSchema.read v = some e ∧
        dnsHost (withDomain baseDomain e.host) = true ∧ e' = e.qualified baseDomain := by
  have hmember : member (fqdnEndpoint baseDomain v) = fun k =>
      if k = "host" then (member v "host").map (qualifyValue baseDomain) else member v k := by
    funext k
    rw [fqdnEndpoint, member_modify]
    split_ifs with hk
    · rw [hk]
    · rfl
  show (ssoEndpointFields.strict.read _).bind _ = _ ↔
    ∃ e, (ssoEndpointFields.strict.read v).bind _ = some e ∧ _
  simp only [Option.bind_eq_some_iff, read_strict_iff]
  rw [fqdnEndpoint, shaped_modify, ← fqdnEndpoint, hmember]
  constructor
  · rintro ⟨⟨name, host, mode, client, prot, byp, red, logout, groups⟩, ⟨hshape, hread⟩, he'⟩
    simp only [ssoEndpointFields, Fields.read_and, read_required_ne, read_optional_ne, ne_eq,
      String.reduceEq, not_false_eq_true] at hread
    obtain ⟨hname, hhost, hrest⟩ := hread
    obtain ⟨label, hlabel, hshort, rfl⟩ := read_host.mp hhost
    cases he'
    refine ⟨_, ⟨⟨name, label, mode, client, prot, byp, red, logout, groups⟩, ⟨hshape, ?_⟩, rfl⟩,
      hshort, rfl⟩
    simp only [ssoEndpointFields, Fields.read_and]
    exact ⟨hname, hlabel, hrest⟩
  · rintro ⟨e, ⟨⟨name, label, mode, client, prot, byp, red, logout, groups⟩, ⟨hshape, hread⟩, he⟩,
      hshort, rfl⟩
    cases he
    refine ⟨⟨name, withDomain baseDomain label, mode, client, prot, byp, red, logout, groups⟩,
      ⟨hshape, ?_⟩, rfl⟩
    simp only [ssoEndpointFields, Fields.read_and, read_required_ne, read_optional_ne, ne_eq,
      String.reduceEq, not_false_eq_true] at hread ⊢
    obtain ⟨hname, hlabel, hrest⟩ := hread
    exact ⟨hname, read_host.mpr ⟨label, hlabel, hshort, rfl⟩, hrest⟩

theorem read_fqdnEndpoints {x : Option Json} {endpoints : List SsoEndpoint} :
    (x.map (mapItems (fqdnEndpoint baseDomain))).bind rawSsoEndpointSchema.array.read =
        some endpoints ↔
      ∃ es, x.bind rawSsoEndpointSchema.array.read = some es ∧
        (∀ e ∈ es, dnsHost (withDomain baseDomain e.host) = true) ∧
        endpoints = es.map (·.qualified baseDomain) := by
  rcases x with - | v
  · constructor
    · intro h
      cases h
    · rintro ⟨es, h, -⟩
      cases h
  · exact read_array_iff v (fun _ _ x _ e => read_fqdnEndpoint x e) endpoints

theorem read_issuer {issuer : String} {result : Option String} :
    ((httpsUrlSchema web).read (.str issuer)).map some = some result ↔
      httpsUrl web issuer = true ∧ result = some issuer := by
  rw [Option.map_eq_some_iff]
  constructor
  · rintro ⟨s, hread, rfl⟩
    obtain ⟨hs, hurl⟩ := (Schema.read_refine _ _).mp hread
    cases hs
    exact ⟨hurl, rfl⟩
  · rintro ⟨hurl, rfl⟩
    exact ⟨issuer, (Schema.read_refine _ _).mpr ⟨rfl, hurl⟩, rfl⟩

/-- The members of the FQDN form. -/
theorem member_fqdnSso (hshape : Shaped (rawSsoFields web) v) (k : String) :
    member (fqdnSso baseDomain v) k =
      if k = "issuer" then
        some (.str (realmIssuer (withDomain baseDomain (memberText v "issuerHost"))
          (memberText v "realm")))
      else if k = "issuerHost" then (member v "issuerHost").map (qualifyValue baseDomain)
      else if k = "endpoints" then (member v "endpoints").map (mapItems (fqdnEndpoint baseDomain))
      else member v k := by
  rw [fqdnSso, member_set (shaped_modify.mpr (shaped_modify.mpr hshape)), member_modify,
    member_modify]
  by_cases hissuer : k = "issuer"
  · rw [if_pos hissuer, if_pos hissuer]
  · rw [if_neg hissuer, if_neg hissuer]
    by_cases hhost : k = "issuerHost"
    · subst hhost
      rfl
    · rw [if_neg hhost, if_neg hhost]
      split_ifs with hends
      · rw [hends]
      · rfl

theorem memberText_of_read {p : String → Bool} {key s : String}
    (h : (Fields.required key (Schema.string.refine p)).read (member v) = some s) :
    memberText v key = s := by
  obtain ⟨x, hx, hread⟩ := Option.bind_eq_some_iff.mp h
  have hstr := ((Schema.read_refine _ _).mp hread).1
  rw [memberText, hx, show Json.asString (some x) = some s from hstr]
  rfl

/-- The `sso` member in FQDN form reads as the one in label form does, where the hosts stay short
enough and the issuer is a URL. -/
theorem read_fqdnSso (hnone : member v "issuer" = none) (sso' : RawSso) :
    (rawSsoSchema web).read (fqdnSso baseDomain v) = some sso' ↔
      ∃ sso, (rawSsoSchema web).read v = some sso ∧ sso.issuer = none ∧
        dnsHost (withDomain baseDomain sso.issuerHost) = true ∧
        (∀ e ∈ sso.endpoints, dnsHost (withDomain baseDomain e.host) = true) ∧
        httpsUrl web (realmIssuer (withDomain baseDomain sso.issuerHost) sso.realm) = true ∧
        sso' = sso.qualified baseDomain := by
  have hissuer : "issuer" ∈ (rawSsoFields web).keys :=
    List.mem_cons_of_mem _ (List.mem_cons_of_mem _ List.mem_cons_self)
  have hshaped : Shaped (rawSsoFields web) (fqdnSso baseDomain v) ↔ Shaped (rawSsoFields web) v := by
    rw [fqdnSso, shaped_set hissuer, shaped_modify, shaped_modify]
  show ((rawSsoFields web).strict.read _).bind _ = _ ↔
    ∃ sso, ((rawSsoFields web).strict.read v).bind _ = some sso ∧ _
  simp only [Option.bind_eq_some_iff, read_strict_iff]
  rw [hshaped]
  constructor
  · rintro ⟨⟨realm, host, issuer, endpoints⟩, ⟨hshape, hread⟩, hsso'⟩
    rw [funext (member_fqdnSso hshape)] at hread
    simp only [rawSsoFields, Fields.read_and, read_required_ne, ne_eq, String.reduceEq,
      not_false_eq_true] at hread
    obtain ⟨hrealm, hhost, hissuer, hends⟩ := hread
    obtain ⟨label, hlabel, hshort, rfl⟩ := read_host.mp hhost
    obtain ⟨es, hes, hall, rfl⟩ := read_fqdnEndpoints.mp hends
    rw [memberText_of_read hrealm, memberText_of_read hlabel] at hissuer
    obtain ⟨hurl, rfl⟩ := read_issuer.mp hissuer
    cases hsso'
    refine ⟨⟨realm, label, none, es⟩, ⟨⟨realm, label, none, es⟩, ⟨hshape, ?_⟩, rfl⟩, rfl, hshort,
      hall, hurl, rfl⟩
    simp only [rawSsoFields, Fields.read_and]
    refine ⟨hrealm, hlabel, ?_, hes⟩
    simp only [Fields.optional, hnone]
  · rintro ⟨sso, ⟨⟨realm, label, issuer, es⟩, ⟨hshape, hread⟩, hsso⟩, -, hshort, hall, hurl, rfl⟩
    cases hsso
    simp only [rawSsoFields, Fields.read_and] at hread
    obtain ⟨hrealm, hlabel, -, hes⟩ := hread
    refine ⟨⟨realm, withDomain baseDomain label, some (realmIssuer (withDomain baseDomain label)
      realm), es.map (·.qualified baseDomain)⟩, ⟨hshape, ?_⟩, rfl⟩
    rw [funext (member_fqdnSso hshape)]
    simp only [rawSsoFields, Fields.read_and, read_required_ne, ne_eq, String.reduceEq,
      not_false_eq_true]
    refine ⟨hrealm, read_host.mpr ⟨label, hlabel, hshort, rfl⟩, ?_,
      read_fqdnEndpoints.mpr ⟨es, hes, hall, rfl⟩⟩
    rw [memberText_of_read hrealm, memberText_of_read hlabel]
    exact read_issuer.mpr ⟨hurl, rfl⟩

/-- A file whose FQDN form can be read. -/
structure Qualifies (web : Web) (baseDomain : String) (sso : RawSso) : Prop where
  noIssuer : sso.issuer = none
  issuerHost : dnsHost (withDomain baseDomain sso.issuerHost) = true
  hosts : ∀ e ∈ sso.endpoints, dnsHost (withDomain baseDomain e.host) = true
  issuer : httpsUrl web (realmIssuer (withDomain baseDomain sso.issuerHost) sso.realm) = true

theorem read_file {raw : Json} {file : RawSsoFile} :
    (rawSsoFileSchema web).read raw = some file ↔
      Shaped (Fields.required "sso" (rawSsoSchema web)) raw ∧
        (member raw "sso").bind (rawSsoSchema web).read = some file.sso := by
  show ((Fields.required "sso" (rawSsoSchema web)).strict.read raw).bind _ = _ ↔ _
  rw [Option.bind_eq_some_iff]
  simp only [read_strict_iff]
  constructor
  · rintro ⟨sso, hread, hfile⟩
    cases hfile
    exact hread
  · exact fun hread => ⟨file.sso, hread, rfl⟩

theorem read_fqdnForm {raw : Json} {file : RawSsoFile}
    (hnone : ∀ sso, member raw "sso" = some sso → member sso "issuer" = none) :
    (rawSsoFileSchema web).read (fqdnForm baseDomain raw) = some file ↔
      ∃ sso, (rawSsoFileSchema web).read raw = some ⟨sso⟩ ∧ Qualifies web baseDomain sso ∧
        file = ⟨sso.qualified baseDomain⟩ := by
  simp only [read_file]
  rw [fqdnForm, shaped_modify, member_modify, if_pos rfl]
  cases hmember : member raw "sso" with
  | none =>
      constructor
      · rintro ⟨-, h⟩
        cases h
      · rintro ⟨sso, ⟨-, h⟩, -⟩
        cases h
  | some v =>
      have hread := @read_fqdnSso web baseDomain _ (hnone v hmember)
      constructor
      · rintro ⟨hshape, h⟩
        obtain ⟨sso, hsso, hnone, hhost, hhosts, hurl, heq⟩ := (hread _).mp h
        refine ⟨sso, ⟨hshape, hsso⟩, ⟨hnone, hhost, hhosts, hurl⟩, ?_⟩
        cases file
        rw [← heq]
      · rintro ⟨sso, ⟨hshape, hsso⟩, hq, rfl⟩
        exact ⟨hshape, (hread _).mpr
          ⟨sso, hsso, hq.noIssuer, hq.issuerHost, hq.hosts, hq.issuer, rfl⟩⟩

end Read

/-! ## Resolved files -/

section Resolve

variable {web : Web} {baseDomain : String} {raw : Json} {c : SsoConfig}

/-- A configuration that the schema takes. -/
structure Accepted (web : Web) (c : SsoConfig) : Prop where
  realm : c.realm ≠ ""
  issuerHost : dnsHost c.issuerHost = true
  issuer : httpsUrl web c.issuer = true
  fields : ∀ e ∈ c.endpoints, endpointFieldsOk e = true
  endpoints : endpointsIssues c.endpoints = []
  config : configIssues web c = []

theorem ssoConfigSchema_iff {config : SsoConfig} :
    ssoConfigSchema web config = .ok c ↔ c = config ∧ Accepted web config := by
  constructor
  · intro h
    obtain ⟨rfl, hends, hconf⟩ := ssoConfigSchema_ok h
    unfold ssoConfigSchema at h
    split_ifs at h with hfields
    simp only [Bool.and_eq_true, bne_iff_ne, List.all_eq_true] at hfields
    obtain ⟨⟨⟨hrealm, hhost⟩, hissuer⟩, hall⟩ := hfields
    exact ⟨rfl, hrealm, hhost, hissuer, hall, hends, hconf⟩
  · rintro ⟨rfl, h⟩
    have hfields : (c.realm != "" && dnsHost c.issuerHost && httpsUrl web c.issuer &&
        c.endpoints.all endpointFieldsOk) = true := by
      simp only [Bool.and_eq_true, bne_iff_ne, List.all_eq_true]
      exact ⟨⟨⟨h.realm, h.issuerHost⟩, h.issuer⟩, h.fields⟩
    rw [ssoConfigSchema, if_pos hfields, h.endpoints, h.config]
    rfl

theorem resolveSsoFile_iff :
    resolveSsoFile web raw baseDomain = .ok c ↔
      isValidDnsName baseDomain = true ∧ dotted baseDomain = true ∧
        ∃ sso, (rawSsoFileSchema web).read raw = some ⟨sso⟩ ∧ mixedForms sso = false ∧
          c = resolvedConfig sso baseDomain ∧ Accepted web c := by
  constructor
  · intro h
    unfold resolveSsoFile at h
    split_ifs at h with hbase
    rw [Bool.or_eq_true, not_or, Bool.not_eq_true', Bool.not_eq_true', Bool.not_eq_false,
      Bool.not_eq_false] at hbase
    cases hread : (rawSsoFileSchema web).read raw with
    | none =>
        rw [hread] at h
        cases h
    | some file =>
        simp only [hread] at h
        split_ifs at h with hmixed
        cases hc : ssoConfigSchema web (resolvedConfig file.sso baseDomain) with
        | error issues =>
            rw [hc] at h
            cases h
        | ok c' =>
            rw [hc] at h
            cases h
            obtain ⟨heq, haccepted⟩ := ssoConfigSchema_iff.mp hc
            exact ⟨hbase.1, hbase.2, file.sso, rfl, Bool.eq_false_iff.mpr hmixed, heq,
              heq ▸ haccepted⟩
  · rintro ⟨hvalid, hdot, sso, hread, hmixed, rfl, haccepted⟩
    have hbase : ¬ (!isValidDnsName baseDomain || !dotted baseDomain) = true := by
      rw [hvalid, hdot]
      exact Bool.false_ne_true
    rw [resolveSsoFile, if_neg hbase, hread]
    simp only
    rw [hmixed, if_neg Bool.false_ne_true, ssoConfigSchema_iff.mpr ⟨rfl, haccepted⟩]
    rfl

theorem asString_host {v : Option Json} {host : String}
    (h : v.bind dnsHostSchema.read = some host) : Json.asString v = some host := by
  obtain ⟨x, rfl, hread⟩ := Option.bind_eq_some_iff.mp h
  exact ((Schema.read_refine _ _).mp hread).1

theorem host_of_read {v : Json} {e : SsoEndpoint} (h : rawSsoEndpointSchema.read v = some e) :
    Json.asString (member v "host") = some e.host := by
  obtain ⟨⟨name, host, rest⟩, ht, he⟩ := read_endpoint h
  have hread := (read_strict_iff.mp ht).2
  simp only [ssoEndpointFields, Fields.read_and] at hread
  rw [asString_host hread.2.1]
  cases he
  rfl

theorem hosts_of_read {items : List Json} {endpoints : List SsoEndpoint}
    (h : List.Forall₂ (fun x e => rawSsoEndpointSchema.read x = some e) items endpoints) :
    (items.filterMap fun ep => Json.asString (member ep "host")) = endpoints.map (·.host) := by
  induction h with
  | nil => rfl
  | cons hx _ ih => simp only [List.filterMap_cons, host_of_read hx, List.map_cons, ih]

theorem hosts_fileHosts (sso : RawSso) :
    (fileHosts sso).map (·.2) = sso.issuerHost :: sso.endpoints.map (·.host) := by
  rw [fileHosts, List.map_cons, List.map_map]
  congr 1
  have hmap := congrArg (List.map SsoEndpoint.host) (List.zipIdx_map_fst 0 sso.endpoints)
  rw [List.map_map] at hmap
  exact hmap

/-- The items that a file is read from. -/
theorem items_of_read {file : RawSsoFile} (h : (rawSsoFileSchema web).read raw = some file) :
    ∃ sso items, member raw "sso" = some sso ∧
      Json.asString (member sso "issuerHost") = some file.sso.issuerHost ∧
      member sso "endpoints" = some (.arr items) ∧
      List.Forall₂ (fun x e => rawSsoEndpointSchema.read x = some e) items file.sso.endpoints := by
  obtain ⟨v, hv, hsso⟩ := Option.bind_eq_some_iff.mp (read_file.mp h).2
  obtain ⟨⟨realm, host, issuer, endpoints⟩, ht, he⟩ := Option.bind_eq_some_iff.mp hsso
  have hread := (read_strict_iff.mp ht).2
  simp only [rawSsoFields, Fields.read_and] at hread
  obtain ⟨-, hhost, -, hends⟩ := hread
  obtain ⟨x, hx, hends⟩ := Option.bind_eq_some_iff.mp hends
  obtain ⟨items, hitems, hends⟩ := Option.bind_eq_some_iff.mp hends
  rw [← Option.some.inj he]
  exact ⟨v, items, hv, asString_host hhost, by rw [hx, Schema.asArray_eq_some.mp hitems],
    Schema.mapM_eq_some_iff.mp hends⟩

/-- The hosts of a file that can be read. -/
theorem hostTexts_read {file : RawSsoFile} (h : (rawSsoFileSchema web).read raw = some file) :
    hostTexts raw = (fileHosts file.sso).map (·.2) := by
  obtain ⟨sso, items, hsso, hhost, hitems, hread⟩ := items_of_read h
  rw [hosts_fileHosts, hostTexts, hsso]
  simp only
  rw [hhost, hitems, Json.asArray, Option.getD_some, hosts_of_read hread]
  rfl

/-! ### One form or the other -/

theorem dotted_of_form {sso : RawSso} (h : mixedForms sso = false) :
    (∀ host ∈ (fileHosts sso).map (·.2), dotted host = true) ∨
      ∀ host ∈ (fileHosts sso).map (·.2), dotted host = false := by
  unfold mixedForms at h
  split_ifs at h
  · left
    have hlength : ((fileHosts sso).filter fun h => dotted h.2).length = (fileHosts sso).length :=
      of_not_not fun hne => by
        rw [hostsWithDot, bne_iff_ne.mpr hne] at h
        cases h
    have hall := List.length_filter_eq_length_iff.mp hlength
    intro host hhost
    obtain ⟨h, hmem, rfl⟩ := List.mem_map.mp hhost
    exact hall h hmem
  · right
    have hlength : ((fileHosts sso).filter fun h => dotted h.2).length = 0 :=
      of_not_not fun hne => by
        rw [hostsWithDot, bne_iff_ne.mpr hne] at h
        cases h
    have hnone := List.filter_eq_nil_iff.mp (List.eq_nil_of_length_eq_zero hlength)
    intro host hhost
    obtain ⟨h, hmem, rfl⟩ := List.mem_map.mp hhost
    exact Bool.eq_false_iff.mpr (hnone h hmem)

theorem mixedForms_label {sso : RawSso} (hissuer : sso.issuer = none)
    (hbare : ∀ host ∈ (fileHosts sso).map (·.2), dotted host = false) :
    mixedForms sso = false := by
  have hnone : hostsWithDot sso = [] := List.filter_eq_nil_iff.mpr fun h hmem =>
    Bool.eq_false_iff.mp (hbare h.2 (List.mem_map_of_mem hmem))
  rw [mixedForms, hissuer, hnone]
  rfl

theorem mixedForms_fqdn {sso : RawSso} (hissuer : sso.issuer.isSome = true)
    (hdotted : ∀ host ∈ (fileHosts sso).map (·.2), dotted host = true) :
    mixedForms sso = false := by
  have hall : hostsWithDot sso = fileHosts sso := List.filter_eq_self.mpr fun h hmem =>
    hdotted h.2 (List.mem_map_of_mem hmem)
  rw [mixedForms, if_pos hissuer, hall]
  exact bne_self_eq_false _

theorem issuer_of_read {file : RawSsoFile} (h : (rawSsoFileSchema web).read raw = some file)
    (hnone : ∀ sso, member raw "sso" = some sso → member sso "issuer" = none) :
    file.sso.issuer = none := by
  obtain ⟨v, hv, hsso⟩ := Option.bind_eq_some_iff.mp (read_file.mp h).2
  obtain ⟨⟨realm, host, issuer, endpoints⟩, ht, he⟩ := Option.bind_eq_some_iff.mp hsso
  have hread := (read_strict_iff.mp ht).2
  simp only [rawSsoFields, Fields.read_and] at hread
  obtain ⟨-, -, hissuer, -⟩ := hread
  simp only [Fields.optional, hnone v hv, Option.some.injEq] at hissuer
  rw [← Option.some.inj he, ← hissuer]

theorem qualify_bare {host : String} (h : dotted host = false) :
    qualify baseDomain host = withDomain baseDomain host := by
  rw [qualify, h]
  rfl

theorem qualify_dotted {host : String} (h : dotted host = true) :
    qualify baseDomain host = host := by
  rw [qualify, h]
  rfl

theorem mem_hosts {sso : RawSso} {host : String} :
    host ∈ (fileHosts sso).map (·.2) ↔
      host = sso.issuerHost ∨ ∃ e ∈ sso.endpoints, e.host = host := by
  rw [hosts_fileHosts, List.mem_cons, List.mem_map]

/-- A file in label form is resolved as the same one with the domain written out. -/
theorem resolvedConfig_qualified {sso : RawSso} (hissuer : sso.issuer = none)
    (hbare : ∀ host ∈ (fileHosts sso).map (·.2), dotted host = false) (otherDomain : String) :
    resolvedConfig (sso.qualified baseDomain) otherDomain = resolvedConfig sso baseDomain := by
  have hhost := hbare _ (mem_hosts.mpr (.inl rfl))
  have hends : (sso.endpoints.map (·.qualified baseDomain)).map
      (fun ep => { ep with host := qualify otherDomain ep.host }) =
      sso.endpoints.map fun ep => { ep with host := qualify baseDomain ep.host } := by
    rw [List.map_map]
    apply List.map_congr_left
    intro e he
    have hbare' := hbare _ (mem_hosts.mpr (.inr ⟨e, he, rfl⟩))
    simp only [Function.comp_apply, SsoEndpoint.qualified, qualify_bare hbare',
      qualify_dotted (dotted_withDomain _ _)]
  simp only [resolvedConfig, RawSso.qualified, hends, hissuer, qualify_bare hhost,
    qualify_dotted (dotted_withDomain _ _)]
  rfl

theorem hosts_qualified (sso : RawSso) :
    ∀ host ∈ (fileHosts (sso.qualified baseDomain)).map (·.2), dotted host = true := by
  intro host hhost
  rcases mem_hosts.mp hhost with rfl | ⟨e, he, rfl⟩
  · exact dotted_withDomain _ _
  · obtain ⟨e', -, rfl⟩ := List.mem_map.mp he
    exact dotted_withDomain _ _

/-- What the schema takes of a file in label form can be read in FQDN form. -/
theorem qualifies_of_accepted {sso : RawSso} (hissuer : sso.issuer = none)
    (hbare : ∀ host ∈ (fileHosts sso).map (·.2), dotted host = false)
    (h : Accepted web (resolvedConfig sso baseDomain)) : Qualifies web baseDomain sso := by
  have hhost : qualify baseDomain sso.issuerHost = withDomain baseDomain sso.issuerHost :=
    qualify_bare (hbare _ (mem_hosts.mpr (.inl rfl)))
  refine ⟨hissuer, hhost ▸ h.issuerHost, fun e he => ?_, ?_⟩
  · have hfields := h.fields _ (List.mem_map_of_mem he)
    simp only [endpointFieldsOk, Bool.and_eq_true,
      qualify_bare (hbare _ (mem_hosts.mpr (.inr ⟨e, he, rfl⟩)))] at hfields
    exact hfields.1.1.1.1.1.2
  · have hurl := h.issuer
    simp only [resolvedConfig, hissuer, Option.getD_none, hhost] at hurl
    exact hurl

/-- A file in label form and its FQDN form resolve alike. -/
theorem resolve_fqdnForm {otherDomain : String} (hdot : dotted baseDomain = true)
    (hother : isValidDnsName otherDomain = true ∧ dotted otherDomain = true)
    (hform : LabelForm raw) :
    resolveSsoFile web raw baseDomain = .ok c ↔
      resolveSsoFile web (fqdnForm baseDomain raw) otherDomain = .ok c := by
  simp only [resolveSsoFile_iff]
  constructor
  · rintro ⟨-, -, sso, hread, -, rfl, haccepted⟩
    have hissuer : sso.issuer = none := issuer_of_read hread hform.noIssuer
    have hbare : ∀ host ∈ (fileHosts sso).map (·.2), dotted host = false :=
      hostTexts_read hread ▸ hform.bare
    have hq := qualifies_of_accepted hissuer hbare haccepted
    exact ⟨hother.1, hother.2, sso.qualified baseDomain,
      (read_fqdnForm hform.noIssuer).mpr ⟨sso, hread, hq, rfl⟩,
      mixedForms_fqdn rfl (hosts_qualified sso),
      (resolvedConfig_qualified hissuer hbare otherDomain).symm, haccepted⟩
  · rintro ⟨-, -, sso', hread', -, rfl, haccepted⟩
    obtain ⟨sso, hread, hq, heq⟩ := (read_fqdnForm hform.noIssuer).mp hread'
    cases heq
    have hbare : ∀ host ∈ (fileHosts sso).map (·.2), dotted host = false :=
      hostTexts_read hread ▸ hform.bare
    have hvalid := (valid_withDomain (dnsHost_iff.mp hq.issuerHost)).2
    exact ⟨hvalid, hdot, sso, hread, mixedForms_label hq.noIssuer hbare,
      resolvedConfig_qualified hq.noIssuer hbare otherDomain, haccepted⟩

/-- A file with both kinds of hosts does not resolve. -/
theorem not_resolve_mixed (hdotted : ∃ host ∈ hostTexts raw, dotted host = true)
    (hbare : ∃ host ∈ hostTexts raw, dotted host = false) :
    resolveSsoFile web raw baseDomain ≠ .ok c := by
  intro h
  obtain ⟨-, -, sso, hread, hmixed, -⟩ := resolveSsoFile_iff.mp h
  rw [hostTexts_read hread] at hdotted hbare
  obtain ⟨host₁, hmem₁, hdot₁⟩ := hdotted
  obtain ⟨host₂, hmem₂, hdot₂⟩ := hbare
  rcases dotted_of_form hmixed with hall | hall
  · rw [hall host₂ hmem₂] at hdot₂
    cases hdot₂
  · rw [hall host₁ hmem₁] at hdot₁
    cases hdot₁

end Resolve

/-! ## A configuration as a file -/

def stringsJson (xs : List String) : Json := .arr (xs.map .str)

/-- A member that is left out when there is no value. -/
def optionalMember (key : String) (x : Option Json) : List (String × Json) :=
  (x.map (key, ·)).toList

def endpointJson (e : SsoEndpoint) : Json :=
  .obj ([("name", .str e.name), ("host", .str e.host), ("mode", .str e.mode.text),
    ("clientId", .str e.clientId), ("protectedPathPrefixes", stringsJson e.protectedPathPrefixes),
    ("bypassPathPrefixes", stringsJson e.bypassPathPrefixes),
    ("redirectPath", .str e.redirectPath)] ++
    optionalMember "logoutPath" (e.logoutPath.map .str) ++
    optionalMember "allowedGroups" (e.allowedGroups.map stringsJson))

/-- A configuration written back in FQDN form. -/
def fileOf (c : SsoConfig) : Json :=
  .obj [("sso", .obj [("realm", .str c.realm), ("issuerHost", .str c.issuerHost),
    ("issuer", .str c.issuer), ("endpoints", .arr (c.endpoints.map endpointJson))])]

section Write

variable {web : Web} {baseDomain : String} {raw : Json} {c : SsoConfig}

theorem read_refined {p : String → Bool} {s : String} (h : p s = true) :
    (Schema.string.refine p).read (.str s) = some s :=
  (Schema.read_refine _ _).mpr ⟨rfl, h⟩

theorem read_name {s : String} (h : s ≠ "") : ssoEndpointName.read (.str s) = some s :=
  (Schema.read_refine _ _).mpr ⟨rfl, bne_iff_ne.mpr h⟩

theorem read_strings {p : String → Bool} {xs : List String} (h : ∀ x ∈ xs, p x = true) :
    (Schema.string.refine p).array.read (stringsJson xs) = some xs := by
  show (xs.map Json.str).mapM (Schema.string.refine p).read = some xs
  rw [Schema.mapM_eq_some_iff, List.forall₂_map_left_iff, List.forall₂_same]
  exact fun x hx => read_refined (h x hx)

theorem read_mode (m : SsoEndpointMode) :
    ssoEndpointModeSchema.read (.str m.text) = some m := by
  cases m <;> rfl

theorem read_optional_some {α : Type} {key : String} {s : Schema α} {x : Option α}
    {f : α → Json} {lookup : String → Option Json} (hkey : lookup key = x.map f)
    (h : ∀ a, x = some a → s.read (f a) = some a) :
    (Fields.optional key s).read lookup = some x := by
  simp only [Fields.optional, hkey]
  cases x with
  | none => rfl
  | some a =>
      simp only [Option.map_some]
      rw [h a rfl]
      rfl

theorem shaped_endpointJson (e : SsoEndpoint) : Shaped ssoEndpointFields (endpointJson e) := by
  refine ⟨_, rfl, Fields.all_keys_iff.mp ?_⟩
  cases e.logoutPath with
  | none =>
      cases e.allowedGroups with
      | none => rfl
      | some groups => rfl
  | some path =>
      cases e.allowedGroups with
      | none => rfl
      | some groups => rfl

theorem member_logoutPath (e : SsoEndpoint) :
    member (endpointJson e) "logoutPath" = e.logoutPath.map .str := by
  unfold endpointJson
  cases e.logoutPath with
  | some path => rfl
  | none =>
      cases e.allowedGroups with
      | none => rfl
      | some groups => rfl

theorem member_allowedGroups (e : SsoEndpoint) :
    member (endpointJson e) "allowedGroups" = e.allowedGroups.map stringsJson := by
  unfold endpointJson
  cases e.logoutPath with
  | none =>
      cases e.allowedGroups with
      | none => rfl
      | some groups => rfl
  | some path =>
      cases e.allowedGroups with
      | none => rfl
      | some groups => rfl

theorem read_endpointJson {e : SsoEndpoint} (h : endpointFieldsOk e = true) :
    rawSsoEndpointSchema.read (endpointJson e) = some e := by
  simp only [endpointFieldsOk, Bool.and_eq_true, List.all_eq_true, bne_iff_ne] at h
  obtain ⟨⟨⟨⟨⟨⟨hname, hhost⟩, hprotected⟩, hbypass⟩, hredirect⟩, hlogout⟩, hgroups⟩ := h
  have hread : ssoEndpointFields.strict.read (endpointJson e) = some (e.name, e.host, e.mode,
      e.clientId, e.protectedPathPrefixes, e.bypassPathPrefixes, e.redirectPath, e.logoutPath,
      e.allowedGroups) := by
    refine read_strict_iff.mpr ⟨shaped_endpointJson e, ?_⟩
    simp only [ssoEndpointFields, Fields.read_and]
    refine ⟨read_name hname, read_refined hhost, read_mode e.mode, rfl,
      read_strings hprotected, read_strings hbypass, read_refined hredirect,
      read_optional_some (member_logoutPath e) fun path hpath => read_refined ?_,
      read_optional_some (member_allowedGroups e) fun groups hg => read_strings ?_⟩
    · rw [hpath] at hlogout
      exact hlogout
    · rw [hg] at hgroups
      exact List.all_eq_true.mp hgroups
  show (ssoEndpointFields.strict.read _).bind SsoEndpoint.ofFields = _
  rw [hread]
  rfl

/-- What is written back is read as the configuration. -/
theorem read_fileOf (h : Accepted web c) : (rawSsoFileSchema web).read (fileOf c) =
    some ⟨{ realm := c.realm, issuerHost := c.issuerHost, issuer := some c.issuer,
            endpoints := c.endpoints }⟩ := by
  have hends : rawSsoEndpointSchema.array.read (.arr (c.endpoints.map endpointJson)) =
      some c.endpoints := by
    show (c.endpoints.map endpointJson).mapM rawSsoEndpointSchema.read = some c.endpoints
    rw [Schema.mapM_eq_some_iff, List.forall₂_map_left_iff, List.forall₂_same]
    exact fun e he => read_endpointJson (h.fields e he)
  have hread : (rawSsoFields web).strict.read (.obj [("realm", .str c.realm),
      ("issuerHost", .str c.issuerHost), ("issuer", .str c.issuer),
      ("endpoints", .arr (c.endpoints.map endpointJson))]) =
      some (c.realm, c.issuerHost, some c.issuer, c.endpoints) := by
    refine read_strict_iff.mpr ⟨⟨_, rfl, Fields.all_keys_iff.mp rfl⟩, ?_⟩
    simp only [rawSsoFields, Fields.read_and]
    exact ⟨read_name h.realm, read_refined h.issuerHost,
      read_issuer.mpr ⟨h.issuer, rfl⟩, hends⟩
  refine read_file.mpr ⟨⟨_, rfl, Fields.all_keys_iff.mp rfl⟩, ?_⟩
  show ((rawSsoFields web).strict.read _).bind RawSso.ofFields = _
  rw [hread]
  rfl

theorem dotted_qualify (host : String) :
    dotted (qualify baseDomain host) = true := by
  cases hhost : dotted host with
  | true => rw [qualify_dotted hhost, hhost]
  | false => rw [qualify_bare hhost, dotted_withDomain]

/-- A configuration that was resolved is what its own file resolves to. -/
theorem resolve_fileOf {otherDomain : String} (h : resolveSsoFile web raw baseDomain = .ok c)
    (hother : isValidDnsName otherDomain = true ∧ dotted otherDomain = true) :
    resolveSsoFile web (fileOf c) otherDomain = .ok c := by
  obtain ⟨-, -, sso, -, -, hconfig, haccepted⟩ := resolveSsoFile_iff.mp h
  have hissuerHost : dotted c.issuerHost = true := hconfig ▸ dotted_qualify _
  have hhosts : ∀ e ∈ c.endpoints, dotted e.host = true := by
    intro e he
    rw [hconfig] at he
    obtain ⟨e', -, rfl⟩ := List.mem_map.mp he
    exact dotted_qualify _
  refine resolveSsoFile_iff.mpr ⟨hother.1, hother.2, _, read_fileOf haccepted,
    mixedForms_fqdn rfl fun host hhost => ?_, ?_, haccepted⟩
  · rcases mem_hosts.mp hhost with rfl | ⟨e, he, rfl⟩
    · exact hissuerHost
    · exact hhosts e he
  · have hends : c.endpoints.map (fun ep => { ep with host := qualify otherDomain ep.host }) =
        c.endpoints := by
      have hsame : ∀ e ∈ c.endpoints, { e with host := qualify otherDomain e.host } = e := by
        intro e he
        rw [qualify_dotted (hhosts e he)]
      exact (List.map_congr_left hsame).trans (List.map_id' _)
    simp only [resolvedConfig, qualify_dotted hissuerHost, hends, Option.getD_some]

end Write

/-- A file in label form resolves as its FQDN form does; a configuration that was resolved, written
back, resolves to itself; and a file with dotted and bare hosts does not resolve. -/
theorem resolve_forms (web : Web) :
    (∀ baseDomain otherDomain raw c, dotted baseDomain = true →
      isValidDnsName otherDomain = true → dotted otherDomain = true → LabelForm raw →
      (resolveSsoFile web raw baseDomain = .ok c ↔
        resolveSsoFile web (fqdnForm baseDomain raw) otherDomain = .ok c)) ∧
    (∀ baseDomain otherDomain raw c, resolveSsoFile web raw baseDomain = .ok c →
      isValidDnsName otherDomain = true → dotted otherDomain = true →
      resolveSsoFile web (fileOf c) otherDomain = .ok c) ∧
    ∀ baseDomain raw c, (∃ host ∈ hostTexts raw, dotted host = true) →
      (∃ host ∈ hostTexts raw, dotted host = false) →
      resolveSsoFile web raw baseDomain ≠ .ok c :=
  ⟨fun _ _ _ _ hdot hvalid hother hform => resolve_fqdnForm hdot ⟨hvalid, hother⟩ hform,
    fun _ _ _ _ h hvalid hother => resolve_fileOf h ⟨hvalid, hother⟩,
    fun _ _ _ hdotted hbare => not_resolve_mixed hdotted hbare⟩

/-- `resolve_forms` on a file in label form. -/
theorem resolve_forms_sample :
    ∃ raw c, LabelForm raw ∧
      resolveSsoFile sampleEngine.web raw "local.beluga.internal" = .ok c ∧
      resolveSsoFile sampleEngine.web (fqdnForm "local.beluga.internal" raw) "other.example" =
        .ok c ∧
      resolveSsoFile sampleEngine.web (fileOf c) "other.example" = .ok c := by
  obtain ⟨raw, hraw⟩ : ∃ raw,
      raw = ((sampleDocument ["admins"]).contents.map Node.toJson).getD .null := ⟨_, rfl⟩
  have hres : (resolveSsoFile sampleEngine.web raw "local.beluga.internal").toOption.isSome =
      true := by
    rw [hraw]
    decide +kernel
  have hform : LabelForm raw := by
    rw [hraw]
    exact ⟨by decide +kernel, fun sso hsso => by cases hsso; rfl⟩
  obtain ⟨c, hc⟩ := Option.isSome_iff_exists.mp hres
  have hok : resolveSsoFile sampleEngine.web raw "local.beluga.internal" = .ok c := by
    cases h : resolveSsoFile sampleEngine.web raw "local.beluga.internal" with
    | error e =>
        rw [h] at hc
        cases hc
    | ok c' =>
        rw [h] at hc
        cases hc
        rfl
  obtain ⟨hforms, hwritten, -⟩ := resolve_forms sampleEngine.web
  exact ⟨raw, c, hform, hok,
    (hforms _ _ _ _ (by decide) (by decide +kernel) (by decide) hform).mp hok,
    hwritten _ _ _ _ hok (by decide +kernel) (by decide)⟩

end Sso
