import Beluga.Sso.FileForms

/-! # The two checks of `allowedGroups`

What the Domain API takes of the mode and the groups of an endpoint, and what the
declaration part of `audit_allowed_groups` (`check-gateway-sso.py`) reports. How Python
shows a value is a parameter.

* `audit_agrees`: the API takes an endpoint where its mode is one of the three and the
  gate reports nothing; what `buildChange` writes is never reported;
* `unknown_mode_unreported`: the gate does not look at the mode of an endpoint without
  groups.
-/

namespace Sso

open Js

/-! ## The gate -/

/-- `f"{value}"` and `f"{g!r}"`. -/
structure Python where
  format : Json → String
  repr : String → String

/-- `GROUP_NAME_RE.match(g)`: `$` stands at the end or before a last newline. -/
def groupNameRe (g : String) : Bool :=
  allowedGroup g || (g.toList.getLast? == some '\n' && allowedGroup (String.ofList g.toList.dropLast))

/-- The list, if it is a non-empty list of strings. -/
def stringList (groups : Json) : Option (List String) :=
  match Json.asArray (some groups) with
  | some (item :: items) => (item :: items).mapM fun g => Json.asString (some g)
  | _ => none

def entryErrors (py : Python) (knownGroups : List String) (name g : String) : List String :=
  if !groupNameRe g then
    ["Endpoint '" ++ name ++ "': allowedGroups entry " ++ py.repr g ++ " must match [a-z0-9-]+"]
  else if g ∉ knownGroups then
    ["Endpoint '" ++ name ++ "': allowedGroups entry " ++ py.repr g ++
      " is not declared in policies/groups.yaml"]
  else []

/-- The rules on a list of strings. -/
def listErrors (py : Python) (knownGroups : List String) (name : String) (groups : List String) :
    List String :=
  (if groups.eraseDups.length ≠ groups.length then
    ["Endpoint '" ++ name ++ "': allowedGroups contains duplicates"] else []) ++
  groups.flatMap (entryErrors py knownGroups name) ++
  (if "admins" ∉ groups then
    ["Endpoint '" ++ name ++ "': allowedGroups must include 'admins' (anti lock-out)"] else [])

/-- The declaration part of `audit_allowed_groups`, for one endpoint. -/
def declarationErrors (py : Python) (knownGroups : List String) (ep : Json) : List String :=
  let name := ((member ep "name").map py.format).getD "unnamed"
  match member ep "allowedGroups" with
  | none => []
  | some groups =>
      if Json.asString (member ep "mode") ≠ some "gateway-oidc" then
        ["Endpoint '" ++ name ++ "': allowedGroups is only allowed with mode gateway-oidc"]
      else
        match stringList groups with
        | none => ["Endpoint '" ++ name ++ "': allowedGroups must be a non-empty list of strings"]
        | some groups => listErrors py knownGroups name groups

/-! ## The API -/

/-- An endpoint with this mode, to which the rules on groups apply. -/
def declared (mode : SsoEndpointMode) : SsoEndpoint where
  name := ""
  host := ""
  mode := mode
  clientId := ""
  protectedPathPrefixes := []
  bypassPathPrefixes := []
  redirectPath := ""
  logoutPath := none
  allowedGroups := none

def modeField : Fields SsoEndpointMode := Fields.required "mode" ssoEndpointModeSchema

def groupsField : Fields (Option (List String)) :=
  Fields.optional "allowedGroups" allowedGroupSchema.array

/-- The field schemas, the rules of `ssoEndpointSchema` on groups, and the known groups. -/
def acceptsGroups (knownGroups : List String) (ep : Json) : Bool :=
  match modeField.read (member ep), groupsField.read (member ep) with
  | some _, some none => true
  | some mode, some (some groups) =>
      (groupIssues (declared mode) groups).isEmpty && groups.all (· ∈ knownGroups)
  | _, _ => false

/-! ## What both check -/

/-- The contract on a list, given which names are well formed. -/
structure GroupContract (wellFormed : String → Bool) (knownGroups groups : List String) :
    Prop where
  nonempty : groups ≠ []
  nodup : groups.Nodup
  required : "admins" ∈ groups
  named : ∀ g ∈ groups, wellFormed g = true
  known : ∀ g ∈ groups, g ∈ knownGroups

/-- The contract on an endpoint. -/
def Declares (wellFormed : String → Bool) (knownGroups : List String) (ep : Json) : Prop :=
  ∀ groups, member ep "allowedGroups" = some groups →
    Json.asString (member ep "mode") = some "gateway-oidc" ∧
      ∃ gs, groups = .arr (gs.map .str) ∧ GroupContract wellFormed knownGroups gs

section Gate

variable {py : Python} {knownGroups : List String} {name : String} {groups : List String}

theorem mapM_strings {items : List Json} {gs : List String} :
    (items.mapM fun g => Json.asString (some g)) = some gs ↔ items = gs.map .str := by
  rw [Schema.mapM_eq_some_iff]
  constructor
  · intro h
    induction h with
    | nil => rfl
    | cons hg _ ih => rw [List.map_cons, ← ih, Schema.asString_eq_some.mp hg]
  · rintro rfl
    rw [List.forall₂_map_left_iff, List.forall₂_same]
    exact fun g _ => rfl

theorem stringList_iff {v : Json} {gs : List String} :
    stringList v = some gs ↔ v = .arr (gs.map .str) ∧ gs ≠ [] := by
  cases v with
  | arr items =>
      cases items with
      | nil =>
          constructor
          · intro h
            cases h
          · rintro ⟨h, hne⟩
            injection h with h
            exact absurd (List.map_eq_nil_iff.mp h.symm) hne
      | cons item items =>
          show ((item :: items).mapM _) = some gs ↔ _
          rw [mapM_strings]
          constructor
          · intro h
            refine ⟨by rw [h], fun hnil => ?_⟩
            rw [hnil] at h
            cases h
          · rintro ⟨h, -⟩
            injection h
  | null | bool _ | num _ | str _ | obj _ =>
      constructor
      · intro h
        cases h
      · rintro ⟨h, -⟩
        cases h

theorem entryErrors_nil {g : String} :
    entryErrors py knownGroups name g = [] ↔ groupNameRe g = true ∧ g ∈ knownGroups := by
  unfold entryErrors
  cases groupNameRe g with
  | false => simp
  | true => simp

theorem listErrors_nil (hne : groups ≠ []) :
    listErrors py knownGroups name groups = [] ↔
      GroupContract groupNameRe knownGroups groups := by
  unfold listErrors
  rw [List.append_eq_nil_iff, List.append_eq_nil_iff, List.flatMap_eq_nil_iff]
  simp only [entryErrors_nil, ite_eq_right_iff, reduceCtorEq, imp_false, not_not, ne_eq,
    nodup_of_eraseDups]
  constructor
  · rintro ⟨⟨hnodup, hall⟩, hadmins⟩
    exact ⟨hne, hnodup, hadmins, fun g hg => (hall g hg).1, fun g hg => (hall g hg).2⟩
  · intro h
    exact ⟨⟨h.nodup, fun g hg => ⟨h.named g hg, h.known g hg⟩⟩, h.required⟩

theorem declarationErrors_nil {ep : Json} :
    declarationErrors py knownGroups ep = [] ↔ Declares groupNameRe knownGroups ep := by
  unfold declarationErrors Declares
  cases member ep "allowedGroups" with
  | none =>
      constructor
      · intro _ groups h
        cases h
      · exact fun _ => rfl
  | some v =>
      simp only [Option.some.injEq, forall_eq']
      by_cases hmode : Json.asString (member ep "mode") = some "gateway-oidc"
      · rw [if_neg (not_not_intro hmode)]
        cases hlist : stringList v with
        | none =>
            constructor
            · intro h
              cases h
            · rintro ⟨-, gs, rfl, h⟩
              rw [stringList_iff.mpr ⟨rfl, h.nonempty⟩] at hlist
              cases hlist
        | some gs =>
            obtain ⟨rfl, hne⟩ := stringList_iff.mp hlist
            simp only
            rw [listErrors_nil hne]
            constructor
            · exact fun h => ⟨hmode, gs, rfl, h⟩
            · rintro ⟨-, gs', heq, h⟩
              have hgs : some gs' = some gs :=
                (stringList_iff.mpr ⟨heq, h.nonempty⟩).symm.trans (stringList_iff.mpr ⟨rfl, hne⟩)
              rw [← Option.some.inj hgs]
              exact h
      · rw [if_pos hmode]
        constructor
        · intro h
          cases h
        · exact fun h => absurd h.1 hmode

end Gate

section Api

variable {knownGroups groups : List String} {ep : Json}

theorem ofText_text (mode : SsoEndpointMode) : SsoEndpointMode.ofText mode.text = some mode := by
  cases mode <;> rfl

theorem read_mode_iff {mode : SsoEndpointMode} :
    modeField.read (member ep) = some mode ↔
      Json.asString (member ep "mode") = some mode.text := by
  have hread : modeField.read (member ep) =
      (Json.asString (member ep "mode")).bind SsoEndpointMode.ofText := by
    show (member ep "mode").bind ssoEndpointModeSchema.read = _
    cases member ep "mode" with
    | none => rfl
    | some v => rfl
  rw [hread, Option.bind_eq_some_iff]
  constructor
  · rintro ⟨s, hs, hmode⟩
    rw [hs, SsoEndpointMode.text_of_ofText hmode]
  · exact fun h => ⟨mode.text, h, ofText_text mode⟩

theorem text_inj {mode mode' : SsoEndpointMode} (h : mode.text = mode'.text) : mode = mode' := by
  have heq := congrArg SsoEndpointMode.ofText h
  rwa [ofText_text, ofText_text, Option.some.injEq] at heq

theorem groupIssues_iff {e : SsoEndpoint} : groupIssues e groups = [] ↔
    e.mode = .gatewayOidc ∧ groups ≠ [] ∧ groups.Nodup ∧ "admins" ∈ groups := by
  unfold groupIssues
  by_cases hmode : e.mode = .gatewayOidc
  · rw [if_neg (not_not_intro hmode)]
    by_cases hlength : groups.length = 0
    · rw [if_pos hlength]
      constructor
      · intro h
        cases h
      · exact fun h => absurd (List.eq_nil_of_length_eq_zero hlength) h.2.1
    · rw [if_neg hlength, List.append_eq_nil_iff, issueIf_eq_nil, issueIf_eq_nil, not_ne_iff,
        not_not, nodup_of_eraseDups]
      have hne : groups ≠ [] := fun hnil => hlength (by rw [hnil]; rfl)
      exact ⟨fun h => ⟨hmode, hne, h⟩, fun h => h.2.2⟩
  · rw [if_pos hmode]
    constructor
    · intro h
      cases h
    · exact fun h => absurd h.1 hmode

theorem read_groups_iff {v : Json} :
    allowedGroupSchema.array.read v = some groups ↔
      v = .arr (groups.map .str) ∧ ∀ g ∈ groups, allowedGroup g = true := by
  constructor
  · intro h
    obtain ⟨items, hitems, hread⟩ := Option.bind_eq_some_iff.mp h
    rw [Schema.asArray_eq_some.mp hitems]
    rw [Schema.mapM_eq_some_iff] at hread
    clear hitems h
    induction hread with
    | nil => exact ⟨rfl, List.forall_mem_nil _⟩
    | cons hg _ ih =>
        obtain ⟨hstr, hok⟩ := (Schema.read_refine _ _).mp hg
        obtain ⟨heq, hall⟩ := ih
        injection heq with heq
        rw [heq, Schema.asString_eq_some.mp hstr]
        exact ⟨rfl, List.forall_mem_cons.mpr ⟨hok, hall⟩⟩
  · rintro ⟨rfl, hall⟩
    exact read_groups hall

theorem acceptsGroups_iff : acceptsGroups knownGroups ep = true ↔
    (∃ mode, modeField.read (member ep) = some mode) ∧ Declares allowedGroup knownGroups ep := by
  unfold acceptsGroups Declares
  cases hmode : modeField.read (member ep) with
  | none =>
      constructor
      · intro h
        cases h
      · rintro ⟨⟨mode, h⟩, -⟩
        cases h
  | some mode =>
      have htext := read_mode_iff.mp hmode
      show _ ↔ (∃ mode', some mode = some mode') ∧ _
      rw [htext]
      cases hmember : member ep "allowedGroups" with
      | none =>
          have hgroups : groupsField.read (member ep) = some none := by
            show Fields.read (Fields.optional _ _) _ = _
            simp only [Fields.optional, hmember]
          rw [hgroups]
          exact ⟨fun _ => ⟨⟨mode, rfl⟩, fun v h => by cases h⟩, fun _ => rfl⟩
      | some v =>
          have hgroups : groupsField.read (member ep) =
              (allowedGroupSchema.array.read v).map some := by
            show Fields.read (Fields.optional _ _) _ = _
            simp only [Fields.optional, hmember]
          rw [hgroups]
          simp only [Option.some.injEq, exists_eq', true_and, forall_eq']
          cases hread : allowedGroupSchema.array.read v with
          | none =>
              constructor
              · intro h
                cases h
              · rintro ⟨-, gs, rfl, h⟩
                rw [read_groups h.named] at hread
                cases hread
          | some gs =>
              obtain ⟨rfl, hnamed⟩ := read_groups_iff.mp hread
              simp only [Option.map_some, Bool.and_eq_true, List.isEmpty_iff, List.all_eq_true,
                decide_eq_true_eq, groupIssues_iff, declared]
              constructor
              · rintro ⟨⟨rfl, hne, hnodup, hadmins⟩, hknown⟩
                exact ⟨rfl, gs, rfl, hne, hnodup, hadmins, hnamed, hknown⟩
              · rintro ⟨hgateway, gs', heq, h⟩
                have hsame := read_groups_iff.mpr ⟨heq, h.named⟩
                rw [hread] at hsame
                cases hsame
                exact ⟨⟨text_inj hgateway, h.nonempty, h.nodup, h.required⟩, h.known⟩

end Api

/-! ## The two agree -/

/-- Names of known groups are no reason to disagree, unless one ends in a newline. -/
theorem declares_iff {knownGroups : List String} {ep : Json}
    (hknown : ∀ g ∈ knownGroups, g.toList.getLast? ≠ some '\n') :
    Declares groupNameRe knownGroups ep ↔ Declares allowedGroup knownGroups ep := by
  have hnames : ∀ g ∈ knownGroups, groupNameRe g = true ↔ allowedGroup g = true := by
    intro g hg
    have hlast : (g.toList.getLast? == some '\n') = false := beq_eq_false_iff_ne.mpr (hknown g hg)
    rw [groupNameRe, hlast, Bool.false_and, Bool.or_false]
  unfold Declares
  constructor
  · intro h groups hgroups
    obtain ⟨hmode, gs, heq, hc⟩ := h groups hgroups
    exact ⟨hmode, gs, heq, hc.nonempty, hc.nodup, hc.required,
      fun g hg => (hnames g (hc.known g hg)).mp (hc.named g hg), hc.known⟩
  · intro h groups hgroups
    obtain ⟨hmode, gs, heq, hc⟩ := h groups hgroups
    exact ⟨hmode, gs, heq, hc.nonempty, hc.nodup, hc.required,
      fun g hg => (hnames g (hc.known g hg)).mpr (hc.named g hg), hc.known⟩

/-- What the API takes the gate does not report, whatever the known groups. -/
theorem declarationErrors_of_accepts {py : Python} {knownGroups : List String} {ep : Json}
    (h : Declares allowedGroup knownGroups ep) : declarationErrors py knownGroups ep = [] := by
  apply declarationErrors_nil.mpr
  intro groups hgroups
  obtain ⟨hmode, gs, heq, hc⟩ := h groups hgroups
  exact ⟨hmode, gs, heq, hc.nonempty, hc.nodup, hc.required,
    fun g hg => by rw [groupNameRe, hc.named g hg, Bool.true_or], hc.known⟩

/-! ## What is built -/

theorem names_changeFirst {endpoint : String} {after : List String} (xs : List SsoEndpoint) :
    (changeFirst (hasName endpoint) (fun e => { e with allowedGroups := some after }) xs).map
      (·.name) = xs.map (·.name) := by
  induction xs with
  | nil => rfl
  | cons x xs ih =>
      rw [changeFirst]
      split_ifs
      · rfl
      · rw [List.map_cons, List.map_cons, ih]

/-- The endpoint of the edited file that was changed. -/
theorem groups_withGroups {base : RawSsoFile} {endpoint : String} {after : List String}
    (hnames : ((withGroups endpoint after base).sso.endpoints.map (·.name)).Nodup)
    {e : SsoEndpoint} (he : e ∈ (withGroups endpoint after base).sso.endpoints)
    (hname : e.name = endpoint) : e.allowedGroups = some after := by
  have hbase : (base.sso.endpoints.map (·.name)).Nodup := names_changeFirst _ ▸ hnames
  rw [withGroups, changeFirst_groups hbase] at he
  obtain ⟨e', -, rfl⟩ := List.mem_map.mp he
  have hsame : (groupsAt endpoint after e').name = e'.name := by
    unfold groupsAt
    split_ifs <;> rfl
  have hnamed : hasName endpoint e' = true := beq_iff_eq.mpr (hsame.symm.trans hname)
  rw [groupsAt, if_pos hnamed]

theorem exists_read {items : List Json} {endpoints : List SsoEndpoint}
    (h : List.Forall₂ (fun x e => rawSsoEndpointSchema.read x = some e) items endpoints)
    {x : Json} (hx : x ∈ items) : ∃ e ∈ endpoints, rawSsoEndpointSchema.read x = some e := by
  induction h with
  | nil => cases hx
  | cons hread _ ih =>
      rcases List.mem_cons.mp hx with rfl | hx
      · exact ⟨_, List.mem_cons_self, hread⟩
      · obtain ⟨e, he, hread'⟩ := ih hx
        exact ⟨e, List.mem_cons_of_mem _ he, hread'⟩

theorem fields_of_read {v : Json} {e : SsoEndpoint} (h : rawSsoEndpointSchema.read v = some e) :
    modeField.read (member v) = some e.mode ∧
      groupsField.read (member v) = some e.allowedGroups := by
  obtain ⟨⟨name, host, mode, client, prot, byp, red, logout, groups⟩, ht, he⟩ := read_endpoint h
  have hread := (read_strict_iff.mp ht).2
  simp only [ssoEndpointFields, Fields.read_and] at hread
  obtain ⟨-, -, hmode, -, -, -, -, -, hgroups⟩ := hread
  cases he
  exact ⟨hmode, hgroups⟩

/-- The rules on groups hold of every endpoint that was resolved. -/
theorem groups_of_resolved {web : Web} {raw : Json} {baseDomain : String} {config : SsoConfig}
    {file : RawSsoFile} (hread : (rawSsoFileSchema web).read raw = some file)
    (h : resolveSsoFile web raw baseDomain = .ok config) {e : SsoEndpoint}
    (he : e ∈ file.sso.endpoints) {groups : List String} (hgroups : e.allowedGroups = some groups) :
    groupIssues (declared e.mode) groups = [] := by
  obtain ⟨file', hread', rfl, hends, -⟩ := resolveSsoFile_ok h
  rw [hread] at hread'
  cases hread'
  have hissues := endpointsIssues_nil hends (List.mem_map_of_mem he)
  simp only [endpointIssues, hgroups, List.append_eq_nil_iff] at hissues
  obtain ⟨hmode, hrest⟩ := groupIssues_iff.mp hissues.1.2
  exact groupIssues_iff.mpr ⟨hmode, hrest⟩

/-- The endpoint that `buildChange` edits is one that the API takes. -/
theorem buildChange_accepts {σ : Type} {eng : Engine σ} {input : BuildInput} {built : BuiltChange}
    (h : eng.buildChange input = .ok built) :
    ∃ edited sso items, eng.yaml.parse built.editedText = .ok edited ∧
      member edited "sso" = some sso ∧ member sso "endpoints" = some (.arr items) ∧
      ∀ x ∈ items, isNamed input.patch.endpoint x = true →
        acceptsGroups input.groupNames x = true := by
  obtain ⟨hpatch, doc, base, -, -, hcheck⟩ := buildChange_ok h
  obtain ⟨edited, config, hedited, hread, hres⟩ := checkEdited_ok hcheck
  obtain ⟨sso, items, hsso, -, hitems, hforall⟩ := items_of_read hread
  have hnames : ((withGroups input.patch.endpoint built.after base).sso.endpoints.map
      (·.name)).Nodup := by
    obtain ⟨file, hfile, hconfig, -, -⟩ := resolveSsoFile_ok hres
    have hnodup := (resolveSsoFile_nodup hres).1
    rw [hread] at hfile
    cases hfile
    rw [hconfig, resolvedConfig, List.map_map] at hnodup
    exact hnodup
  refine ⟨edited, sso, items, hedited, hsso, hitems, fun x hx hnamed => ?_⟩
  obtain ⟨e, he, hreadx⟩ := exists_read hforall hx
  obtain ⟨hmode, hgroups⟩ := fields_of_read hreadx
  rw [isNamed_iff hreadx] at hnamed
  have hafter : e.allowedGroups = some built.after :=
    groups_withGroups hnames he (beq_iff_eq.mp hnamed)
  rw [acceptsGroups, hmode, hgroups, hafter]
  simp only [Bool.and_eq_true, List.isEmpty_iff, List.all_eq_true, decide_eq_true_eq]
  exact ⟨groups_of_resolved hread hres he hafter, (validatePatch_iff.mp hpatch).known⟩

/-- Unless a known group ends in a newline, the API takes the mode and the groups of an endpoint
exactly where the mode is one of the three and the gate reports nothing; and it reports nothing of
what `buildChange` has edited. -/
theorem audit_agrees (py : Python) :
    (∀ knownGroups : List String, (∀ g ∈ knownGroups, g.toList.getLast? ≠ some '\n') →
      ∀ ep, acceptsGroups knownGroups ep = true ↔
        (∃ mode, modeField.read (member ep) = some mode) ∧
          declarationErrors py knownGroups ep = []) ∧
    ∀ (σ : Type) (eng : Engine σ) (input : BuildInput) (built : BuiltChange),
      eng.buildChange input = .ok built →
      ∃ edited sso items, eng.yaml.parse built.editedText = .ok edited ∧
        member edited "sso" = some sso ∧ member sso "endpoints" = some (.arr items) ∧
        ∀ x ∈ items, isNamed input.patch.endpoint x = true →
          declarationErrors py input.groupNames x = [] := by
  refine ⟨fun knownGroups hknown ep => ?_, fun σ eng input built h => ?_⟩
  · rw [acceptsGroups_iff, declarationErrors_nil, declares_iff hknown]
  · obtain ⟨edited, sso, items, hedited, hsso, hitems, hall⟩ := buildChange_accepts h
    refine ⟨edited, sso, items, hedited, hsso, hitems, fun x hx hnamed => ?_⟩
    exact declarationErrors_of_accepts (acceptsGroups_iff.mp (hall x hx hnamed)).2

def samplePython : Python where
  format := Json.text
  repr g := "'" ++ g ++ "'"

/-- The gate does not report a mode that the API refuses, where there are no groups. -/
theorem unknown_mode_unreported :
    declarationErrors samplePython ["admins"]
        (.obj [("name", .str "flink"), ("mode", .str "gateway")]) = [] ∧
      acceptsGroups ["admins"] (.obj [("name", .str "flink"), ("mode", .str "gateway")]) = false :=
  ⟨rfl, rfl⟩

/-- `audit_agrees` on an endpoint that both take. -/
theorem audit_agrees_sample :
    declarationErrors samplePython ["admins", "engineers"]
      (.obj [("name", .str "flink"), ("mode", .str "gateway-oidc"),
        ("allowedGroups", .arr [.str "engineers", .str "admins"])]) = [] := by
  have hknown : ∀ g ∈ ["admins", "engineers"], g.toList.getLast? ≠ some '\n' := by decide
  have haccepts : acceptsGroups ["admins", "engineers"]
      (.obj [("name", .str "flink"), ("mode", .str "gateway-oidc"),
        ("allowedGroups", .arr [.str "engineers", .str "admins"])]) = true := by decide +kernel
  exact (((audit_agrees samplePython).1 _ hknown _).mp haccepts).2

end Sso
