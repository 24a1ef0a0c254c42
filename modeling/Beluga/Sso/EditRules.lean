import Beluga.Sso.EditEngine

/-! # What an edit changes

* `validatePatch_iff`: the patches the engine takes;
* `resolveSsoFile_ok`: what an accepted file satisfies, and its names and lists
  hold nothing twice (`names_nodup`, `groups_nodup`);
* `read_withAllowedGroups`: the file schema reads the document with one list
  replaced as the file with that list, so a document that reads as that file is
  this document (`Schema.faithful`).
-/

namespace Sso

open Js

/-! ## Results that are no error -/

theorem bind_eq_ok {α β : Type} {x : Except JsError α} {f : α → Except JsError β} {b : β} :
    x >>= f = .ok b ↔ ∃ a, x = .ok a ∧ f a = .ok b := by
  cases x with
  | error e => simp [bind, Except.bind]
  | ok a => simp [bind, Except.bind]

theorem pure_eq_ok {α : Type} {a b : α} :
    (pure a : Except JsError α) = .ok b ↔ a = b := by
  simp [pure, Except.pure]

theorem require_eq_ok {ok : Bool} {message : String} {u : Unit} :
    require ok message = .ok u ↔ ok = true := by
  cases ok <;> simp [require, reject]

theorem orReject_eq_ok {α : Type} {x : Option α} {message : String} {a : α} :
    orReject x message = .ok a ↔ x = some a := by
  cases x <;> simp [orReject, reject]

theorem thrown_eq_ok {α : Type} {x : Except String α} {a : α} :
    thrown x = .ok a ↔ x = .ok a := by
  cases x <;> simp [thrown, Except.mapError]

/-! ## The patch -/

/-- A patch the engine takes, and its list. -/
structure ValidPatch (patch : Patch) (knownGroups after : List String) : Prop where
  editable : patch.endpoint = "flink" ∨ patch.endpoint = "filer"
  submitted : patch.allowedGroups = after.map .str
  nonempty : after ≠ []
  nodup : after.Nodup
  required : "admins" ∈ after
  wellFormed : ∀ g ∈ after, allowedGroup g = true
  known : ∀ g ∈ after, g ∈ knownGroups

theorem validateEntries_str {knownGroups : List String} {i : Nat} {s : String}
    {rest : List Json} {groups : List String} :
    validateEntries knownGroups i (.str s :: rest) = .ok groups ↔
      allowedGroup s = true ∧ s ∈ knownGroups ∧
        ∃ tail, groups = s :: tail ∧ validateEntries knownGroups (i + 1) rest = .ok tail := by
  by_cases hs : allowedGroup s = true
  · by_cases hk : s ∈ knownGroups
    · simp only [validateEntries, hs, hk, Bool.not_true, Bool.false_eq_true, not_true_eq_false,
        if_false, true_and]
      cases validateEntries knownGroups (i + 1) rest with
      | error e => simp [Except.map]
      | ok tail =>
          simp only [Except.map, Except.ok.injEq]
          constructor
          · intro h
            exact ⟨tail, h.symm, rfl⟩
          · rintro ⟨t, hg, ht⟩
            rw [hg, ht]
    · simp [validateEntries, hs, hk, reject]
  · simp [validateEntries, hs, reject]

theorem validateEntries_iff {knownGroups : List String} {i : Nat} {list : List Json}
    {groups : List String} :
    validateEntries knownGroups i list = .ok groups ↔
      list = groups.map .str ∧ (∀ g ∈ groups, allowedGroup g = true) ∧
        ∀ g ∈ groups, g ∈ knownGroups := by
  induction list generalizing i groups with
  | nil =>
      cases groups with
      | nil => simp [validateEntries]
      | cons g groups => simp [validateEntries]
  | cons entry rest ih =>
      cases groups with
      | nil =>
          cases entry with
          | str s => simp [validateEntries_str]
          | _ => simp [validateEntries, reject]
      | cons g groups =>
          cases entry with
          | str s =>
              rw [validateEntries_str]
              simp only [List.map_cons, List.cons.injEq, Json.str.injEq, List.forall_mem_cons]
              constructor
              · rintro ⟨hs, hk, tail, ⟨hg, ht⟩, htail⟩
                have hall := ih.mp htail
                rw [hg, ht]
                exact ⟨⟨rfl, hall.1⟩, ⟨hs, hall.2.1⟩, hk, hall.2.2⟩
              · rintro ⟨⟨hs, hrest⟩, ⟨hg, hw⟩, hk, hkn⟩
                rw [hs]
                exact ⟨hg, hk, groups, ⟨rfl, rfl⟩, ih.mpr ⟨hrest, hw, hkn⟩⟩
          | _ => simp [validateEntries, reject]

/-- `new Set(xs).size === xs.length`. -/
theorem nodup_of_eraseDups {xs : List String} :
    xs.eraseDups.length = xs.length ↔ xs.Nodup := by
  constructor
  · intro h
    have hsub : xs.eraseDups.Subperm xs :=
      List.subperm_of_subset (Js.nodup_eraseDups xs) fun x hx => List.mem_eraseDups.mp hx
    exact (hsub.perm_of_length_le (by omega)).nodup_iff.mp (Js.nodup_eraseDups xs)
  · intro h
    have hperm : xs.eraseDups.Perm xs :=
      (List.perm_ext_iff_of_nodup (Js.nodup_eraseDups xs) h).mpr fun x => List.mem_eraseDups
    exact hperm.length_eq

theorem validatePatch_iff {patch : Patch} {knownGroups after : List String} :
    validatePatch patch knownGroups = .ok after ↔ ValidPatch patch knownGroups after := by
  simp only [validatePatch, bind_eq_ok, require_eq_ok, pure_eq_ok, validateEntries_iff,
    exists_const, beq_iff_eq, bne_iff_ne, decide_eq_true_eq, nodup_of_eraseDups,
    EDITABLE_ENDPOINTS, REQUIRED_GROUP, List.mem_cons, List.not_mem_nil, or_false]
  constructor
  · rintro ⟨hedit, hlen, groups, ⟨hsub, hw, hk⟩, hnodup, hreq, heq⟩
    subst heq
    have hne : groups ≠ [] := by
      intro h
      rw [hsub, h] at hlen
      exact hlen rfl
    exact ⟨hedit, hsub, hne, hnodup, of_decide_eq_true hreq, hw, hk⟩
  · intro h
    have hlen : patch.allowedGroups.length ≠ 0 := by
      rw [h.submitted, List.length_map]
      exact fun hz => h.nonempty (List.length_eq_zero_iff.mp hz)
    exact ⟨h.editable, hlen, after, ⟨h.submitted, h.wellFormed, h.known⟩, h.nodup,
      decide_eq_true h.required, rfl⟩

/-! ## What an accepted file satisfies -/

theorem ssoConfigSchema_ok {web : Web} {config c : SsoConfig}
    (h : ssoConfigSchema web config = .ok c) :
    c = config ∧ endpointsIssues c.endpoints = [] ∧ configIssues web c = [] := by
  unfold ssoConfigSchema at h
  split_ifs at h
  split at h
  case h_1 hnil =>
    cases h
    exact ⟨rfl, List.append_eq_nil_iff.mp hnil⟩
  case h_2 => cases h

theorem resolveSsoFile_ok {web : Web} {raw : Json} {baseDomain : String} {config : SsoConfig}
    (h : resolveSsoFile web raw baseDomain = .ok config) :
    ∃ file, (rawSsoFileSchema web).read raw = some file ∧
      config = resolvedConfig file.sso baseDomain ∧
      endpointsIssues config.endpoints = [] ∧ configIssues web config = [] := by
  unfold resolveSsoFile at h
  split_ifs at h
  cases hread : (rawSsoFileSchema web).read raw with
  | none => simp only [hread] at h; cases h
  | some file =>
      simp only [hread] at h
      split_ifs at h
      cases hc : ssoConfigSchema web (resolvedConfig file.sso baseDomain) with
      | error issues => rw [hc] at h; cases h
      | ok c =>
          rw [hc] at h
          cases h
          exact ⟨file, rfl, ssoConfigSchema_ok hc⟩

theorem duplicateNames_nil {i : Nat} {seen : List String} {endpoints : List SsoEndpoint}
    (h : duplicateNames i seen endpoints = []) :
    (endpoints.map (·.name)).Nodup ∧ ∀ e ∈ endpoints, e.name ∉ seen := by
  induction endpoints generalizing i seen with
  | nil => simp
  | cons ep rest ih =>
      unfold duplicateNames at h
      split_ifs at h with hseen
      have hrest := ih h
      refine ⟨?_, ?_⟩
      · rw [List.map_cons, List.nodup_cons]
        refine ⟨?_, hrest.1⟩
        intro hmem
        obtain ⟨e, he, hname⟩ := List.mem_map.mp hmem
        exact hrest.2 e he (hname ▸ .head _)
      · intro e he
        cases he with
        | head => exact hseen
        | tail _ he => exact fun hs => hrest.2 e he (.tail _ hs)

theorem endpointsIssues_nil {endpoints : List SsoEndpoint} (h : endpointsIssues endpoints = [])
    {e : SsoEndpoint} (he : e ∈ endpoints) : endpointIssues e = [] := by
  obtain ⟨i, hi⟩ := List.mem_iff_getElem?.mp he
  have hmem : (e, i) ∈ endpoints.zipIdx := List.mem_zipIdx_iff_getElem?.mpr hi
  exact List.map_eq_nil_iff.mp (List.flatMap_eq_nil_iff.mp h _ hmem)

theorem groupIssues_nil {e : SsoEndpoint} {groups : List String}
    (h : groupIssues e groups = []) : groups.Nodup := by
  unfold groupIssues at h
  split_ifs at h
  have hdup := issueIf_eq_nil.mp (List.append_eq_nil_iff.mp h).1
  exact nodup_of_eraseDups.mp (not_ne_iff.mp hdup)

theorem endpointIssues_groups {e : SsoEndpoint} {groups : List String}
    (h : endpointIssues e = []) (hgroups : e.allowedGroups = some groups) : groups.Nodup := by
  simp only [endpointIssues, hgroups, List.append_eq_nil_iff] at h
  exact groupIssues_nil h.1.2

/-- Names, and the groups of every list, occur once in an accepted file. -/
theorem resolveSsoFile_nodup {web : Web} {raw : Json} {baseDomain : String} {config : SsoConfig}
    (h : resolveSsoFile web raw baseDomain = .ok config) :
    (config.endpoints.map (·.name)).Nodup ∧
      ∀ e ∈ config.endpoints, ∀ groups, e.allowedGroups = some groups → groups.Nodup := by
  obtain ⟨file, -, -, hends, hconf⟩ := resolveSsoFile_ok h
  refine ⟨?_, ?_⟩
  · exact (duplicateNames_nil (List.append_eq_nil_iff.mp hconf).2).1
  · intro e he groups hgroups
    exact endpointIssues_groups (endpointsIssues_nil hends he) hgroups

/-! ## One list replaced in the document -/

def isNamed (endpoint : String) (v : Json) : Bool :=
  Json.asString (member v "name") == some endpoint

/-- A document of the file, with `after` at the endpoint and nothing else changed. -/
def withAllowedGroups (endpoint : String) (after : List String) : Json → Json :=
  modifyMember "sso" <| modifyMember "endpoints" <| mapItems fun v =>
    if isNamed endpoint v then setMember "allowedGroups" (.arr (after.map .str)) v else v

/-- The endpoint with `after`, when it is the one. -/
def groupsAt (endpoint : String) (after : List String) (e : SsoEndpoint) : SsoEndpoint :=
  if hasName endpoint e then { e with allowedGroups := some after } else e

theorem read_groups {after : List String} (h : ∀ g ∈ after, allowedGroup g = true) :
    allowedGroupSchema.array.read (.arr (after.map .str)) = some after := by
  show (after.map Json.str).mapM allowedGroupSchema.read = some after
  rw [Schema.mapM_eq_some_iff, List.forall₂_map_left_iff, List.forall₂_same]
  intro g hg
  exact (Schema.read_refine _ _).mpr ⟨rfl, h g hg⟩

theorem read_required_ne {α : Type} {key k : String} {s : Schema α} {x : Option Json}
    {f : String → Option Json} (h : key ≠ k) :
    (Fields.required key s).read (fun j => if j = k then x else f j) =
      (Fields.required key s).read f := by
  simp [Fields.required, h]

theorem read_optional_ne {α : Type} {key k : String} {s : Schema α} {x : Option Json}
    {f : String → Option Json} (h : key ≠ k) :
    (Fields.optional key s).read (fun j => if j = k then x else f j) =
      (Fields.optional key s).read f := by
  simp [Fields.optional, h]

theorem read_endpoint {v : Json} {e : SsoEndpoint} (h : rawSsoEndpointSchema.read v = some e) :
    ∃ t, ssoEndpointFields.strict.read v = some t ∧ SsoEndpoint.ofFields t = some e :=
  Option.bind_eq_some_iff.mp h

theorem isNamed_iff {v : Json} {e : SsoEndpoint} (h : rawSsoEndpointSchema.read v = some e)
    (endpoint : String) : isNamed endpoint v = hasName endpoint e := by
  obtain ⟨⟨name, t⟩, ht, he⟩ := read_endpoint h
  obtain ⟨fields, rfl, -, hf⟩ := Fields.read_strict.mp ht
  have hname := ((Fields.read_and _ _).mp hf).1
  obtain ⟨x, hx, hread⟩ := Option.bind_eq_some_iff.mp hname
  have hs := ((Schema.read_refine _ _).mp hread).1
  have heq : e.name = name := by cases he; rfl
  rw [isNamed, hx, show Json.asString (some x) = some name from hs, hasName, heq]
  rfl

theorem read_setGroups {v : Json} {e : SsoEndpoint} {after : List String}
    (h : rawSsoEndpointSchema.read v = some e) (hafter : ∀ g ∈ after, allowedGroup g = true) :
    rawSsoEndpointSchema.read (setMember "allowedGroups" (.arr (after.map .str)) v) =
      some { e with allowedGroups := some after } := by
  obtain ⟨⟨name, host, mode, client, prot, byp, red, logout, groups⟩, ht, he⟩ := read_endpoint h
  have hin : "allowedGroups" ∈ ssoEndpointFields.keys := by decide
  have hset : ssoEndpointFields.strict.read
      (setMember "allowedGroups" (.arr (after.map .str)) v) =
      some (name, host, mode, client, prot, byp, red, logout, some after) := by
    rw [read_setMember hin ht]
    obtain ⟨fields, rfl, -, hf⟩ := Fields.read_strict.mp ht
    simp only [ssoEndpointFields, Fields.read_and] at hf ⊢
    simp only [read_required_ne, read_optional_ne, ne_eq, String.reduceEq, not_false_eq_true]
    obtain ⟨h1, h2, h3, h4, h5, h6, h7, h8, -⟩ := hf
    refine ⟨h1, h2, h3, h4, h5, h6, h7, h8, ?_⟩
    simp [Fields.optional, read_groups hafter]
  show (ssoEndpointFields.strict.read _).bind SsoEndpoint.ofFields = _
  rw [hset]
  cases he
  rfl

theorem read_groupsAt {v : Json} {e : SsoEndpoint} {endpoint : String} {after : List String}
    (hafter : ∀ g ∈ after, allowedGroup g = true) (h : rawSsoEndpointSchema.read v = some e) :
    rawSsoEndpointSchema.read
        (if isNamed endpoint v then setMember "allowedGroups" (.arr (after.map .str)) v else v) =
      some (groupsAt endpoint after e) := by
  rw [isNamed_iff h, groupsAt]
  split_ifs
  · exact read_setGroups h hafter
  · exact h

/-- A required member changed by `f`, where the schema of the member follows `f`. -/
theorem read_required_map {α : Type} {key : String} {s : Schema α} {f : Json → Json}
    {lookup : String → Option Json} {a b : α}
    (h : (Fields.required key s).read lookup = some a)
    (hf : ∀ x, s.read x = some a → s.read (f x) = some b) :
    (Fields.required key s).read
        (fun k => if k = key then (lookup k).map f else lookup k) = some b := by
  obtain ⟨x, hx, hread⟩ := Option.bind_eq_some_iff.mp h
  show ((if key = key then (lookup key).map f else lookup key).bind s.read) = some b
  rw [if_pos rfl, hx]
  exact hf x hread

/-- The `sso` member with the items of its endpoints changed. -/
theorem read_endpoints {web : Web} {v : Json} {sso : RawSso} {f : Json → Json}
    {g : SsoEndpoint → SsoEndpoint} (h : (rawSsoSchema web).read v = some sso)
    (hf : ∀ x e, rawSsoEndpointSchema.read x = some e →
      rawSsoEndpointSchema.read (f x) = some (g e)) :
    (rawSsoSchema web).read (modifyMember "endpoints" (mapItems f) v) =
      some { sso with endpoints := sso.endpoints.map g } := by
  obtain ⟨⟨realm, host, issuer, endpoints⟩, ht, he⟩ := Option.bind_eq_some_iff.mp h
  have hmod : (rawSsoFields web).strict.read (modifyMember "endpoints" (mapItems f) v) =
      some (realm, host, issuer, endpoints.map g) := by
    rw [read_modifyMember ht]
    obtain ⟨fields, rfl, -, hread⟩ := Fields.read_strict.mp ht
    simp only [rawSsoFields, Fields.read_and] at hread ⊢
    obtain ⟨h1, h2, h3, h4⟩ := hread
    refine ⟨?_, ?_, ?_, read_required_map h4 fun x hx => read_mapItems hx hf⟩
    · exact h1
    · exact h2
    · exact h3
  show ((rawSsoFields web).strict.read _).bind RawSso.ofFields = _
  rw [hmod]
  cases he
  rfl

/-- The document with the list replaced reads as the file with the list replaced. -/
theorem read_withAllowedGroups {web : Web} {v : Json} {file : RawSsoFile} {endpoint : String}
    {after : List String} (h : (rawSsoFileSchema web).read v = some file)
    (hafter : ∀ g ∈ after, allowedGroup g = true) :
    (rawSsoFileSchema web).read (withAllowedGroups endpoint after v) =
      some ⟨{ file.sso with endpoints := file.sso.endpoints.map (groupsAt endpoint after) }⟩ := by
  obtain ⟨sso, ht, he⟩ := Option.bind_eq_some_iff.mp h
  have hmod : (Fields.required "sso" (rawSsoSchema web)).strict.read
      (withAllowedGroups endpoint after v) =
      some { sso with endpoints := sso.endpoints.map (groupsAt endpoint after) } := by
    rw [withAllowedGroups, read_modifyMember ht]
    obtain ⟨fields, rfl, -, hread⟩ := Fields.read_strict.mp ht
    exact read_required_map hread fun x hx =>
      read_endpoints hx fun y e hy => read_groupsAt hafter hy
  show (Schema.read _ _).bind RawSsoFile.ofSso = _
  rw [hmod]
  cases he
  rfl

/-! ## The edit -/

/-- With names that occur once, changing the first endpoint of the name changes them all. -/
theorem changeFirst_groups {endpoint : String} {after : List String}
    {endpoints : List SsoEndpoint} (h : (endpoints.map (·.name)).Nodup) :
    changeFirst (hasName endpoint) (fun e => { e with allowedGroups := some after }) endpoints =
      endpoints.map (groupsAt endpoint after) := by
  induction endpoints with
  | nil => rfl
  | cons e rest ih =>
      rw [List.map_cons, List.nodup_cons] at h
      by_cases hname : hasName endpoint e = true
      · -- no other endpoint has the name
        have hrest : rest.map (groupsAt endpoint after) = rest := by
          rw [List.map_congr_left (g := id), List.map_id]
          intro x hx
          have hne : hasName endpoint x = false := by
            by_contra hx'
            rw [Bool.not_eq_false] at hx'
            have heq : x.name = e.name := (eq_of_beq hx').trans (eq_of_beq hname).symm
            exact h.1 (List.mem_map.mpr ⟨x, hx, heq⟩)
          simp [groupsAt, hne]
        simp [changeFirst, groupsAt, hname, hrest]
      · simp [changeFirst, groupsAt, hname, ih h.2]

/-- What a change that was built went through. -/
theorem buildChange_ok {σ : Type} {eng : Engine σ} {input : BuildInput} {built : BuiltChange}
    (h : eng.buildChange input = .ok built) :
    validatePatch input.patch input.groupNames = .ok built.after ∧
    ∃ doc base, eng.parseBase input.baseText = .ok (doc, base) ∧
      currentGroups base input.patch.endpoint built.after = .ok built.before ∧
      eng.checkEdited base input.patch.endpoint built.after input.baseDomain built.editedText =
        .ok () := by
  simp only [Engine.buildChange, bind_eq_ok, pure_eq_ok] at h
  obtain ⟨after, hafter, ⟨doc, base⟩, hbase, before, hbefore, text, htext, u, hcheck, hb⟩ := h
  cases hb
  exact ⟨hafter, doc, base, hbase, hbefore, hcheck⟩

section

variable {σ : Type} {eng : Engine σ}

theorem parseBase_of_parse {text : String} {raw : Json} {file : RawSsoFile}
    (hyaml : eng.yaml.ParsesAlike) (hparse : eng.yaml.parse text = .ok raw)
    (hread : (rawSsoFileSchema eng.web).read raw = some file) :
    eng.parseBase text = .ok (eng.yaml.parseDocument text, file) := by
  have hdoc := (hyaml text raw).mp hparse
  simp only [Engine.parseBase, bind_eq_ok, require_eq_ok, thrown_eq_ok, orReject_eq_ok,
    pure_eq_ok]
  exact ⟨(), by simp [hdoc.1], raw, hdoc.2, file, hread, rfl⟩

theorem checkEdited_ok {base : RawSsoFile} {endpoint baseDomain text : String}
    {after : List String} {u : Unit}
    (h : eng.checkEdited base endpoint after baseDomain text = .ok u) :
    ∃ edited config, eng.yaml.parse text = .ok edited ∧
      (rawSsoFileSchema eng.web).read edited = some (withGroups endpoint after base) ∧
      resolveSsoFile eng.web edited baseDomain = .ok config := by
  simp only [Engine.checkEdited, bind_eq_ok, require_eq_ok, thrown_eq_ok, orReject_eq_ok] at h
  obtain ⟨edited, hparse, file, hread, _, _, _, heq, hres⟩ := h
  cases hc : resolveSsoFile eng.web edited baseDomain with
  | error summary => rw [hc] at hres; cases hres
  | ok config => exact ⟨edited, config, hparse, (eq_of_beq heq) ▸ hread, hc⟩

theorem currentGroups_ok {base : RawSsoFile} {endpoint : String} {after : List String}
    {before : Option (List String)} (h : currentGroups base endpoint after = .ok before) :
    ∃ e ∈ base.sso.endpoints, e.name = endpoint ∧ e.allowedGroups = before ∧
      before.any (fun list => sameSet list after) = false := by
  simp only [currentGroups, bind_eq_ok, orReject_eq_ok] at h
  obtain ⟨e, hfind, h⟩ := h
  split_ifs at h with hsame
  cases h
  have hname : hasName endpoint e = true := List.find?_some hfind
  exact ⟨e, List.mem_of_find?_eq_some hfind, eq_of_beq hname, rfl, by simpa using hsame⟩

/-- On lists without repetitions `sameSet` decides equality of the sets. -/
theorem sameSet_iff {a b : List String} (ha : a.Nodup) (hb : b.Nodup) :
    sameSet a b = true ↔ ∀ g, g ∈ a ↔ g ∈ b := by
  simp only [sameSet, Bool.and_eq_true, decide_eq_true_eq, List.all_eq_true]
  constructor
  · rintro ⟨hlen, hsub⟩ g
    have hperm := (List.subperm_of_subset ha hsub).perm_of_length_le (by omega)
    exact hperm.mem_iff
  · intro h
    exact ⟨((List.perm_ext_iff_of_nodup ha hb).mpr h).length_eq, fun g => (h g).mp⟩

/-! ## Which step answers `NO_EFFECTIVE_CHANGE` -/

/-- The result is not the rejection of an edit without effect. -/
def NotUnchanged {α : Type} (x : Except JsError α) : Prop :=
  ∀ message, x ≠ .error (.changeRejection .NO_EFFECTIVE_CHANGE message)

theorem NotUnchanged.bind {α β : Type} {x : Except JsError α} {f : α → Except JsError β}
    (hx : NotUnchanged x) (hf : ∀ a, NotUnchanged (f a)) : NotUnchanged (x >>= f) := by
  intro message
  cases x with
  | error e =>
      intro h
      exact hx message (congrArg Except.error (Except.error.inj h))
  | ok a => exact hf a message

theorem notUnchanged_require (ok : Bool) (message : String) :
    NotUnchanged (require ok message) := by
  intro m
  cases ok <;> simp [require, reject]

theorem notUnchanged_orReject {α : Type} (x : Option α) (message : String) :
    NotUnchanged (orReject x message) := by
  intro m
  cases x <;> simp [orReject, reject]

theorem notUnchanged_thrown {α : Type} (x : Except String α) : NotUnchanged (thrown x) := by
  intro m
  cases x <;> simp [thrown, Except.mapError]

theorem notUnchanged_editDocument (yaml : Yaml σ) (doc : Document σ) (endpoint : String)
    (after : List String) : NotUnchanged (editDocument yaml doc endpoint after) := by
  intro m
  unfold editDocument
  split
  · split_ifs <;> simp [reject]
  · simp [reject]

theorem notUnchanged_edit (text : String) (doc : Document σ) (endpoint : String)
    (after : List String) : NotUnchanged (eng.edit text doc endpoint after) :=
  (notUnchanged_thrown _).bind fun _ => (notUnchanged_require _ _).bind fun _ =>
    (notUnchanged_editDocument _ _ _ _).bind fun _ => notUnchanged_thrown _

theorem notUnchanged_checkEdited (base : RawSsoFile) (endpoint : String) (after : List String)
    (baseDomain text : String) :
    NotUnchanged (eng.checkEdited base endpoint after baseDomain text) := by
  refine (notUnchanged_thrown _).bind fun edited => (notUnchanged_orReject _ _).bind fun _ =>
    (notUnchanged_require _ _).bind fun _ => (notUnchanged_require _ _).bind fun _ => ?_
  intro m
  cases resolveSsoFile eng.web edited baseDomain with
  | error summary => simp [reject]
  | ok config => simp [pure, Except.pure]

/-- Past the patch and the base text, only `before` decides. -/
theorem unchanged_iff {input : BuildInput} {after : List String} {doc : Document σ}
    {base : RawSsoFile} {e : SsoEndpoint}
    (hpatch : validatePatch input.patch input.groupNames = .ok after)
    (hbase : eng.parseBase input.baseText = .ok (doc, base))
    (hfind : base.sso.endpoints.find? (hasName input.patch.endpoint) = some e) :
    (∃ message, eng.buildChange input =
        .error (.changeRejection .NO_EFFECTIVE_CHANGE message)) ↔
      ∃ before, e.allowedGroups = some before ∧ sameSet before after = true := by
  have hrun : eng.buildChange input =
      (currentGroups base input.patch.endpoint after >>= fun before => do
        let editedText ← eng.edit input.baseText doc input.patch.endpoint after
        eng.checkEdited base input.patch.endpoint after input.baseDomain editedText
        let diff := withoutSeparator (eng.createTwoFilesPatch ("a/" ++ SSO_FILE_PATH)
          ("b/" ++ SSO_FILE_PATH) input.baseText editedText)
        return { endpoint := input.patch.endpoint, before, after, editedText, diff,
                 payloadSha256 := eng.payloadSha256 ⟨input.patch.endpoint, after.map .str⟩ }) := by
    rw [Engine.buildChange, hpatch]
    show (eng.parseBase input.baseText >>= _) = _
    rw [hbase]
    rfl
  have hcur : currentGroups base input.patch.endpoint after =
      if e.allowedGroups.any fun list => sameSet list after then
        .error (.changeRejection .NO_EFFECTIVE_CHANGE
          "allowedGroups is unchanged (same set of groups)")
      else .ok e.allowedGroups := by
    rw [currentGroups, hfind]
    rfl
  rw [hrun, hcur]
  split_ifs with hsame
  · refine iff_of_true ⟨_, rfl⟩ ?_
    obtain ⟨before, hbefore, hs⟩ := (Option.any_eq_true _ _).mp hsame
    exact ⟨before, hbefore, hs⟩
  · refine iff_of_false ?_ ?_
    · rintro ⟨message, hm⟩
      exact ((notUnchanged_edit _ _ _ _).bind fun _ =>
        (notUnchanged_checkEdited _ _ _ _ _).bind fun _ _ => by
          simp [pure, Except.pure]) message hm
    · rintro ⟨before, hbefore, hs⟩
      exact hsame ((Option.any_eq_true _ _).mpr ⟨before, hbefore, hs⟩)

/-! ## The change that is built -/

/-- What the edited text parses to. -/
theorem edited_same {input : BuildInput} {built : BuiltChange} {raw : Json} {config : SsoConfig}
    (hyaml : eng.yaml.ParsesAlike) (hparse : eng.yaml.parse input.baseText = .ok raw)
    (hacc : resolveSsoFile eng.web raw input.baseDomain = .ok config)
    (h : eng.buildChange input = .ok built) :
    ∃ edited resolved, eng.yaml.parse built.editedText = .ok edited ∧
      Same edited (withAllowedGroups input.patch.endpoint built.after raw) ∧
      resolveSsoFile eng.web edited input.baseDomain = .ok resolved := by
  obtain ⟨hpatch, doc, base, hbase, -, hcheck⟩ := buildChange_ok h
  obtain ⟨file, hread, hconfig, -, -⟩ := resolveSsoFile_ok hacc
  rw [parseBase_of_parse hyaml hparse hread] at hbase
  cases hbase
  obtain ⟨edited, resolved, hedited, hfile, hres⟩ := checkEdited_ok hcheck
  have hnames : (base.sso.endpoints.map (·.name)).Nodup := by
    have hnodup := (resolveSsoFile_nodup hacc).1
    rw [hconfig, resolvedConfig, List.map_map] at hnodup
    exact hnodup
  refine ⟨edited, resolved, hedited, ?_, hres⟩
  apply (rawSsoFileSchema eng.web).faithful hfile
  have hwith : withGroups input.patch.endpoint built.after base =
      ⟨{ base.sso with
        endpoints := base.sso.endpoints.map (groupsAt input.patch.endpoint built.after) }⟩ := by
    rw [withGroups, changeFirst_groups hnames]
  rw [hwith]
  exact read_withAllowedGroups hread (validatePatch_iff.mp hpatch).wellFormed

/-- The endpoints of the accepted file, by name and list. -/
theorem exists_endpoint_iff {sso : RawSso} {baseDomain : String}
    {p : String → Option (List String) → Prop} :
    (∃ e ∈ (resolvedConfig sso baseDomain).endpoints, p e.name e.allowedGroups) ↔
      ∃ e ∈ sso.endpoints, p e.name e.allowedGroups := by
  simp [resolvedConfig]

/-- What `buildChange` promises of an accepted base text: a change that is built differs from
the base in the one list, and `NO_EFFECTIVE_CHANGE` is the answer exactly where the set is
the same. -/
theorem buildChange_spec {input : BuildInput} {raw : Json} {config : SsoConfig}
    (hyaml : eng.yaml.ParsesAlike) (hparse : eng.yaml.parse input.baseText = .ok raw)
    (hacc : resolveSsoFile eng.web raw input.baseDomain = .ok config) :
    (∀ built, eng.buildChange input = .ok built →
      (∃ edited resolved, eng.yaml.parse built.editedText = .ok edited ∧
        Same edited (withAllowedGroups input.patch.endpoint built.after raw) ∧
        resolveSsoFile eng.web edited input.baseDomain = .ok resolved) ∧
      ValidPatch input.patch input.groupNames built.after ∧
      ∃ e ∈ config.endpoints, e.name = input.patch.endpoint ∧ e.allowedGroups = built.before ∧
        ∀ before, e.allowedGroups = some before → ¬ ∀ g, g ∈ before ↔ g ∈ built.after) ∧
    (∀ after, ValidPatch input.patch input.groupNames after →
      (∃ e ∈ config.endpoints, e.name = input.patch.endpoint) →
      ((∃ message, eng.buildChange input =
          .error (.changeRejection .NO_EFFECTIVE_CHANGE message)) ↔
        ∃ e ∈ config.endpoints, e.name = input.patch.endpoint ∧
          ∃ before, e.allowedGroups = some before ∧ ∀ g, g ∈ before ↔ g ∈ after)) := by
  obtain ⟨hnames, hlists⟩ := resolveSsoFile_nodup hacc
  obtain ⟨file, hread, hconfig, -, -⟩ := resolveSsoFile_ok hacc
  subst hconfig
  have hlists' : ∀ e ∈ file.sso.endpoints, ∀ groups, e.allowedGroups = some groups →
      groups.Nodup := by
    intro e he
    exact hlists { e with host := qualify input.baseDomain e.host } (List.mem_map.mpr ⟨e, he, rfl⟩)
  have hbase := parseBase_of_parse hyaml hparse hread
  refine ⟨?_, ?_⟩
  · intro built h
    obtain ⟨hpatch, doc, base, hbase', hcur, -⟩ := buildChange_ok h
    rw [hbase] at hbase'
    cases hbase'
    have hvalid := validatePatch_iff.mp hpatch
    refine ⟨edited_same hyaml hparse hacc h, hvalid, ?_⟩
    obtain ⟨e, he, hname, hgroups, hdiff⟩ := currentGroups_ok hcur
    refine (exists_endpoint_iff (p := fun name groups => name = input.patch.endpoint ∧
      groups = built.before ∧
      ∀ before, groups = some before → ¬ ∀ g, g ∈ before ↔ g ∈ built.after)).mpr
      ⟨e, he, hname, hgroups, ?_⟩
    intro before hb hset
    have hsame := (sameSet_iff (hlists' e he before hb) hvalid.nodup).mpr hset
    rw [← hgroups, hb, Option.any_some, hsame] at hdiff
    cases hdiff
  · intro after hvalid hexists
    obtain ⟨e₀, he₀, hname₀⟩ := (exists_endpoint_iff
      (p := fun name _ => name = input.patch.endpoint)).mp hexists
    obtain ⟨e, hfind⟩ : ∃ e, file.sso.endpoints.find? (hasName input.patch.endpoint) = some e := by
      rw [← Option.isSome_iff_exists, List.find?_isSome]
      exact ⟨e₀, he₀, beq_iff_eq.mpr hname₀⟩
    have he := List.mem_of_find?_eq_some hfind
    have hname : hasName input.patch.endpoint e = true := List.find?_some hfind
    rw [unchanged_iff (validatePatch_iff.mpr hvalid) hbase hfind,
      exists_endpoint_iff (p := fun name groups => name = input.patch.endpoint ∧
        ∃ before, groups = some before ∧ ∀ g, g ∈ before ↔ g ∈ after)]
    constructor
    · rintro ⟨before, hb, hsame⟩
      exact ⟨e, he, eq_of_beq hname, before, hb,
        (sameSet_iff (hlists' e he before hb) hvalid.nodup).mp hsame⟩
    · rintro ⟨e', he', hname', before, hb, hset⟩
      -- the names occur once, so this is the endpoint that was found
      have heq : e' = e := by
        have hnodup : (file.sso.endpoints.map (·.name)).Nodup := by
          rw [resolvedConfig, List.map_map] at hnames
          exact hnames
        exact List.inj_on_of_nodup_map hnodup he' he (hname'.trans (eq_of_beq hname).symm)
      rw [heq] at hb
      exact ⟨before, hb, (sameSet_iff (hlists' e he before hb) hvalid.nodup).mpr hset⟩

end

/-! ## A file with one endpoint -/

mutual
/-- `doc.toJS()` on a tree without aliases. -/
def Node.toJson {σ : Type} : Node σ → Json
  | .scalar value _ _ => value
  | .seq items _ => .arr (itemsToJson items)
  | .map items _ => .obj (pairsToJson items)
  | .alias .. => .null

def itemsToJson {σ : Type} : List (Node σ) → List Json
  | [] => []
  | item :: rest => item.toJson :: itemsToJson rest

def pairsToJson {σ : Type} : List (Node σ × Option (Node σ)) → List (String × Json)
  | [] => []
  | (.scalar (.str key) _ _, some value) :: rest => (key, value.toJson) :: pairsToJson rest
  | (_, _) :: rest => pairsToJson rest
end

def quotedNode (s : String) : Node Unit := .scalar (.str s) .QUOTE_DOUBLE ()

def plainPair (key : String) (value : Node Unit) : Node Unit × Option (Node Unit) :=
  (.scalar (.str key) .PLAIN (), some value)

def sampleEndpoint (groups : List String) : Node Unit :=
  .map [plainPair "name" (quotedNode "flink"), plainPair "host" (quotedNode "flink"),
    plainPair "mode" (quotedNode "gateway-oidc"), plainPair "clientId" (quotedNode "apisix"),
    plainPair "protectedPathPrefixes" (.seq [quotedNode "/*"] ()),
    plainPair "bypassPathPrefixes" (.seq [] ()),
    plainPair "redirectPath" (quotedNode "/.apisix/redirect"),
    plainPair "logoutPath" (quotedNode "/logout"),
    plainPair "allowedGroups" (.seq (groups.map quotedNode) ())] ()

def sampleDocument (groups : List String) : Document Unit where
  errors := []
  contents := some (.map [plainPair "sso" (.map [plainPair "realm" (quotedNode "beluga"),
    plainPair "issuerHost" (quotedNode "sso"),
    plainPair "endpoints" (.seq [sampleEndpoint groups] ())] ())] ())
  rest := ()

def sampleFileText (groups : String) : String :=
  "sso:\n  realm: \"beluga\"\n  issuerHost: \"sso\"\n  endpoints:\n    - name: \"flink\"\n" ++
  "      host: \"flink\"\n      mode: \"gateway-oidc\"\n      clientId: \"apisix\"\n" ++
  "      protectedPathPrefixes: [ \"/*\" ]\n      bypassPathPrefixes: []\n" ++
  "      redirectPath: \"/.apisix/redirect\"\n      logoutPath: \"/logout\"\n" ++
  "      allowedGroups: " ++ groups ++ "\n"

def sampleDocuments : List (String × Document Unit) :=
  [(sampleFileText "[ \"admins\" ]", sampleDocument ["admins"]),
   (sampleFileText "[ \"admins\", \"engineers\" ]", sampleDocument ["admins", "engineers"])]

def documentText (doc : Document Unit) : String :=
  stringifyJson ((doc.contents.map Node.toJson).getD .null)

/-- The library on the two texts of the sample. -/
def sampleYaml : Yaml Unit where
  parseDocument text :=
    ((sampleDocuments.find? fun entry => entry.1 == text).map (·.2)).getD
      ⟨["unexpected token"], none, ()⟩
  toJS doc := .ok ((doc.contents.map Node.toJson).getD .null)
  parse text :=
    match sampleDocuments.find? fun entry => entry.1 == text with
    | some entry => .ok ((entry.2.contents.map Node.toJson).getD .null)
    | none => .error "unexpected token"
  print doc :=
    match sampleDocuments.find? fun entry => documentText entry.2 == documentText doc with
    | some entry => .ok entry.1
    | none => .error "no text"
  fresh := ()

def sampleEngine : Engine Unit where
  yaml := sampleYaml
  web :=
    { url := fun val =>
        if val = "https://sso.local.beluga.internal/realms/beluga" then
          some ⟨"https:", "sso.local.beluga.internal", "sso.local.beluga.internal",
            "/realms/beluga"⟩
        else none
      zodUrl := fun val => val = "https://sso.local.beluga.internal/realms/beluga"
      rawIssues := fun _ => []
      fieldIssues := fun _ => [] }
  sha256 := fun text => text
  createTwoFilesPatch := fun _ _ before after => before ++ after

def sampleInput : BuildInput where
  baseText := sampleFileText "[ \"admins\" ]"
  baseDomain := "local.beluga.internal"
  groupNames := ["admins", "engineers"]
  patch := ⟨"flink", [.str "admins", .str "engineers"]⟩

theorem sampleYaml_alike : sampleYaml.ParsesAlike := by
  intro text value
  simp only [sampleYaml]
  cases h : sampleDocuments.find? fun entry => entry.1 == text with
  | none => simp
  | some entry =>
      have hmem := List.mem_of_find?_eq_some h
      have herr : entry.2.errors = [] := by
        simp only [sampleDocuments, List.mem_cons, List.not_mem_nil, or_false] at hmem
        rcases hmem with rfl | rfl <;> rfl
      simp [herr]

theorem buildChange_spec_sample :
    ∃ built raw edited, sampleEngine.buildChange sampleInput = .ok built ∧
      sampleEngine.yaml.parse sampleInput.baseText = .ok raw ∧
      sampleEngine.yaml.parse built.editedText = .ok edited ∧
      Same edited (withAllowedGroups "flink" ["admins", "engineers"] raw) := by
  have hrun : (sampleEngine.buildChange sampleInput).toOption.map (·.after) =
      some ["admins", "engineers"] := by decide +kernel
  have hres : ((sampleEngine.yaml.parse sampleInput.baseText).toOption.bind fun raw =>
      (resolveSsoFile sampleEngine.web raw sampleInput.baseDomain).toOption).isSome = true := by
    decide +kernel
  obtain ⟨config, hconfig⟩ := Option.isSome_iff_exists.mp hres
  obtain ⟨raw, hraw, hacc⟩ := Option.bind_eq_some_iff.mp hconfig
  obtain ⟨built, hbuilt, hafter⟩ := Option.map_eq_some_iff.mp hrun
  have hok : ∀ {ε α : Type} {x : Except ε α} {a : α}, x.toOption = some a → x = .ok a := by
    intro ε α x a h
    cases x with
    | error e => cases h
    | ok b => cases h; rfl
  obtain ⟨⟨edited, resolved, hedited, hsame, -⟩, -⟩ :=
    (buildChange_spec sampleYaml_alike (hok hraw) (hok hacc)).1 built (hok hbuilt)
  rw [hafter] at hsame
  exact ⟨built, raw, edited, hok hbuilt, hok hraw, hedited, hsame⟩

end Sso
