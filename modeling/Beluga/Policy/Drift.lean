import Beluga.Policy.Order
import Beluga.Text.Backtrack
import Beluga.Text.Words

/-! # Drift detection

`diffState` of `drift.ts`: what is declared against what the systems report, per
category, and the items sorted by their contents.

`toUpperCase` of a privilege is a parameter, as its lines come from outside.
-/

namespace Policy

open Text

/-! ## Reports -/

inductive DriftKind where
  | unapplied | manual | mismatch
  deriving DecidableEq, Repr

def DriftKind.text : DriftKind → String
  | .unapplied => "unapplied"
  | .manual => "manual"
  | .mismatch => "mismatch"

structure DriftItem where
  kind : DriftKind
  target : String
  detail : String
  deriving DecidableEq, Repr

/-- The keys of `ActualState`. -/
inductive DriftCategory where
  | keycloakRoles | keycloakGroups | pgGrants
  deriving DecidableEq, Repr

structure DriftReport where
  items : List DriftItem
  checked : List DriftCategory
  deriving DecidableEq, Repr

/-- `Record<string, string[]>`: the entries in enumeration order. -/
structure GroupRecord where
  entries : List (String × List String)
  keys_nodup : (entries.map Prod.fst).Nodup

/-- `Partial<ActualState>`. -/
structure ActualState where
  keycloakRoles : Option (List String) := none
  keycloakGroups : Option GroupRecord := none
  pgGrants : Option (List String) := none

/-! ## Keycloak -/

def diffKeycloakRoles (desired : KeycloakSpec) (actualRoles : List String) : List DriftItem :=
  let desiredNames := desired.realmRoles.map (·.name)
  (desiredNames.filter (· ∉ actualRoles)).map (fun name =>
      ⟨.unapplied, "keycloak.role/" ++ name, "선언됨, 실제 없음"⟩) ++
    (actualRoles.filter (· ∉ desiredNames)).map fun name =>
      ⟨.manual, "keycloak.role/" ++ name, "실제에만 존재 — 수동 변경 의심"⟩

/-- What a plain object has without own keys. None of it can be spread into an array. -/
def OBJECT_PROTOTYPE : List String :=
  ["constructor", "__defineGetter__", "__defineSetter__", "hasOwnProperty", "__lookupGetter__",
    "__lookupSetter__", "isPrototypeOf", "propertyIsEnumerable", "toString", "valueOf", "__proto__",
    "toLocaleString"]

/-- `[...value]` of a value that is not iterable. -/
structure TypeError where
  group : String
  deriving DecidableEq, Repr

/-- `actualGroups[name]`. -/
def GroupRecord.get (actual : GroupRecord) (name : String) :
    Except TypeError (Option (List String)) :=
  match actual.entries.lookup name with
  | some roles => .ok (some roles)
  | none => if name ∈ OBJECT_PROTOTYPE then .error ⟨name⟩ else .ok none

/-- The item of a declared group. -/
def diffGroup (actual : GroupRecord) (g : KeycloakGroup) : Except TypeError (List DriftItem) :=
  (actual.get g.name).map fun
    | none => [⟨.unapplied, "keycloak.group/" ++ g.name, "선언됨, 실제 없음"⟩]
    | some actualRolesOfGroup =>
        let want := Js.join "," (Js.sort g.realmRoles)
        let have_ := Js.join "," (Js.sort actualRolesOfGroup)
        if want ≠ have_ then
          [⟨.mismatch, "keycloak.group/" ++ g.name,
            "롤 구성이 다르다 — 선언: [" ++ want ++ "], 실제: [" ++ have_ ++ "]"⟩]
        else []

def diffKeycloakGroups (desired : KeycloakSpec) (actualGroups : GroupRecord) :
    Except TypeError (List DriftItem) :=
  let desiredGroupNames := desired.groups.map (·.name)
  (desired.groups.mapM (diffGroup actualGroups)).map fun declared =>
    declared.flatten ++
      ((actualGroups.entries.map Prod.fst).filter (· ∉ desiredGroupNames)).map fun name =>
        ⟨.manual, "keycloak.group/" ++ name, "실제에만 존재 — 수동 변경 의심"⟩

/-! ## GRANT lines -/

/-- `set.add(x)`. -/
def add (set : List String) (x : String) : List String := if x ∈ set then set else set ++ [x]

/-- `for (const x of xs) set.add(x)`. -/
def addAll (set xs : List String) : List String := xs.foldl add set

theorem mem_addAll {set xs : List String} {x : String} :
    x ∈ addAll set xs ↔ x ∈ set ∨ x ∈ xs := by
  induction xs generalizing set with
  | nil => simp [addAll]
  | cons y ys ih =>
      have hadd : x ∈ add set y ↔ x ∈ set ∨ x = y := by
        unfold add
        split
        case isTrue hy =>
          constructor
          · exact .inl
          · rintro (hx | rfl)
            · exact hx
            · exact hy
        case isFalse => simp
      rw [addAll, List.foldl_cons, ← addAll, ih, hadd, List.mem_cons, or_assoc]

theorem nodup_addAll {set xs : List String} (h : set.Nodup) : (addAll set xs).Nodup := by
  induction xs generalizing set with
  | nil => exact h
  | cons y ys ih =>
      rw [addAll, List.foldl_cons, ← addAll]
      refine ih ?_
      unfold add
      split
      · exact h
      · rename_i hy
        exact List.nodup_append.mpr ⟨h, List.nodup_singleton y, by
          intro a ha b hb
          rw [List.mem_singleton.mp hb]
          exact fun heq => hy (heq ▸ ha)⟩

structure ParsedGrant where
  table : String
  role : String
  privileges : List String
  privileges_nodup : privileges.Nodup

/-- The key of the map of grants. -/
def ParsedGrant.key (g : ParsedGrant) : String := g.table ++ "/" ++ g.role

/-- More privileges for a grant. -/
def ParsedGrant.addAll (g : ParsedGrant) (privileges : List String) : ParsedGrant where
  table := g.table
  role := g.role
  privileges := Policy.addAll g.privileges privileges
  privileges_nodup := nodup_addAll g.privileges_nodup

def stripQuotes (ident : List Char) : String := String.ofList (ident.filter (· ≠ '"'))

/-- `.`. -/
def dot (c : Char) : Bool :=
  !(c = '\n' || c = '\r' || c.toNat = 0x2028 || c.toNat = 0x2029)

/-- `\S`. -/
def nonspace (c : Char) : Bool := !Regex.space c

/-- The groups of `GRANT_LINE_RE`. -/
structure GrantMatch where
  rawPrivileges : List Char
  rawTable : List Char
  rawRole : List Char
  grantOption : Bool

open Matcher in
/-- `(\s+WITH\s+GRANT\s+OPTION)`. -/
def WITH_GRANT_OPTION : Matcher Unit := do
  gap; word "WITH"; gap; word "GRANT"; gap; word "OPTION"

open Matcher in
/-- The part of the expression after `TO\s+`. -/
def GRANTEE_RE : Matcher (List Char × Bool) := do
  let rawRole ← plusLazy nonspace
  let grantOption ← opt WITH_GRANT_OPTION
  let _ ← opt (word ";")
  pure (rawRole, grantOption)

open Matcher in
def GRANT_LINE_RE : Matcher GrantMatch := do
  word "GRANT"; gap
  let rawPrivileges ← plusLazy dot
  gap; word "ON"; gap
  let _ ← opt (do word "TABLE"; gap)
  let rawTable ← plus nonspace
  gap; word "TO"; gap
  let (rawRole, grantOption) ← GRANTEE_RE
  pure ⟨rawPrivileges, rawTable, rawRole, grantOption⟩

/-- `toUpperCase` on the letters of ASCII. -/
def upperAscii (s : String) : String := String.ofList (s.toList.map Char.toUpper)

/-- What is known of `toUpperCase`. -/
def AsciiUpper (toUpperCase : String → String) : Prop :=
  ∀ s, (∀ c ∈ s.toList, c.toNat < 128) → toUpperCase s = upperAscii s

section Lines

variable (toUpperCase : String → String)

/-- The privileges of a line, without empty ones. -/
def splitPrivileges (rawPrivileges : List Char) : List String :=
  ((rawPrivileges.splitOn ',').map fun p => toUpperCase (String.ofList (trim p))).filter (· ≠ "")

/-- What a match of the expression stands for. -/
def grantOf (m : GrantMatch) : ParsedGrant where
  table := stripQuotes m.rawTable
  role := stripQuotes m.rawRole
  privileges := addAll [] (splitPrivileges toUpperCase m.rawPrivileges ++
    if m.grantOption then ["GRANT OPTION"] else [])
  privileges_nodup := nodup_addAll .nil

def parseGrantLine (line : String) : Option ParsedGrant :=
  (GRANT_LINE_RE.exec (trim line.toList)).map (grantOf toUpperCase)

/-- A grant goes into the map: with those of its key, or as the last. -/
def put : List ParsedGrant → ParsedGrant → List ParsedGrant
  | [], g => [g]
  | existing :: rest, g =>
      if existing.key = g.key then existing.addAll g.privileges :: rest
      else existing :: put rest g

/-- The map of `mergeGrantLines`, in its order; the keys are those of the grants. -/
def mergeGrantLines (lines : List String) : List ParsedGrant :=
  (lines.filterMap (parseGrantLine toUpperCase)).foldl put []

/-- The lines that `mergeGrantLines` passes to `onUnparsed`. -/
def unparsedLines (lines : List String) : List String :=
  lines.filter fun line => (parseGrantLine toUpperCase line).isNone

/-- `map.get(key)`. -/
def grantAt (byKey : List ParsedGrant) (key : String) : Option ParsedGrant :=
  byKey.find? fun g => g.key = key

def formatPrivileges (privileges : List String) : String := Js.join ", " (Js.sort privileges)

def privilegesEqual (a b : List String) : Bool :=
  a.length = b.length && a.all fun p => decide (p ∈ b)

/-- `s.split("\n")`. -/
def splitLines (s : String) : List String := (s.toList.splitOn '\n').map String.ofList

def desiredPgGrants (pgddl : String) : List ParsedGrant :=
  mergeGrantLines toUpperCase (splitLines pgddl)

/-- The item of a line that is not understood. -/
def unparsedItem (line : String) : DriftItem :=
  ⟨.manual, "pg.grant/unparsed",
    "해석할 수 없는 실제 GRANT 문장 — 수동 검토 필요: " ++ String.ofList (trim line.toList)⟩

/-- The item of a desired grant. -/
def desiredItem (actualByKey : List ParsedGrant) (g : ParsedGrant) : List DriftItem :=
  match grantAt actualByKey g.key with
  | none =>
      [⟨.unapplied, "pg.grant/" ++ g.key,
        "선언됨, 실제 없음 — " ++ formatPrivileges g.privileges⟩]
  | some a =>
      if privilegesEqual a.privileges g.privileges then []
      else
        [⟨.mismatch, "pg.grant/" ++ g.key,
          "권한 집합이 다르다 — 선언: [" ++ formatPrivileges g.privileges ++ "], 실제: [" ++
            formatPrivileges a.privileges ++ "]"⟩]

/-- The item of an actual grant. -/
def actualItem (desiredByKey : List ParsedGrant) (a : ParsedGrant) : List DriftItem :=
  if (grantAt desiredByKey a.key).isSome then []
  else
    [⟨.manual, "pg.grant/" ++ a.key,
      "실제에만 존재 — 수동 변경 의심 (" ++ formatPrivileges a.privileges ++ ")"⟩]

def diffPgGrants (pgddl : String) (actualGrants : List String) : List DriftItem :=
  let desiredByKey := desiredPgGrants toUpperCase pgddl
  let actualByKey := mergeGrantLines toUpperCase actualGrants
  (unparsedLines toUpperCase actualGrants).map unparsedItem ++
    desiredByKey.flatMap (desiredItem actualByKey) ++ actualByKey.flatMap (actualItem desiredByKey)

end Lines

/-! ## The report -/

/-- The first key of the sort. -/
def DriftItem.sortKey (i : DriftItem) : String := i.kind.text ++ "|" ++ i.target

/-- The comparison of the sort is not positive. -/
def itemLe (a b : DriftItem) : Prop :=
  (a.sortKey = b.sortKey ∧ Js.le a.detail b.detail) ∨ ¬ Js.le b.sortKey a.sortKey

instance : DecidableRel itemLe := fun a b => inferInstanceAs (Decidable
  ((a.sortKey = b.sortKey ∧ Js.le a.detail b.detail) ∨ ¬ Js.le b.sortKey a.sortKey))

def sortItems (items : List DriftItem) : List DriftItem := items.insertionSort itemLe

/-- The items of a category, if the system was read. -/
def category {α : Type} (read : Option α) (diff : α → Except TypeError (List DriftItem)) :
    Except TypeError (List DriftItem) :=
  match read with
  | none => .ok []
  | some actual => diff actual

def checkedOf (actual : ActualState) : List DriftCategory :=
  (if actual.keycloakRoles.isSome then [.keycloakRoles] else []) ++
    (if actual.keycloakGroups.isSome then [.keycloakGroups] else []) ++
      if actual.pgGrants.isSome then [.pgGrants] else []

def diffState (toUpperCase : String → String) (desired : Artifacts) (actual : ActualState) :
    Except TypeError DriftReport := do
  let roles ← category actual.keycloakRoles fun rs => .ok (diffKeycloakRoles desired.keycloak rs)
  let groups ← category actual.keycloakGroups (diffKeycloakGroups desired.keycloak)
  let grants ← category actual.pgGrants fun ls =>
    .ok (diffPgGrants toUpperCase desired.pgddl ls)
  return { items := sortItems (roles ++ groups ++ grants), checked := checkedOf actual }

end Policy
