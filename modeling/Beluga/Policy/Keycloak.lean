import Beluga.Policy.Schema

/-! # The Keycloak specification

`compileKeycloak` of `compiler/keycloak.ts`: inheritance as composite roles, with
the direct parents only.
-/

namespace Policy

structure KeycloakRole where
  name : String
  composite : Bool
  composites : List String
  deriving DecidableEq, Repr

structure KeycloakGroup where
  name : String
  realmRoles : List String
  deriving DecidableEq, Repr

structure KeycloakSpec where
  realmRoles : List KeycloakRole
  groups : List KeycloakGroup
  deriving DecidableEq, Repr

def keycloakRole (r : Role) : KeycloakRole where
  name := r.name
  composite := 0 < r.parents.length
  composites := Js.sort r.parents

def keycloakGroup (g : Group) : KeycloakGroup where
  name := g.name
  realmRoles := Js.sort g.roles

def compileKeycloak (d : Declaration) : KeycloakSpec where
  realmRoles := Js.sortOn KeycloakRole.name (d.roles.map keycloakRole)
  groups := Js.sortOn KeycloakGroup.name (d.groups.map keycloakGroup)

/-- The composites that a role of the specification has. -/
def KeycloakSpec.compositesOf (spec : KeycloakSpec) (name : String) : List String :=
  (spec.realmRoles.filter fun r => r.name = name).flatMap (·.composites)

end Policy
