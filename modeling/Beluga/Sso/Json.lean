import Mathlib.Data.List.Basic

/-! # JSON values

The values GitHub answers with and the `detail` column of the audit events
holds, with the accessors of `githubApp.ts`. `none` stands for JavaScript's
`undefined`. Numbers are the integers: every number the code reads is a pull
request number.
-/

namespace Sso

inductive Json where
  | null
  | bool (b : Bool)
  | num (n : Int)
  | str (s : String)
  | arr (items : List Json)
  | obj (fields : List (String × Json))

namespace Json

/-- `field(json, key)`: the member of an object, `undefined` on anything else. -/
def field : Option Json → String → Option Json
  | some (.obj fields), key => (fields.find? fun kv => kv.1 == key).map (·.2)
  | _, _ => none

/-- The value when `typeof value === "string"`. -/
def asString : Option Json → Option String
  | some (.str s) => some s
  | _ => none

/-- The value when `typeof value === "number"`. -/
def asNumber : Option Json → Option Int
  | some (.num n) => some n
  | _ => none

/-- The items when `Array.isArray(value)`. -/
def asArray : Option Json → Option (List Json)
  | some (.arr items) => some items
  | _ => none

mutual
/-- `String(value)`. -/
def text : Json → String
  | .null => "null"
  | .bool b => if b then "true" else "false"
  | .num n => toString n
  | .str s => s
  | .arr items => ",".intercalate (itemTexts items)
  | .obj _ => "[object Object]"

/-- The items of an array, as `Array.prototype.join` shows them. -/
def itemTexts : List Json → List String
  | [] => []
  | .null :: rest => "" :: itemTexts rest
  | item :: rest => text item :: itemTexts rest
end

/-- `String(value ?? "")`. -/
def textOrEmpty : Option Json → String
  | none => ""
  | some .null => ""
  | some v => text v

/-- An object of strings, as the `detail` columns hold them. -/
def ofStrings (fields : List (String × String)) : Json :=
  .obj (fields.map fun kv => (kv.1, .str kv.2))

@[simp] theorem field_obj (fields : List (String × Json)) (key : String) :
    field (some (.obj fields)) key = (fields.find? fun kv => kv.1 == key).map (·.2) := rfl

@[simp] theorem field_none (key : String) : field none key = none := rfl

end Json

end Sso
