import Beluga.Js.NumberText

/-! # Values that `JSON.parse` returns

Members, truth and texts of values. `none` stands for `undefined`. An object has each key once; what
a key that it does not have inherits is left out. -/

namespace Js

inductive Value where
  | null
  | bool (b : Bool)
  | num (x : Num)
  | str (s : String)
  | arr (items : List Value)
  | obj (fields : List (String × Value))

/-- What is thrown where a value has no such operation. -/
inductive Thrown where
  | typeError
  deriving DecidableEq

abbrev Try (α : Type) : Type := Except Thrown α

namespace Value

/-- The member of an object. -/
def member (key : String) : Value → Option Value
  | .obj fields => fields.lookup key
  | _ => none

/-- `value.key`. -/
def get (key : String) : Value → Try (Option Value)
  | .null => .error .typeError
  | v => .ok (v.member key)

/-- `Boolean(value)`. -/
def truthy : Value → Bool
  | .null => false
  | .bool b => b
  | .num x => x ≠ .nan && x ≠ .fin 0
  | .str s => s ≠ ""
  | .arr _ => true
  | .obj _ => true

/-- `typeof value === "object" && value !== null`. -/
def isObject : Value → Bool
  | .arr _ => true
  | .obj _ => true
  | _ => false

mutual
/-- `String(value)`: no member of a JSON value can be called. -/
def text : Value → Try String
  | .null => .ok "null"
  | .bool b => .ok (if b then "true" else "false")
  | .num x => .ok x.toText
  | .str s => .ok s
  | .arr items => do
      let texts ← itemTexts items
      .ok (",".intercalate texts)
  | .obj fields => if (fields.lookup "toString").isSome then .error .typeError else .ok "[object Object]"

/-- The texts that `items.join(separator)` puts together. -/
def itemTexts : List Value → Try (List String)
  | [] => .ok []
  | .null :: rest => do
      let texts ← itemTexts rest
      .ok ("" :: texts)
  | item :: rest => do
      let head ← text item
      let texts ← itemTexts rest
      .ok (head :: texts)
end

/-- `items.join(separator)`. -/
def join (separator : String) (items : List Value) : Try String := do
  let texts ← itemTexts items
  .ok (separator.intercalate texts)

/-- `Object.entries(value)`. -/
def entries : Value → List (String × Value)
  | .obj fields => fields
  | .arr items => items.zipIdx.map fun item => (toString item.2, item.1)
  | .str s => s.toList.zipIdx.map fun item => (toString item.2, .str (String.singleton item.1))
  | _ => []

end Value

/-- `value || default`. -/
def orElse (v : Option Value) (default : Value) : Value :=
  match v with
  | some v => if v.truthy then v else default
  | none => default

end Js
