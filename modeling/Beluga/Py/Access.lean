import Beluga.Py.Dict
import Beluga.Py.Values

/-! # Reading values of Python

What `.get`, iteration, `in` and dict keys ask of a value, and the exceptions that they raise. -/

namespace Py

inductive Exn where
  /-- An exception of any other type. -/
  | raised
  /-- `ValueError(message)`. -/
  | invalid (message : String)
  deriving DecidableEq

abbrev Try (α : Type) : Type := Except Exn α

/-- The value, where `.get` is called on it. -/
def entries : Value → Try Entries
  | .dict d => .ok d
  | _ => .error .raised

/-- The items that `for x in value` goes through. -/
def iter : Value → Try (List Value)
  | .list items => .ok items
  | .str s => .ok (s.toList.map fun c => .str (String.singleton c))
  | .dict d => .ok (d.map fun entry => .str entry.1)
  | _ => .error .raised

/-- `value or default`. -/
def orElse (v default : Value) : Value := if v.truthy then v else default

/-- `value is b`. -/
def isBool (b : Bool) : Value → Bool
  | .bool c => c = b
  | _ => false

/-- A key of a dict or an element of a set has to be hashable. -/
def hashable : Value → Bool
  | .list _ => false
  | .dict _ => false
  | _ => true

def hashed (v : Value) : Try Value := if hashable v then .ok v else .error .raised

/-- `value in values`. -/
def contains (values : List Value) (v : Value) : Bool := values.any fun w => w.eq v

/-- `needle in text`. -/
def hasText (needle text : String) : Bool := decide (needle.toList <:+: text.toList)

/-- `needle in value`. -/
def inValue (needle : String) : Value → Try Bool
  | .list items => .ok (contains items (.str needle))
  | .str s => .ok (hasText needle s)
  | .dict d => .ok (d.any fun entry => entry.1 = needle)
  | _ => .error .raised

/-- `value.startswith(front)`. -/
def startsWith (front : String) : Value → Try Bool
  | .str s => .ok (front.toList.isPrefixOf s.toList)
  | _ => .error .raised

@[simp] theorem entries_ok {v : Value} {d : Entries} : entries v = .ok d ↔ v = .dict d := by
  cases v <;> simp [entries]

@[simp] theorem hashed_ok {v w : Value} : hashed v = .ok w ↔ hashable v = true ∧ v = w := by
  unfold hashed
  cases hashable v with
  | true => simp
  | false => simp

@[simp] theorem contains_str {values : List Value} {s : String} :
    contains values (.str s) = true ↔ .str s ∈ values := by
  unfold contains
  simp

theorem get_eq_iff {d : Entries} {key : String} {v : Value} (hv : v ≠ .none) :
    get d key = v ↔ d.lookup key = some v := by
  unfold Py.get getD
  cases d.lookup key with
  | none => simpa using hv.symm
  | some w => simp

theorem getD_eq_iff {d : Entries} {key : String} {default v : Value} (hv : v ≠ .none)
    (hdefault : default ≠ v) : getD d key default = v ↔ get d key = v := by
  rw [get_eq_iff hv]
  unfold getD
  cases d.lookup key with
  | none => simpa using hdefault
  | some w => simp

end Py
