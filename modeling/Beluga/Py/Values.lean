import Beluga.Js.Numbers

/-! # Values of Python, as `json.loads` returns them

Truth, equality and texts of values, and the entries of a dict in any order. How a string
is quoted and how a float is written are parameters. -/

namespace Py

inductive Value where
  | none
  | bool (b : Bool)
  | int (n : ℤ)
  | float (x : Js.Num)
  | str (s : String)
  | list (items : List Value)
  | dict (entries : List (String × Value))

abbrev Entries := List (String × Value)

/-- `d.get(key, default)`. -/
def getD (d : Entries) (key : String) (default : Value) : Value := (d.lookup key).getD default

/-- `d.get(key)`. -/
def get (d : Entries) (key : String) : Value := getD d key .none

/-- `bool(value)`. -/
def Value.truthy : Value → Bool
  | .none => false
  | .bool b => b
  | .int n => n ≠ 0
  | .float x => x ≠ .fin 0
  | .str s => s ≠ ""
  | .list items => !items.isEmpty
  | .dict entries => !entries.isEmpty

/-- `type(value).__name__`. -/
def Value.typeName : Value → String
  | .none => "NoneType"
  | .bool _ => "bool"
  | .int _ => "int"
  | .float _ => "float"
  | .str _ => "str"
  | .list _ => "list"
  | .dict _ => "dict"

/-! ## Equality -/

/-- The number that a value is equal to. -/
def Value.number : Value → Option Js.Num
  | .bool b => some (.fin (if b then 1 else 0))
  | .int n => some (.fin n)
  | .float x => some x
  | _ => Option.none

def sameNumber : Option Js.Num → Option Js.Num → Bool
  | some a, some b => a = b && a ≠ .nan
  | _, _ => false

mutual
/-- `v == w`. -/
def Value.eq : Value → Value → Bool
  | .none, w => match w with
      | .none => true
      | _ => false
  | .str s, w => match w with
      | .str t => s = t
      | _ => false
  | .list xs, w => match w with
      | .list ys => eqList xs ys
      | _ => false
  | .dict xs, w => match w with
      | .dict ys => xs.length = ys.length && eqEntries xs ys
      | _ => false
  | .bool b, w => sameNumber (Value.bool b).number w.number
  | .int n, w => sameNumber (Value.int n).number w.number
  | .float x, w => sameNumber (Value.float x).number w.number

def eqList : List Value → List Value → Bool
  | [], ys => ys.isEmpty
  | x :: xs, ys => match ys with
      | [] => false
      | y :: ys => x.eq y && eqList xs ys

/-- Each entry has an equal one under its key. -/
def eqEntries : List (String × Value) → List (String × Value) → Bool
  | [], _ => true
  | (key, v) :: rest, ys =>
      (match ys.lookup key with
      | Option.none => false
      | some w => v.eq w) && eqEntries rest ys
end

@[simp] theorem none_eq {v : Value} : Value.eq .none v = true ↔ v = .none := by
  constructor
  · intro h
    cases v with
    | none => rfl
    | _ => cases h
  · rintro rfl
    rfl

@[simp] theorem str_eq {s : String} {v : Value} : Value.eq (.str s) v = true ↔ v = .str s := by
  constructor
  · intro h
    cases v with
    | str t => exact congrArg Value.str (of_decide_eq_true h).symm
    | _ => cases h
  · rintro rfl
    exact decide_eq_true rfl

@[simp] theorem eq_none {v : Value} : v.eq .none = true ↔ v = .none := by
  constructor
  · intro h
    cases v with
    | none => rfl
    | _ => cases h
  · rintro rfl
    rfl

@[simp] theorem eq_str {s : String} {v : Value} : v.eq (.str s) = true ↔ v = .str s := by
  constructor
  · intro h
    cases v with
    | str t => exact congrArg Value.str (of_decide_eq_true h)
    | _ => cases h
  · rintro rfl
    exact decide_eq_true rfl

/-! ## Texts -/

/-- How strings are quoted and floats written. -/
structure Text where
  quote : String → String
  float : Js.Num → String
  /-- A sign, a digit, or the first letter of `nan` or `inf`. -/
  float_head : ∀ x, ∃ c ∈ (float x).toList.head?, c.isDigit = true ∨ c ∈ ['-', 'n', 'i']

theorem float_head_zero (_ : Js.Num) :
    ∃ c ∈ "0.0".toList.head?, c.isDigit = true ∨ c ∈ ['-', 'n', 'i'] :=
  ⟨'0', by simp, .inl (by decide)⟩

section Text

variable (py : Text)

mutual
/-- `repr(value)`. -/
def Value.repr : Value → String
  | .none => "None"
  | .bool b => if b then "True" else "False"
  | .int n => toString n
  | .float x => py.float x
  | .str s => py.quote s
  | .list items => "[" ++ ", ".intercalate (reprItems items) ++ "]"
  | .dict entries => "\x7b" ++ ", ".intercalate (reprEntries entries) ++ "\x7d"

def reprItems : List Value → List String
  | [] => []
  | v :: rest => v.repr :: reprItems rest

def reprEntries : List (String × Value) → List String
  | [] => []
  | (key, v) :: rest => (py.quote key ++ ": " ++ v.repr) :: reprEntries rest
end

/-- `str(value)`. -/
def Value.text : Value → String
  | .str s => s
  | v => v.repr py

/-- What the text of a value begins with that is not a string. -/
def textHead (c : Char) : Bool := c.isDigit || c ∈ ['-', 'n', 'i', 'N', 'T', 'F', '[', '\x7b']

theorem int_head (n : ℤ) : ∃ c ∈ (toString n).toList.head?, textHead c = true := by
  cases n with
  | ofNat n =>
      show ∃ c ∈ n.repr.toList.head?, textHead c = true
      rw [Nat.toList_repr]
      obtain ⟨c, cs, hcs⟩ := List.exists_cons_of_ne_nil (@Nat.toDigits_ne_nil n 10)
      have hdigit : c.isDigit = true := Nat.isDigit_of_mem_toDigits (by decide) (by decide)
        (hcs ▸ List.mem_cons_self : c ∈ Nat.toDigits 10 n)
      rw [hcs]
      exact ⟨c, rfl, by rw [textHead, hdigit]; rfl⟩
  | negSucc n =>
      refine ⟨'-', ?_, by decide⟩
      show '-' ∈ ("-" ++ (n + 1).repr).toList.head?
      rw [String.toList_append]
      rfl

theorem repr_head {v : Value} (h : ∀ s, v ≠ .str s) :
    ∃ c ∈ (v.repr py).toList.head?, textHead c = true := by
  have happend : ∀ (c : Char) (a b : String), c ∈ a.toList.head? → c ∈ (a ++ b).toList.head? := by
    intro c a b hc
    rw [String.toList_append, List.head?_append, Option.mem_def.mp hc]
    rfl
  cases v with
  | none => exact ⟨'N', (by decide : 'N' ∈ "None".toList.head?), by decide⟩
  | bool b =>
      cases b with
      | true => exact ⟨'T', (by decide : 'T' ∈ "True".toList.head?), by decide⟩
      | false => exact ⟨'F', (by decide : 'F' ∈ "False".toList.head?), by decide⟩
  | int n => exact int_head n
  | float x =>
      obtain ⟨c, hc, hhead⟩ := py.float_head x
      refine ⟨c, hc, ?_⟩
      rcases hhead with hdigit | hmem
      · rw [textHead, hdigit]
        rfl
      · simp only [List.mem_cons, List.not_mem_nil, or_false] at hmem
        rcases hmem with rfl | rfl | rfl
        · rfl
        · rfl
        · rfl
  | str s => exact absurd rfl (h s)
  | list items => exact ⟨'[', happend _ _ _ (happend _ _ _ (by decide)), by decide⟩
  | dict entries => exact ⟨'\x7b', happend _ _ _ (happend _ _ _ (by decide)), by decide⟩

/-- A text that begins otherwise is that of a string only. -/
theorem text_eq_iff {v : Value} {s : String} {c : Char} (hc : c ∈ s.toList.head?)
    (hhead : textHead c = false) : v.text py = s ↔ v = .str s := by
  constructor
  · intro h
    by_cases hstr : ∃ t, v = .str t
    · obtain ⟨t, rfl⟩ := hstr
      exact congrArg Value.str h
    · have hnot : ∀ t, v ≠ .str t := fun t ht => hstr ⟨t, ht⟩
      have htext : v.text py = v.repr py := by
        cases v with
        | str t => exact absurd rfl (hnot t)
        | _ => rfl
      obtain ⟨d, hd, htrue⟩ := repr_head py hnot
      rw [← htext, h] at hd
      rw [Option.mem_unique hc hd] at hhead
      rw [htrue] at hhead
      cases hhead
  · rintro rfl
    rfl

end Text

end Py
