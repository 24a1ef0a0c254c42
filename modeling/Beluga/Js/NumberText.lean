import Beluga.Js.Numbers

/-! # Numbers as text

`String(x)` of a number: the shortest decimal that is rounded to it, with an exponent where
the number is very large or very small. -/

namespace Js

/-- The decimal `s * 10 ^ (n - k)`, where `s` has `k` digits. -/
structure Decimal where
  s : ℕ
  k : ℕ
  n : ℤ
  deriving DecidableEq

def Decimal.value (d : Decimal) : ℚ := d.s * 10 ^ (d.n - d.k)

/-- Where the first digit of a positive number stands. -/
def decimalPoint (x : ℚ) : ℤ :=
  let e : ℤ := ((Nat.toDigits 10 x.num.natAbs).length : ℤ) - (Nat.toDigits 10 x.den).length
  if 10 ^ e ≤ x then e + 1 else e

/-- The decimals of `k` digits next to a positive number, below and above. -/
def neighbours (x : ℚ) (k : ℕ) : List Decimal :=
  let n := decimalPoint x
  let s := ⌊x / 10 ^ (n - k)⌋.toNat
  [⟨s, k, n⟩, if s + 1 = 10 ^ k then ⟨10 ^ (k - 1), k, n + 1⟩ else ⟨s + 1, k, n⟩]

/-- The decimal of `k` digits that stands for a double, the closest of two. -/
def decimalOf (x : ℚ) (k : ℕ) : Option Decimal :=
  match (neighbours x k).filter fun d => toDouble d.value = .fin x with
  | [a, b] =>
      if |a.value - x| < |b.value - x| then some a
      else if |b.value - x| < |a.value - x| then some b
      else if a.s % 2 = 0 then some a else some b
  | [a] => some a
  | _ => none

/-- With as few digits as possible; 17 are always enough. -/
def shortestDecimal (x : ℚ) : Option Decimal :=
  (List.range 17).findSome? fun i => decimalOf x (i + 1)

def zeros (count : ℤ) : String := String.ofList (List.replicate count.toNat '0')

def Decimal.text (d : Decimal) : String :=
  let digits := Nat.toDigits 10 d.s
  if d.k ≤ d.n ∧ d.n ≤ 21 then String.ofList digits ++ zeros (d.n - d.k)
  else if 0 < d.n ∧ d.n ≤ 21 then
    String.ofList (digits.take d.n.toNat) ++ "." ++ String.ofList (digits.drop d.n.toNat)
  else if -6 < d.n ∧ d.n ≤ 0 then "0." ++ zeros (-d.n) ++ String.ofList digits
  else
    let e := d.n - 1
    let exponent := (if e < 0 then "-" else "+") ++ toString e.natAbs
    if d.k = 1 then String.ofList digits ++ "e" ++ exponent
    else String.ofList (digits.take 1) ++ "." ++ String.ofList (digits.drop 1) ++ "e" ++ exponent

def positiveText (x : ℚ) : String := ((shortestDecimal x).map Decimal.text).getD ""

/-- `String(x)`. -/
def Num.toText : Num → String
  | nan => "NaN"
  | negInf => "-Infinity"
  | posInf => "Infinity"
  | fin q =>
      if q = 0 then "0" else if q < 0 then "-" ++ positiveText (-q) else positiveText q

end Js
