import Beluga.Py.Values

/-! # The decoder of `json`

`JSONDecoder.raw_decode` and `json.loads`. A text that is no JSON gives `none`; so does an escape of
half a surrogate pair, which stands for no character. -/

namespace Py

namespace Json

def isWs (c : Char) : Bool := c = ' ' || c = '\t' || c = '\n' || c = '\r'

def skipWs (cs : List Char) : List Char := cs.dropWhile isWs

/-! ## Strings -/

def shortEscape (c : Char) : Option Char :=
  [('"', '"'), ('\\', '\\'), ('/', '/'), ('b', '\x08'), ('f', '\x0c'), ('n', '\n'), ('r', '\r'),
    ('t', '\t')].lookup c

def hexDigit (c : Char) : Option ℕ :=
  if c.isDigit then some (c.toNat - 48)
  else if 'a' ≤ c ∧ c ≤ 'f' then some (c.toNat - 87)
  else if 'A' ≤ c ∧ c ≤ 'F' then some (c.toNat - 55)
  else none

/-- The number of four hexadecimal digits. -/
def hex4 (cs : List Char) : Option ℕ :=
  if cs.length < 4 then none
  else (cs.take 4).foldl (fun n c => n.bind fun n => (hexDigit c).map (16 * n + ·)) (some 0)

/-- What stands after `\u`. -/
def unicodeEscape (cs : List Char) : Option (Char × List Char) :=
  match hex4 cs with
  | none => none
  | some hi =>
      let rest := cs.drop 4
      if 0xd800 ≤ hi ∧ hi < 0xdc00 then
        if rest.take 2 = ['\\', 'u'] then
          match hex4 (rest.drop 2) with
          | none => none
          | some lo =>
              if 0xdc00 ≤ lo ∧ lo < 0xe000 then
                some (Char.ofNat (0x10000 + (hi - 0xd800) * 0x400 + (lo - 0xdc00)), rest.drop 6)
              else none
        else none
      else if 0xdc00 ≤ hi ∧ hi < 0xe000 then none
      else some (Char.ofNat hi, rest)

/-- What stands after a backslash. -/
def escape : List Char → Option (Char × List Char)
  | [] => none
  | c :: cs => if c = 'u' then unicodeEscape cs else (shortEscape c).map (·, cs)

/-- The letters up to the closing quote, and what follows it. -/
def scanLetters : ℕ → List Char → Option (List Char × List Char)
  | _, [] => none
  | 0, _ => none
  | n + 1, c :: cs =>
      if c = '"' then some ([], cs)
      else if c = '\\' then
        (escape cs).bind fun e => (scanLetters n e.2).map fun r => (e.1 :: r.1, r.2)
      else if c.toNat < 32 then none
      else (scanLetters n cs).map fun r => (c :: r.1, r.2)

def scanString (cs : List Char) : Option (String × List Char) :=
  (scanLetters cs.length cs).map fun r => (String.ofList r.1, r.2)

/-! ## Numbers and words -/

def natOf (ds : List Char) : ℕ := ds.foldl (fun n d => 10 * n + (d.toNat - 48)) 0

/-- Digits, where there are any. -/
def digits (cs : List Char) : List Char := cs.takeWhile Char.isDigit

def intDigits : List Char → List Char
  | '0' :: _ => ['0']
  | cs => digits cs

/-- The digits after the point. -/
def fraction : List Char → List Char
  | '.' :: cs => digits cs
  | _ => []

/-- The length of an exponent, and its value. -/
def exponent : List Char → ℕ × ℤ
  | c :: cs =>
      if c = 'e' ∨ c = 'E' then
        let sign := cs.take 1
        let signed : Bool := sign = ['+'] || sign = ['-']
        let ds := digits (if signed then cs.drop 1 else cs)
        if ds = [] then (0, 0)
        else (ds.length + (if signed then 2 else 1), if sign = ['-'] then -natOf ds else natOf ds)
      else (0, 0)
  | [] => (0, 0)

def signed (neg : Bool) (n : ℤ) : ℤ := if neg then -n else n

def scanNumber (cs : List Char) : Option (Value × List Char) :=
  let neg : Bool := cs.head? = some '-'
  let body := if neg then cs.drop 1 else cs
  let whole := intDigits body
  if whole = [] then none
  else
    let rest := body.drop whole.length
    let frac := fraction rest
    let rest' := if frac = [] then rest else rest.drop (frac.length + 1)
    let exp := exponent rest'
    if frac = [] ∧ exp.1 = 0 then some (.int (signed neg (natOf whole)), rest)
    else
      let q : ℚ := signed neg (natOf (whole ++ frac))
      some (.float (Js.toDouble (q * 10 ^ (exp.2 - frac.length))), rest'.drop exp.1)

def literals : List (List Char × Value) :=
  [("null".toList, .none), ("true".toList, .bool true), ("false".toList, .bool false),
    ("NaN".toList, .float .nan), ("Infinity".toList, .float .posInf),
    ("-Infinity".toList, .float .negInf)]

def scanAtom (cs : List Char) : Option (Value × List Char) :=
  match literals.find? fun word => word.1.isPrefixOf cs with
  | some word => some (word.2, cs.drop word.1.length)
  | none => scanNumber cs

/-! ## Values -/

/-- `d[key] = value`. -/
def setItem (d : Entries) (key : String) (value : Value) : Entries :=
  if (d.lookup key).isSome then d.map fun entry => if entry.1 = key then (key, value) else entry
  else d ++ [(key, value)]

/-- `dict(pairs)`. -/
def dictOfPairs (pairs : Entries) : Entries :=
  pairs.foldl (fun d pair => setItem d pair.1 pair.2) []

mutual
/-- `scan_once`, with enough fuel for the length of the text. -/
def scanOnce : ℕ → List Char → Option (Value × List Char)
  | 0, _ => none
  | _ + 1, [] => none
  | n + 1, c :: cs =>
      if c = '"' then (scanString cs).map fun r => (.str r.1, r.2)
      else if c = '\x7b' then
        if (skipWs cs).head? = some '\x7d' then some (.dict [], (skipWs cs).tail)
        else (scanMembers n (skipWs cs)).map fun r => (.dict (dictOfPairs r.1), r.2)
      else if c = '[' then
        if (skipWs cs).head? = some ']' then some (.list [], (skipWs cs).tail)
        else (scanItems n (skipWs cs)).map fun r => (.list r.1, r.2)
      else scanAtom (c :: cs)

/-- The items up to the closing bracket. -/
def scanItems : ℕ → List Char → Option (List Value × List Char)
  | 0, _ => none
  | n + 1, cs =>
      (scanOnce n cs).bind fun v =>
        let rest := skipWs v.2
        if rest.head? = some ']' then some ([v.1], rest.tail)
        else if rest.head? = some ',' then
          (scanItems n (skipWs rest.tail)).map fun r => (v.1 :: r.1, r.2)
        else none

/-- The members up to the closing brace. -/
def scanMembers : ℕ → List Char → Option (Entries × List Char)
  | 0, _ => none
  | n + 1, cs =>
      if cs.head? = some '"' then
        (scanString cs.tail).bind fun key =>
          let colon := skipWs key.2
          if colon.head? = some ':' then
            (scanOnce n (skipWs colon.tail)).bind fun v =>
              let rest := skipWs v.2
              if rest.head? = some '\x7d' then some ([(key.1, v.1)], rest.tail)
              else if rest.head? = some ',' then
                (scanMembers n (skipWs rest.tail)).map fun r => ((key.1, v.1) :: r.1, r.2)
              else none
          else none
      else none
end

/-- `JSONDecoder().raw_decode(text)`. -/
def rawDecode (cs : List Char) : Option (Value × List Char) := scanOnce (2 * cs.length + 2) cs

/-- `json.loads(text)`. -/
def loads (text : String) : Option Value :=
  (rawDecode (skipWs text.toList)).bind fun r => if skipWs r.2 = [] then some r.1 else none

end Json

end Py
