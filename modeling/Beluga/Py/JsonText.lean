import Beluga.Py.Json
import Mathlib.Data.List.Nodup
import Mathlib.Tactic.Common

/-! # Values written as JSON

`json.dumps(value, ensure_ascii=False, sort_keys=True, indent=2)`, and that the decoder reads it back:

* `scan_write`: the decoder of a written value;
* `loads_dumps`: a text gives the value with its keys sorted.
-/

namespace Py

namespace Json

/-! ## Letters -/

/-- A hexadecimal digit. -/
def hexChar (n : ℕ) : Char := Char.ofNat (if n < 10 then 48 + n else 87 + n)

/-- A letter within quotes. -/
def escaped (c : Char) : List Char :=
  if c = '"' then ['\\', '"']
  else if c = '\\' then ['\\', '\\']
  else if c = '\n' then ['\\', 'n']
  else if c = '\r' then ['\\', 'r']
  else if c = '\t' then ['\\', 't']
  else if c = '\x0c' then ['\\', 'f']
  else if c = '\x08' then ['\\', 'b']
  else if c.toNat < 32 then ['\\', 'u', '0', '0', hexChar (c.toNat / 16), hexChar (c.toNat % 16)]
  else [c]

/-- The letters of a string and the closing quote. -/
def quotedEnd : List Char → List Char
  | [] => ['"']
  | c :: cs => escaped c ++ quotedEnd cs

/-! ## Values -/

/-- A new line with the white space of its level. -/
def newline (level : ℕ) : List Char := '\n' :: List.replicate (2 * level) ' '

section Write

variable (py : Text)

def floatText : Js.Num → List Char
  | .nan => "NaN".toList
  | .posInf => "Infinity".toList
  | .negInf => "-Infinity".toList
  | .fin q => (py.float (.fin q)).toList

mutual
def write (level : ℕ) : Value → List Char
  | .none => "null".toList
  | .bool b => if b then "true".toList else "false".toList
  | .int n => (toString n).toList
  | .float x => floatText py x
  | .str s => '"' :: quotedEnd s.toList
  | .list [] => ['[', ']']
  | .list (v :: vs) =>
      '[' :: (newline (level + 1) ++ (write (level + 1) v ++ writeItems level vs))
  | .dict [] => ['\x7b', '\x7d']
  | .dict ((key, v) :: rest) =>
      '\x7b' :: (newline (level + 1) ++ ('"' :: (quotedEnd key.toList ++ (':' :: ' ' ::
        (write (level + 1) v ++ writeMembers level rest)))))

/-- The other items, and the closing bracket. -/
def writeItems (level : ℕ) : List Value → List Char
  | [] => newline level ++ [']']
  | v :: vs => ',' :: (newline (level + 1) ++ (write (level + 1) v ++ writeItems level vs))

/-- The other members, and the closing brace. -/
def writeMembers (level : ℕ) : List (String × Value) → List Char
  | [] => newline level ++ ['\x7d']
  | (key, v) :: rest =>
      ',' :: (newline (level + 1) ++ ('"' :: (quotedEnd key.toList ++ (':' :: ' ' ::
        (write (level + 1) v ++ writeMembers level rest)))))
end

end Write

/-- `sorted` of the items of a dict, where one more is put in. -/
def insertEntry (entry : String × Value) : Entries → Entries
  | [] => [entry]
  | other :: rest =>
      if entry.1 ≤ other.1 then entry :: other :: rest else other :: insertEntry entry rest

mutual
/-- The value with the keys of each dict in order. -/
def sortKeys : Value → Value
  | .none => .none
  | .bool b => .bool b
  | .int n => .int n
  | .float x => .float x
  | .str s => .str s
  | .list vs => .list (sortItems vs)
  | .dict es => .dict (sortEntries es)

def sortItems : List Value → List Value
  | [] => []
  | v :: vs => sortKeys v :: sortItems vs

def sortEntries : List (String × Value) → List (String × Value)
  | [] => []
  | (key, v) :: rest => insertEntry (key, sortKeys v) (sortEntries rest)
end

/-- `json.dumps(value, ensure_ascii=False, sort_keys=True, indent=2)`. -/
def dumps (py : Text) (v : Value) : String := String.ofList (write py 0 (sortKeys v))

/-! ## Strings are read back -/

/-- What may follow a number. -/
def Ends (rest : List Char) : Prop :=
  ∀ c ∈ rest.head?, c.isDigit = false ∧ c ≠ '.' ∧ c ≠ 'e' ∧ c ≠ 'E'

theorem hexDigit_hexChar : ∀ n, n < 16 → hexDigit (hexChar n) = some n := by decide

theorem hex4_low (n : ℕ) (hn : n < 32) (cs : List Char) :
    hex4 ('0' :: '0' :: hexChar (n / 16) :: hexChar (n % 16) :: cs) = some n := by
  have hhi := hexDigit_hexChar (n / 16) (by omega)
  have hlo := hexDigit_hexChar (n % 16) (by omega)
  have hzero : hexDigit '0' = some 0 := by decide
  unfold hex4
  rw [if_neg (by simp)]
  simp [hhi, hlo, hzero]
  omega

theorem scanLetters_escaped (c : Char) (cs : List Char) (n : ℕ) :
    scanLetters (n + 1) (escaped c ++ cs) = (scanLetters n cs).map fun r => (c :: r.1, r.2) := by
  have hshort : ∀ d : Char, d ≠ 'u' → shortEscape d = some c →
      scanLetters (n + 1) (['\\', d] ++ cs) = (scanLetters n cs).map fun r => (c :: r.1, r.2) := by
    intro d hd hc
    simp [scanLetters, escape, hd, hc]
  unfold escaped
  by_cases h₁ : c = '"'
  · rw [if_pos h₁]
    exact hshort '"' (by decide) (by rw [h₁]; rfl)
  by_cases h₂ : c = '\\'
  · rw [if_neg h₁, if_pos h₂]
    exact hshort '\\' (by decide) (by rw [h₂]; rfl)
  by_cases h₃ : c = '\n'
  · rw [if_neg h₁, if_neg h₂, if_pos h₃]
    exact hshort 'n' (by decide) (by rw [h₃]; rfl)
  by_cases h₄ : c = '\r'
  · rw [if_neg h₁, if_neg h₂, if_neg h₃, if_pos h₄]
    exact hshort 'r' (by decide) (by rw [h₄]; rfl)
  by_cases h₅ : c = '\t'
  · rw [if_neg h₁, if_neg h₂, if_neg h₃, if_neg h₄, if_pos h₅]
    exact hshort 't' (by decide) (by rw [h₅]; rfl)
  by_cases h₆ : c = '\x0c'
  · rw [if_neg h₁, if_neg h₂, if_neg h₃, if_neg h₄, if_neg h₅, if_pos h₆]
    exact hshort 'f' (by decide) (by rw [h₆]; rfl)
  by_cases h₇ : c = '\x08'
  · rw [if_neg h₁, if_neg h₂, if_neg h₃, if_neg h₄, if_neg h₅, if_neg h₆, if_pos h₇]
    exact hshort 'b' (by decide) (by rw [h₇]; rfl)
  rw [if_neg h₁, if_neg h₂, if_neg h₃, if_neg h₄, if_neg h₅, if_neg h₆, if_neg h₇]
  by_cases hlow : c.toNat < 32
  · rw [if_pos hlow]
    have hvalue : Char.ofNat c.toNat = c := Char.ofNat_toNat c
    have hhigh : ¬(55296 ≤ c.toNat ∧ c.toNat < 56320) := by omega
    have hpair : ¬(56320 ≤ c.toNat ∧ c.toNat < 57344) := by omega
    simp [scanLetters, escape, unicodeEscape, hex4_low c.toNat hlow, hvalue, hhigh, hpair]
  · rw [if_neg hlow]
    simp [scanLetters, h₁, h₂, hlow]

theorem escaped_ne_nil (c : Char) : 1 ≤ (escaped c).length := by
  unfold escaped
  split_ifs <;> simp

theorem scanLetters_quoted (cs rest : List Char) {n : ℕ} (hn : cs.length < n) :
    scanLetters n (quotedEnd cs ++ rest) = some (cs, rest) := by
  induction cs generalizing n with
  | nil =>
      rcases Nat.exists_eq_succ_of_ne_zero (Nat.ne_of_gt hn) with ⟨m, rfl⟩
      simp [quotedEnd, scanLetters]
  | cons c cs ih =>
      rcases Nat.exists_eq_succ_of_ne_zero (Nat.ne_of_gt (Nat.lt_of_le_of_lt (Nat.zero_le _) hn))
        with ⟨m, rfl⟩
      rw [quotedEnd, List.append_assoc, scanLetters_escaped,
        ih (by rw [List.length_cons] at hn; omega)]
      rfl

theorem length_quotedEnd (cs : List Char) : cs.length < (quotedEnd cs).length := by
  induction cs with
  | nil => simp [quotedEnd]
  | cons c cs ih =>
      have hc := escaped_ne_nil c
      rw [quotedEnd, List.length_append, List.length_cons]
      omega

theorem scanString_quoted (s : String) (rest : List Char) :
    scanString (quotedEnd s.toList ++ rest) = some (s, rest) := by
  have hlength := length_quotedEnd s.toList
  rw [scanString, scanLetters_quoted s.toList rest (by rw [List.length_append]; omega)]
  simp

/-! ## Numbers are read back -/

theorem natOf_toDigits (n : ℕ) : natOf (Nat.toDigits 10 n) = n := by
  have hdigits := @Nat.ofDigitChars_ten_toDigits n
  rw [Nat.ofDigitChars_eq_foldl] at hdigits
  exact hdigits

theorem isDigit_toDigits {n : ℕ} {c : Char} (hc : c ∈ Nat.toDigits 10 n) : c.isDigit = true :=
  Nat.isDigit_of_mem_toDigits (by decide) (by decide) hc

theorem digits_append {ds rest : List Char} (hds : ∀ c ∈ ds, c.isDigit = true)
    (hrest : ∀ c ∈ rest.head?, c.isDigit = false) : digits (ds ++ rest) = ds := by
  unfold digits
  rw [List.takeWhile_append_of_pos hds]
  cases rest with
  | nil => simp
  | cons c rest =>
      rw [List.takeWhile_cons_of_neg (by simp [hrest c rfl]), List.append_nil]

/-- No digit is zero where the number begins, but for zero itself. -/
theorem toDigits_head {n : ℕ} (hn : 0 < n) : '0' ∉ (Nat.toDigits 10 n).head? := by
  induction n using Nat.strongRecOn with
  | ind n ih =>
      by_cases hlt : n < 10
      · rw [Nat.toDigits_of_lt_base hlt]
        have hall : ∀ m, m < 10 → 0 < m → '0' ∉ [m.digitChar].head? := by decide
        exact hall n hlt hn
      · rw [Nat.toDigits_of_base_le (by omega) (by omega), List.head?_append_of_ne_nil _
          Nat.toDigits_ne_nil]
        exact ih (n / 10) (by omega) (by omega)

theorem intDigits_toDigits (n : ℕ) {rest : List Char} (hrest : ∀ c ∈ rest.head?, c.isDigit = false) :
    intDigits (Nat.toDigits 10 n ++ rest) = Nat.toDigits 10 n := by
  have hdigits := digits_append (fun c hc => isDigit_toDigits (n := n) hc) hrest
  by_cases hn : n = 0
  · subst hn
    rfl
  · have hhead := toDigits_head (Nat.pos_of_ne_zero hn)
    rcases List.exists_cons_of_ne_nil (Nat.toDigits_ne_nil (n := n) (b := 10)) with ⟨c, cs, hcs⟩
    rw [hcs] at hhead hdigits ⊢
    have hc : c ≠ '0' := by
      intro h
      exact hhead (by rw [h]; rfl)
    rw [List.cons_append, intDigits.eq_2 _ (by
      intro tail h
      exact hc (List.cons.inj h).1)]
    exact hdigits

theorem fraction_ends {rest : List Char} (h : Ends rest) : fraction rest = [] := by
  cases rest with
  | nil => rfl
  | cons c rest =>
      have hc := (h c rfl).2.1
      rw [fraction.eq_2 _ (by
        intro tail heq
        exact hc (List.cons.inj heq).1)]

theorem exponent_ends {rest : List Char} (h : Ends rest) : exponent rest = (0, 0) := by
  cases rest with
  | nil => rfl
  | cons c rest =>
      have hc := (h c rfl).2.2
      rw [exponent, if_neg (by simp [hc.1, hc.2])]

theorem scanNumber_int (neg : Bool) (n : ℕ) {rest : List Char} (h : Ends rest) :
    scanNumber ((if neg then ['-'] else []) ++ (Nat.toDigits 10 n ++ rest)) =
      some (.int (signed neg n), rest) := by
  have hwhole := intDigits_toDigits n (fun c hc => (h c hc).1)
  have hnil : Nat.toDigits 10 n ≠ [] := Nat.toDigits_ne_nil
  have hfirst : (Nat.toDigits 10 n).head? ≠ some '-' := by
    intro heq
    have hc := isDigit_toDigits (List.mem_of_mem_head? heq)
    exact absurd hc (by decide)
  cases neg with
  | false =>
      simp [scanNumber, hfirst, hwhole, hnil, fraction_ends h, exponent_ends h, natOf_toDigits]
  | true =>
      simp [scanNumber, hwhole, hnil, fraction_ends h, exponent_ends h, natOf_toDigits]

/-- No word begins like a number. -/
theorem scanAtom_int (n : ℤ) {rest : List Char} (h : Ends rest) :
    scanAtom ((toString n).toList ++ rest) = some (.int n, rest) := by
  have hwords : ∀ (neg : Bool) (m : ℕ), (literals.find? fun word =>
      word.1.isPrefixOf ((if neg then ['-'] else []) ++ (Nat.toDigits 10 m ++ rest))) = none := by
    intro neg m
    rcases List.exists_cons_of_ne_nil (Nat.toDigits_ne_nil (n := m) (b := 10)) with ⟨c, cs, hcs⟩
    have hc : c.isDigit = true := isDigit_toDigits (n := m) (by rw [hcs]; exact List.mem_cons_self)
    have hne : ∀ d : Char, d.isDigit = false → (d == c) = false := by
      intro d hd
      rw [beq_eq_false_iff_ne]
      intro heq
      rw [heq, hc] at hd
      cases hd
    have hn := hne 'n' (by decide)
    have ht := hne 't' (by decide)
    have hf := hne 'f' (by decide)
    have hN := hne 'N' (by decide)
    have hI := hne 'I' (by decide)
    have hminus := hne '-' (by decide)
    rw [hcs]
    cases neg with
    | false => simp [literals, List.isPrefixOf, hn, ht, hf, hN, hI, hminus]
    | true => simp [literals, List.isPrefixOf, hI]
  have hscan : ∀ (neg : Bool) (m : ℕ),
      scanAtom ((if neg then ['-'] else []) ++ (Nat.toDigits 10 m ++ rest)) =
        some (.int (signed neg m), rest) := by
    intro neg m
    rw [scanAtom, hwords neg m]
    exact scanNumber_int neg m h
  cases n with
  | ofNat m =>
      have htext : (toString (Int.ofNat m)).toList = Nat.toDigits 10 m := by
        exact Nat.toList_repr
      rw [htext]
      exact hscan false m
  | negSucc m =>
      have htext : (toString (Int.negSucc m)).toList = ['-'] ++ Nat.toDigits 10 (m + 1) := by
        rw [← Nat.toList_repr]
        exact String.toList_append
      rw [htext, List.append_assoc]
      exact hscan true (m + 1)

/-! ## Values are read back -/

/-- The decoder reads the text of a float as the float. -/
def FloatRead (py : Text) (x : Js.Num) : Prop :=
  ∀ (n : ℕ) (rest : List Char), Ends rest →
    scanOnce (n + 1) (floatText py x ++ rest) = some (.float x, rest)

/-- A value with each key once in its dicts. -/
inductive Writable (py : Text) : Value → Prop where
  | none : Writable py .none
  | bool (b : Bool) : Writable py (.bool b)
  | int (n : ℤ) : Writable py (.int n)
  | float {x : Js.Num} (h : FloatRead py x) : Writable py (.float x)
  | str (s : String) : Writable py (.str s)
  | list {vs : List Value} (h : ∀ v ∈ vs, Writable py v) : Writable py (.list vs)
  | dict {es : Entries} (hkeys : (es.map Prod.fst).Nodup) (h : ∀ e ∈ es, Writable py e.2) :
      Writable py (.dict es)

section Written

variable (py : Text) (level : ℕ)

theorem write_list (v : Value) (vs : List Value) : write py level (.list (v :: vs)) =
    '[' :: (newline (level + 1) ++ (write py (level + 1) v ++ writeItems py level vs)) := rfl

theorem write_dict (key : String) (v : Value) (es : Entries) :
    write py level (.dict ((key, v) :: es)) =
      '\x7b' :: (newline (level + 1) ++ ('"' :: (quotedEnd key.toList ++ (':' :: ' ' ::
        (write py (level + 1) v ++ writeMembers py level es))))) := rfl

theorem writeItems_nil : writeItems py level [] = newline level ++ [']'] := rfl

theorem writeItems_cons (v : Value) (vs : List Value) : writeItems py level (v :: vs) =
    ',' :: (newline (level + 1) ++ (write py (level + 1) v ++ writeItems py level vs)) := rfl

theorem writeMembers_nil : writeMembers py level [] = newline level ++ ['\x7d'] := rfl

theorem writeMembers_cons (key : String) (v : Value) (es : Entries) :
    writeMembers py level ((key, v) :: es) =
      ',' :: (newline (level + 1) ++ ('"' :: (quotedEnd key.toList ++ (':' :: ' ' ::
        (write py (level + 1) v ++ writeMembers py level es))))) := rfl

end Written

theorem skipWs_newline (level : ℕ) (cs : List Char) : skipWs (newline level ++ cs) = skipWs cs := by
  refine List.dropWhile_append_of_pos fun c hc => ?_
  rcases List.mem_cons.mp hc with rfl | hc
  · rfl
  · rw [List.eq_of_mem_replicate hc]
    rfl

theorem skipWs_cons {c : Char} (hc : isWs c = false) (cs : List Char) :
    skipWs (c :: cs) = c :: cs := List.dropWhile_cons_of_neg (by simp [hc])

section RoundTrip

variable {py : Text}

theorem digit_visible {c : Char} (hc : c.isDigit = true) : isWs c = false ∧ c ≠ ']' := by
  constructor
  · unfold isWs
    rw [Bool.or_eq_false_iff, Bool.or_eq_false_iff, Bool.or_eq_false_iff, decide_eq_false_iff_not,
      decide_eq_false_iff_not, decide_eq_false_iff_not, decide_eq_false_iff_not]
    refine ⟨⟨⟨?_, ?_⟩, ?_⟩, ?_⟩
    all_goals
      intro h
      rw [h] at hc
      exact absurd hc (by decide)
  · intro h
    rw [h] at hc
    exact absurd hc (by decide)

/-- A written value begins with a letter that is no white space. -/
theorem write_cons (py : Text) (level : ℕ) (v : Value) :
    ∃ c cs, write py level v = c :: cs ∧ isWs c = false ∧ c ≠ ']' := by
  have hdigits : ∀ n : ℕ, ∃ c cs, Nat.toDigits 10 n = c :: cs ∧ isWs c = false ∧ c ≠ ']' := by
    intro n
    rcases List.exists_cons_of_ne_nil (Nat.toDigits_ne_nil (n := n) (b := 10)) with ⟨c, cs, hcs⟩
    have hc : c.isDigit = true := isDigit_toDigits (n := n) (by rw [hcs]; exact List.mem_cons_self)
    exact ⟨c, cs, hcs, digit_visible hc⟩
  cases v with
  | none => exact ⟨'n', _, rfl, by decide⟩
  | bool b =>
      cases b with
      | false => exact ⟨'f', _, rfl, by decide⟩
      | true => exact ⟨'t', _, rfl, by decide⟩
  | int n =>
      cases n with
      | ofNat m =>
          rcases hdigits m with ⟨c, cs, hcs, hc⟩
          have htext : (toString (Int.ofNat m)).toList = Nat.toDigits 10 m := Nat.toList_repr
          exact ⟨c, cs, htext.trans hcs, hc⟩
      | negSucc m =>
          have htext : (toString (Int.negSucc m)).toList = '-' :: (m + 1).repr.toList :=
            String.toList_append
          exact ⟨'-', _, htext, by decide⟩
  | float x =>
      cases x with
      | nan => exact ⟨'N', _, rfl, by decide⟩
      | posInf => exact ⟨'I', _, rfl, by decide⟩
      | negInf => exact ⟨'-', _, rfl, by decide⟩
      | fin q =>
          rcases py.float_head (.fin q) with ⟨c, hc, hor⟩
          have hcs := List.eq_cons_of_mem_head? hc
          have htext : write py level (.float (.fin q)) = (py.float (.fin q)).toList := rfl
          refine ⟨c, (py.float (.fin q)).toList.tail, htext.trans hcs, ?_⟩
          rcases hor with hd | hd
          · exact digit_visible hd
          · simp only [List.mem_cons, List.not_mem_nil, or_false] at hd
            rcases hd with rfl | rfl | rfl
            · decide
            · decide
            · decide
  | str s => exact ⟨'"', _, rfl, by decide⟩
  | list vs =>
      cases vs with
      | nil => exact ⟨'[', _, rfl, by decide⟩
      | cons v vs => exact ⟨'[', _, rfl, by decide⟩
  | dict es =>
      cases es with
      | nil => exact ⟨'\x7b', _, rfl, by decide⟩
      | cons e es => exact ⟨'\x7b', _, rfl, by decide⟩

theorem skipWs_write (level : ℕ) (v : Value) (rest : List Char) :
    skipWs (write py level v ++ rest) = write py level v ++ rest := by
  rcases write_cons py level v with ⟨c, cs, hcs, hc, -⟩
  rw [hcs, List.cons_append, skipWs_cons hc]

theorem one_le_write (py : Text) (level : ℕ) (v : Value) : 1 ≤ (write py level v).length := by
  rcases write_cons py level v with ⟨c, cs, hcs, -⟩
  rw [hcs, List.length_cons]
  omega

/-- What follows an item or a member ends it. -/
theorem ends_newline (level : ℕ) (cs : List Char) : Ends (newline level ++ cs) := by
  intro c hc
  obtain rfl := Option.some.inj hc
  decide

theorem ends_items (level : ℕ) (vs : List Value) (rest : List Char) :
    Ends (writeItems py level vs ++ rest) := by
  cases vs with
  | nil =>
      rw [writeItems_nil, List.append_assoc]
      exact ends_newline level _
  | cons v vs =>
      intro c hc
      rw [writeItems_cons] at hc
      obtain rfl := Option.some.inj hc
      decide

theorem ends_members (level : ℕ) (es : Entries) (rest : List Char) :
    Ends (writeMembers py level es ++ rest) := by
  cases es with
  | nil =>
      rw [writeMembers_nil, List.append_assoc]
      exact ends_newline level _
  | cons e es =>
      rcases e with ⟨key, v⟩
      intro c hc
      rw [writeMembers_cons] at hc
      obtain rfl := Option.some.inj hc
      decide

/-- The decoder reads the value back from its text, with fuel for its length. -/
def ReadBack (py : Text) (v : Value) : Prop :=
  ∀ (level n : ℕ) (rest : List Char), 2 * (write py level v).length ≤ n → Ends rest →
    scanOnce n (write py level v ++ rest) = some (v, rest)

theorem scanOnce_cons (n : ℕ) (c : Char) (cs : List Char) : scanOnce (n + 1) (c :: cs) =
    if c = '"' then (scanString cs).map fun r => (.str r.1, r.2)
    else if c = '\x7b' then
      if (skipWs cs).head? = some '\x7d' then some (.dict [], (skipWs cs).tail)
      else (scanMembers n (skipWs cs)).map fun r => (.dict (dictOfPairs r.1), r.2)
    else if c = '[' then
      if (skipWs cs).head? = some ']' then some (.list [], (skipWs cs).tail)
      else (scanItems n (skipWs cs)).map fun r => (.list r.1, r.2)
    else scanAtom (c :: cs) := rfl

theorem scanItems_succ {n : ℕ} {cs rest : List Char} {v : Value}
    (h : scanOnce n cs = some (v, rest)) : scanItems (n + 1) cs =
      if (skipWs rest).head? = some ']' then some ([v], (skipWs rest).tail)
      else if (skipWs rest).head? = some ',' then
        (scanItems n (skipWs (skipWs rest).tail)).map fun r => (v :: r.1, r.2)
      else none := by
  show (scanOnce n cs).bind _ = _
  rw [h]
  rfl

theorem scanMembers_succ {n : ℕ} {key : String} {cs rest : List Char} {v : Value}
    (h : scanOnce n (skipWs cs) = some (v, rest)) :
    scanMembers (n + 1) ('"' :: (quotedEnd key.toList ++ ':' :: cs)) =
      if (skipWs rest).head? = some '\x7d' then some ([(key, v)], (skipWs rest).tail)
      else if (skipWs rest).head? = some ',' then
        (scanMembers n (skipWs (skipWs rest).tail)).map fun r => ((key, v) :: r.1, r.2)
      else none := by
  show (scanString (quotedEnd key.toList ++ ':' :: cs)).bind _ = _
  rw [scanString_quoted]
  show (scanOnce n (skipWs cs)).bind _ = _
  rw [h]
  rfl

theorem scanItems_write {v : Value} {vs : List Value} (hv : ReadBack py v)
    (hvs : ∀ w ∈ vs, ReadBack py w) (level n : ℕ) (rest : List Char)
    (hn : 2 * ((write py (level + 1) v).length + (writeItems py level vs).length) ≤ n) :
    scanItems n (write py (level + 1) v ++ (writeItems py level vs ++ rest)) =
      some (v :: vs, rest) := by
  have hone := one_le_write py (level + 1) v
  induction vs generalizing v n with
  | nil =>
      cases n with
      | zero => omega
      | succ n =>
          have hread := hv (level + 1) n (writeItems py level [] ++ rest) (by
            simp [writeItems_nil, newline] at hn
            omega) (ends_items level [] rest)
          rw [scanItems_succ hread]
          simp [writeItems_nil, List.append_assoc, skipWs_newline, skipWs_cons (c := ']') rfl]
  | cons w vs ih =>
      cases n with
      | zero => omega
      | succ n =>
          rw [writeItems_cons, List.length_cons, List.length_append, List.length_append] at hn
          have hread := hv (level + 1) n (writeItems py level (w :: vs) ++ rest) (by omega)
            (ends_items level (w :: vs) rest)
          have hmore := ih (hvs w List.mem_cons_self)
            (fun u hu => hvs u (List.mem_cons_of_mem w hu)) n (by omega) (one_le_write py (level + 1) w)
          rw [scanItems_succ hread]
          simp [writeItems_cons, List.append_assoc, skipWs_newline, skipWs_cons (c := ',') rfl,
            skipWs_write, hmore]

theorem scanMembers_write {key : String} {v : Value} {es : Entries} (hv : ReadBack py v)
    (hes : ∀ e ∈ es, ReadBack py e.2) (level n : ℕ) (rest : List Char)
    (hn : 2 * ((write py (level + 1) v).length + (writeMembers py level es).length) ≤ n) :
    scanMembers n ('"' :: (quotedEnd key.toList ++ (':' :: ' ' ::
      (write py (level + 1) v ++ (writeMembers py level es ++ rest))))) =
      some ((key, v) :: es, rest) := by
  have hone := one_le_write py (level + 1) v
  have hspace : ∀ cs, skipWs (' ' :: cs) = skipWs cs := fun cs => rfl
  induction es generalizing key v n with
  | nil =>
      cases n with
      | zero => omega
      | succ n =>
          have hread := hv (level + 1) n (writeMembers py level [] ++ rest) (by
            simp [writeMembers_nil, newline] at hn
            omega) (ends_members level [] rest)
          rw [scanMembers_succ (by rw [hspace, skipWs_write, hread])]
          simp [writeMembers_nil, List.append_assoc, skipWs_newline, skipWs_cons (c := '\x7d') rfl]
  | cons e es ih =>
      cases n with
      | zero => omega
      | succ n =>
          rcases e with ⟨key', w⟩
          simp only [writeMembers_cons, List.length_cons, List.length_append] at hn
          have hread := hv (level + 1) n (writeMembers py level ((key', w) :: es) ++ rest) (by omega)
            (ends_members level ((key', w) :: es) rest)
          have hw : ReadBack py w := hes (key', w) List.mem_cons_self
          have hmore := @ih key' w hw (fun u hu => hes u (List.mem_cons_of_mem _ hu)) n (by omega)
            (one_le_write py (level + 1) w)
          rw [scanMembers_succ (by rw [hspace, skipWs_write, hread])]
          simp [writeMembers_cons, List.append_assoc, skipWs_newline, skipWs_cons (c := ',') rfl,
            skipWs_cons (c := '"') rfl, hmore]

theorem readBack_atom {v : Value} {c : Char} {cs : List Char} {level : ℕ}
    (htext : write py level v = c :: cs) (hc : c ≠ '"' ∧ c ≠ '\x7b' ∧ c ≠ '[') {n : ℕ}
    {rest : List Char} (hscan : scanAtom (write py level v ++ rest) = some (v, rest)) :
    scanOnce (n + 1) (write py level v ++ rest) = some (v, rest) := by
  rw [htext] at hscan ⊢
  rw [List.cons_append] at hscan ⊢
  rw [scanOnce_cons, if_neg hc.1, if_neg hc.2.1, if_neg hc.2.2, hscan]

theorem readBack_word {v : Value} {word : List Char} (hword : ∀ level, write py level v = word)
    (hscan : ∀ (n : ℕ) (rest : List Char), scanOnce (n + 1) (word ++ rest) = some (v, rest)) :
    ReadBack py v := by
  intro level n rest hn _
  have hone := one_le_write py level v
  cases n with
  | zero => omega
  | succ n =>
      rw [hword level]
      exact hscan n rest

theorem readBack_int (m : ℤ) : ReadBack py (.int m) := by
  intro level n rest hn hrest
  have hone := one_le_write py level (.int m)
  have hscan := scanAtom_int m hrest
  have htext : write py level (.int m) = (toString m).toList := rfl
  rw [← htext] at hscan
  rcases write_cons py level (.int m) with ⟨c, cs, hcs, -⟩
  have hc : c ≠ '"' ∧ c ≠ '\x7b' ∧ c ≠ '[' := by
    have hnumber : c.isDigit = true ∨ c = '-' := by
      rw [htext] at hcs
      cases m with
      | ofNat m =>
          have hdigits : (toString (Int.ofNat m)).toList = Nat.toDigits 10 m := Nat.toList_repr
          rw [hdigits] at hcs
          exact .inl (isDigit_toDigits (n := m) (by rw [hcs]; exact List.mem_cons_self))
      | negSucc m =>
          have hdigits : (toString (Int.negSucc m)).toList = '-' :: (m + 1).repr.toList :=
            String.toList_append
          rw [hdigits] at hcs
          exact .inr (List.cons.inj hcs).1.symm
    rcases hnumber with h | rfl
    · refine ⟨?_, ?_, ?_⟩
      all_goals
        intro heq
        rw [heq] at h
        exact absurd h (by decide)
    · decide
  cases n with
  | zero => omega
  | succ n => exact readBack_atom hcs hc hscan

theorem readBack_str (s : String) : ReadBack py (.str s) := by
  intro level n rest hn _
  have hone := one_le_write py level (.str s)
  cases n with
  | zero => omega
  | succ n =>
      show scanOnce (n + 1) ('"' :: (quotedEnd s.toList ++ rest)) = _
      rw [scanOnce_cons, if_pos rfl, scanString_quoted]
      rfl

theorem readBack_list {vs : List Value} (h : ∀ v ∈ vs, ReadBack py v) :
    ReadBack py (.list vs) := by
  intro level n rest hn _
  cases n with
  | zero =>
      have hone := one_le_write py level (.list vs)
      omega
  | succ n =>
      cases vs with
      | nil => rfl
      | cons v vs =>
          rw [write_list, List.length_cons, List.length_append, List.length_append] at hn
          have hitems := scanItems_write (h v List.mem_cons_self)
            (fun w hw => h w (List.mem_cons_of_mem v hw)) level n rest (by omega)
          have hopen : skipWs (newline (level + 1) ++ (write py (level + 1) v ++
              (writeItems py level vs ++ rest))) =
              write py (level + 1) v ++ (writeItems py level vs ++ rest) := by
            rw [skipWs_newline, skipWs_write]
          have hhead : (write py (level + 1) v ++ (writeItems py level vs ++ rest)).head? ≠
              some ']' := by
            rcases write_cons py (level + 1) v with ⟨c, cs, hcs, -, hc⟩
            rw [hcs]
            intro heq
            exact hc (Option.some.inj heq)
          rw [write_list]
          simp only [List.cons_append, List.append_assoc]
          rw [scanOnce_cons, if_neg (by decide), if_neg (by decide), if_pos rfl, hopen, if_neg hhead,
            hitems]
          rfl

theorem lookup_none_of_not_mem {es : Entries} {key : String} (h : key ∉ es.map Prod.fst) :
    es.lookup key = none := by
  rw [List.lookup_eq_none_iff]
  intro e he
  rw [bne_iff_ne]
  intro heq
  exact h (heq ▸ List.mem_map_of_mem he)

/-- With each key once, the pairs are the items of the dict. -/
theorem dictOfPairs_eq {es : Entries} (h : (es.map Prod.fst).Nodup) : dictOfPairs es = es := by
  have hfold : ∀ front back : Entries, ((front ++ back).map Prod.fst).Nodup →
      back.foldl (fun d pair => setItem d pair.1 pair.2) front = front ++ back := by
    intro front back hnodup
    induction back generalizing front with
    | nil => rw [List.append_nil, List.foldl_nil]
    | cons e back ih =>
        rw [List.append_cons] at hnodup
        have hnot : e.1 ∉ front.map Prod.fst := by
          rw [List.map_append, List.map_append, List.nodup_append] at hnodup
          have hfront := (List.nodup_append.mp hnodup.1).2.2
          intro hmem
          exact hfront e.1 hmem e.1 (by simp) rfl
        have hset : setItem front e.1 e.2 = front ++ [e] := by
          rw [setItem, lookup_none_of_not_mem hnot]
          rfl
        rw [List.foldl_cons, hset, ih (front ++ [e]) hnodup, List.append_assoc]
        rfl
  exact hfold [] es h

/-- A dict ends itself. -/
theorem scanOnce_dict {es : Entries} (hkeys : (es.map Prod.fst).Nodup)
    (h : ∀ e ∈ es, ReadBack py e.2) (level n : ℕ) (rest : List Char)
    (hn : 2 * (write py level (.dict es)).length ≤ n) :
    scanOnce n (write py level (.dict es) ++ rest) = some (.dict es, rest) := by
  cases n with
  | zero =>
      have hone := one_le_write py level (.dict es)
      omega
  | succ n =>
      cases es with
      | nil => rfl
      | cons e es =>
          rcases e with ⟨key, v⟩
          rw [write_dict] at hn
          simp only [List.length_cons, List.length_append] at hn
          have hv : ReadBack py v := h (key, v) List.mem_cons_self
          have hmembers := @scanMembers_write py key v es hv
            (fun u hu => h u (List.mem_cons_of_mem _ hu)) level n rest (by omega)
          have hopen : ∀ cs, skipWs (newline (level + 1) ++ '"' :: cs) = '"' :: cs := by
            intro cs
            rw [skipWs_newline, skipWs_cons rfl]
          rw [write_dict]
          simp only [List.cons_append, List.append_assoc]
          rw [scanOnce_cons, if_neg (by decide), if_pos rfl, hopen, if_neg (by simp), hmembers,
            Option.map_some, dictOfPairs_eq hkeys]

theorem Writable.readBack {v : Value} (h : Writable py v) : ReadBack py v := by
  induction h with
  | none => exact readBack_word (fun _ => rfl) fun n rest => rfl
  | bool b =>
      cases b with
      | false => exact readBack_word (fun _ => rfl) fun n rest => rfl
      | true => exact readBack_word (fun _ => rfl) fun n rest => rfl
  | int n => exact readBack_int n
  | @float x h =>
      intro level n rest hn hrest
      have hone := one_le_write py level (.float x)
      cases n with
      | zero => omega
      | succ n => exact h n rest hrest
  | str s => exact readBack_str s
  | list _ ih => exact readBack_list ih
  | dict hkeys _ ih => exact fun level n rest hn _ => scanOnce_dict hkeys ih level n rest hn

theorem rawDecode_write {v : Value} (h : Writable py v) (level : ℕ) {rest : List Char}
    (hrest : Ends rest) : rawDecode (write py level v ++ rest) = some (v, rest) := by
  refine h.readBack level _ rest ?_ hrest
  rw [List.length_append]
  omega

theorem rawDecode_dict {es : Entries} (h : Writable py (.dict es)) (level : ℕ)
    (rest : List Char) :
    rawDecode (write py level (.dict es) ++ rest) = some (.dict es, rest) := by
  cases h with
  | dict hkeys h =>
      refine scanOnce_dict hkeys (fun e he => (h e he).readBack) level _ rest ?_
      rw [List.length_append]
      omega

/-! ## Keys in order -/

theorem insertEntry_perm (entry : String × Value) (es : Entries) :
    (insertEntry entry es).Perm (entry :: es) := by
  induction es with
  | nil => exact .refl _
  | cons other es ih =>
      rw [insertEntry]
      by_cases h : entry.1 ≤ other.1
      · rw [if_pos h]
      · rw [if_neg h]
        exact (ih.cons other).trans (.swap entry other es)

theorem sortItems_eq (vs : List Value) : sortItems vs = vs.map sortKeys := by
  induction vs with
  | nil => rfl
  | cons v vs ih => exact congrArg (sortKeys v :: ·) ih

theorem sortEntries_perm (es : Entries) :
    (sortEntries es).Perm (es.map fun e => (e.1, sortKeys e.2)) := by
  induction es with
  | nil => exact .refl _
  | cons e es ih =>
      rcases e with ⟨key, v⟩
      show (insertEntry (key, sortKeys v) (sortEntries es)).Perm _
      exact (insertEntry_perm _ _).trans (ih.cons _)

theorem Writable.sortKeys {v : Value} (h : Writable py v) : Writable py (sortKeys v) := by
  induction h with
  | none => exact .none
  | bool b => exact .bool b
  | int n => exact .int n
  | float h => exact .float h
  | str s => exact .str s
  | @list vs _ ih =>
      show Writable py (.list (sortItems vs))
      rw [sortItems_eq]
      refine .list fun w hw => ?_
      rcases List.mem_map.mp hw with ⟨v, hv, rfl⟩
      exact ih v hv
  | @dict es hkeys _ ih =>
      have hperm := sortEntries_perm es
      show Writable py (.dict (sortEntries es))
      refine .dict ?_ fun e he => ?_
      · have hfst : (es.map fun e => (e.1, Json.sortKeys e.2)).map Prod.fst = es.map Prod.fst := by
          rw [List.map_map]
          rfl
        exact (hperm.map Prod.fst).nodup_iff.mpr (hfst ▸ hkeys)
      · rcases List.mem_map.mp (hperm.mem_iff.mp he) with ⟨e', he', rfl⟩
        exact ih e' he'

theorem loads_dumps {v : Value} (h : Writable py v) :
    loads (dumps py v ++ "\n") = some (sortKeys v) := by
  have htext : (dumps py v ++ "\n").toList = write py 0 (Json.sortKeys v) ++ ['\n'] := by
    rw [String.toList_append, dumps, String.toList_ofList]
    rfl
  have hrest : Ends ['\n'] := by
    intro c hc
    obtain rfl := Option.some.inj hc
    decide
  rw [loads, htext, skipWs_write, rawDecode_write h.sortKeys 0 hrest]
  rfl

end RoundTrip

end Json

end Py
