import Mathlib.Data.List.Lex
import Mathlib.Data.List.Sort
import Mathlib.Tactic.IntervalCases

/-! # JavaScript strings

What TypeScript code does to strings, over Lean's. A JavaScript string is a
sequence of UTF-16 code units; the strings here are the ones without lone
surrogates, and `utf16` is their code units, which decide order and length.

* `le`: the order of `<` on strings and of the default `sort`;
* `sortOn`, `sort`: stable sorting by a key; `sortOn_congr` and `sort_eraseDups_congr`
  say when the order of the input does not show;
* `stringify`: `JSON.stringify` of a string; `readLiteral_stringify` reads it back
  from the front of any text, so a literal ends where its value does.
-/

namespace Js

/-! ## Code units -/

def units (c : Char) : List Nat :=
  if c.toNat < 0x10000 then [c.toNat]
  else [0xD800 + (c.toNat - 0x10000) / 0x400, 0xDC00 + (c.toNat - 0x10000) % 0x400]

def utf16 (s : String) : List Nat := s.toList.flatMap units

/-- `s.length`. -/
def length (s : String) : Nat := (utf16 s).length

theorem units_inj {c d : Char} {cs ds : List Nat} (h : units c ++ cs = units d ++ ds) :
    c = d ∧ cs = ds := by
  have hc := c.valid
  have hd := d.valid
  simp only [UInt32.isValidChar, Nat.isValidChar, Char.toNat_val] at hc hd
  unfold units at h
  split_ifs at h with hlow hlow'
  · simp only [List.cons_append, List.nil_append, List.cons.injEq] at h
    exact ⟨Char.toNat_inj.mp h.1, h.2⟩
  · -- a unit of its own against a surrogate
    simp only [List.cons_append, List.nil_append, List.cons.injEq] at h
    omega
  · simp only [List.cons_append, List.nil_append, List.cons.injEq] at h
    omega
  · simp only [List.cons_append, List.nil_append, List.cons.injEq] at h
    exact ⟨Char.toNat_inj.mp (by omega), h.2.2⟩

theorem units_ne_nil (c : Char) : units c ≠ [] := by
  unfold units
  split_ifs <;> simp

theorem flatMap_units_inj {cs ds : List Char} (h : cs.flatMap units = ds.flatMap units) :
    cs = ds := by
  induction cs generalizing ds with
  | nil =>
      cases ds with
      | nil => rfl
      | cons d ds => simp [units_ne_nil] at h
  | cons c cs ih =>
      cases ds with
      | nil => simp [units_ne_nil] at h
      | cons d ds =>
          obtain ⟨rfl, hrest⟩ := units_inj h
          rw [ih hrest]

theorem utf16_inj {a b : String} (h : utf16 a = utf16 b) : a = b :=
  String.toList_inj.mp (flatMap_units_inj h)

/-! ## Sorting -/

/-- `a <= b`. -/
def le (a b : String) : Prop := utf16 a ≤ utf16 b

instance : DecidableRel le := fun a b => inferInstanceAs (Decidable (utf16 a ≤ utf16 b))

variable {α : Type}

/-- `xs.sort((a, b) => cmp(key(a), key(b)))`, which is stable. -/
def sortOn (key : α → String) (xs : List α) : List α :=
  xs.insertionSort fun a b => le (key a) (key b)

/-- `xs.sort()`, and `xs.sort(cmp)`. -/
def sort (xs : List String) : List String := sortOn id xs

instance (key : α → String) : Std.Total fun a b : α => le (key a) (key b) :=
  ⟨fun a b => le_total (utf16 (key a)) (utf16 (key b))⟩

instance (key : α → String) : IsTrans α fun a b : α => le (key a) (key b) :=
  ⟨fun _ _ _ hab hbc => le_trans (α := List Nat) hab hbc⟩

theorem sortOn_perm (key : α → String) (xs : List α) : (sortOn key xs).Perm xs :=
  List.perm_insertionSort _ xs

@[simp] theorem mem_sortOn {key : α → String} {xs : List α} {x : α} :
    x ∈ sortOn key xs ↔ x ∈ xs := (sortOn_perm key xs).mem_iff

@[simp] theorem mem_sort {xs : List String} {x : String} : x ∈ sort xs ↔ x ∈ xs := mem_sortOn

@[simp] theorem sortOn_nil (key : α → String) : sortOn key ([] : List α) = [] := rfl

@[simp] theorem sort_eq_nil {xs : List String} : sort xs = [] ↔ xs = [] := by
  constructor
  · intro h
    have hperm := sortOn_perm id xs
    rw [show sortOn id xs = [] from h] at hperm
    exact hperm.nil_eq.symm
  · rintro rfl
    rfl

/-- The order of the input does not show where the keys are distinct. -/
theorem sortOn_congr {key : α → String} {xs ys : List α} (h : xs.Perm ys)
    (hkey : ∀ a ∈ xs, ∀ b ∈ xs, key a = key b → a = b) : sortOn key xs = sortOn key ys := by
  refine List.Perm.eq_of_pairwise ?_ (List.pairwise_insertionSort _ xs)
    (List.pairwise_insertionSort _ ys)
    ((sortOn_perm key xs).trans (h.trans (sortOn_perm key ys).symm))
  intro a b ha hb hab hba
  exact hkey a (mem_sortOn.mp ha) b (h.symm.subset (mem_sortOn.mp hb))
    (utf16_inj (le_antisymm hab hba))

/-- Sorted first and filtered then, the keys need to be distinct among what is kept. -/
theorem filter_sortOn_congr {key : α → String} {p : α → Bool} {xs ys : List α} (h : xs.Perm ys)
    (hkey : ∀ a ∈ xs, ∀ b ∈ xs, p a = true → p b = true → key a = key b → a = b) :
    (sortOn key xs).filter p = (sortOn key ys).filter p := by
  refine List.Perm.eq_of_pairwise ?_ ((List.pairwise_insertionSort _ xs).filter p)
    ((List.pairwise_insertionSort _ ys).filter p)
    (((sortOn_perm key xs).trans (h.trans (sortOn_perm key ys).symm)).filter p)
  intro a b ha hb hab hba
  rw [List.mem_filter] at ha hb
  exact hkey a (mem_sortOn.mp ha.1) b (h.symm.subset (mem_sortOn.mp hb.1)) ha.2 hb.2
    (utf16_inj (le_antisymm hab hba))

theorem sort_congr {xs ys : List String} (h : xs.Perm ys) : sort xs = sort ys :=
  sortOn_congr h fun _ _ _ _ heq => heq

theorem nodup_eraseDups [DecidableEq α] (xs : List α) : xs.eraseDups.Nodup := by
  induction hn : xs.length using Nat.strongRecOn generalizing xs with
  | _ n ih =>
      cases xs with
      | nil => simp
      | cons x xs =>
          rw [List.eraseDups_cons, List.nodup_cons]
          refine ⟨by simp, ih _ ?_ _ rfl⟩
          have hle := List.length_filter_le (fun b => !b == x) xs
          simp only [List.length_cons] at hn
          omega

/-- `[...new Set(xs)].sort()` depends on the elements of `xs` only. -/
theorem sort_eraseDups_congr {xs ys : List String} (h : ∀ x, x ∈ xs ↔ x ∈ ys) :
    sort xs.eraseDups = sort ys.eraseDups := by
  refine sort_congr ?_
  rw [List.perm_ext_iff_of_nodup (nodup_eraseDups xs) (nodup_eraseDups ys)]
  simpa using h

/-! ## Joining and splitting -/

/-- `xs.join(sep)`. -/
def join (sep : String) (xs : List String) : String := sep.intercalate xs

def newline (c : Char) : Bool := c = '\n' ∨ c = '\r'

/-- The physical lines of a text: it is cut at every newline and carriage return. -/
def physicalLines (text : String) : List String :=
  (text.toList.splitOnP newline).map String.ofList

/-- `s` stays on one line. -/
def OneLine (s : String) : Prop := ∀ c ∈ s.toList, newline c = false

instance (s : String) : Decidable (OneLine s) :=
  List.decidableBAll _ _

theorem OneLine.append {a b : String} (ha : OneLine a) (hb : OneLine b) : OneLine (a ++ b) := by
  intro c hc
  rw [String.toList_append, List.mem_append] at hc
  exact hc.elim (ha c) (hb c)

@[simp] theorem join_nil (sep : String) : join sep [] = "" := String.intercalate_nil

@[simp] theorem join_singleton (sep x : String) : join sep [x] = x := String.intercalate_singleton

theorem join_cons_cons (sep x y : String) (xs : List String) :
    join sep (x :: y :: xs) = x ++ sep ++ join sep (y :: xs) := String.intercalate_cons_cons

theorem OneLine.join {sep : String} {xs : List String} (hsep : OneLine sep)
    (hxs : ∀ x ∈ xs, OneLine x) : OneLine (join sep xs) := by
  induction xs with
  | nil => simp [OneLine]
  | cons x xs ih =>
      have hx := hxs x List.mem_cons_self
      have hrest := ih fun y hy => hxs y (List.mem_cons_of_mem x hy)
      cases xs with
      | nil => simpa using hx
      | cons y ys =>
          rw [join_cons_cons]
          exact (hx.append hsep).append hrest

/-- Lines joined by newlines split into themselves. -/
theorem physicalLines_join {lines : List String} (hne : lines ≠ [])
    (hlines : ∀ l ∈ lines, OneLine l) : physicalLines (join "\n" lines) = lines := by
  induction lines with
  | nil => exact absurd rfl hne
  | cons x xs ih =>
      have hx := hlines x List.mem_cons_self
      cases xs with
      | nil => simp [physicalLines, List.splitOnP_eq_singleton hx]
      | cons y ys =>
          have hrest := ih (by simp) fun l hl => hlines l (List.mem_cons_of_mem x hl)
          rw [physicalLines, join_cons_cons, String.toList_append, String.toList_append,
            show "\n".toList = ['\n'] from rfl, List.append_assoc, List.singleton_append,
            List.splitOnP_append_cons_of_forall_mem hx '\n' (by decide), List.map_cons,
            String.ofList_toList]
          rw [physicalLines] at hrest
          rw [hrest]

/-- `value.replace(/[\r\n]+/g, " ")`, where `inRun` is set inside a run of newlines. -/
def flatten : Bool → List Char → List Char
  | _, [] => []
  | inRun, c :: cs =>
      if newline c then (if inRun then flatten true cs else ' ' :: flatten true cs)
      else c :: flatten false cs

theorem oneLine_flatten (inRun : Bool) (cs : List Char) :
    OneLine (String.ofList (flatten inRun cs)) := by
  intro c hc
  rw [String.toList_ofList] at hc
  induction cs generalizing inRun with
  | nil => cases hc
  | cons d ds ih =>
      unfold flatten at hc
      split_ifs at hc with hnewline hrun
      · exact ih true hc
      · rcases List.mem_cons.mp hc with rfl | hc
        · decide
        · exact ih true hc
      · rcases List.mem_cons.mp hc with rfl | hc
        · simpa using hnewline
        · exact ih false hc

/-! ## Literals -/

def hexDigit (n : Nat) : Char := if n < 10 then Char.ofNat (0x30 + n) else Char.ofNat (0x57 + n)

def hexValue (c : Char) : Nat := if c.toNat < 0x3a then c.toNat - 0x30 else c.toNat - 0x57

/-- How `JSON.stringify` writes a character of a string. -/
def escape (c : Char) : List Char :=
  if c = '"' then ['\\', '"']
  else if c = '\\' then ['\\', '\\']
  else if c = '\n' then ['\\', 'n']
  else if c = '\r' then ['\\', 'r']
  else if c = '\t' then ['\\', 't']
  else if c = Char.ofNat 8 then ['\\', 'b']
  else if c = Char.ofNat 12 then ['\\', 'f']
  else if c.toNat < 0x20 then
    ['\\', 'u', '0', '0', hexDigit (c.toNat / 16), hexDigit (c.toNat % 16)]
  else [c]

/-- `JSON.stringify(s)`. -/
def stringify (s : String) : String := String.ofList ('"' :: s.toList.flatMap escape ++ ['"'])

/-- The character that an escape stands for, and the text after it. -/
def readEscape : List Char → Option (Char × List Char)
  | '"' :: cs => some ('"', cs)
  | '\\' :: cs => some ('\\', cs)
  | 'n' :: cs => some ('\n', cs)
  | 'r' :: cs => some ('\r', cs)
  | 't' :: cs => some ('\t', cs)
  | 'b' :: cs => some (Char.ofNat 8, cs)
  | 'f' :: cs => some (Char.ofNat 12, cs)
  | 'u' :: '0' :: '0' :: h :: l :: cs => some (Char.ofNat (16 * hexValue h + hexValue l), cs)
  | _ => none

/-- The value of a literal whose opening quote was read, and the text after its
closing quote. -/
def readRest : Nat → List Char → Option (List Char × List Char)
  | 0, _ => none
  | fuel + 1, cs =>
      match cs with
      | [] => none
      | '"' :: rest => some ([], rest)
      | '\\' :: rest =>
          (readEscape rest).bind fun (c, rest) =>
            (readRest fuel rest).map fun (cs, rest) => (c :: cs, rest)
      | c :: rest => (readRest fuel rest).map fun (cs, rest) => (c :: cs, rest)

/-- The string literal at the front of a text, and the text after it. -/
def readLiteral : List Char → Option (String × List Char)
  | '"' :: rest => (readRest (rest.length + 1) rest).map fun (cs, rest) => (String.ofList cs, rest)
  | _ => none

theorem hexValue_hexDigit {n : Nat} (h : n < 16) : hexValue (hexDigit n) = n := by
  interval_cases n <;> rfl

theorem newline_hexDigit {n : Nat} (h : n < 16) : newline (hexDigit n) = false := by
  interval_cases n <;> rfl

/-- A character is written as itself, by a letter after a backslash or by its code. -/
theorem escape_cases (c : Char) :
    (c ≠ '"' ∧ c ≠ '\\' ∧ newline c = false ∧ escape c = [c]) ∨
    (∃ d, newline d = false ∧ escape c = ['\\', d] ∧ ∀ cs, readEscape (d :: cs) = some (c, cs)) ∨
    (c.toNat < 0x20 ∧
      escape c = ['\\', 'u', '0', '0', hexDigit (c.toNat / 16), hexDigit (c.toNat % 16)]) := by
  unfold escape
  split_ifs with hquote hback hn hr ht hb hf hlow
  · exact .inr (.inl ⟨'"', rfl, rfl, fun _ => by rw [hquote]; rfl⟩)
  · exact .inr (.inl ⟨'\\', rfl, rfl, fun _ => by rw [hback]; rfl⟩)
  · exact .inr (.inl ⟨'n', rfl, rfl, fun _ => by rw [hn]; rfl⟩)
  · exact .inr (.inl ⟨'r', rfl, rfl, fun _ => by rw [hr]; rfl⟩)
  · exact .inr (.inl ⟨'t', rfl, rfl, fun _ => by rw [ht]; rfl⟩)
  · exact .inr (.inl ⟨'b', rfl, rfl, fun _ => by rw [hb]; rfl⟩)
  · exact .inr (.inl ⟨'f', rfl, rfl, fun _ => by rw [hf]; rfl⟩)
  · -- any other control character
    exact .inr (.inr ⟨hlow, rfl⟩)
  · exact .inl ⟨hquote, hback, by simp [newline, hn, hr], rfl⟩

/-- An escape reads back as its character. -/
theorem readRest_escape {fuel : Nat} (c : Char) (cs : List Char) :
    readRest (fuel + 1) (escape c ++ cs) =
      (readRest fuel cs).map fun (ds, rest) => (c :: ds, rest) := by
  rcases escape_cases c with ⟨hquote, hback, -, h⟩ | ⟨d, -, h, hread⟩ | ⟨hlow, h⟩
  · rw [h, List.singleton_append, readRest]
    · exact hquote
    · exact hback
  · simp only [h, List.cons_append, List.nil_append, readRest, hread, Option.bind_some]
  · have hvalue : 16 * (c.toNat / 16) + c.toNat % 16 = c.toNat := by omega
    simp only [h, List.cons_append, List.nil_append, readRest, readEscape,
      hexValue_hexDigit (show c.toNat / 16 < 16 by omega),
      hexValue_hexDigit (show c.toNat % 16 < 16 by omega), hvalue, Option.bind_some]
    simp

theorem escape_ne_nil (c : Char) : escape c ≠ [] := by
  unfold escape
  split_ifs <;> simp

theorem readRest_stringify {fuel : Nat} (cs rest : List Char) (hfuel : cs.length < fuel) :
    readRest fuel (cs.flatMap escape ++ '"' :: rest) = some (cs, rest) := by
  induction cs generalizing fuel with
  | nil =>
      obtain ⟨n, rfl⟩ := Nat.exists_eq_succ_of_ne_zero (Nat.ne_of_gt hfuel)
      rfl
  | cons c cs ih =>
      obtain ⟨n, rfl⟩ := Nat.exists_eq_succ_of_ne_zero (show fuel ≠ 0 by omega)
      rw [List.flatMap_cons, List.append_assoc, readRest_escape,
        ih (by simpa using hfuel)]
      rfl

/-- A literal at the front of a text reads back as its value, and ends where it ends. -/
theorem readLiteral_stringify (s : String) (rest : List Char) :
    readLiteral ((stringify s).toList ++ rest) = some (s, rest) := by
  have hlen : s.toList.length ≤ (s.toList.flatMap escape).length := by
    induction s.toList with
    | nil => simp
    | cons c cs ih =>
        have hpos := List.length_pos_iff.mpr (escape_ne_nil c)
        simp only [List.flatMap_cons, List.length_append, List.length_cons]
        omega
  rw [stringify, String.toList_ofList, List.cons_append, List.cons_append, List.append_assoc,
    List.singleton_append]
  simp only [readLiteral]
  rw [readRest_stringify]
  · simp
  · simp only [List.length_append, List.length_cons]
    omega

theorem newline_escape {c d : Char} (h : d ∈ escape c) : newline d = false := by
  rcases escape_cases c with ⟨-, -, hc, heq⟩ | ⟨x, hx, heq, -⟩ | ⟨hlow, heq⟩
  · rw [heq, List.mem_singleton] at h
    rwa [h]
  · simp only [heq, List.mem_cons, List.not_mem_nil, or_false] at h
    rcases h with rfl | rfl
    · rfl
    · exact hx
  · simp only [heq, List.mem_cons, List.not_mem_nil, or_false] at h
    rcases h with rfl | rfl | rfl | rfl | rfl | rfl
    · rfl
    · rfl
    · rfl
    · rfl
    · exact newline_hexDigit (by omega)
    · exact newline_hexDigit (by omega)

/-- A literal is on one line. -/
theorem oneLine_stringify (s : String) : OneLine (stringify s) := by
  intro c hc
  rw [stringify, String.toList_ofList] at hc
  simp only [List.cons_append, List.mem_cons, List.mem_append, List.mem_flatMap,
    List.not_mem_nil, or_false] at hc
  rcases hc with rfl | ⟨d, -, hc⟩ | rfl
  · decide
  · exact newline_escape hc
  · decide

end Js
