import Beluga.Py.Access
import Beluga.Py.Strings
import Mathlib.Data.List.Basic
import Mathlib.Tactic.Common

/-! # Text files

`Path.read_text` and `write_text` with UTF-8 in text mode, and `str.splitlines`.

* `read_text_write_text`: what is written is read with its line ends translated;
* `eq_write_text_iff`: a file is its text written again unless it has a carriage return;
* `splitlines_join`: lines that are joined are found again.
-/

namespace Py

/-! ## Line ends -/

/-- The line ends of text mode. A line feed `after` a carriage return belongs to it. -/
def newlinesFrom : Bool → List Char → List Char
  | _, [] => []
  | after, c :: cs =>
      if c = '\r' then '\n' :: newlinesFrom true cs
      else if after && c = '\n' then newlinesFrom false cs
      else c :: newlinesFrom false cs

def newlines (s : String) : String := String.ofList (newlinesFrom false s.toList)

/-- No carriage return. -/
def Clean (s : String) : Prop := '\r' ∉ s.toList

theorem newlinesFrom_clean {cs : List Char} (h : '\r' ∉ cs) : newlinesFrom false cs = cs := by
  induction cs with
  | nil => rfl
  | cons c cs ih =>
      rw [List.mem_cons, not_or] at h
      rw [newlinesFrom, if_neg fun hc => h.1 hc.symm, Bool.false_and, if_neg Bool.false_ne_true,
        ih h.2]

theorem not_mem_newlinesFrom (after : Bool) (cs : List Char) : '\r' ∉ newlinesFrom after cs := by
  induction cs generalizing after with
  | nil => exact List.not_mem_nil
  | cons c cs ih =>
      rw [newlinesFrom]
      by_cases hc : c = '\r'
      · rw [if_pos hc, List.mem_cons, not_or]
        exact ⟨by decide, ih true⟩
      · rw [if_neg hc]
        by_cases hafter : (after && c = '\n') = true
        · rw [if_pos hafter]
          exact ih false
        · rw [if_neg hafter, List.mem_cons, not_or]
          exact ⟨fun heq => hc heq.symm, ih false⟩

theorem newlines_clean {s : String} (h : Clean s) : newlines s = s := by
  rw [newlines, newlinesFrom_clean h, String.ofList_toList]

theorem clean_newlines (s : String) : Clean (newlines s) := by
  rw [Clean, newlines, String.toList_ofList]
  exact not_mem_newlinesFrom false s.toList

theorem newlines_eq_self {s : String} : newlines s = s ↔ Clean s := by
  constructor
  · intro h
    rw [← h]
    exact clean_newlines s
  · exact newlines_clean

/-! ## Files -/

/-- `path.read_text(encoding="utf-8")` of a file with these bytes. -/
def read_text (data : ByteArray) : Try String :=
  match String.fromUTF8? data with
  | some s => .ok (newlines s)
  | none => .error .raised

/-- The bytes of `path.write_text(text, encoding="utf-8")`. -/
def write_text (text : String) : ByteArray := text.toUTF8

theorem fromUTF8_write_text (s : String) : String.fromUTF8? (write_text s) = some s := by
  rw [String.fromUTF8?, dif_pos (show (write_text s).IsValidUTF8 from s.isValidUTF8)]
  rfl

theorem write_text_of_fromUTF8 {data : ByteArray} {s : String}
    (h : String.fromUTF8? data = some s) : write_text s = data := by
  unfold String.fromUTF8? at h
  split at h
  · obtain rfl := Option.some.inj h
    rfl
  · cases h

theorem read_text_write_text (s : String) : read_text (write_text s) = .ok (newlines s) := by
  rw [read_text, fromUTF8_write_text]

theorem read_text_clean {s : String} (h : Clean s) : read_text (write_text s) = .ok s := by
  rw [read_text_write_text, newlines_clean h]

/-- No carriage return in the text of a file. -/
def CleanFile (data : ByteArray) : Prop := ∀ t, String.fromUTF8? data = some t → Clean t

theorem eq_write_text_iff {data : ByteArray} {s : String} (h : read_text data = .ok s) :
    data = write_text s ↔ CleanFile data := by
  unfold read_text at h
  cases hdata : String.fromUTF8? data with
  | none =>
      rw [hdata] at h
      cases h
  | some t =>
      rw [hdata] at h
      obtain rfl := Except.ok.inj h
      have htext := write_text_of_fromUTF8 hdata
      constructor
      · intro heq u hu
        obtain rfl := Option.some.inj (hdata.symm.trans hu)
        rw [heq, fromUTF8_write_text] at hdata
        rw [← newlines_eq_self]
        exact Option.some.inj hdata
      · intro hclean
        rw [newlines_clean (hclean t hdata)]
        exact htext.symm

/-! ## Lines -/

/-- Where `str.splitlines` ends a line. -/
def isLineEnd (c : Char) : Bool :=
  (10 ≤ c.toNat && c.toNat ≤ 13) || (28 ≤ c.toNat && c.toNat ≤ 30) || c.toNat = 0x85 ||
    c.toNat = 0x2028 || c.toNat = 0x2029

/-- The lines, with what is read of the first one. -/
def splitlinesFrom : Bool → List Char → List Char → List (List Char)
  | _, read, [] => if read = [] then [] else [read.reverse]
  | after, read, c :: cs =>
      if after && c = '\n' then splitlinesFrom false read cs
      else if isLineEnd c then read.reverse :: splitlinesFrom (c = '\r') [] cs
      else splitlinesFrom false (c :: read) cs

/-- `text.splitlines()`. -/
def splitlines (s : String) : List String := (splitlinesFrom false [] s.toList).map String.ofList

/-- The text of a file with these lines. -/
def joinLines (lines : List String) : String := "\n".intercalate lines ++ "\n"

theorem splitlinesFrom_line {l rest read : List Char} (h : ∀ c ∈ l, isLineEnd c = false) :
    splitlinesFrom false read (l ++ '\n' :: rest) =
      (l.reverse ++ read).reverse :: splitlinesFrom false [] rest := by
  induction l generalizing read with
  | nil => rfl
  | cons c l ih =>
      rcases List.forall_mem_cons.mp h with ⟨hc, hl⟩
      rw [List.cons_append, splitlinesFrom, Bool.false_and, if_neg Bool.false_ne_true, hc,
        if_neg Bool.false_ne_true, ih hl, List.reverse_cons, List.append_assoc]
      rfl

theorem splitlinesFrom_lines {ls : List (List Char)} (h : ∀ l ∈ ls, ∀ c ∈ l, isLineEnd c = false) :
    splitlinesFrom false [] (ls.flatMap fun l => l ++ ['\n']) = ls := by
  induction ls with
  | nil => rfl
  | cons l ls ih =>
      rcases List.forall_mem_cons.mp h with ⟨hl, hls⟩
      rw [List.flatMap_cons, List.append_assoc, List.singleton_append, splitlinesFrom_line hl,
        ih hls, List.append_nil, List.reverse_reverse]

theorem toList_joinLines {lines : List String} (hne : lines ≠ []) :
    (joinLines lines).toList = (lines.map String.toList).flatMap fun l => l ++ ['\n'] := by
  rw [joinLines, String.toList_append, String.toList_intercalate]
  induction lines with
  | nil => exact absurd rfl hne
  | cons line lines ih =>
      cases lines with
      | nil => simp
      | cons line' lines =>
          have hrest := ih (List.cons_ne_nil _ _)
          rw [List.map_cons, List.map_cons, List.intercalate_cons_cons, List.append_assoc,
            ← List.map_cons, List.append_assoc, hrest, List.flatMap_cons, List.append_assoc]
          rfl

theorem splitlines_join {lines : List String} (hne : lines ≠ [])
    (h : ∀ line ∈ lines, ∀ c ∈ line.toList, isLineEnd c = false) :
    splitlines (joinLines lines) = lines := by
  have hlines : ∀ l ∈ lines.map String.toList, ∀ c ∈ l, isLineEnd c = false := by
    intro l hl
    rcases List.mem_map.mp hl with ⟨line, hline, rfl⟩
    exact h line hline
  rw [splitlines, toList_joinLines hne, splitlinesFrom_lines hlines, List.map_map]
  exact (List.map_congr_left fun line _ => String.ofList_toList).trans (List.map_id lines)

end Py
