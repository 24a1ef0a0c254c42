import Beluga.Py.Access
import Beluga.Py.Strings
import Mathlib.Data.List.TakeWhile

/-! # Words and digits of Python

`str.split()`, and what `str.isdigit` and `int` take for digits. The two do not agree: the
superscript two is a digit, and `int` does not read it. The table is that of the interpreter's
Unicode version. -/

namespace Py

/-! ## Words -/

/-- `s.split()`. -/
def words (cs : List Char) : List (List Char) :=
  (cs.splitOnP isSpace).filter fun w => !w.isEmpty

theorem words_append_cons {c : Char} (h : isSpace c = true) (a b : List Char) :
    words (a ++ c :: b) = words a ++ words b := by
  rw [words, List.splitOnP_append_cons a b h, List.filter_append]
  rfl

theorem words_space_append {gap : List Char} (h : ∀ c ∈ gap, isSpace c = true) (cs : List Char) :
    words (gap ++ cs) = words cs := by
  induction gap with
  | nil => rfl
  | cons c gap ih =>
      have hc := words_append_cons (h c List.mem_cons_self) [] (gap ++ cs)
      rw [List.nil_append] at hc
      rw [List.cons_append, hc, ih fun d hd => h d (List.mem_cons_of_mem _ hd)]
      rfl

theorem words_append_space {gap : List Char} (h : ∀ c ∈ gap, isSpace c = true) (cs : List Char) :
    words (cs ++ gap) = words cs := by
  induction gap generalizing cs with
  | nil => rw [List.append_nil]
  | cons c gap ih =>
      have hnil := words_space_append (fun d hd => h d (List.mem_cons_of_mem c hd)) []
      rw [List.append_nil] at hnil
      rw [words_append_cons (h c List.mem_cons_self), hnil]
      exact List.append_nil _

theorem words_strip (s : String) : words (strip s).toList = words s.toList := by
  have hlead := List.takeWhile_append_dropWhile (p := isSpace) (l := s.toList)
  generalize hmid : s.toList.dropWhile isSpace = mid at hlead
  have htrail := List.takeWhile_append_dropWhile (p := isSpace) (l := mid.reverse)
  have hmid' : mid = (mid.reverse.dropWhile isSpace).reverse ++
      (mid.reverse.takeWhile isSpace).reverse := by
    rw [← List.reverse_append, htrail, List.reverse_reverse]
  have hstrip : (strip s).toList = (mid.reverse.dropWhile isSpace).reverse := by
    rw [strip, hmid, String.toList_ofList]
  rw [hstrip, ← hlead, words_space_append fun c hc => List.mem_takeWhile_imp hc]
  conv_rhs => rw [hmid']
  rw [words_append_space fun c hc => List.mem_takeWhile_imp (List.mem_reverse.mp hc)]

theorem mem_splitOnP {p : Char → Bool} {cs w : List Char} (h : w ∈ cs.splitOnP p) :
    ∀ c ∈ w, c ∈ cs ∧ p c = false := by
  induction cs generalizing w with
  | nil =>
      rw [List.splitOnP_nil, List.mem_singleton] at h
      rw [h]
      exact fun c hc => absurd hc List.not_mem_nil
  | cons d cs ih =>
      rw [List.splitOnP_cons_eq_if_modifyHead] at h
      split at h
      · rcases List.mem_cons.mp h with rfl | h
        · exact fun c hc => absurd hc List.not_mem_nil
        · exact fun c hc => ⟨List.mem_cons_of_mem d (ih h c hc).1, (ih h c hc).2⟩
      · next hd =>
          cases hsplit : cs.splitOnP p with
          | nil => exact absurd hsplit (List.splitOnP_ne_nil p cs)
          | cons v vs =>
              rw [hsplit, List.modifyHead_cons] at h
              rw [hsplit] at ih
              rcases List.mem_cons.mp h with rfl | h
              · refine List.forall_mem_cons.mpr ⟨⟨List.mem_cons_self, by simpa using hd⟩, ?_⟩
                intro c hc
                have hin := ih List.mem_cons_self c hc
                exact ⟨List.mem_cons_of_mem d hin.1, hin.2⟩
              · intro c hc
                have hin := ih (List.mem_cons_of_mem v h) c hc
                exact ⟨List.mem_cons_of_mem d hin.1, hin.2⟩

/-- A word has no white space. -/
theorem mem_words {cs w : List Char} (h : w ∈ words cs) : ∀ c ∈ w, c ∈ cs ∧ isSpace c = false :=
  mem_splitOnP (List.mem_filter.mp h).1

theorem words_blank {s : String} (h : blank s = true) : words s.toList = [] := by
  have hwords := words_space_append (List.all_eq_true.mp h) []
  rw [List.append_nil] at hwords
  exact hwords

/-! ## Digits -/

/-- The digits that an interpreter knows. -/
structure Digits where
  /-- `c.isdigit()`. -/
  isDigit : Char → Bool
  /-- The value of a decimal digit of any script. -/
  decimal : Char → Option ℕ
  /-- `sys.get_int_max_str_digits()`; with 0 there is no limit. -/
  maxStrDigits : ℕ
  /-- What the `ValueError` says that `int` raises. -/
  complaint : List Char → String
  isDigit_ascii : ∀ c, c.toNat < 128 → isDigit c = c.isDigit
  decimal_ascii : ∀ c, c.isDigit = true → decimal c = some (c.toNat - 48)

namespace Digits

variable (py : Digits)

/-- `s.isdigit()`. -/
def isdigit (s : List Char) : Bool := !s.isEmpty && s.all py.isDigit

/-- `int` reads a text of this length. -/
def Fits (n : ℕ) : Prop := py.maxStrDigits = 0 ∨ n ≤ py.maxStrDigits

instance (n : ℕ) : Decidable (py.Fits n) :=
  inferInstanceAs (Decidable (py.maxStrDigits = 0 ∨ n ≤ py.maxStrDigits))

/-- `int` reads these digits. -/
def Reads (s : List Char) : Prop := (∀ c ∈ s, (py.decimal c).isSome) ∧ py.Fits s.length

instance (s : List Char) : Decidable (py.Reads s) :=
  @instDecidableAnd _ _ (List.decidableBAll (fun c => (py.decimal c).isSome = true) s) inferInstance

def value (s : List Char) : ℕ := s.foldl (fun n c => 10 * n + (py.decimal c).getD 0) 0

/-- `int(s)`, where `s.isdigit()`. -/
def int (s : List Char) : Try ℕ :=
  if py.Reads s then .ok (py.value s) else .error (.invalid (py.complaint s))

end Digits

end Py
