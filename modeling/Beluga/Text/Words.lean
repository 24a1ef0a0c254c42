import Beluga.Text.Regex
import Mathlib.Data.List.DropRight
import Mathlib.Data.List.Basic

/-! # White space

`trim`, and a text as the words between its white space. What is put together
from pieces with white space between them has the words of the pieces
(`words_append_gap`).
-/

namespace Text

def trim (cs : List Char) : List Char := (cs.dropWhile Regex.space).rdropWhile Regex.space

/-- The words of a text. -/
def words (cs : List Char) : List (List Char) :=
  (cs.splitOnP Regex.space).filter fun w => !w.isEmpty

/-- Some white space. -/
def Gap (cs : List Char) : Prop := cs ≠ [] ∧ ∀ c ∈ cs, Regex.space c = true

/-- A text without white space. -/
def Solid (cs : List Char) : Prop := cs ≠ [] ∧ ∀ c ∈ cs, Regex.space c = false

theorem words_append_cons {c : Char} (h : Regex.space c = true) (a b : List Char) :
    words (a ++ c :: b) = words a ++ words b := by
  rw [words, List.splitOnP_append_cons a b h, List.filter_append]
  rfl

theorem words_gap_append {gap cs : List Char} (h : ∀ c ∈ gap, Regex.space c = true) :
    words (gap ++ cs) = words cs := by
  induction gap with
  | nil => rfl
  | cons c gap ih =>
      have hc := words_append_cons (h c List.mem_cons_self) [] (gap ++ cs)
      rw [List.nil_append] at hc
      rw [List.cons_append, hc, ih fun d hd => h d (List.mem_cons_of_mem _ hd)]
      rfl

theorem words_append_gap {gap : List Char} (h : Gap gap) (a b : List Char) :
    words (a ++ (gap ++ b)) = words a ++ words b := by
  obtain ⟨hne, hall⟩ := h
  cases gap with
  | nil => exact absurd rfl hne
  | cons g gap =>
      rw [List.cons_append, words_append_cons (hall g List.mem_cons_self),
        words_gap_append fun d hd => hall d (List.mem_cons_of_mem g hd)]

theorem words_solid {cs : List Char} (h : Solid cs) : words cs = [cs] := by
  rw [words, List.splitOnP_eq_singleton h.2]
  simp [h.1]

/-- The text starts with a word. -/
def Starts (cs : List Char) : Prop := ∃ c rest, cs = c :: rest ∧ Regex.space c = false

/-- The text ends in white space. -/
def EndsBlank (cs : List Char) : Prop := ∃ rest c, cs = rest ++ [c] ∧ Regex.space c = true

/-- Nothing but white space. -/
def Blank (cs : List Char) : Prop := ∀ c ∈ cs, Regex.space c = true

theorem Solid.starts {w : List Char} (h : Solid w) (rest : List Char) : Starts (w ++ rest) := by
  obtain ⟨hne, hall⟩ := h
  cases w with
  | nil => exact absurd rfl hne
  | cons c w => exact ⟨c, w ++ rest, rfl, hall c List.mem_cons_self⟩

theorem Gap.endsBlank {gap : List Char} (h : Gap gap) (a : List Char) : EndsBlank (a ++ gap) := by
  obtain ⟨hne, hall⟩ := h
  refine ⟨a ++ gap.dropLast, gap.getLast hne, ?_, hall _ (List.getLast_mem hne)⟩
  rw [List.append_assoc, List.dropLast_append_getLast hne]

theorem words_blank {cs : List Char} (h : Blank cs) : words cs = [] := by
  have hnil := @words_gap_append _ [] h
  rw [List.append_nil] at hnil
  rw [hnil]
  rfl

theorem words_append_blank {b : List Char} (h : Blank b) (a : List Char) :
    words (a ++ b) = words a := by
  cases b with
  | nil => rw [List.append_nil]
  | cons c b =>
      have hb : words b = [] := words_blank fun d hd => h d (List.mem_cons_of_mem c hd)
      rw [words_append_cons (h c List.mem_cons_self), hb, List.append_nil]

theorem words_ne_nil {cs : List Char} (h : Starts cs) : words cs ≠ [] := by
  obtain ⟨c, rest, rfl, hc⟩ := h
  -- the first word, and what follows it
  have hsplit := List.takeWhile_append_dropWhile (p := fun d => !Regex.space d) (l := c :: rest)
  have hword : Solid ((c :: rest).takeWhile fun d => !Regex.space d) := by
    refine ⟨by simp [hc], fun d hd => ?_⟩
    simpa using List.mem_takeWhile_imp hd
  cases hdrop : (c :: rest).dropWhile fun d => !Regex.space d with
  | nil =>
      rw [hdrop, List.append_nil] at hsplit
      rw [← hsplit, words_solid hword]
      simp
  | cons d after =>
      have hd : Regex.space d = true := by
        have hnot := List.head_dropWhile_not (fun d => !Regex.space d) (l := c :: rest)
          (by simp [hdrop])
        simpa [hdrop] using hnot
      rw [hdrop] at hsplit
      rw [← hsplit, words_append_cons hd, words_solid hword]
      simp

/-- Two cuts of a text before a word, with as many words behind, are the same. -/
theorem align {a b x y : List Char} (h : a ++ x = b ++ y) (ha : EndsBlank a) (hb : EndsBlank b)
    (hx : Starts x) (hy : Starts y) (hlen : (words x).length = (words y).length) :
    a = b ∧ x = y := by
  have key : ∀ {a b x y : List Char}, EndsBlank b → Starts x →
      (words x).length = (words y).length → ∀ m, b = a ++ m → x = m ++ y → m = [] := by
    intro a b x y hb hx hlen m hm hxm
    rcases List.eq_nil_or_concat m with hnil | ⟨init, c, hconcat⟩
    · exact hnil
    exfalso
    -- what is between the cuts starts with a word and ends before the next
    rw [List.concat_eq_append] at hconcat
    subst hconcat
    obtain ⟨rest, d, hrest, hd⟩ := hb
    rw [hm, ← List.append_assoc] at hrest
    have hc : Regex.space c = true := by
      obtain ⟨-, hcd⟩ := List.append_inj' hrest rfl
      rw [List.cons.inj hcd |>.1]
      exact hd
    have hwords : words x = words init ++ words y := by
      rw [hxm, List.append_assoc, List.singleton_append, words_append_cons hc]
    have hnil : words init = [] := by
      have hcount := congrArg List.length hwords
      rw [List.length_append] at hcount
      exact List.length_eq_zero_iff.mp (by omega)
    obtain ⟨e, x', hx', he⟩ := hx
    cases init with
    | nil =>
        rw [hx'] at hxm
        obtain ⟨rfl, -⟩ := List.cons.inj hxm
        rw [he] at hc
        cases hc
    | cons f init =>
        rw [hx'] at hxm
        obtain ⟨rfl, -⟩ := List.cons.inj hxm
        exact words_ne_nil ⟨e, init, rfl, he⟩ hnil
  rcases List.append_eq_append_iff.mp h with ⟨m, hm, hxm⟩ | ⟨m, hm, hym⟩
  · have hnil := key hb hx hlen m hm hxm
    subst hnil
    exact ⟨by simpa using hm.symm, hxm⟩
  · have hnil := key ha hy hlen.symm m hm hym
    subst hnil
    exact ⟨by simpa using hm, hym.symm⟩

/-! ## Trimmed -/

theorem trim_spec (cs : List Char) :
    ∃ lead trail, cs = lead ++ (trim cs ++ trail) ∧ Blank lead ∧ Blank trail := by
  refine ⟨cs.takeWhile Regex.space, (cs.dropWhile Regex.space).rtakeWhile Regex.space, ?_, ?_, ?_⟩
  · rw [trim, List.rdropWhile_append_rtakeWhile, List.takeWhile_append_dropWhile]
  · exact fun c hc => List.mem_takeWhile_imp hc
  · exact fun c hc => List.mem_rtakeWhile_imp hc

theorem words_trim (cs : List Char) : words (trim cs) = words cs := by
  obtain ⟨lead, trail, hcs, hlead, htrail⟩ := trim_spec cs
  have h := congrArg words hcs
  rw [words_gap_append hlead, words_append_blank htrail] at h
  exact h.symm

theorem trim_blank_append {b : List Char} (h : Blank b) (cs : List Char) :
    trim (b ++ cs) = trim cs := by
  rw [trim, List.dropWhile_append_of_pos h, trim]

theorem rdropWhile_append_blank {b : List Char} (h : Blank b) (cs : List Char) :
    (cs ++ b).rdropWhile Regex.space = cs.rdropWhile Regex.space := by
  have hrev : ∀ c ∈ b.reverse, Regex.space c = true := fun c hc => h c (List.mem_reverse.mp hc)
  rw [List.rdropWhile, List.reverse_append, List.dropWhile_append_of_pos hrev, List.rdropWhile]

theorem trim_append_blank {b : List Char} (h : Blank b) (cs : List Char) :
    trim (cs ++ b) = trim cs := by
  rw [trim, List.dropWhile_append]
  split
  case isTrue hempty =>
    have hb : b.dropWhile Regex.space = [] := List.dropWhile_eq_nil_iff.mpr h
    rw [hb, trim, List.isEmpty_iff.mp hempty]
  case isFalse => rw [rdropWhile_append_blank h, trim]

/-- The text ends in a word. -/
def Ends (cs : List Char) : Prop := ∃ rest c, cs = rest ++ [c] ∧ Regex.space c = false

theorem Solid.ends {w : List Char} (h : Solid w) (a : List Char) : Ends (a ++ w) := by
  obtain ⟨hne, hall⟩ := h
  refine ⟨a ++ w.dropLast, w.getLast hne, ?_, hall _ (List.getLast_mem hne)⟩
  rw [List.append_assoc, List.dropLast_append_getLast hne]

theorem Ends.append {b : List Char} (h : Ends b) (a : List Char) : Ends (a ++ b) := by
  obtain ⟨rest, c, rfl, hc⟩ := h
  exact ⟨a ++ rest, c, by rw [List.append_assoc], hc⟩

/-- A text from word to word is not trimmed. -/
theorem trim_eq_self {cs : List Char} (hstarts : Starts cs) (hends : Ends cs) : trim cs = cs := by
  obtain ⟨c, rest, hcs, hc⟩ := hstarts
  obtain ⟨rest', d, hcs', hd⟩ := hends
  have hdrop : cs.dropWhile Regex.space = cs := by
    rw [hcs, List.dropWhile_cons, hc]
    rfl
  rw [trim, hdrop, hcs', List.rdropWhile_concat_neg Regex.space rest' d (by simp [hd])]

theorem rdropWhile_append_ends {front : List Char} (h : Ends front) (b : List Char) :
    (front ++ b).rdropWhile Regex.space = front ++ b.rdropWhile Regex.space := by
  induction b using List.reverseRecOn with
  | nil =>
      obtain ⟨rest, d, rfl, hd⟩ := h
      rw [List.append_nil, List.rdropWhile_concat_neg Regex.space rest d (by simp [hd]),
        List.rdropWhile_nil, List.append_nil]
  | append_singleton b c ih =>
      rw [← List.append_assoc]
      by_cases hc : Regex.space c = true
      · rw [List.rdropWhile_concat_pos _ _ _ hc, List.rdropWhile_concat_pos _ _ _ hc, ih]
      · rw [List.rdropWhile_concat_neg _ _ _ hc, List.rdropWhile_concat_neg _ _ _ hc,
          List.append_assoc]

/-- Around a text from word to word nothing but the two ends is trimmed. -/
theorem trim_around {w : List Char} (hstarts : Starts w) (hends : Ends w) (a b : List Char) :
    trim (a ++ (w ++ b)) = a.dropWhile Regex.space ++ (w ++ b.rdropWhile Regex.space) := by
  have hdrop : (a ++ (w ++ b)).dropWhile Regex.space = a.dropWhile Regex.space ++ (w ++ b) := by
    obtain ⟨c, rest, rfl, hc⟩ := hstarts
    rw [List.dropWhile_append]
    split
    case isTrue hempty =>
      rw [List.isEmpty_iff.mp hempty, List.cons_append,
        List.dropWhile_cons_of_neg (by simp [hc])]
      rfl
    case isFalse => rfl
  rw [trim, hdrop, ← List.append_assoc, rdropWhile_append_ends (hends.append _),
    List.append_assoc]

theorem Solid.trim {w : List Char} (h : Solid w) : trim w = w := by
  have hstarts := h.starts []
  rw [List.append_nil] at hstarts
  exact trim_eq_self hstarts (h.ends [])

/-! ## Keywords -/

/-- The letters of `w`, in any case. -/
def Letters (w : String) (cs : List Char) : Prop := cs.map Char.toUpper = w.toList.map Char.toUpper

instance (w : String) (cs : List Char) : Decidable (Letters w cs) :=
  inferInstanceAs (Decidable (cs.map Char.toUpper = w.toList.map Char.toUpper))

theorem toUpper_space {c : Char} (h : Regex.space c = true) : c.toUpper = c := by
  unfold Char.toUpper
  split
  case isTrue hlower =>
    exfalso
    simp only [UInt32.le_iff_toNat_le] at hlower
    simp only [Regex.space, Bool.or_eq_true, Bool.and_eq_true, decide_eq_true_eq] at h
    simp only [show c.val.toNat = c.toNat from rfl] at hlower
    simp at hlower
    omega
  case isFalse => rfl

/-- A keyword is a word. -/
theorem Letters.solid {w : String} {cs : List Char} (h : Letters w cs) (hne : w.toList ≠ [])
    (hw : ∀ x ∈ w.toList.map Char.toUpper, Regex.space x = false) : Solid cs := by
  refine ⟨?_, ?_⟩
  · rintro rfl
    rw [Letters, List.map_nil] at h
    exact hne (List.map_eq_nil_iff.mp h.symm)
  · intro c hc
    by_contra hspace
    have hs : Regex.space c = true := by simpa using hspace
    have hmem : c ∈ w.toList.map Char.toUpper := by
      rw [← h, ← toUpper_space hs]
      exact List.mem_map_of_mem hc
    rw [hw c hmem] at hs
    cases hs

theorem Letters.length {w : String} {cs : List Char} (h : Letters w cs) :
    cs.length = w.toList.length := by
  simpa using congrArg List.length h

end Text
