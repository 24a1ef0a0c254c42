import Beluga.Js.Strings

/-! # `replaceAll`

`s.replaceAll(pattern, replacement)` for texts, from left to right and without
overlaps.

* `replaceAll_char`: a pattern of one character is replaced character by character.
-/

namespace Js

/-- The rest of a text of which `skip` characters belong to the last match. -/
def replaceFrom (pattern replacement : List Char) : Nat → List Char → List Char
  | _, [] => []
  | skip + 1, _ :: cs => replaceFrom pattern replacement skip cs
  | 0, c :: cs =>
      if pattern <+: c :: cs then
        replacement ++ replaceFrom pattern replacement (pattern.length - 1) cs
      else c :: replaceFrom pattern replacement 0 cs

/-- `s.replaceAll(pattern, replacement)`, where the pattern is not empty. -/
def replaceAll (pattern replacement s : String) : String :=
  String.ofList (replaceFrom pattern.toList replacement.toList 0 s.toList)

variable {pattern replacement : List Char}

/-- Where the pattern matches, it is replaced. -/
theorem replaceFrom_match {c : Char} (cs : List Char) :
    replaceFrom (c :: pattern) replacement 0 (c :: (pattern ++ cs)) =
      replacement ++ replaceFrom (c :: pattern) replacement 0 cs := by
  have hskip : ∀ (xs ys : List Char) (p : List Char),
      replaceFrom p replacement xs.length (xs ++ ys) = replaceFrom p replacement 0 ys := by
    intro xs ys p
    induction xs with
    | nil => rfl
    | cons x xs ih => exact ih
  rw [replaceFrom, if_pos (List.cons_prefix_cons.mpr ⟨rfl, List.prefix_append _ _⟩)]
  show replacement ++ replaceFrom _ replacement pattern.length (pattern ++ cs) = _
  rw [hskip]

theorem replaceFrom_no_match {c : Char} {cs : List Char} (h : ¬ pattern <+: c :: cs) :
    replaceFrom pattern replacement 0 (c :: cs) = c :: replaceFrom pattern replacement 0 cs := by
  rw [replaceFrom, if_neg h]

/-- A pattern of one character. -/
theorem replaceFrom_char (x : Char) (cs : List Char) :
    replaceFrom [x] replacement 0 cs = cs.flatMap fun c => if c = x then replacement else [c] := by
  induction cs with
  | nil => rfl
  | cons c cs ih =>
      by_cases hc : c = x
      · have hmatch := @replaceFrom_match [] replacement x cs
        rw [List.nil_append] at hmatch
        rw [hc, hmatch, ih, List.flatMap_cons, if_pos rfl]
      · have hne : ¬ [x] <+: c :: cs := by
          rw [List.cons_prefix_cons]
          exact fun h => hc h.1.symm
        rw [replaceFrom_no_match hne, ih, List.flatMap_cons, if_neg hc, List.singleton_append]

theorem replaceAll_char (x : Char) (replacement s : String) :
    (replaceAll (String.singleton x) replacement s).toList =
      s.toList.flatMap fun c => if c = x then replacement.toList else [c] := by
  rw [replaceAll, String.toList_ofList, String.toList_singleton, replaceFrom_char]

end Js
