import Mathlib.Data.List.Infix

/-! # Texts split at a separator

`split` cuts a text at every place where a separator of several letters is found.

* `split_intercalate`: pieces that are put together with the separator are found again, where the
  separator does not begin within a piece;
* `free_words`: a word between two gaps does not begin within a piece of other words.
-/

namespace Text

section Split

variable {α : Type} {sep p q cs : List α}

section Pieces

variable [DecidableEq α]

/-- The pieces of a text after `skip` letters, with what is read of the first one. -/
def splitFrom (sep : List α) : ℕ → List α → List α → List (List α)
  | _, read, [] => [read.reverse]
  | skip + 1, read, _ :: cs => splitFrom sep skip read cs
  | 0, read, c :: cs =>
      if sep <+: c :: cs then read.reverse :: splitFrom sep (sep.length - 1) [] cs
      else splitFrom sep 0 (c :: read) cs

/-- The pieces between the places where the separator is found. -/
def split (sep cs : List α) : List (List α) := splitFrom sep 0 [] cs

def includes (sep cs : List α) : Bool := decide (sep <:+: cs)

end Pieces

/-- The separator does not begin within `p`, where `tail` follows. -/
def Free (sep : List α) : List α → List α → Prop
  | [], _ => True
  | c :: p, tail => ¬ sep <+: c :: (p ++ tail) ∧ Free sep p tail

theorem free_append {tail : List α} :
    Free sep (p ++ q) tail ↔ Free sep p (q ++ tail) ∧ Free sep q tail := by
  induction p with
  | nil => exact (iff_of_eq (true_and _)).symm
  | cons c p ih =>
      rw [List.cons_append, Free, Free, ih, and_assoc, List.append_assoc]

section Pieces

variable [DecidableEq α]

theorem splitFrom_skip {read xs : List α} : splitFrom sep xs.length read (xs ++ cs) =
    splitFrom sep 0 read cs := by
  induction xs with
  | nil => rfl
  | cons x xs ih =>
      rw [List.length_cons, List.cons_append, splitFrom, ih]

theorem splitFrom_free {tail read : List α} (h : Free sep p tail) :
    splitFrom sep 0 read (p ++ tail) = splitFrom sep 0 (p.reverse ++ read) tail := by
  induction p generalizing read with
  | nil => rfl
  | cons c p ih =>
      rw [List.cons_append, splitFrom, if_neg h.1, ih h.2, List.reverse_cons, List.append_assoc]
      rfl

theorem splitFrom_sep {read : List α} (h : sep ≠ []) : splitFrom sep 0 read (sep ++ cs) =
    read.reverse :: split sep cs := by
  cases sep with
  | nil => exact absurd rfl h
  | cons c sep =>
      rw [List.cons_append, splitFrom, ← List.cons_append, if_pos (List.prefix_append _ cs)]
      exact congrArg _ splitFrom_skip

end Pieces

/-- The separator begins within no piece, at the end or before another one. -/
def Pieces (sep : List α) (ps : List (List α)) : Prop :=
  ∀ p ∈ ps, ∀ tail, (tail = [] ∨ sep <+: tail) → Free sep p tail

theorem Free.not_within (hsep : sep ≠ []) (h : Free sep p []) : ¬ sep <:+: p := by
  induction p with
  | nil =>
      intro hinfix
      exact hsep (List.infix_nil.mp hinfix)
  | cons c p ih =>
      intro hinfix
      rcases List.infix_cons_iff.mp hinfix with hprefix | hinfix
      · rw [Free, List.append_nil] at h
        exact h.1 hprefix
      · exact ih h.2 hinfix

section Pieces

variable [DecidableEq α]

theorem split_intercalate {ps : List (List α)} (hsep : sep ≠ []) (hne : ps ≠ [])
    (h : Pieces sep ps) : split sep (sep.intercalate ps) = ps := by
  induction ps with
  | nil => exact absurd rfl hne
  | cons p ps ih =>
      rcases List.forall_mem_cons.mp h with ⟨hp, hps⟩
      cases ps with
      | nil =>
          have hfree := @splitFrom_free _ _ _ _ _ [] (hp [] (.inl rfl))
          rw [List.append_nil, List.append_nil] at hfree
          rw [List.intercalate_singleton, split, hfree, splitFrom, List.reverse_reverse]
      | cons p' ps =>
          rw [List.intercalate_cons_cons, List.append_assoc, split,
            splitFrom_free (hp _ (.inr (List.prefix_append _ _))), splitFrom_sep hsep,
            ih (List.cons_ne_nil _ _) hps, List.append_nil, List.reverse_reverse]

theorem includes_intercalate {ps : List (List α)} (hsep : sep ≠ []) (hne : ps ≠ [])
    (h : Pieces sep ps) : includes sep (sep.intercalate ps) = true ↔ 2 ≤ ps.length := by
  rw [includes, decide_eq_true_iff]
  cases ps with
  | nil => exact absurd rfl hne
  | cons p ps =>
      cases ps with
      | nil =>
          rw [List.intercalate_singleton]
          have hnot := (h p List.mem_cons_self [] (.inl rfl)).not_within hsep
          constructor
          · intro hinfix
            exact absurd hinfix hnot
          · intro hlength
            rw [List.length_singleton] at hlength
            omega
      | cons p' ps =>
          rw [List.intercalate_cons_cons]
          constructor
          · intro _
            rw [List.length_cons, List.length_cons]
            omega
          · intro _
            exact List.infix_append p sep _

end Pieces

/-! ## Words between gaps -/

/-- A word with a gap on both sides. -/
def between (gap : α) (op : List α) : List α := gap :: (op ++ [gap])

theorem between_ne_nil (gap : α) (op : List α) : between gap op ≠ [] := List.cons_ne_nil _ _

/-- Nothing follows, or a gap. -/
def AtGap (gap : α) (tail : List α) : Prop := tail = [] ∨ ∃ rest, tail = gap :: rest

theorem eq_of_cut {gap : α} {op w tail : List α} (hop : gap ∉ op) (hw : gap ∉ w)
    (htail : AtGap gap tail) (h : op ++ [gap] <+: w ++ tail) : op = w := by
  induction op generalizing w with
  | nil =>
      cases w with
      | nil => rfl
      | cons c w =>
          rw [List.nil_append, List.cons_append, List.cons_prefix_cons] at h
          exact absurd (h.1 ▸ List.mem_cons_self) hw
  | cons a op ih =>
      rw [List.mem_cons, not_or] at hop
      cases w with
      | nil =>
          rcases htail with rfl | htail
          · rw [List.append_nil, List.prefix_nil] at h
            cases h
          · rcases htail with ⟨rest, rfl⟩
            rw [List.nil_append, List.cons_append, List.cons_prefix_cons] at h
            exact absurd h.1.symm hop.1
      | cons c w =>
          rw [List.cons_append, List.cons_append, List.cons_prefix_cons] at h
          rw [List.mem_cons, not_or] at hw
          rw [h.1, ih hop.2 hw.2 h.2]

theorem free_word {gap : α} {op w tail : List α} (hw : gap ∉ w) :
    Free (between gap op) w tail := by
  induction w with
  | nil => trivial
  | cons c w ih =>
      rw [List.mem_cons, not_or] at hw
      refine ⟨fun hprefix => ?_, ih hw.2⟩
      rw [between, List.cons_prefix_cons] at hprefix
      exact hw.1 hprefix.1

theorem free_words {gap : α} {op tail : List α} {ws : List (List α)} (hop : gap ∉ op)
    (hws : ∀ w ∈ ws, gap ∉ w ∧ w ≠ op) (htail : AtGap gap tail) :
    Free (between gap op) ([gap].intercalate ws) tail := by
  induction ws with
  | nil => trivial
  | cons w ws ih =>
      rcases List.forall_mem_cons.mp hws with ⟨hw, hrest⟩
      cases ws with
      | nil =>
          rw [List.intercalate_singleton]
          exact free_word hw.1
      | cons w' ws =>
          rw [List.intercalate_cons_cons, free_append, free_append]
          refine ⟨⟨free_word hw.1, ⟨fun hprefix => ?_, trivial⟩⟩, ih hrest⟩
          -- the next word would be the one between the gaps
          have hnext := hrest w' List.mem_cons_self
          rw [between, List.nil_append, List.cons_prefix_cons] at hprefix
          have hsame : ∃ tail', AtGap gap tail' ∧
              [gap].intercalate (w' :: ws) ++ tail = w' ++ tail' := by
            cases ws with
            | nil => exact ⟨tail, htail, by rw [List.intercalate_singleton]⟩
            | cons w'' ws =>
                refine ⟨gap :: ([gap].intercalate (w'' :: ws) ++ tail), .inr ⟨_, rfl⟩, ?_⟩
                rw [List.intercalate_cons_cons, List.append_assoc, List.append_assoc]
                rfl
          rcases hsame with ⟨tail', htail', heq⟩
          rw [heq] at hprefix
          exact hnext.2 (eq_of_cut hop hnext.1 htail' hprefix.2).symm

theorem mem_intersperse {op w : List α} {ws : List (List α)} (h : w ∈ ws.intersperse op) :
    w = op ∨ w ∈ ws := by
  induction ws with
  | nil => cases h
  | cons w' ws ih =>
      cases ws with
      | nil => exact .inr h
      | cons w'' ws =>
          rw [List.intersperse_cons_cons, List.mem_cons, List.mem_cons] at h
          rcases h with rfl | rfl | h
          · exact .inr List.mem_cons_self
          · exact .inl rfl
          · exact (ih h).imp id (List.mem_cons_of_mem w')

theorem intercalate_between (gap : α) (op : List α) (ws : List (List α)) :
    (between gap op).intercalate ws = [gap].intercalate (ws.intersperse op) := by
  induction ws with
  | nil => rfl
  | cons w ws ih =>
      cases ws with
      | nil => rfl
      | cons w' ws =>
          have hcons : ∃ rest, (w' :: ws).intersperse op = w' :: rest := by
            cases ws with
            | nil => exact ⟨[], rfl⟩
            | cons w'' ws => exact ⟨_, List.intersperse_cons_cons⟩
          rcases hcons with ⟨rest, hrest⟩
          rw [List.intercalate_cons_cons, ih, List.intersperse_cons_cons, hrest,
            List.intercalate_cons_cons, List.intercalate_cons_cons, between]
          simp only [List.append_assoc, List.cons_append, List.nil_append]

theorem pieces_words {gap : α} {op : List α} {gs : List (List (List α))} (hop : gap ∉ op)
    (h : ∀ g ∈ gs, ∀ w ∈ g, gap ∉ w ∧ w ≠ op) :
    Pieces (between gap op) (gs.map [gap].intercalate) := by
  intro p hp tail htail
  rcases List.mem_map.mp hp with ⟨g, hg, rfl⟩
  refine free_words hop (h g hg) (htail.imp id fun hprefix => ?_)
  rcases hprefix with ⟨rest, rfl⟩
  exact ⟨_, rfl⟩

end Split

end Text
