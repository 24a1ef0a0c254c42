import Beluga.Ci.LicensePolicy
import Beluga.Py.Dict
import Beluga.Text.Spdx

/-! # Which license expressions the policy approves

* `approved_iff`: what of the words of an expression is approved;
* `license_approved_iff`: when that is the value of the expression.
-/

namespace Ci

open Js

open Spdx

open Text (Solid trim split includes between Pieces between_ne_nil free_word includes_intercalate
  intercalate_between mem_intersperse pieces_words split_intercalate trim_eq_self)

open Py (bind_ok_iff mem_of_mapM ok_of_mapM)

variable {approved : List Ident} {gs : List (List Word)} {g : List Word} {w : Word} {e : Expr}

/-- The approved set, of the identifiers. -/
def namesOf (approved : List Ident) : List String := approved.map fun id => String.ofList id.text

/-! ## Words -/

theorem mem_word {c : Char} (h : c ∈ w.text) : c = '(' ∨ c ∈ w.id.text ∨ c = ')' := by
  rw [Word.text, List.mem_append, List.mem_append] at h
  rcases h with h | h | h
  · exact .inl (List.eq_of_mem_replicate h)
  · exact .inr (.inl h)
  · exact .inr (.inr (List.eq_of_mem_replicate h))

theorem word_solid (w : Word) : Solid w.text := by
  constructor
  · intro hnil
    rw [Word.text, List.append_eq_nil_iff, List.append_eq_nil_iff] at hnil
    exact w.id.solid.1 hnil.2.1
  · intro c hc
    rcases mem_word hc with rfl | hid | rfl
    · rfl
    · exact w.id.solid.2 c hid
    · rfl

theorem blank_notMem (w : Word) : ' ' ∉ w.text := by
  intro hmem
  have hsolid := (word_solid w).2 ' ' hmem
  cases hsolid

/-- A word is its identifier, where no parenthesis is next to it. -/
theorem word_plain {cs : List Char} (hcs : ∀ c ∈ cs, c ≠ '(' ∧ c ≠ ')') (h : w.text = cs) :
    w.opens = 0 ∧ w.closes = 0 ∧ w.id.text = cs := by
  have hopen : w.opens = 0 := by
    by_contra hne
    refine (hcs '(' ?_).1 rfl
    rw [← h, Word.text]
    exact List.mem_append_left _ (List.mem_replicate.mpr ⟨hne, rfl⟩)
  have hclose : w.closes = 0 := by
    by_contra hne
    refine (hcs ')' ?_).2 rfl
    rw [← h, Word.text]
    exact List.mem_append_right _ (List.mem_append_right _ (List.mem_replicate.mpr ⟨hne, rfl⟩))
  rw [Word.text, hopen, hclose] at h
  exact ⟨hopen, hclose, by simpa using h⟩

theorem word_ne_or (w : Word) : w.text ≠ ['O', 'R'] := by
  intro h
  exact w.id.notOr (word_plain (by decide) h).2.2

theorem word_ne_and (w : Word) : w.text ≠ ['A', 'N', 'D'] := by
  intro h
  exact w.id.notAnd (word_plain (by decide) h).2.2

theorem word_mem_names : String.ofList w.text ∈ namesOf approved ↔
    w.opens = 0 ∧ w.closes = 0 ∧ w.id ∈ approved := by
  rw [namesOf, List.mem_map]
  constructor
  · intro h
    rcases h with ⟨id, hid, htext⟩
    rcases word_plain id.plain (String.ofList_injective htext).symm with ⟨hopen, hclose, hsame⟩
    exact ⟨hopen, hclose, Ident.ext_text hsame ▸ hid⟩
  · intro h
    rcases h with ⟨hopen, hclose, hid⟩
    refine ⟨w.id, hid, ?_⟩
    rw [Word.text, hopen, hclose]
    simp

/-! ## One parenthesis less at each end -/

def lessOpen (w : Word) : Word := { w with opens := w.opens - 1 }

def lessClose (w : Word) : Word := { w with closes := w.closes - 1 }

def lessParens (gs : List (List Word)) : List (List Word) := mapLast lessClose (mapFirst lessOpen gs)

theorem full_lessParens (h : Full gs) : Full (lessParens gs) := h.mapFirst.mapLast

theorem dropOpen_word (w : Word) (rest : List Char) :
    dropOpen (w.text ++ rest) = (lessOpen w).text ++ rest := by
  cases hopen : w.opens with
  | zero =>
      have hless : lessOpen w = w := by
        rw [lessOpen, hopen]
        cases w
        cases hopen
        rfl
      rw [hless, Word.text, hopen, List.replicate_zero, List.nil_append]
      cases hid : w.id.text with
      | nil => exact absurd hid w.id.solid.1
      | cons c cs =>
          have hc := (w.id.plain c (by rw [hid]; exact List.mem_cons_self)).1
          rw [List.cons_append, List.cons_append]
          unfold dropOpen
          split
          case h_1 heq => exact absurd (List.cons.inj heq).1 hc
          case h_2 => rfl
  | succ n =>
      rw [Word.text, lessOpen, Word.text, hopen, List.replicate_succ]
      rfl

theorem dropClose_word (front : List Char) (w : Word) :
    dropClose (front ++ w.text) = front ++ (lessClose w).text := by
  cases hclose : w.closes with
  | zero =>
      have hless : lessClose w = w := by
        rw [lessClose, hclose]
        cases w
        cases hclose
        rfl
      rw [hless, Word.text, hclose, List.replicate_zero, List.append_nil, ← List.append_assoc]
      rcases List.eq_nil_or_concat w.id.text with hnil | hconcat
      · exact absurd hnil w.id.solid.1
      · rcases hconcat with ⟨cs, c, hid⟩
        have hc := (w.id.plain c (by rw [hid]; simp)).2
        rw [hid, List.concat_eq_append, dropClose, ← List.append_assoc, List.getLast?_append]
        exact if_neg fun heq => hc (Option.some.inj heq)
  | succ n =>
      have htext : front ++ w.text = front ++ (lessClose w).text ++ [')'] := by
        rw [Word.text, lessClose, Word.text, hclose, List.replicate_succ']
        simp only [List.append_assoc, Nat.add_sub_cancel]
      rw [htext, dropClose, List.getLast?_append, List.dropLast_concat]
      rfl

theorem stripParens_render (h : Full gs) : stripParens (render gs) = render (lessParens gs) := by
  have hfirst : Full (mapFirst lessOpen gs) := h.mapFirst
  rcases h.first_text with ⟨w, rest, htext, hall⟩
  rcases hfirst.last_text with ⟨front, w', htext', hall'⟩
  rw [stripParens, lessParens, htext, dropOpen_word, ← hall, htext', dropClose_word, hall']

theorem trim_render (h : Full gs) : trim (render gs) = render gs := by
  rcases h.first_text with ⟨w, rest, hstart, -⟩
  rcases h.last_text with ⟨front, w', hend, -⟩
  exact trim_eq_self (hstart ▸ (word_solid w).starts rest) (hend ▸ (word_solid w').ends front)

/-! ## The names that a text can be -/

theorem blank_mem_render (h : Full gs) (hw : ∀ w, gs ≠ [[w]]) : ' ' ∈ render gs := by
  rcases h.exists_cons with ⟨w, g, gs', rfl⟩
  cases gs' with
  | nil =>
      cases g with
      | nil => exact absurd rfl (hw w)
      | cons w' g =>
          rw [render_singleton, ← List.singleton_append, groupText_append (List.cons_ne_nil _ _)
            (List.cons_ne_nil _ _)]
          simp [andText]
  | cons g' gs' =>
      rw [render_cons (List.cons_ne_nil _ _)]
      simp [orText]

theorem render_mem_names (h : Full gs) : String.ofList (render gs) ∈ namesOf approved ↔
    ∃ w, gs = [[w]] ∧ w.opens = 0 ∧ w.closes = 0 ∧ w.id ∈ approved := by
  by_cases hword : ∃ w, gs = [[w]]
  · rcases hword with ⟨w, rfl⟩
    rw [render_singleton, groupText, List.map_singleton, List.intercalate_singleton, word_mem_names]
    constructor
    · intro hmem
      exact ⟨w, rfl, hmem⟩
    · intro hmem
      rcases hmem with ⟨w', heq, hmem⟩
      cases heq
      exact hmem
  · have hblank := blank_mem_render h fun w hw => hword ⟨w, hw⟩
    constructor
    · intro hmem
      rcases List.mem_map.mp hmem with ⟨id, -, htext⟩
      rw [← String.ofList_injective htext] at hblank
      have hsolid := id.solid.2 ' ' hblank
      cases hsolid
    · intro hmem
      rcases hmem with ⟨w, rfl, -⟩
      exact absurd ⟨w, rfl⟩ hword

/-- At most one parenthesis on each side. -/
def Bare (w : Word) : Prop := w.opens ≤ 1 ∧ w.closes ≤ 1

theorem partApproved_group (hg : g ≠ []) : partApproved (namesOf approved) (groupText g) = true ↔
    ∃ w, g = [w] ∧ Bare w ∧ w.id ∈ approved := by
  have hfull : Full [g] := .cons hg fun g' hg' => by cases hg'
  rw [partApproved, decide_eq_true_iff, ← render_singleton, trim_render hfull,
    stripParens_render hfull, render_mem_names (full_lessParens hfull)]
  cases g with
  | nil => exact absurd rfl hg
  | cons w g =>
      cases g with
      | nil =>
          constructor
          · intro h
            rcases h with ⟨w', heq, hopen, hclose, hid⟩
            cases heq
            refine ⟨w, rfl, ⟨?_, ?_⟩, hid⟩
            · exact Nat.sub_eq_zero_iff_le.mp hopen
            · exact Nat.sub_eq_zero_iff_le.mp hclose
          · intro h
            rcases h with ⟨w', heq, hbare, hid⟩
            cases heq
            exact ⟨_, rfl, Nat.sub_eq_zero_of_le hbare.1, Nat.sub_eq_zero_of_le hbare.2, hid⟩
      | cons w' g =>
          constructor
          · intro h
            rcases h with ⟨w'', heq, -⟩
            have hrest : onLast lessClose (w' :: g) = [] :=
              (List.cons.inj (List.cons.inj heq).1).2
            cases g with
            | nil => cases hrest
            | cons w₂ g => cases hrest
          · intro h
            rcases h with ⟨w'', heq, -⟩
            cases heq

/-! ## What is approved -/

theorem lessParens_singleton (h : Full gs) : (∃ g, lessParens gs = [g]) ↔ ∃ g, gs = [g] := by
  rcases h.exists_cons with ⟨w, g, gs', rfl⟩
  cases gs' with
  | nil =>
      constructor
      · intro _
        exact ⟨_, rfl⟩
      · intro _
        exact ⟨_, rfl⟩
  | cons g' gs' =>
      constructor
      · intro hone
        rcases hone with ⟨g'', heq⟩
        have hrest : onLast (onLast lessClose) (g' :: gs') = [] := (List.cons.inj heq).2
        cases gs' with
        | nil => cases hrest
        | cons g₂ gs' => cases hrest
      · intro hone
        rcases hone with ⟨g'', heq⟩
        cases heq

/-- A word of its own, up to its parentheses. -/
theorem one_word {ws : List Word} (h : Full gs) (hws : lessParens gs = [ws])
    (hlength : ¬ 2 ≤ ws.length) : ∃ w, gs = [[w]] ∧ ws = [lessClose (lessOpen w)] := by
  rcases (lessParens_singleton h).mp ⟨ws, hws⟩ with ⟨g, rfl⟩
  rcases h.exists_cons with ⟨w, g', gs', heq⟩
  rcases List.cons.inj heq with ⟨rfl, -⟩
  have hlast : ws = onLast lessClose (lessOpen w :: g') := (List.cons.inj hws).1.symm
  cases g' with
  | nil => exact ⟨w, rfl, hlast⟩
  | cons w' g' =>
      refine absurd ?_ hlength
      rw [hlast, onLast, List.length_cons]
      cases g' with
      | nil => simp [onLast]
      | cons w'' g' => simp [onLast]

theorem OR_ne_nil : OR ≠ [] := between_ne_nil ' ' ['O', 'R']

theorem AND_ne_nil : AND ≠ [] := between_ne_nil ' ' ['A', 'N', 'D']

theorem one_group (h : Full gs) (hlength : ¬ 2 ≤ gs.length) : ∃ g, gs = [g] := by
  cases gs with
  | nil => exact absurd rfl h.1
  | cons g gs =>
      cases gs with
      | nil => exact ⟨g, rfl⟩
      | cons g' gs => exact absurd (by simp) hlength

theorem pieces_or (gs : List (List Word)) : Pieces OR (gs.map groupText) := by
  have hgroups : gs.map groupText =
      (gs.map fun g => (g.map Word.text).intersperse ['A', 'N', 'D']).map [' '].intercalate := by
    rw [List.map_map]
    exact List.map_congr_left fun g _ => intercalate_between ' ' ['A', 'N', 'D'] (g.map Word.text)
  rw [hgroups]
  have hop : ' ' ∉ ['O', 'R'] := by decide
  refine pieces_words hop fun ws hws word hword => ?_
  rcases List.mem_map.mp hws with ⟨g, -, rfl⟩
  rcases mem_intersperse hword with rfl | hmem
  · exact ⟨by decide, by decide⟩
  · rcases List.mem_map.mp hmem with ⟨w, -, rfl⟩
    exact ⟨blank_notMem w, word_ne_or w⟩

theorem pieces_and (g : List Word) : Pieces AND (g.map Word.text) := by
  intro p hp tail _
  rcases List.mem_map.mp hp with ⟨w, -, rfl⟩
  have hfree : Text.Free (between ' ' ['A', 'N', 'D']) w.text tail := free_word (blank_notMem w)
  exact hfree

/-- What the words between the ORs say, or between the ANDs. -/
theorem parts_approved (h : Full gs) :
    (if includes OR (render gs) then (split OR (render gs)).any (partApproved (namesOf approved))
      else if includes AND (render gs) then
        (split AND (render gs)).all (partApproved (namesOf approved))
      else false) = true ↔
    (2 ≤ gs.length ∧ ∃ w, [w] ∈ gs ∧ Bare w ∧ w.id ∈ approved) ∨
      ∃ ws, gs = [ws] ∧ 2 ≤ ws.length ∧ ∀ w ∈ ws, Bare w ∧ w.id ∈ approved := by
  have hne : gs.map groupText ≠ [] := by simpa using h.1
  have hor : includes OR (render gs) = true ↔ 2 ≤ gs.length := by
    rw [← @List.length_map _ _ gs groupText]
    exact includes_intercalate OR_ne_nil hne (pieces_or gs)
  by_cases hlength : 2 ≤ gs.length
  · have hsplit : split OR (render gs) = gs.map groupText :=
      split_intercalate OR_ne_nil hne (pieces_or gs)
    rw [if_pos (hor.mpr hlength), hsplit, List.any_eq_true]
    constructor
    · intro hany
      rcases hany with ⟨part, hpart, happroved⟩
      rcases List.mem_map.mp hpart with ⟨g, hg, rfl⟩
      rcases (partApproved_group (h.2 g hg)).mp happroved with ⟨w, rfl, hw⟩
      exact .inl ⟨hlength, w, hg, hw⟩
    · intro hword
      rcases hword with hword | hone
      · rcases hword with ⟨-, w, hw, hbare⟩
        exact ⟨_, List.mem_map.mpr ⟨[w], hw, rfl⟩,
          (partApproved_group (List.cons_ne_nil _ _)).mpr ⟨w, rfl, hbare⟩⟩
      · rcases hone with ⟨ws, rfl, -⟩
        rw [List.length_singleton] at hlength
        omega
  · rw [if_neg fun hincludes => hlength (hor.mp hincludes)]
    rcases one_group h hlength with ⟨ws, rfl⟩
    have hws : ws.map Word.text ≠ [] := by simpa using h.2 ws List.mem_cons_self
    have hand : includes AND (render [ws]) = true ↔ 2 ≤ ws.length := by
      rw [← @List.length_map _ _ ws Word.text, render_singleton]
      exact includes_intercalate AND_ne_nil hws (pieces_and ws)
    have hpart : ∀ w, partApproved (namesOf approved) w.text = true ↔ Bare w ∧ w.id ∈ approved := by
      intro w
      have hgroup := @partApproved_group approved [w] (List.cons_ne_nil _ _)
      rw [groupText, List.map_singleton, List.intercalate_singleton] at hgroup
      rw [hgroup]
      constructor
      · intro hw
        rcases hw with ⟨w', heq, hw⟩
        cases heq
        exact hw
      · intro hw
        exact ⟨w, rfl, hw⟩
    by_cases htwo : 2 ≤ ws.length
    · have hsplit : split AND (render [ws]) = ws.map Word.text := by
        rw [render_singleton]
        exact split_intercalate AND_ne_nil hws (pieces_and ws)
      rw [if_pos (hand.mpr htwo), hsplit, List.all_eq_true]
      constructor
      · intro hall
        refine .inr ⟨ws, rfl, htwo, fun w hw => (hpart w).mp (hall _ (List.mem_map_of_mem hw))⟩
      · intro hword part hmem
        rcases List.mem_map.mp hmem with ⟨w, hw, rfl⟩
        rcases hword with hword | hall
        · exact absurd hword.1 hlength
        · rcases hall with ⟨ws', heq, -, hall⟩
          rw [List.cons.inj heq |>.1] at hw
          exact (hpart w).mpr (hall w hw)
    · rw [if_neg fun hincludes => htwo (hand.mp hincludes)]
      constructor
      · intro hfalse
        cases hfalse
      · intro hword
        rcases hword with hword | hall
        · exact absurd hword.1 hlength
        · rcases hall with ⟨ws', heq, htwo', -⟩
          rw [← (List.cons.inj heq).1] at htwo'
          exact absurd htwo' htwo

theorem ids_lessParens (h : Full gs) : ids (lessParens gs) = ids gs := by
  have hfirst : Full (mapFirst lessOpen gs) := h.mapFirst
  have hlast : ids (lessParens gs) = ids (mapFirst lessOpen gs) :=
    hfirst.ids_mapLast fun _ => rfl
  rw [hlast]
  exact h.ids_mapFirst fun _ => rfl

theorem length_lessParens (h : Full gs) : (lessParens gs).length = gs.length := by
  have hids := congrArg List.length (ids_lessParens h)
  rwa [ids, ids, List.length_map, List.length_map] at hids

/-- An approved word of its own, one parenthesis on a side at most, stands between ORs. -/
def LoneApproved (approved : List Ident) (e : Expr) : Prop :=
  ∃ w, [w] ∈ lessParens e.alternatives ∧ Bare w ∧ w.id ∈ approved

theorem approved_iff : isLicenseApproved (String.ofList e.text) (namesOf approved) = true ↔
    (∃ w, e.alternatives = [[w]] ∧ w.opens = 0 ∧ w.closes = 0 ∧ w.id ∈ approved) ∨
      (2 ≤ e.alternatives.length ∧ LoneApproved approved e) ∨
      ∃ ws, lessParens e.alternatives = [ws] ∧ 2 ≤ ws.length ∧
        ∀ w ∈ ws, Bare w ∧ w.id ∈ approved := by
  have hparts := @parts_approved approved _ (full_lessParens e.full)
  rw [length_lessParens e.full] at hparts
  rw [LoneApproved, ← hparts, ← render_mem_names e.full, ← e.text_eq_render]
  unfold isLicenseApproved
  rw [String.toList_ofList, e.text_eq_render, stripParens_render e.full,
    trim_render (full_lessParens e.full)]
  by_cases hlisted : String.ofList (render e.alternatives) ∈ namesOf approved
  · rw [if_pos hlisted]
    exact ⟨fun _ => .inl hlisted, fun _ => rfl⟩
  · rw [if_neg hlisted]
    exact ⟨fun h => .inr h, fun h => h.resolve_left hlisted⟩

theorem approved_choice (h : 2 ≤ e.alternatives.length) :
    isLicenseApproved (String.ofList e.text) (namesOf approved) = true ↔
      LoneApproved approved e := by
  rw [approved_iff]
  constructor
  · intro happroved
    rcases happroved with hword | hlone | hall
    · rcases hword with ⟨w, hw, -⟩
      rw [hw, List.length_singleton] at h
      omega
    · exact hlone.2
    · rcases hall with ⟨ws, hws, -⟩
      rw [← length_lessParens e.full, hws, List.length_singleton] at h
      omega
  · intro hlone
    exact .inr (.inl ⟨h, hlone⟩)

theorem approved_single (h : e.alternatives = [[w]]) :
    isLicenseApproved (String.ofList e.text) (namesOf approved) = true ↔
      w.opens = 0 ∧ w.closes = 0 ∧ w.id ∈ approved := by
  rw [approved_iff, h]
  constructor
  · intro happroved
    rcases happroved with hword | hlone | hall
    · rcases hword with ⟨w', heq, hw'⟩
      cases heq
      exact hw'
    · rw [List.length_singleton] at hlone
      omega
    · rcases hall with ⟨ws, heq, hlength, -⟩
      cases heq
      have htwo : 2 ≤ 1 := hlength
      omega
  · intro hw
    exact .inl ⟨w, rfl, hw⟩

theorem approved_combined {ws : List Word} (h : lessParens e.alternatives = [ws])
    (hlength : 2 ≤ ws.length) : isLicenseApproved (String.ofList e.text) (namesOf approved) = true ↔
      ∀ w ∈ ws, Bare w ∧ w.id ∈ approved := by
  rw [approved_iff]
  constructor
  · intro happroved
    rcases happroved with hword | hlone | hall
    · rcases hword with ⟨w, hw, -⟩
      rw [hw] at h
      cases h
      have htwo : 2 ≤ 1 := hlength
      omega
    · rw [← length_lessParens e.full, h, List.length_singleton] at hlone
      omega
    · rcases hall with ⟨ws', heq, -, hall⟩
      rw [h] at heq
      cases heq
      exact hall
  · intro hall
    exact .inr (.inr ⟨ws, h, hlength, hall⟩)

/-- Without an OR, every license has to be approved. -/
theorem holds_combined {ws : List Word} (h : lessParens e.alternatives = [ws]) :
    e.Holds (· ∈ approved) ↔ ∀ w ∈ ws, w.id ∈ approved := by
  have hids : ids e.alternatives = [ws.map Word.id] := by
    rw [← ids_lessParens e.full, h]
    rfl
  rw [e.holds_of_one hids, List.forall_mem_map]

/-- The expressions whose value `isLicenseApproved` finds. -/
structure Evaluated (approved : List Ident) (e : Expr) : Prop where
  /-- A license of its own stands without parentheses. -/
  single : ∀ w, e.alternatives = [[w]] → w.id ∈ approved → w.opens = 0 ∧ w.closes = 0
  /-- Licenses that are all approved have one parenthesis on a side at most. -/
  combined : ∀ ws, lessParens e.alternatives = [ws] → 2 ≤ ws.length →
    e.Holds (· ∈ approved) → ∀ w ∈ ws, Bare w
  /-- With an OR, the value is decided by the licenses that stand alone. -/
  choice : 2 ≤ e.alternatives.length → (e.Holds (· ∈ approved) ↔ LoneApproved approved e)

theorem Evaluated.approved_iff_holds (h : Evaluated approved e) :
    isLicenseApproved (String.ofList e.text) (namesOf approved) = true ↔ e.Holds (· ∈ approved) := by
  by_cases hlength : 2 ≤ e.alternatives.length
  · rw [approved_choice hlength, h.choice hlength]
  · rcases one_group e.full hlength with ⟨g, hg⟩
    rcases (lessParens_singleton e.full).mpr ⟨g, hg⟩ with ⟨ws, hws⟩
    rw [holds_combined hws]
    by_cases htwo : 2 ≤ ws.length
    · rw [approved_combined hws htwo]
      constructor
      · intro hall w hw
        exact (hall w hw).2
      · intro hall w hw
        exact ⟨h.combined ws hws htwo ((holds_combined hws).mpr hall) w hw, hall w hw⟩
    · rcases one_word e.full hws htwo with ⟨w, hw, rfl⟩
      rw [approved_single hw, List.forall_mem_singleton]
      constructor
      · intro happroved
        exact happroved.2.2
      · intro hid
        exact ⟨(h.single w hw hid).1, (h.single w hw hid).2, hid⟩

theorem Evaluated.of_approved_iff (h : isLicenseApproved (String.ofList e.text) (namesOf approved) =
    true ↔ e.Holds (· ∈ approved)) : Evaluated approved e := by
  refine ⟨fun w hw hid => ?_, fun ws hws hlength hholds w hw => ?_, fun hlength => ?_⟩
  · have hids : ids e.alternatives = [[w.id]] := by
      rw [hw]
      rfl
    have hholds : e.Holds (· ∈ approved) :=
      (e.holds_of_one hids).mpr (List.forall_mem_singleton.mpr hid)
    rcases (approved_single hw).mp (h.mpr hholds) with ⟨hopen, hclose, -⟩
    exact ⟨hopen, hclose⟩
  · exact ((approved_combined hws hlength).mp (h.mpr hholds) w hw).1
  · rw [← h, approved_choice hlength]

/-! ## The check of a package -/

section Packages

variable {inst : Installation} {exceptions : List LicenseException} {now : ℤ}
  {prodPkgs : List String} {pkgName : String} {report : LicenseReport} {es : List Expr}

/-- A package is installed and declares the expressions. -/
def Declares (inst : Installation) (pkgName : String) (es : List Expr) : Prop :=
  ∃ pkgJsonPath pkgJson, inst.installedMap.lookup pkgName = some pkgJsonPath ∧ pkgJsonPath ≠ "" ∧
    inst.readJson pkgJsonPath = .ok pkgJson ∧
    extractDeclaredLicenses pkgJson = .ok (es.map fun e => String.ofList e.text)

def MarkedApproved (report : LicenseReport) (pkgName : String) : Prop :=
  ∃ item ∈ report.inventory, item.package = pkgName ∧ item.policyStatus = .approved

theorem judge_approved {names declared : List String} :
    (judge inst names exceptions now pkgName declared).2 = .approved ↔
      declared ≠ [] ∧ ∀ lic ∈ declared, isLicenseApproved lic names = true := by
  unfold judge
  dsimp only
  by_cases hnil : declared = []
  · rw [if_pos hnil]
    exact ⟨fun h => (by cases h), fun h => absurd hnil h.1⟩
  · rw [if_neg hnil]
    by_cases hall : declared.filter (fun lic => !isLicenseApproved lic names) = []
    · rw [if_pos hall]
      refine ⟨fun _ => ⟨hnil, fun lic hlic => ?_⟩, fun _ => rfl⟩
      simpa using List.filter_eq_nil_iff.mp hall lic hlic
    · rw [if_neg hall]
      constructor
      · intro h
        unfold judgeUnapproved at h
        cases hfind : exceptions.find? fun e => e.package = pkgName with
        | none =>
            rw [hfind] at h
            cases h
        | some e =>
            rw [hfind] at h
            dsimp only at h
            split_ifs at h
      · intro h
        refine absurd (List.filter_eq_nil_iff.mpr fun lic hlic => ?_) hall
        simp [h.2 lic hlic]

theorem checkPackage_package {names : List String} {checked : String × InventoryItem}
    (h : checkPackage inst names exceptions now pkgName = .ok checked) :
    checked.2.package = pkgName := by
  unfold checkPackage at h
  split at h
  · rw [← Except.ok.inj h]
  · split at h
    · rw [← Except.ok.inj h]
    · rcases bind_ok_iff.mp h with ⟨found, -, h⟩
      rcases bind_ok_iff.mp h with ⟨declared, -, h⟩
      rcases bind_ok_iff.mp h with ⟨shown, -, h⟩
      rw [← Except.ok.inj h]

theorem checkPackage_approved {names : List String} {checked : String × InventoryItem}
    (hdeclares : Declares inst pkgName es)
    (h : checkPackage inst names exceptions now pkgName = .ok checked) :
    checked.2.policyStatus = .approved ↔
      es ≠ [] ∧ ∀ e ∈ es, isLicenseApproved (String.ofList e.text) names = true := by
  rcases hdeclares with ⟨path, pkgJson, hpath, hne, hread, hdeclared⟩
  have hfilter : (some path).filter (· ≠ "") = some path := by simp [hne]
  rw [checkPackage, hpath, hfilter] at h
  dsimp only at h
  rw [hread] at h
  rcases bind_ok_iff.mp h with ⟨found, -, h⟩
  rcases bind_ok_iff.mp h with ⟨declared, hsame, h⟩
  rcases bind_ok_iff.mp h with ⟨shown, -, h⟩
  rw [← Except.ok.inj (hdeclared.symm.trans hsame)] at h
  rw [← Except.ok.inj h]
  dsimp only
  rw [judge_approved, List.forall_mem_map, ne_eq, List.map_eq_nil_iff]

theorem marked_approved {names : List String}
    (h : checkLicenses inst names exceptions now prodPkgs = .ok report) (hpkg : pkgName ∈ prodPkgs)
    (hdeclares : Declares inst pkgName es) : MarkedApproved report pkgName ↔
      es ≠ [] ∧ ∀ e ∈ es, isLicenseApproved (String.ofList e.text) names = true := by
  rcases bind_ok_iff.mp h with ⟨checked, hchecked, h⟩
  rw [← Except.ok.inj h]
  have hsorted : pkgName ∈ sort prodPkgs := mem_sort.mpr hpkg
  constructor
  · intro hmarked
    rcases hmarked with ⟨item, hitem, hname, hstatus⟩
    rcases List.mem_map.mp hitem with ⟨pair, hpair, rfl⟩
    rcases (mem_of_mapM hchecked).mp hpair with ⟨name, -, hcheck⟩
    rw [checkPackage_package hcheck] at hname
    rw [hname] at hcheck
    exact (checkPackage_approved hdeclares hcheck).mp hstatus
  · intro hall
    rcases ok_of_mapM hchecked hsorted with ⟨pair, hpair, hcheck⟩
    exact ⟨pair.2, List.mem_map_of_mem hpair, checkPackage_package hcheck,
      (checkPackage_approved hdeclares hcheck).mpr hall⟩

end Packages

/-- The value of an expression is found if and only if a license of its own, if approved, stands
without parentheses, licenses combined by AND, if all approved, have one parenthesis on a side at
most (two at the ends of the expression), and, with an OR, some approved license stands alone
exactly where the expression holds. A package that declares such expressions is marked as approved
exactly where all of them hold; one with a single license is only then. -/
theorem license_gate_iff (approved : List Ident) :
    (∀ e : Expr, (isLicenseApproved (String.ofList e.text) (namesOf approved) = true ↔
      e.Holds (· ∈ approved)) ↔ Evaluated approved e) ∧
    ∀ (inst : Installation) (exceptions : List LicenseException) (now : ℤ) (prodPkgs : List String)
      (report : LicenseReport) (pkgName : String) (es : List Expr),
      checkLicenses inst (namesOf approved) exceptions now prodPkgs = .ok report →
      pkgName ∈ prodPkgs → Declares inst pkgName es → es ≠ [] →
      ((∀ e ∈ es, Evaluated approved e) →
        (MarkedApproved report pkgName ↔ ∀ e ∈ es, e.Holds (· ∈ approved))) ∧
      ∀ e, es = [e] →
        ((MarkedApproved report pkgName ↔ e.Holds (· ∈ approved)) ↔ Evaluated approved e) := by
  have hexpr : ∀ e : Expr, (isLicenseApproved (String.ofList e.text) (namesOf approved) = true ↔
      e.Holds (· ∈ approved)) ↔ Evaluated approved e := by
    intro e
    exact ⟨Evaluated.of_approved_iff, Evaluated.approved_iff_holds⟩
  refine ⟨hexpr, fun inst exceptions now prodPkgs report pkgName es hreport hpkg hdeclares hne => ?_⟩
  have hmarked := marked_approved hreport hpkg hdeclares
  constructor
  · intro hall
    rw [hmarked]
    constructor
    · intro h e he
      exact (hall e he).approved_iff_holds.mp (h.2 e he)
    · intro h
      exact ⟨hne, fun e he => (hall e he).approved_iff_holds.mpr (h e he)⟩
  · intro e heq
    subst heq
    rw [← hexpr e, hmarked, List.forall_mem_singleton, and_iff_right hne]

/-! ## Expressions that are taken for others -/

def mit : Ident where
  text := ['M', 'I', 'T']
  solid := ⟨by decide, by decide⟩
  plain := by decide
  notOr := by decide
  notAnd := by decide

def gpl : Ident where
  text := ['G', 'P', 'L', '-', '3', '.', '0']
  solid := ⟨by decide, by decide⟩
  plain := by decide
  notOr := by decide
  notAnd := by decide

def isc : Ident where
  text := ['I', 'S', 'C']
  solid := ⟨by decide, by decide⟩
  plain := by decide
  notOr := by decide
  notAnd := by decide

/-- `(MIT OR GPL-3.0) AND GPL-3.0`. -/
def withForbidden : Expr := .and (.parens (.or (.license mit) (.license gpl))) (.license gpl)

/-- `MIT AND ISC OR GPL-3.0`. -/
def withChoice : Expr := .or (.and (.license mit) (.license isc)) (.license gpl)

/-- A license that is not approved is taken, and an approved choice is not. -/
theorem forbidden_license_taken :
    (isLicenseApproved (String.ofList withForbidden.text) (namesOf [mit, isc]) = true ∧
      ¬ withForbidden.Holds (· ∈ [mit, isc])) ∧
    isLicenseApproved (String.ofList withChoice.text) (namesOf [mit, isc]) = false ∧
      withChoice.Holds (· ∈ [mit, isc]) := by
  have hgpl : gpl ∉ [mit, isc] := by
    intro hmem
    have htexts : gpl.text ∈ [mit, isc].map Ident.text := List.mem_map_of_mem hmem
    exact absurd htexts (by decide)
  refine ⟨⟨by decide +kernel, fun hholds => hgpl hholds.2⟩, by decide +kernel, .inl ⟨?_, ?_⟩⟩
  · exact List.mem_cons_self
  · exact List.mem_cons_of_mem mit List.mem_cons_self

end Ci
