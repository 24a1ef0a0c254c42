import Beluga.Text.Words

/-! # License expressions of SPDX

Identifiers put together with AND, OR and parentheses, AND before OR, with one blank between words.

* `Expr.Holds`: the expression with some identifiers read as true;
* `Expr.alternatives`: the words between the ORs, whatever the parentheses;
* `text_eq_render`: the text is that of the alternatives;
* `holds_of_one`: without an OR, all words have to hold.
-/

namespace Spdx

open Text (Solid)

/-- An identifier of a license: a word without parentheses that is no operator. -/
structure Ident where
  text : List Char
  solid : Solid text
  plain : ∀ c ∈ text, c ≠ '(' ∧ c ≠ ')'
  notOr : text ≠ ['O', 'R']
  notAnd : text ≠ ['A', 'N', 'D']

theorem Ident.ext_text {i j : Ident} (h : i.text = j.text) : i = j := by
  cases i
  cases j
  cases h
  rfl

inductive Expr where
  | license (id : Ident)
  | parens (e : Expr)
  | and (l r : Expr)
  | or (l r : Expr)

def orText : List Char := [' ', 'O', 'R', ' ']

def andText : List Char := [' ', 'A', 'N', 'D', ' ']

namespace Expr

def isOr : Expr → Bool
  | .or _ _ => true
  | _ => false

/-- A choice stands in parentheses where AND takes it. -/
def operand (e : Expr) (text : List Char) : List Char :=
  if e.isOr then '(' :: (text ++ [')']) else text

def text : Expr → List Char
  | license id => id.text
  | parens e => '(' :: (e.text ++ [')'])
  | and l r => l.operand l.text ++ (andText ++ r.operand r.text)
  | or l r => l.text ++ (orText ++ r.text)

/-- The value of the expression. -/
def Holds (p : Ident → Prop) : Expr → Prop
  | license id => p id
  | parens e => e.Holds p
  | and l r => l.Holds p ∧ r.Holds p
  | or l r => l.Holds p ∨ r.Holds p

end Expr

/-! ## Words and alternatives -/

/-- An identifier with the parentheses next to it. -/
structure Word where
  opens : ℕ
  id : Ident
  closes : ℕ

namespace Word

def text (w : Word) : List Char :=
  List.replicate w.opens '(' ++ (w.id.text ++ List.replicate w.closes ')')

def addOpen (w : Word) : Word := { w with opens := w.opens + 1 }

def addClose (w : Word) : Word := { w with closes := w.closes + 1 }

end Word

/-- `f` of the first word. -/
def mapFirst {α : Type} (f : α → α) (gs : List (List α)) : List (List α) :=
  gs.modifyHead (·.modifyHead f)

/-- `f` of the last member. -/
def onLast {α : Type} (f : α → α) : List α → List α
  | [] => []
  | [x] => [f x]
  | x :: y :: xs => x :: onLast f (y :: xs)

/-- `f` of the last word. -/
def mapLast {α : Type} (f : α → α) (gs : List (List α)) : List (List α) := onLast (onLast f) gs

/-- The last of one and the first of the other belong together. -/
def joinEnds {α : Type} : List (List α) → List (List α) → List (List α)
  | [], bs => bs
  | [x], bs => bs.modifyHead (x ++ ·)
  | x :: y :: xs, bs => x :: joinEnds (y :: xs) bs

def enclose (gs : List (List Word)) : List (List Word) :=
  mapLast Word.addClose (mapFirst Word.addOpen gs)

namespace Expr

/-- The alternatives of an operand of AND. -/
def operandAlternatives (e : Expr) (gs : List (List Word)) : List (List Word) :=
  if e.isOr then enclose gs else gs

/-- The words between the ORs of the text, in groups. -/
def alternatives : Expr → List (List Word)
  | license id => [[⟨0, id, 0⟩]]
  | parens e => enclose e.alternatives
  | and l r =>
      joinEnds (l.operandAlternatives l.alternatives) (r.operandAlternatives r.alternatives)
  | or l r => l.alternatives ++ r.alternatives

end Expr

def groupText (g : List Word) : List Char := andText.intercalate (g.map Word.text)

def render (gs : List (List Word)) : List Char := orText.intercalate (gs.map groupText)

/-! ## Groups that are not empty -/

section Full

variable {α : Type} {gs as bs : List (List α)} {g : List α}

/-- There are groups, with a word each. -/
def Full (gs : List (List α)) : Prop := gs ≠ [] ∧ ∀ g ∈ gs, g ≠ []

theorem Full.cons (hg : g ≠ []) (h : ∀ g ∈ gs, g ≠ []) : Full (g :: gs) :=
  ⟨List.cons_ne_nil g gs, List.forall_mem_cons.mpr ⟨hg, h⟩⟩

theorem Full.exists_cons (h : Full gs) : ∃ x g gs', gs = (x :: g) :: gs' := by
  cases gs with
  | nil => exact absurd rfl h.1
  | cons g gs =>
      cases g with
      | nil => exact absurd rfl (h.2 _ List.mem_cons_self)
      | cons x g => exact ⟨x, g, gs, rfl⟩

theorem onLast_concat {f : α → α} (xs : List α) (x : α) : onLast f (xs ++ [x]) = xs ++ [f x] := by
  induction xs with
  | nil => rfl
  | cons y xs ih =>
      cases xs with
      | nil => rfl
      | cons z xs =>
          rw [List.cons_append, List.cons_append, onLast, ← List.cons_append, ih]
          rfl

theorem Full.exists_concat (h : Full gs) : ∃ gs' g x, gs = gs' ++ [g ++ [x]] := by
  rcases List.eq_nil_or_concat gs with hnil | hconcat
  · exact absurd hnil h.1
  · rcases hconcat with ⟨gs', last, rfl⟩
    rw [List.concat_eq_append] at h ⊢
    rcases List.eq_nil_or_concat last with hnil | hlast
    · exact absurd hnil (h.2 last (by simp))
    · rcases hlast with ⟨g, x, rfl⟩
      exact ⟨gs', g, x, by rw [List.concat_eq_append]⟩

theorem mapLast_concat {f : α → α} (gs : List (List α)) (g : List α) (x : α) :
    mapLast f (gs ++ [g ++ [x]]) = gs ++ [g ++ [f x]] := by
  rw [mapLast, onLast_concat, onLast_concat]

theorem Full.mapFirst {f : α → α} (h : Full gs) : Full (mapFirst f gs) := by
  rcases h.exists_cons with ⟨x, g, gs', rfl⟩
  exact .cons (List.cons_ne_nil _ _) fun g' hg' => h.2 g' (List.mem_cons_of_mem _ hg')

theorem Full.mapLast {f : α → α} (h : Full gs) : Full (mapLast f gs) := by
  rcases h.exists_concat with ⟨gs', g, x, rfl⟩
  rw [mapLast_concat]
  refine ⟨by simp, fun g' hg' => ?_⟩
  rcases List.mem_append.mp hg' with hmem | hlast
  · exact h.2 g' (List.mem_append_left _ hmem)
  · rw [List.mem_singleton.mp hlast]
    simp

theorem Full.append (ha : Full as) (hb : Full bs) : Full (as ++ bs) := by
  refine ⟨fun h => ha.1 (List.append_eq_nil_iff.mp h).1, fun g hg => ?_⟩
  rcases List.mem_append.mp hg with hmem | hmem
  · exact ha.2 g hmem
  · exact hb.2 g hmem

theorem Full.joinEnds (ha : Full as) (hb : Full bs) : Full (joinEnds as bs) := by
  induction as with
  | nil => exact absurd rfl ha.1
  | cons x xs ih =>
      cases xs with
      | nil =>
          rcases hb.exists_cons with ⟨y, g, bs', rfl⟩
          exact .cons (by simp) fun g' hg' => hb.2 g' (List.mem_cons_of_mem _ hg')
      | cons y xs =>
          have hrest : Full (y :: xs) :=
            ⟨List.cons_ne_nil _ _, fun g hg => ha.2 g (List.mem_cons_of_mem _ hg)⟩
          exact .cons (ha.2 x List.mem_cons_self) (ih hrest).2

end Full

theorem Full.enclose {gs : List (List Word)} (h : Full gs) : Full (enclose gs) :=
  h.mapFirst.mapLast

theorem Expr.full_operand {gs : List (List Word)} (e : Expr) (h : Full gs) :
    Full (e.operandAlternatives gs) := by
  unfold operandAlternatives
  split_ifs
  · exact h.enclose
  · exact h

theorem Expr.full (e : Expr) : Full e.alternatives := by
  induction e with
  | license id => exact .cons (List.cons_ne_nil _ _) fun g hg => by cases hg
  | parens e ih => exact ih.enclose
  | and l r ihl ihr => exact (l.full_operand ihl).joinEnds (r.full_operand ihr)
  | or l r ihl ihr => exact ihl.append ihr

/-! ## The text of the alternatives -/

theorem intercalate_append {α : Type} (sep : List α) {xs ys : List (List α)} (hx : xs ≠ [])
    (hy : ys ≠ []) : sep.intercalate (xs ++ ys) =
      sep.intercalate xs ++ (sep ++ sep.intercalate ys) := by
  induction xs with
  | nil => exact absurd rfl hx
  | cons x xs ih =>
      cases xs with
      | nil =>
          cases ys with
          | nil => exact absurd rfl hy
          | cons y ys =>
              rw [List.singleton_append, List.intercalate_cons_cons, List.intercalate_singleton,
                List.append_assoc]
      | cons x' xs =>
          rw [List.cons_append, List.cons_append, List.intercalate_cons_cons, ← List.cons_append,
            ih (List.cons_ne_nil _ _), List.intercalate_cons_cons]
          simp only [List.append_assoc]

theorem groupText_append {g g' : List Word} (hg : g ≠ []) (hg' : g' ≠ []) :
    groupText (g ++ g') = groupText g ++ (andText ++ groupText g') := by
  rw [groupText, List.map_append, intercalate_append _ (by simpa using hg) (by simpa using hg')]
  rfl

theorem render_append {gs gs' : List (List Word)} (hgs : gs ≠ []) (hgs' : gs' ≠ []) :
    render (gs ++ gs') = render gs ++ (orText ++ render gs') := by
  rw [render, List.map_append, intercalate_append _ (by simpa using hgs) (by simpa using hgs')]
  rfl

theorem render_singleton (g : List Word) : render [g] = groupText g := by
  rw [render, List.map_singleton, List.intercalate_singleton]

theorem render_cons {g : List Word} {gs : List (List Word)} (h : gs ≠ []) :
    render (g :: gs) = groupText g ++ (orText ++ render gs) := by
  rw [← List.singleton_append, render_append (List.cons_ne_nil _ _) h, render_singleton]

/-- What follows the first word does not depend on it. -/
theorem render_first {gs : List (List Word)} (h : Full gs) :
    ∃ w rest, ∀ f : Word → Word, render (mapFirst f gs) = (f w).text ++ rest := by
  have hgroup : ∀ (w : Word) (g : List Word), ∃ rest, ∀ f : Word → Word,
      groupText (f w :: g) = (f w).text ++ rest := by
    intro w g
    cases g with
    | nil => exact ⟨[], fun f => by simp [groupText]⟩
    | cons w' g =>
        exact ⟨_, fun f => groupText_append (g := [f w]) (List.cons_ne_nil _ _)
          (List.cons_ne_nil w' g) |>.trans (by rw [groupText, List.map_singleton,
            List.intercalate_singleton])⟩
  rcases h.exists_cons with ⟨w, g, gs', rfl⟩
  rcases hgroup w g with ⟨rest, hrest⟩
  cases gs' with
  | nil =>
      refine ⟨w, rest, fun f => ?_⟩
      show render [f w :: g] = _
      rw [render_singleton, hrest]
  | cons g' gs' =>
      refine ⟨w, rest ++ (orText ++ render (g' :: gs')), fun f => ?_⟩
      show render ((f w :: g) :: g' :: gs') = _
      rw [render_cons (List.cons_ne_nil _ _), hrest, List.append_assoc]

/-- What comes before the last word does not depend on it. -/
theorem render_last {gs : List (List Word)} (h : Full gs) :
    ∃ front w, ∀ f : Word → Word, render (mapLast f gs) = front ++ (f w).text := by
  have hgroup : ∀ (g : List Word) (w : Word), ∃ front, ∀ f : Word → Word,
      groupText (g ++ [f w]) = front ++ (f w).text := by
    intro g w
    cases g with
    | nil => exact ⟨[], fun f => by simp [groupText]⟩
    | cons w' g =>
        refine ⟨groupText (w' :: g) ++ andText, fun f => ?_⟩
        rw [groupText_append (List.cons_ne_nil _ _) (List.cons_ne_nil _ _), List.append_assoc]
        simp [groupText]
  rcases h.exists_concat with ⟨gs', g, w, rfl⟩
  rcases hgroup g w with ⟨front, hfront⟩
  cases gs' with
  | nil =>
      refine ⟨front, w, fun f => ?_⟩
      rw [mapLast_concat, List.nil_append, render_singleton, hfront]
  | cons g' gs' =>
      refine ⟨render (g' :: gs') ++ (orText ++ front), w, fun f => ?_⟩
      rw [mapLast_concat, render_append (List.cons_ne_nil _ _) (List.cons_ne_nil _ _),
        render_singleton, hfront]
      simp only [List.append_assoc]

theorem Full.mapFirst_id {α : Type} {gs : List (List α)} (h : Full gs) :
    Spdx.mapFirst (fun x => x) gs = gs := by
  rcases h.exists_cons with ⟨x, g, gs', rfl⟩
  rfl

theorem Full.mapLast_id {α : Type} {gs : List (List α)} (h : Full gs) :
    Spdx.mapLast (fun x => x) gs = gs := by
  rcases h.exists_concat with ⟨gs', g, x, rfl⟩
  exact mapLast_concat gs' g x

/-- A change of the first word shows in the text where the word stands. -/
theorem Full.first_text {gs : List (List Word)} (h : Full gs) : ∃ w rest,
    render gs = w.text ++ rest ∧
      ∀ f : Word → Word, render (Spdx.mapFirst f gs) = (f w).text ++ rest := by
  rcases render_first h with ⟨w, rest, hall⟩
  exact ⟨w, rest, by rw [← hall fun w => w, h.mapFirst_id], hall⟩

theorem Full.last_text {gs : List (List Word)} (h : Full gs) : ∃ front w,
    render gs = front ++ w.text ∧
      ∀ f : Word → Word, render (Spdx.mapLast f gs) = front ++ (f w).text := by
  rcases render_last h with ⟨front, w, hall⟩
  exact ⟨front, w, by rw [← hall fun w => w, h.mapLast_id], hall⟩

theorem Word.addOpen_text (w : Word) : w.addOpen.text = '(' :: w.text := rfl

theorem Word.addClose_text (w : Word) : w.addClose.text = w.text ++ [')'] := by
  rw [Word.text, Word.text, Word.addClose, List.replicate_succ', List.append_assoc, List.append_assoc]

theorem Full.enclose_text {gs : List (List Word)} (h : Full gs) :
    render (Spdx.enclose gs) = '(' :: (render gs ++ [')']) := by
  have hopen : Full (Spdx.mapFirst Word.addOpen gs) := h.mapFirst
  rcases h.first_text with ⟨w, rest, htext, hfirst⟩
  rcases hopen.last_text with ⟨front, w', htext', hlast⟩
  rw [Spdx.enclose, hlast, Word.addClose_text, ← List.append_assoc, ← htext', hfirst,
    Word.addOpen_text, List.cons_append, ← htext]
  rfl

theorem Full.joinEnds_text {as bs : List (List Word)} (ha : Full as) (hb : Full bs) :
    render (Spdx.joinEnds as bs) = render as ++ (andText ++ render bs) := by
  induction as with
  | nil => exact absurd rfl ha.1
  | cons x xs ih =>
      have hx : x ≠ [] := ha.2 x List.mem_cons_self
      cases xs with
      | nil =>
          rcases hb.exists_cons with ⟨y, g, bs', rfl⟩
          show render ((x ++ (y :: g)) :: bs') = _
          cases bs' with
          | nil =>
              rw [render_singleton, render_singleton, render_singleton,
                groupText_append hx (List.cons_ne_nil _ _)]
          | cons b bs' =>
              rw [render_cons (List.cons_ne_nil _ _), render_cons (List.cons_ne_nil _ _),
                render_singleton, groupText_append hx (List.cons_ne_nil _ _), List.append_assoc,
                List.append_assoc]
      | cons x' xs =>
          have hrest : Full (x' :: xs) :=
            ⟨List.cons_ne_nil _ _, fun g hg => ha.2 g (List.mem_cons_of_mem _ hg)⟩
          rw [Spdx.joinEnds, render_cons (hrest.joinEnds hb).1, ih hrest,
            render_cons (List.cons_ne_nil _ _)]
          simp only [List.append_assoc]

theorem Expr.operand_text {gs : List (List Word)} (e : Expr) (h : Full gs) :
    render (e.operandAlternatives gs) = e.operand (render gs) := by
  unfold operandAlternatives operand
  split_ifs
  · exact h.enclose_text
  · rfl

theorem Expr.text_eq_render (e : Expr) : e.text = render e.alternatives := by
  induction e with
  | license id => simp [text, alternatives, render, groupText, Word.text]
  | parens e ih => rw [text, alternatives, e.full.enclose_text, ih]
  | and l r ihl ihr =>
      rw [text, alternatives, (l.full_operand l.full).joinEnds_text (r.full_operand r.full),
        l.operand_text l.full, r.operand_text r.full, ihl, ihr]
  | or l r ihl ihr => rw [text, alternatives, render_append l.full.1 r.full.1, ihl, ihr]

/-! ## Expressions without a choice -/

/-- The identifiers of the words. -/
def ids (gs : List (List Word)) : List (List Ident) := gs.map (·.map Word.id)

theorem Full.ids_mapFirst {gs : List (List Word)} {f : Word → Word} (hf : ∀ w, (f w).id = w.id)
    (h : Full gs) : ids (Spdx.mapFirst f gs) = ids gs := by
  rcases h.exists_cons with ⟨w, g, gs', rfl⟩
  show ((f w).id :: g.map Word.id) :: _ = (w.id :: g.map Word.id) :: _
  rw [hf]

theorem Full.ids_mapLast {gs : List (List Word)} {f : Word → Word} (hf : ∀ w, (f w).id = w.id)
    (h : Full gs) : ids (Spdx.mapLast f gs) = ids gs := by
  rcases h.exists_concat with ⟨gs', g, w, rfl⟩
  rw [mapLast_concat]
  simp [ids, hf]

theorem Full.ids_enclose {gs : List (List Word)} (h : Full gs) :
    ids (Spdx.enclose gs) = ids gs := by
  have hopen : Full (Spdx.mapFirst Word.addOpen gs) := h.mapFirst
  rw [Spdx.enclose, hopen.ids_mapLast (f := Word.addClose) fun _ => rfl,
    h.ids_mapFirst (f := Word.addOpen) fun _ => rfl]

theorem ids_joinEnds (as bs : List (List Word)) :
    ids (joinEnds as bs) = joinEnds (ids as) (ids bs) := by
  induction as with
  | nil => rfl
  | cons x xs ih =>
      cases xs with
      | nil =>
          cases bs with
          | nil => rfl
          | cons b bs => simp [ids, joinEnds]
      | cons y xs => exact congrArg _ ih

theorem joinEnds_singleton {α : Type} {as bs : List (List α)} {g : List α} (ha : as ≠ [])
    (hb : bs ≠ []) (h : joinEnds as bs = [g]) : ∃ x y, as = [x] ∧ bs = [y] ∧ g = x ++ y := by
  cases as with
  | nil => exact absurd rfl ha
  | cons x xs =>
      cases xs with
      | nil =>
          cases bs with
          | nil => exact absurd rfl hb
          | cons y bs =>
              rcases List.cons.inj h with ⟨hg, hbs⟩
              exact ⟨x, y, rfl, by rw [hbs], hg.symm⟩
      | cons x' xs =>
          -- the groups before the last one stay
          rcases List.cons.inj h with ⟨-, hnil⟩
          cases xs with
          | nil =>
              cases bs with
              | nil => exact absurd rfl hb
              | cons y bs => cases hnil
          | cons x'' xs => cases hnil

theorem Expr.ids_operand {gs : List (List Word)} (e : Expr) (h : Full gs) :
    ids (e.operandAlternatives gs) = ids gs := by
  unfold operandAlternatives
  split_ifs
  · exact h.ids_enclose
  · rfl

/-- Without an OR, all identifiers have to hold. -/
theorem Expr.holds_of_one {p : Ident → Prop} (e : Expr) {is : List Ident}
    (h : ids e.alternatives = [is]) : e.Holds p ↔ ∀ i ∈ is, p i := by
  induction e generalizing is with
  | license id =>
      rcases List.cons.inj h with ⟨rfl, -⟩
      simp [Holds]
  | parens e ih =>
      rw [alternatives, e.full.ids_enclose] at h
      exact ih h
  | and l r ihl ihr =>
      rw [alternatives, ids_joinEnds, l.ids_operand l.full, r.ids_operand r.full] at h
      have hl : ids l.alternatives ≠ [] := by simpa [ids] using l.full.1
      have hr : ids r.alternatives ≠ [] := by simpa [ids] using r.full.1
      rcases joinEnds_singleton hl hr h with ⟨x, y, hx, hy, rfl⟩
      rw [Holds, ihl hx, ihr hy]
      simp only [List.mem_append]
      constructor
      · intro hall i hi
        rcases hi with hi | hi
        · exact hall.1 i hi
        · exact hall.2 i hi
      · intro hall
        exact ⟨fun i hi => hall i (.inl hi), fun i hi => hall i (.inr hi)⟩
  | or l r _ _ =>
      have hlength := congrArg List.length h
      have hl := List.length_pos_iff.mpr l.full.1
      have hr := List.length_pos_iff.mpr r.full.1
      rw [alternatives, ids, List.length_map, List.length_append, List.length_singleton] at hlength
      omega

end Spdx
