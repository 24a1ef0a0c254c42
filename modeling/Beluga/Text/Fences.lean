import Mathlib.Data.List.Basic

/-! # Lines and code fences

Text in lines, as Markdown has them: a line ends at a line feed, a carriage return or both
together. A fence opens at a line of three or more backticks with a word behind them, and
closes at a line of at least as many and nothing else; both may be indented by up to three
blanks.

* `lines_append`: without carriage returns lines end where line feeds stand;
* `roles_inside`: lines without backticks stay inside an open fence.
-/

namespace Text

/-! ## Lines -/

def lines : List Char → List (List Char)
  | [] => [[]]
  | '\r' :: '\n' :: cs => [] :: lines cs
  | c :: cs =>
      if c = '\n' ∨ c = '\r' then [] :: lines cs
      else
        match lines cs with
        | [] => [[c]]
        | line :: rest => (c :: line) :: rest

theorem lines_ne_nil : ∀ cs : List Char, lines cs ≠ []
  | [] => List.cons_ne_nil _ _
  | c :: cs => by
      unfold lines
      split
      · exact List.cons_ne_nil _ _
      · exact List.cons_ne_nil _ _
      · split_ifs
        · exact List.cons_ne_nil _ _
        · split <;> exact List.cons_ne_nil _ _

theorem lines_cons {c : Char} (hc : c ≠ '\r') (cs : List Char) :
    lines (c :: cs) = if c = '\n' then [] :: lines cs else (lines cs).modifyHead (c :: ·) := by
  rw [lines]
  · simp only [hc, or_false]
    split_ifs
    · rfl
    · cases hrest : lines cs with
      | nil => exact absurd hrest (lines_ne_nil cs)
      | cons line rest => rfl
  · exact fun _ heq => absurd heq hc

theorem lines_newline (cs : List Char) : lines ('\n' :: cs) = [] :: lines cs := by
  rw [lines_cons (by decide), if_pos rfl]

/-- Without a carriage return before it, a line feed ends a line. -/
theorem lines_append {front : List Char} (h : '\r' ∉ front) (back : List Char) :
    lines (front ++ '\n' :: back) = lines front ++ lines back := by
  induction front with
  | nil => exact lines_newline back
  | cons c front ih =>
      have hc : c ≠ '\r' := fun heq => h (heq ▸ List.mem_cons_self)
      have hrest := ih fun hmem => h (List.mem_cons_of_mem _ hmem)
      rw [List.cons_append, lines_cons hc, lines_cons hc, hrest]
      split_ifs
      · rfl
      · cases hfront : lines front with
        | nil => exact absurd hfront (lines_ne_nil front)
        | cons line rest => rfl

/-- Text without line breaks is one line. -/
theorem lines_single {cs : List Char} (hfeed : '\n' ∉ cs) (hreturn : '\r' ∉ cs) :
    lines cs = [cs] := by
  induction cs with
  | nil => rfl
  | cons c cs ih =>
      have hc : c ≠ '\r' := fun heq => hreturn (heq ▸ List.mem_cons_self)
      have hn : c ≠ '\n' := fun heq => hfeed (heq ▸ List.mem_cons_self)
      rw [lines_cons hc, if_neg hn, ih (fun hmem => hfeed (List.mem_cons_of_mem _ hmem))
        fun hmem => hreturn (List.mem_cons_of_mem _ hmem)]
      rfl

/-- Lines are made of the characters of the text. -/
theorem mem_of_mem_lines {cs line : List Char} (hreturn : '\r' ∉ cs) (hline : line ∈ lines cs) :
    ∀ c ∈ line, c ∈ cs := by
  induction cs generalizing line with
  | nil =>
      rw [List.mem_singleton.mp hline]
      exact fun _ hc => hc
  | cons c₀ cs ih =>
      have hc₀ : c₀ ≠ '\r' := fun heq => hreturn (heq ▸ List.mem_cons_self)
      have hrest := fun line => @ih line fun hmem => hreturn (List.mem_cons_of_mem _ hmem)
      intro c hc
      rw [lines_cons hc₀] at hline
      split_ifs at hline
      · rcases List.mem_cons.mp hline with rfl | hline
        · cases hc
        · exact List.mem_cons_of_mem _ (hrest line hline c hc)
      · cases hfirst : lines cs with
        | nil => exact absurd hfirst (lines_ne_nil cs)
        | cons first rest =>
            rw [hfirst] at hline hrest
            rcases List.mem_cons.mp hline with rfl | hline
            · rcases List.mem_cons.mp hc with rfl | hc
              · exact List.mem_cons_self
              · exact List.mem_cons_of_mem _ (hrest first List.mem_cons_self c hc)
            · exact List.mem_cons_of_mem _ (hrest line (List.mem_cons_of_mem _ hline) c hc)

/-! ## Fences -/

/-- What is left behind an indentation of up to three blanks. -/
def unindent (line : List Char) : List Char :=
  let blanks := (line.takeWhile (· = ' ')).length
  if blanks ≤ 3 then line.drop blanks else line

/-- The number of backticks that the line starts with, and what follows them. -/
def ticks (line : List Char) : Nat × List Char :=
  (((unindent line).takeWhile (· = '`')).length, (unindent line).dropWhile (· = '`'))

/-- The length of the fence that a line opens. -/
def opens (line : List Char) : Option Nat :=
  if 3 ≤ (ticks line).1 ∧ '`' ∉ (ticks line).2 then some (ticks line).1 else none

def closes (fence : Nat) (line : List Char) : Bool :=
  fence ≤ (ticks line).1 && (ticks line).2.all fun c => c = ' ' || c = '\t'

inductive LineRole where
  | text
  | opening
  | inside
  | closing
  deriving DecidableEq, Repr

/-- What the lines are, from an open fence on or outside of fences. -/
def roles : Option Nat → List (List Char) → List LineRole
  | _, [] => []
  | none, line :: rest =>
      match opens line with
      | some fence => .opening :: roles (some fence) rest
      | none => .text :: roles none rest
  | some fence, line :: rest =>
      if closes fence line then .closing :: roles none rest
      else .inside :: roles (some fence) rest

theorem mem_unindent {line : List Char} {c : Char} (h : c ∈ unindent line) : c ∈ line := by
  unfold unindent at h
  simp only at h
  split_ifs at h
  · exact List.mem_of_mem_drop h
  · exact h

theorem ticks_of_not_mem {line : List Char} (h : '`' ∉ line) : (ticks line).1 = 0 := by
  unfold ticks
  cases hline : unindent line with
  | nil => rfl
  | cons c cs =>
      have hc : c ≠ '`' := by
        rintro rfl
        exact h (mem_unindent (hline ▸ List.mem_cons_self))
      rw [List.takeWhile_cons_of_neg (by simpa using hc)]
      rfl

/-- A line without backticks opens no fence. -/
theorem opens_of_not_mem {line : List Char} (h : '`' ∉ line) : opens line = none := by
  rw [opens, ticks_of_not_mem h]
  rfl

theorem closes_of_not_mem {fence : Nat} (hfence : 0 < fence) {line : List Char}
    (h : '`' ∉ line) : closes fence line = false := by
  rw [closes, ticks_of_not_mem h, decide_eq_false (by omega), Bool.false_and]

/-- Nor does one that starts with another character. -/
theorem opens_of_head {c : Char} (hblank : c ≠ ' ') (htick : c ≠ '`') (cs : List Char) :
    opens (c :: cs) = none := by
  have hblanks : (c :: cs).takeWhile (· = ' ') = [] := by
    rw [List.takeWhile_cons_of_neg (by simpa using hblank)]
  have hunindent : unindent (c :: cs) = c :: cs := by
    rw [unindent, hblanks]
    rfl
  have hticks : (ticks (c :: cs)).1 = 0 := by
    rw [ticks, hunindent, List.takeWhile_cons_of_neg (by simpa using htick)]
    rfl
  rw [opens, hticks]
  rfl

/-- Lines without backticks stay inside a fence. -/
theorem roles_inside {fence : Nat} (hfence : 0 < fence) {body : List (List Char)}
    (h : ∀ line ∈ body, '`' ∉ line) (rest : List (List Char)) :
    roles (some fence) (body ++ rest) =
      body.map (fun _ => .inside) ++ roles (some fence) rest := by
  induction body with
  | nil => rfl
  | cons line body ih =>
      have hline := closes_of_not_mem hfence (h line List.mem_cons_self)
      have hbody := ih fun line' hline' => h line' (List.mem_cons_of_mem _ hline')
      rw [List.cons_append, roles, hline, hbody]
      rfl

/-- Lines that open no fence are text outside of one. -/
theorem roles_text {body : List (List Char)} (h : ∀ line ∈ body, opens line = none)
    (rest : List (List Char)) :
    roles none (body ++ rest) = body.map (fun _ => .text) ++ roles none rest := by
  induction body with
  | nil => rfl
  | cons line body ih =>
      have hbody := ih fun line' hline' => h line' (List.mem_cons_of_mem _ hline')
      rw [List.cons_append, roles, h line List.mem_cons_self, hbody]
      rfl

end Text
