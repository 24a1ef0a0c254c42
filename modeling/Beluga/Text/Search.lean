import Beluga.Text.Findall

/-! # Searching a text

`re.search`, and the texts between all matches of an expression, where a match takes a letter at
least. -/

namespace Text

namespace Matcher

variable {α : Type}

/-! ## Parts of expressions -/

/-- `[p]`. -/
def one (p : Char → Bool) : Matcher Unit
  | [] => []
  | c :: cs => if p c then [((), cs)] else []

/-- `[p]*?`. -/
def starLazy (p : Char → Bool) : Matcher Unit
  | [] => [((), [])]
  | c :: cs => ((), c :: cs) :: if p c then starLazy p cs else []

/-- `(m)`: what is taken. -/
def group (m : Matcher Unit) : Matcher (List Char) := fun cs =>
  (m cs).map fun r => (cs.take (cs.length - r.2.length), r.2)

/-- `(?=m)`. -/
def ahead (m : Matcher α) : Matcher Unit := fun cs => if (m cs).isEmpty then [] else [((), cs)]

/-- `a|b`. -/
def either (a b : Matcher α) : Matcher α := fun cs => a cs ++ b cs

/-- `\Z`. -/
def close : Matcher Unit := fun cs => if cs = [] then [((), cs)] else []

/-- `$`: at the end, or before a line feed there. -/
def atEnd : Matcher Unit := fun cs => if cs = [] ∨ cs = ['\n'] then [((), cs)] else []

/-! ## Matches -/

/-- The first match: what stands before it, its capture and what follows. -/
def search (m : Matcher α) : List Char → Option (List Char × α × List Char)
  | [] => (m []).head?.map fun r => ([], r.1, r.2)
  | c :: cs =>
      match (m (c :: cs)).head? with
      | some r => some ([], r.1, r.2)
      | none => (search m cs).map fun r => (c :: r.1, r.2)

/-- The pieces between matches. `skip` letters belong to a match, `read` is what there is of the
first piece. -/
def piecesFrom (m : Matcher α) : ℕ → List Char → List Char → List (List Char)
  | _, read, [] => [read.reverse]
  | skip + 1, read, _ :: cs => piecesFrom m skip read cs
  | 0, read, c :: cs =>
      match (m (c :: cs)).head? with
      | some r => read.reverse :: piecesFrom m (cs.length - r.2.length) [] cs
      | none => piecesFrom m 0 (c :: read) cs

/-- `re.split(m, text)`. -/
def pieces (m : Matcher α) (cs : List Char) : List (List Char) := piecesFrom m 0 [] cs

/-- `re.sub(m, "", text)`. -/
def erase (m : Matcher α) (cs : List Char) : List Char := (pieces m cs).flatten

/-! ## Replacing -/

/-- `skip` letters belong to a match. -/
def replaceFrom (m : Matcher α) (w : List Char) : ℕ → List Char → List Char
  | _, [] => []
  | skip + 1, _ :: cs => replaceFrom m w skip cs
  | 0, c :: cs =>
      match (m (c :: cs)).head? with
      | some r => w ++ replaceFrom m w (cs.length - r.2.length) cs
      | none => c :: replaceFrom m w 0 cs

/-- `text.replace(m, w)` with the flag `g`, where `w` is plain. -/
def replace (m : Matcher α) (w : List Char) (cs : List Char) : List Char := replaceFrom m w 0 cs

section Replace

variable {m : Matcher α} {w cs lead : List Char} {c : Char}

theorem replace_lead (h : ∀ d ∈ lead, ∀ rest, m (d :: rest) = []) :
    m.replace w (lead ++ cs) = lead ++ m.replace w cs := by
  induction lead with
  | nil => rfl
  | cons d lead ih =>
      have hd := h d List.mem_cons_self (lead ++ cs)
      rw [List.cons_append, replace, replaceFrom, hd, List.cons_append]
      exact congrArg (d :: ·) (ih fun e he => h e (List.mem_cons_of_mem d he))

/-- A letter behind the text stays where no match needs it or ends with it. -/
theorem replaceFrom_snoc (hnone : m [c] = [])
    (hsome : ∀ ds, (m (ds ++ [c])).head? = (m ds).head?.map fun r => (r.1, r.2 ++ [c]))
    (cs : List Char) : ∀ skip, skip ≤ cs.length →
      m.replaceFrom w skip (cs ++ [c]) = m.replaceFrom w skip cs ++ [c] := by
  induction cs with
  | nil =>
      intro skip hskip
      rw [List.length_nil, Nat.le_zero] at hskip
      have hlast : m.replaceFrom w 0 [c] = [c] := by
        rw [replaceFrom, hnone]
        rfl
      rw [hskip]
      exact hlast
  | cons d cs ih =>
      intro skip hskip
      cases skip with
      | succ skip => exact ih skip (Nat.le_of_succ_le_succ hskip)
      | zero =>
          have hhead := hsome (d :: cs)
          rw [List.cons_append] at hhead ⊢
          rw [replaceFrom, replaceFrom, hhead]
          cases (m (d :: cs)).head? with
          | none => exact congrArg (d :: ·) (ih 0 (Nat.zero_le _))
          | some r =>
              have hlength : (cs ++ [c]).length - (r.2 ++ [c]).length =
                  cs.length - r.2.length := by
                rw [List.length_append, List.length_append]
                omega
              dsimp only [Option.map_some]
              rw [hlength, ih _ (Nat.sub_le _ _), List.append_assoc]

theorem replace_trail {trail : List Char} (hnone : ∀ d ∈ trail, m [d] = [])
    (hsome : ∀ d ∈ trail, ∀ ds,
      (m (ds ++ [d])).head? = (m ds).head?.map fun r => (r.1, r.2 ++ [d])) :
    m.replace w (cs ++ trail) = m.replace w cs ++ trail := by
  induction trail generalizing cs with
  | nil => rw [List.append_nil, List.append_nil]
  | cons d trail ih =>
      have hd := replaceFrom_snoc (w := w) (hnone d List.mem_cons_self)
        (hsome d List.mem_cons_self) cs 0 (Nat.zero_le _)
      have htrail := @ih (cs ++ [d]) (fun e he => hnone e (List.mem_cons_of_mem d he))
        (fun e he => hsome e (List.mem_cons_of_mem d he))
      rw [List.append_assoc, List.singleton_append] at htrail
      rw [htrail, replace, hd, List.append_assoc, List.singleton_append]
      rfl

end Replace

end Matcher

end Text
