import Beluga.Js.Strings

/-! # Code with literals

A line of generated code as pieces, fixed text and string literals. Read from the
left, with `readLiteral` at every quote, the line gives back these pieces: no
value ends its literal early, and none reaches the code around it.

* `tokens_render`: a line reads back as its pieces;
* `oneLine_render`: it stays on one line.
-/

namespace Js

inductive Piece where
  | code (text : String)
  | literal (value : String)
  deriving DecidableEq, Repr

def Piece.render : Piece → String
  | .code text => text
  | .literal value => stringify value

def render : List Piece → String
  | [] => ""
  | p :: ps => p.render ++ render ps

/-- A character outside of literals, or a whole literal. -/
inductive Token where
  | code (c : Char)
  | literal (value : String)
  deriving DecidableEq, Repr

def Piece.tokens : Piece → List Token
  | .code text => text.toList.map .code
  | .literal value => [.literal value]

/-- Reads a line from the left. The fuel is its length. -/
def lex : Nat → List Char → Option (List Token)
  | _, [] => some []
  | 0, _ => none
  | fuel + 1, c :: cs =>
      if c = '"' then
        (readLiteral (c :: cs)).bind fun (value, rest) => (lex fuel rest).map (.literal value :: ·)
      else (lex fuel cs).map (.code c :: ·)

def tokens (line : String) : Option (List Token) := lex line.toList.length line.toList

/-- Fixed text without quotes, on one line. -/
def Piece.Plain : Piece → Prop
  | .code text => ∀ c ∈ text.toList, c ≠ '"' ∧ newline c = false
  | .literal _ => True

instance : (p : Piece) → Decidable p.Plain
  | .code _ => List.decidableBAll _ _
  | .literal _ => .isTrue trivial

theorem render_append (ps qs : List Piece) : render (ps ++ qs) = render ps ++ render qs := by
  induction ps with
  | nil => simp [render]
  | cons p ps ih => simp [render, ih, String.append_assoc]

theorem lex_code {cs rest : List Char} (hcs : ∀ c ∈ cs, c ≠ '"') {fuel : Nat}
    (hfuel : (cs ++ rest).length ≤ fuel) {ts : List Token}
    (hrest : ∀ fuel, rest.length ≤ fuel → lex fuel rest = some ts) :
    lex fuel (cs ++ rest) = some (cs.map .code ++ ts) := by
  induction cs generalizing fuel with
  | nil => exact hrest fuel hfuel
  | cons c cs ih =>
      cases fuel with
      | zero => simp at hfuel
      | succ fuel =>
          have hne := hcs c List.mem_cons_self
          have htail := ih (fun e he => hcs e (List.mem_cons_of_mem c he))
            (Nat.le_of_succ_le_succ hfuel)
          rw [List.cons_append, lex, if_neg hne, htail]
          rfl

theorem lex_literal {value : String} {rest : List Char} {fuel : Nat}
    (hfuel : ((stringify value).toList ++ rest).length ≤ fuel) {ts : List Token}
    (hrest : ∀ fuel, rest.length ≤ fuel → lex fuel rest = some ts) :
    lex fuel ((stringify value).toList ++ rest) = some (.literal value :: ts) := by
  have hcons : ∃ cs, (stringify value).toList ++ rest = '"' :: cs ∧ rest.length ≤ cs.length := by
    refine ⟨value.toList.flatMap escape ++ ['"'] ++ rest, by simp [stringify], ?_⟩
    rw [List.length_append]
    omega
  have hread := readLiteral_stringify value rest
  obtain ⟨cs, heq, hlen⟩ := hcons
  rw [heq] at hfuel hread ⊢
  cases fuel with
  | zero => simp at hfuel
  | succ fuel =>
      have htail := hrest fuel (hlen.trans (Nat.le_of_succ_le_succ hfuel))
      rw [lex, if_pos rfl, hread, Option.bind_some]
      simp only [htail, Option.map_some]

/-- A line reads back as the pieces it was made of. -/
theorem tokens_render {pieces : List Piece} (h : ∀ p ∈ pieces, p.Plain) :
    tokens (render pieces) = some (pieces.flatMap Piece.tokens) := by
  have hlex : ∀ fuel, (render pieces).toList.length ≤ fuel →
      lex fuel (render pieces).toList = some (pieces.flatMap Piece.tokens) := by
    induction pieces with
    | nil => intro fuel _; cases fuel <;> rfl
    | cons p ps ih =>
        have htail := ih fun q hq => h q (List.mem_cons_of_mem p hq)
        have hp := h p List.mem_cons_self
        intro fuel hfuel
        rw [render, String.toList_append] at hfuel ⊢
        cases p with
        | code text => exact lex_code (fun c hc => (hp c hc).1) hfuel htail
        | literal value => exact lex_literal hfuel htail
  exact hlex _ le_rfl

theorem oneLine_render {pieces : List Piece} (h : ∀ p ∈ pieces, p.Plain) :
    OneLine (render pieces) := by
  induction pieces with
  | nil => intro c hc; cases hc
  | cons p ps ih =>
      refine OneLine.append ?_ (ih fun q hq => h q (List.mem_cons_of_mem p hq))
      have hp := h p List.mem_cons_self
      cases p with
      | code text => exact fun c hc => (hp c hc).2
      | literal value => exact oneLine_stringify value

/-- Literals with commas between them. -/
def literalList : List String → List Piece
  | [] => []
  | [v] => [.literal v]
  | v :: w :: vs => .literal v :: .code ", " :: literalList (w :: vs)

theorem render_literalList (values : List String) :
    render (literalList values) = join ", " (values.map stringify) := by
  induction values with
  | nil => rfl
  | cons v vs ih =>
      cases vs with
      | nil => simp [literalList, render, Piece.render]
      | cons w ws =>
          rw [literalList, render, render, ih]
          simp only [List.map_cons, join_cons_cons, String.append_assoc, Piece.render]

theorem plain_literalList (values : List String) : ∀ p ∈ literalList values, p.Plain := by
  induction values with
  | nil => intro p hp; cases hp
  | cons v vs ih =>
      cases vs with
      | nil => intro p hp; rw [List.mem_singleton.mp hp]; trivial
      | cons w ws =>
          intro p hp
          rcases List.mem_cons.mp hp with rfl | hp
          · trivial
          · rcases List.mem_cons.mp hp with rfl | hp
            · decide
            · exact ih p hp

end Js
