import Beluga.Upstream.SqlRedaction

/-! # The pieces of a SQL text

What the redaction is about, apart from how it works: a text is a sequence of strings,
quoted identifiers, comments, numeric literals, words and other characters. A numeric
literal may begin with a point, and its exponent may have a sign. What is not
terminated goes to the end of the text.

* `pieces_text`: a text is its pieces one after the other;
* `pieces_append`: the first pieces do not depend on what comes later.
-/

namespace Upstream

namespace Redaction

open Text

inductive Piece where
  | string (body : List Char) (closed : Bool)
  | quoted (body : List Char) (closed : Bool)
  | line (body : List Char)
  /-- The end of the comment belongs to the body. -/
  | block (body : List Char) (closed : Bool)
  | number (point : Bool) (digits : List Char) (exponent : Option (Char × List Char))
  | word (text : List Char)
  | other (c : Char)
  deriving DecidableEq, Repr

def closing (closed : Bool) (q : Char) : List Char := if closed then [q] else []

def Piece.text : Piece → List Char
  | .string body closed => '\'' :: (body ++ closing closed '\'')
  | .quoted body closed => '"' :: (body ++ closing closed '"')
  | .line body => '-' :: '-' :: body
  | .block body _ => '/' :: '*' :: body
  | .number point digits exponent =>
      closing point '.' ++ (digits ++ exponent.elim [] fun signed => signed.1 :: signed.2)
  | .word text => text
  | .other c => [c]

/-- Digits, underscores and points. -/
def mantissaChar (c : Char) : Bool := Regex.digit c || c = '_' || c = '.'

/-- `e`, a sign and a digit. -/
def Signed (e sign : Char) (rest : List Char) : Prop :=
  (e = 'e' ∨ e = 'E') ∧ (sign = '+' ∨ sign = '-') ∧ rest.head?.any Regex.digit = true

instance (e sign : Char) (rest : List Char) : Decidable (Signed e sign rest) :=
  inferInstanceAs (Decidable (_ ∧ _))

/-- A numeric literal: the characters that run on from its first digit, past a signed exponent. -/
def scanNumeral (point : Bool) (cs : List Char) : Piece × List Char :=
  match cs.dropWhile mantissaChar with
  | e :: sign :: rest =>
      if Signed e sign rest then
        (.number point (cs.takeWhile mantissaChar ++ [e]) (some (sign, rest.takeWhile numeralChar)),
          rest.dropWhile numeralChar)
      else (.number point (cs.takeWhile numeralChar) none, cs.dropWhile numeralChar)
  | _ => (.number point (cs.takeWhile numeralChar) none, cs.dropWhile numeralChar)

/-- The first piece, and what is behind it. -/
def nextPiece (c : Char) (cs : List Char) : Piece × List Char :=
  if c = '\'' then
    match Sql.scanQuoted c cs with
    | some (body, rest) => (.string body true, rest)
    | none => (.string cs false, [])
  else if c = '"' then
    match Sql.scanQuoted c cs with
    | some (body, rest) => (.quoted body true, rest)
    | none => (.quoted cs false, [])
  else if c = '-' ∧ cs.head? = some '-' then
    (.line (cs.tail.takeWhile (· ≠ '\n')), cs.tail.dropWhile (· ≠ '\n'))
  else if c = '/' ∧ cs.head? = some '*' then
    match Sql.scanBlock cs.tail with
    | some (body, rest) => (.block body true, rest)
    | none => (.block cs.tail false, [])
  else if Regex.digit c = true then scanNumeral false (c :: cs)
  else if c = '.' ∧ cs.head?.any Regex.digit = true then scanNumeral true cs
  else if wordBegin c = true then (.word (c :: cs.takeWhile wordChar), cs.dropWhile wordChar)
  else (.other c, cs)

def pieces (cs : List Char) : List Piece := tokens nextPiece cs

/-! ## Numeric literals -/

section Numerals

variable {point : Bool} {cs : List Char}

theorem numeral_of_mantissa {c : Char} (hc : mantissaChar c = true) : numeralChar c = true := by
  simp only [mantissaChar, Bool.or_eq_true] at hc
  simp only [numeralChar, Sql.wordRest, Sql.wordStart, Bool.or_eq_true]
  tauto

theorem Signed.chars {e sign : Char} {rest : List Char} (h : Signed e sign rest) :
    mantissaChar e = false ∧ numeralChar e = true ∧ numeralChar sign = false := by
  obtain ⟨he, hsign, -⟩ := h
  have hsign' : numeralChar sign = false := by
    rcases hsign with rfl | rfl
    · decide
    · decide
  rcases he with rfl | rfl
  · exact ⟨by decide, by decide, hsign'⟩
  · exact ⟨by decide, by decide, hsign'⟩

/-- Up to the exponent, and from there on. -/
theorem mantissa_signed {run rest : List Char} {e sign : Char}
    (hrun : ∀ c ∈ run, mantissaChar c = true) (hsigned : Signed e sign rest) :
    (run ++ e :: sign :: rest).dropWhile mantissaChar = e :: sign :: rest ∧
      (run ++ e :: sign :: rest).takeWhile mantissaChar = run := by
  have hdrop : (run ++ e :: sign :: rest).dropWhile mantissaChar = e :: sign :: rest := by
    rw [List.dropWhile_append_of_pos hrun, List.dropWhile_cons, hsigned.chars.1]
    rfl
  have htake : (run ++ e :: sign :: rest).takeWhile mantissaChar = run := by
    rw [List.takeWhile_append_of_pos hrun, List.takeWhile_cons, hsigned.chars.1]
    exact List.append_nil run
  exact ⟨hdrop, htake⟩

theorem scanNumeral_signed {run rest : List Char} {e sign : Char}
    (hrun : ∀ c ∈ run, mantissaChar c = true) (hsigned : Signed e sign rest) :
    scanNumeral point (run ++ e :: sign :: rest) =
      (.number point (run ++ [e]) (some (sign, rest.takeWhile numeralChar)),
        rest.dropWhile numeralChar) := by
  obtain ⟨hdrop, htake⟩ := mantissa_signed hrun hsigned
  rw [scanNumeral, hdrop, htake]
  exact if_pos hsigned

/-- A literal with a signed exponent, or a run of characters. -/
theorem scanNumeral_cases (point : Bool) (cs : List Char) :
    (∃ run e sign rest, cs = run ++ e :: sign :: rest ∧ (∀ c ∈ run, mantissaChar c = true) ∧
      Signed e sign rest ∧ scanNumeral point cs =
        (.number point (run ++ [e]) (some (sign, rest.takeWhile numeralChar)),
          rest.dropWhile numeralChar)) ∨
    (∀ run e sign rest, cs = run ++ e :: sign :: rest → (∀ c ∈ run, mantissaChar c = true) →
      ¬ Signed e sign rest) ∧
    scanNumeral point cs = (.number point (cs.takeWhile numeralChar) none,
      cs.dropWhile numeralChar) := by
  rw [scanNumeral]
  split
  next e sign rest heq =>
    by_cases hsigned : Signed e sign rest
    · rw [if_pos hsigned]
      refine .inl ⟨cs.takeWhile mantissaChar, e, sign, rest, ?_, ?_, hsigned, rfl⟩
      · rw [← heq, List.takeWhile_append_dropWhile]
      · exact fun c hc => List.mem_takeWhile_imp hc
    · rw [if_neg hsigned]
      refine .inr ⟨fun run e' sign' rest' hcs hrun hsigned' => hsigned ?_, rfl⟩
      rw [hcs, (mantissa_signed hrun hsigned').1] at heq
      cases heq
      exact hsigned'
  next hnone =>
    refine .inr ⟨fun run e sign rest hcs hrun hsigned => ?_, rfl⟩
    exact hnone e sign rest (hcs ▸ (mantissa_signed hrun hsigned).1)

theorem scanNumeral_text (point : Bool) (cs : List Char) :
    (scanNumeral point cs).1.text ++ (scanNumeral point cs).2 = closing point '.' ++ cs := by
  rcases scanNumeral_cases point cs with ⟨run, e, sign, rest, hcs, -, -, heq⟩ | ⟨-, heq⟩
  · rw [heq, hcs]
    show closing point '.' ++ ((run ++ [e]) ++ sign :: rest.takeWhile numeralChar) ++
      rest.dropWhile numeralChar = _
    simp [List.takeWhile_append_dropWhile]
  · rw [heq]
    show closing point '.' ++ (cs.takeWhile numeralChar ++ []) ++ cs.dropWhile numeralChar = _
    rw [List.append_nil, List.append_assoc, List.takeWhile_append_dropWhile]

end Numerals

/-! ## The text of the pieces -/

theorem nextPiece_text (c : Char) (cs : List Char) :
    (nextPiece c cs).1.text ++ (nextPiece c cs).2 = c :: cs := by
  have hhead : ∀ {d : Char}, cs.head? = some d → cs = d :: cs.tail := by
    intro d hd
    exact (List.cons_head?_tail hd).symm
  rw [nextPiece]
  split_ifs with hquote hdouble hline hblock hdigit hpoint hword
  · cases hscan : Sql.scanQuoted c cs with
    | none => simp [Piece.text, closing, hquote]
    | some found =>
        rw [Sql.scanQuoted_append hscan, hquote]
        simp [Piece.text, closing]
  · cases hscan : Sql.scanQuoted c cs with
    | none => simp [Piece.text, closing, hdouble]
    | some found =>
        rw [Sql.scanQuoted_append hscan, hdouble]
        simp [Piece.text, closing]
  · obtain ⟨rfl, hd⟩ := hline
    show '-' :: '-' :: (_ ++ _) = _
    rw [List.takeWhile_append_dropWhile, ← hhead hd]
  · obtain ⟨rfl, hd⟩ := hblock
    cases hscan : Sql.scanBlock cs.tail with
    | none =>
        show '/' :: '*' :: cs.tail ++ [] = _
        rw [List.append_nil, ← hhead hd]
    | some found =>
        show '/' :: '*' :: (found.1 ++ found.2) = _
        rw [← Sql.scanBlock_append hscan, ← hhead hd]
  · exact scanNumeral_text false (c :: cs)
  · obtain ⟨rfl, -⟩ := hpoint
    exact scanNumeral_text true cs
  · show c :: (_ ++ _) = _
    rw [List.takeWhile_append_dropWhile]
  · rfl

theorem numeral_ne_nil {point : Bool} {cs : List Char}
    (h : point = true ∨ cs.head?.any Regex.digit = true) : (scanNumeral point cs).1.text ≠ [] := by
  rcases scanNumeral_cases point cs with ⟨run, e, sign, rest, -, -, -, heq⟩ | ⟨-, heq⟩
  · rw [heq]
    simp [Piece.text]
  · rw [heq]
    show closing point '.' ++ (cs.takeWhile numeralChar ++ []) ≠ []
    rcases h with rfl | hdigit
    · exact List.cons_ne_nil _ _
    · cases cs with
      | nil => cases hdigit
      | cons d cs =>
          have hd : numeralChar d = true := by
            apply numeral_of_mantissa
            simp only [List.head?_cons, Option.any_some] at hdigit
            rw [mantissaChar, hdigit]
            rfl
          rw [List.takeWhile_cons, if_pos hd]
          simp

theorem text_ne_nil (c : Char) (cs : List Char) : (nextPiece c cs).1.text ≠ [] := by
  rw [nextPiece]
  split_ifs with hquote hdouble hline hblock hdigit hpoint hword
  · cases Sql.scanQuoted c cs with
    | none => exact List.cons_ne_nil _ _
    | some found => exact List.cons_ne_nil _ _
  · cases Sql.scanQuoted c cs with
    | none => exact List.cons_ne_nil _ _
    | some found => exact List.cons_ne_nil _ _
  · exact List.cons_ne_nil _ _
  · cases Sql.scanBlock cs.tail with
    | none => exact List.cons_ne_nil _ _
    | some found => exact List.cons_ne_nil _ _
  · exact numeral_ne_nil (.inr hdigit)
  · exact numeral_ne_nil (.inl rfl)
  · exact List.cons_ne_nil _ _
  · exact List.cons_ne_nil _ _

theorem length_nextPiece (c : Char) (cs : List Char) : (nextPiece c cs).2.length ≤ cs.length := by
  have hlen := congrArg List.length (nextPiece_text c cs)
  have hpos := List.length_pos_iff.mpr (text_ne_nil c cs)
  rw [List.length_append, List.length_cons] at hlen
  omega

theorem pieces_cons (c : Char) (cs : List Char) :
    pieces (c :: cs) = (nextPiece c cs).1 :: pieces (nextPiece c cs).2 :=
  tokens_cons length_nextPiece

/-- A text is its pieces one after the other. -/
theorem pieces_text (cs : List Char) : (pieces cs).flatMap Piece.text = cs := by
  induction hlen : cs.length using Nat.strongRecOn generalizing cs with
  | ind m ih =>
      cases cs with
      | nil => rfl
      | cons c cs =>
          have hle := length_nextPiece c cs
          rw [List.length_cons] at hlen
          rw [pieces_cons, List.flatMap_cons, ih _ (by omega) _ rfl, nextPiece_text]

/-! ## What comes later -/

theorem dropWhile_append {p : Char → Bool} {cs rest ext : List Char} (hrest : rest ≠ [])
    (h : (cs ++ ext).dropWhile p = rest ++ ext) :
    cs.dropWhile p = rest ∧ cs.takeWhile p = (cs ++ ext).takeWhile p := by
  have hne : cs.dropWhile p ≠ [] := by
    intro hnil
    rw [List.dropWhile_append, hnil] at h
    have hlen := congrArg List.length h
    have hle := length_dropWhile p ext
    have hpos := List.length_pos_iff.mpr hrest
    rw [List.length_append] at hlen
    simp only [List.isEmpty_nil, if_true] at hlen
    omega
  have hdrop : cs.dropWhile p = rest := by
    rw [List.dropWhile_append, if_neg (by simpa using hne)] at h
    exact List.append_cancel_right h
  refine ⟨hdrop, ?_⟩
  have hboth := List.takeWhile_append_dropWhile (p := p) (l := cs ++ ext)
  rw [h, ← List.append_assoc] at hboth
  have hcs := List.append_cancel_right hboth
  rw [← hdrop] at hcs
  exact (List.append_cancel_right (hcs.trans List.takeWhile_append_dropWhile.symm)).symm

theorem scanQuoted_local {q : Char} {cs body rest ext : List Char} (hrest : rest ≠ [])
    (h : Sql.scanQuoted q (cs ++ ext) = some (body, rest ++ ext)) :
    Sql.scanQuoted q cs = some (body, rest) := by
  have hcs : cs = body ++ q :: rest := by
    have happend := Sql.scanQuoted_append h
    rw [← List.cons_append, ← List.append_assoc] at happend
    exact List.append_cancel_right happend
  induction cs using Sql.scanQuoted.induct q generalizing body with
  | case1 => simp at hcs
  | case2 =>
      have hlen := congrArg List.length hcs
      have hpos := List.length_pos_iff.mpr hrest
      simp only [List.length_append, List.length_cons, List.length_nil] at hlen
      omega
  | case3 c hne =>
      have hlen := congrArg List.length hcs
      have hpos := List.length_pos_iff.mpr hrest
      simp only [List.length_append, List.length_cons, List.length_nil] at hlen
      omega
  | case4 cs ih =>
      rw [List.cons_append, List.cons_append, Sql.scanQuoted, if_pos rfl, if_pos rfl] at h
      obtain ⟨⟨body', rest'⟩, hscan, heq⟩ := Option.map_eq_some_iff.mp h
      cases heq
      obtain ⟨-, hcs'⟩ := List.cons.inj hcs
      rw [Sql.scanQuoted, if_pos rfl, if_pos rfl, ih hscan (List.cons.inj hcs').2]
      rfl
  | case5 d cs hne =>
      rw [List.cons_append, List.cons_append, Sql.scanQuoted, if_pos rfl, if_neg hne] at h
      obtain ⟨hbody, -⟩ := Prod.mk.inj (Option.some.inj h)
      subst hbody
      rw [Sql.scanQuoted, if_pos rfl, if_neg hne, (List.cons.inj hcs).2]
  | case6 c d cs hne ih =>
      rw [List.cons_append, List.cons_append, Sql.scanQuoted, if_neg hne] at h
      obtain ⟨⟨body', rest'⟩, hscan, heq⟩ := Option.map_eq_some_iff.mp h
      cases heq
      rw [Sql.scanQuoted, if_neg hne, ih hscan (List.cons.inj hcs).2]
      rfl

theorem length_scanBlock {cs body rest : List Char} (h : Sql.scanBlock cs = some (body, rest)) :
    2 ≤ body.length := by
  induction cs using Sql.scanBlock.induct generalizing body with
  | case1 => cases h
  | case2 => cases h
  | case3 c d cs hend =>
      rw [Sql.scanBlock, if_pos hend] at h
      cases h
      exact Nat.le_refl 2
  | case4 c d cs hend ih =>
      rw [Sql.scanBlock, if_neg hend] at h
      obtain ⟨⟨body', rest'⟩, hscan, heq⟩ := Option.map_eq_some_iff.mp h
      cases heq
      have hle := ih hscan
      rw [List.length_cons]
      omega

theorem scanBlock_local {cs body rest ext : List Char}
    (h : Sql.scanBlock (cs ++ ext) = some (body, rest ++ ext)) :
    Sql.scanBlock cs = some (body, rest) := by
  have hcs : cs = body ++ rest := by
    have happend := Sql.scanBlock_append h
    rw [← List.append_assoc] at happend
    exact List.append_cancel_right happend
  have hlen := congrArg List.length hcs
  have htwo := length_scanBlock h
  rw [List.length_append] at hlen
  induction cs using Sql.scanBlock.induct generalizing body with
  | case1 =>
      rw [List.length_nil] at hlen
      omega
  | case2 c =>
      rw [List.length_singleton] at hlen
      omega
  | case3 c d cs hend =>
      rw [List.cons_append, List.cons_append, Sql.scanBlock, if_pos hend] at h
      obtain ⟨hbody, -⟩ := Prod.mk.inj (Option.some.inj h)
      subst hbody
      obtain ⟨-, hcs'⟩ := List.cons.inj hcs
      rw [Sql.scanBlock, if_pos hend, (List.cons.inj hcs').2]
      rfl
  | case4 c d cs hend ih =>
      rw [List.cons_append, List.cons_append, Sql.scanBlock, if_neg hend] at h
      obtain ⟨⟨body', rest'⟩, hscan, heq⟩ := Option.map_eq_some_iff.mp h
      cases heq
      have hcs' : d :: cs = body' ++ rest := (List.cons.inj hcs).2
      have hlen' := congrArg List.length hcs'
      rw [List.length_append] at hlen'
      rw [Sql.scanBlock, if_neg hend, ih hscan hcs' hlen' (length_scanBlock hscan)]
      rfl

theorem scanNumeral_local {point : Bool} {cs rest ext : List Char} {p : Piece} (hrest : rest ≠ [])
    (h : scanNumeral point (cs ++ ext) = (p, rest ++ ext)) : scanNumeral point cs = (p, rest) := by
  rcases scanNumeral_cases point (cs ++ ext) with
    ⟨run, e, sign, tail, hcs, hrun, hsigned, heq⟩ | ⟨hnone, heq⟩
  · obtain ⟨hp, hdrop⟩ := Prod.mk.inj (heq.symm.trans h)
    -- the digits of the exponent stand before the rest
    obtain ⟨tail, rfl⟩ : ∃ tail', tail = tail' ++ ext := by
      refine ⟨tail.takeWhile numeralChar ++ rest, ?_⟩
      rw [List.append_assoc, ← hdrop, List.takeWhile_append_dropWhile]
    have hcs' : cs = run ++ e :: sign :: tail := by
      rw [← List.cons_append, ← List.cons_append, ← List.append_assoc] at hcs
      exact List.append_cancel_right hcs
    obtain ⟨hdrop', htake⟩ := dropWhile_append hrest hdrop
    have hsigned' : Signed e sign tail := by
      refine ⟨hsigned.1, hsigned.2.1, ?_⟩
      cases tail with
      | nil => exact absurd hdrop'.symm hrest
      | cons d tail => exact hsigned.2.2
    rw [hcs', scanNumeral_signed hrun hsigned', htake, hdrop', hp]
  · obtain ⟨hp, hdrop⟩ := Prod.mk.inj (heq.symm.trans h)
    obtain ⟨hdrop', htake⟩ := dropWhile_append hrest hdrop
    rcases scanNumeral_cases point cs with ⟨run, e, sign, tail, rfl, hrun, hsigned, -⟩ | ⟨-, heq'⟩
    · refine absurd ?_ (hnone run e sign (tail ++ ext) (by simp) hrun)
      refine ⟨hsigned.1, hsigned.2.1, ?_⟩
      cases tail with
      | nil => cases hsigned.2.2
      | cons d tail => exact hsigned.2.2
    · rw [heq', htake, hdrop', hp]

/-- A piece with something behind it does not depend on what comes later. -/
theorem nextPiece_local {c : Char} {cs rest ext : List Char} {p : Piece} (hrest : rest ≠ [])
    (h : nextPiece c (cs ++ ext) = (p, rest ++ ext)) : nextPiece c cs = (p, rest) := by
  cases cs with
  | nil =>
      have htext := nextPiece_text c ([] ++ ext)
      have hpos := List.length_pos_iff.mpr (text_ne_nil c ([] ++ ext))
      have hrpos := List.length_pos_iff.mpr hrest
      rw [h] at htext hpos
      have hlen := congrArg List.length htext
      simp only [List.length_append, List.length_cons, List.nil_append] at hlen hpos
      omega
  | cons d cs =>
      rw [nextPiece] at h ⊢
      rw [List.cons_append, List.head?_cons, List.tail_cons] at h
      rw [List.head?_cons, List.tail_cons]
      split_ifs at h ⊢ with hquote hdouble hline hblock hdigit hpoint hword
      · cases hscan : Sql.scanQuoted c (d :: (cs ++ ext)) with
        | none =>
            rw [hscan] at h
            exact absurd (List.append_eq_nil_iff.mp (Prod.mk.inj h).2.symm).1 hrest
        | some found =>
            rw [hscan] at h
            obtain ⟨hp, hr⟩ := Prod.mk.inj h
            have hfound : found = (found.1, rest ++ ext) := by rw [← hr]
            rw [hfound] at hscan
            rw [@scanQuoted_local c (d :: cs) _ _ _ hrest hscan]
            exact Prod.ext hp rfl
      · cases hscan : Sql.scanQuoted c (d :: (cs ++ ext)) with
        | none =>
            rw [hscan] at h
            exact absurd (List.append_eq_nil_iff.mp (Prod.mk.inj h).2.symm).1 hrest
        | some found =>
            rw [hscan] at h
            obtain ⟨hp, hr⟩ := Prod.mk.inj h
            have hfound : found = (found.1, rest ++ ext) := by rw [← hr]
            rw [hfound] at hscan
            rw [@scanQuoted_local c (d :: cs) _ _ _ hrest hscan]
            exact Prod.ext hp rfl
      · obtain ⟨hp, hr⟩ := Prod.mk.inj h
        obtain ⟨hdrop, htake⟩ := dropWhile_append hrest hr
        rw [hdrop, htake]
        exact Prod.ext hp rfl
      · cases hscan : Sql.scanBlock (cs ++ ext) with
        | none =>
            rw [hscan] at h
            exact absurd (List.append_eq_nil_iff.mp (Prod.mk.inj h).2.symm).1 hrest
        | some found =>
            rw [hscan] at h
            obtain ⟨hp, hr⟩ := Prod.mk.inj h
            have hfound : found = (found.1, rest ++ ext) := by rw [← hr]
            rw [hfound] at hscan
            rw [scanBlock_local hscan]
            exact Prod.ext hp rfl
      · exact @scanNumeral_local false (c :: d :: cs) _ _ _ hrest h
      · exact @scanNumeral_local true (d :: cs) _ _ _ hrest h
      · obtain ⟨hp, hr⟩ := Prod.mk.inj h
        obtain ⟨hdrop, htake⟩ := @dropWhile_append _ (d :: cs) _ _ hrest hr
        rw [hdrop, htake]
        exact Prod.ext hp rfl
      · obtain ⟨hp, hr⟩ := Prod.mk.inj h
        exact Prod.ext hp (List.append_cancel_right hr)

/-- The first pieces do not depend on what comes later, when something stands between. -/
theorem pieces_append {cs rest ext : List Char} {before after : List Piece} (hrest : rest ≠ [])
    (h : pieces (cs ++ ext) = before ++ after) (hafter : after.flatMap Piece.text = rest ++ ext) :
    pieces cs = before ++ pieces rest := by
  induction before generalizing cs with
  | nil =>
      have htext := pieces_text (cs ++ ext)
      rw [h, List.nil_append, hafter] at htext
      rw [List.append_cancel_right htext, List.nil_append]
  | cons p before ih =>
      have htext := pieces_text (cs ++ ext)
      rw [h, List.cons_append, List.flatMap_cons, List.flatMap_append, hafter] at htext
      cases cs with
      | nil =>
          have hlen := congrArg List.length htext
          have hpos := List.length_pos_iff.mpr hrest
          simp only [List.length_append, List.nil_append] at hlen
          omega
      | cons c cs =>
          rw [List.cons_append, pieces_cons] at h
          have hp : (nextPiece c (cs ++ ext)).1 = p := (List.cons.inj h).1
          have hpieces : pieces (nextPiece c (cs ++ ext)).2 = before ++ after := (List.cons.inj h).2
          -- what is behind the first piece
          have hbehind : (nextPiece c (cs ++ ext)).2 =
              (before.flatMap Piece.text ++ rest) ++ ext := by
            rw [← pieces_text (nextPiece c (cs ++ ext)).2, hpieces, List.flatMap_append, hafter,
              List.append_assoc]
          have hne : before.flatMap Piece.text ++ rest ≠ [] := by
            intro hnil
            exact hrest (List.append_eq_nil_iff.mp hnil).2
          have hnext := nextPiece_local hne (Prod.ext hp hbehind)
          rw [pieces_cons, hnext, List.cons_append]
          rw [hbehind] at hpieces
          rw [ih hpieces]

end Redaction

end Upstream
