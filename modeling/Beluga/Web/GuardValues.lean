import Beluga.Web.StringGuard

/-! # What a rendered expression can show

The values of an expression for all choices of values for its leaves.

* `can_iff`: of which kinds its values are;
* `mem_shown`: which texts of its literals they contain.
-/

namespace HardcodedStrings

/-! ## Kinds of values -/

/-- What the operators, a condition, `join` and a template can tell of a value. -/
inductive ValueKind where
  | nullish
  /-- The empty string. -/
  | blank
  /-- Any other falsy value. -/
  | falsy
  /-- A truthy value without a text, such as an empty array. -/
  | hollow
  | solid
  deriving DecidableEq

namespace ValueKind

def all : List ValueKind := [nullish, blank, falsy, hollow, solid]

def truthy : ValueKind → Bool
  | hollow | solid => true
  | _ => false

/-- Nothing is written in an array. -/
def silent : ValueKind → Bool
  | nullish | blank | hollow => true
  | _ => false

/-- Nothing is written in a template. -/
def empty : ValueKind → Bool
  | blank | hollow => true
  | _ => false

def keptBy (k : ValueKind) : Operator → Bool
  | .ampersandAmpersand => !k.truthy
  | .barBar => k.truthy
  | .questionQuestion => k ≠ nullish

/-- Some kind is both. -/
def meet (p f : ValueKind → Bool) : Bool := all.any fun k => p k && f k

theorem mem_all (k : ValueKind) : k ∈ all := by cases k <;> decide

theorem meet_iff {p f : ValueKind → Bool} : meet p f = true ↔ ∃ k, p k = true ∧ f k = true := by
  rw [meet, List.any_eq_true]
  constructor
  · intro h
    rcases h with ⟨k, -, hk⟩
    exact ⟨k, Bool.and_eq_true_iff.mp hk⟩
  · intro h
    rcases h with ⟨k, hp, hf⟩
    exact ⟨k, mem_all k, Bool.and_eq_true_iff.mpr ⟨hp, hf⟩⟩

end ValueKind

def Value.kind (v : Value) : ValueKind :=
  if v.nullish then .nullish
  else if v.truthy then if (chars v.text).isEmpty then .hollow else .solid
  else if (chars v.text).isEmpty then .blank else .falsy

theorem chars_append (ps qs : List Piece) : chars (ps ++ qs) = chars ps ++ chars qs :=
  List.flatMap_append

theorem chars_cons (p : Piece) (ps : List Piece) : chars (p :: ps) = p.text ++ chars ps :=
  List.flatMap_cons

theorem truthy_of_nullish {v : Value} (h : v.nullish = true) : v.truthy = false := by
  cases v <;> first | rfl | cases h

theorem text_of_nullish {v : Value} (h : v.nullish = true) : (chars v.text).isEmpty = false := by
  cases v <;> first | rfl | cases h

theorem Value.kind_truthy (v : Value) : v.kind.truthy = v.truthy := by
  rw [Value.kind]
  by_cases hn : v.nullish = true
  · rw [if_pos hn, truthy_of_nullish hn]
    rfl
  · rw [if_neg hn]
    split
    · next ht => split <;> exact ht.symm
    · next ht => split <;> exact (Bool.eq_false_iff.mpr ht).symm

theorem Value.kind_empty (v : Value) : v.kind.empty = (chars v.text).isEmpty := by
  rw [Value.kind]
  by_cases hn : v.nullish = true
  · rw [if_pos hn, text_of_nullish hn]
    rfl
  · rw [if_neg hn]
    split <;> split <;> first
      | (next he => exact he.symm)
      | (next he => exact (Bool.eq_false_iff.mpr he).symm)

theorem Value.kind_nullish (v : Value) : v.kind = .nullish ↔ v.nullish = true := by
  rw [Value.kind]
  by_cases hn : v.nullish = true
  · rw [if_pos hn]
    exact iff_of_true rfl hn
  · rw [if_neg hn]
    refine iff_of_false ?_ hn
    split <;> split <;> exact ValueKind.noConfusion

theorem Operator.keeps_kind (op : Operator) (v : Value) : op.keeps v = v.kind.keptBy op := by
  cases op with
  | ampersandAmpersand => rw [Operator.keeps, ValueKind.keptBy, v.kind_truthy]
  | barBar => rw [Operator.keeps, ValueKind.keptBy, v.kind_truthy]
  | questionQuestion =>
      rw [Operator.keeps, ValueKind.keptBy, Bool.eq_iff_iff, decide_eq_true_eq, ne_eq,
        v.kind_nullish, Bool.not_eq_true', Bool.not_eq_true]

/-- What an element writes in an array. -/
theorem Value.kind_silent (v : Value) : v.kind.silent =
    (chars (if v.nullish then [] else v.text)).isEmpty := by
  by_cases hn : v.nullish = true
  · rw [if_pos hn, (v.kind_nullish).mpr hn]
    rfl
  · have hkind : v.kind ≠ .nullish := fun h => hn ((v.kind_nullish).mp h)
    rw [if_neg hn, ← v.kind_empty]
    cases hk : v.kind <;> first | rfl | exact absurd hk hkind

theorem kind_array (vs : List Value) : (Value.array vs).kind =
    if (chars (Value.array vs).text).isEmpty then .hollow else .solid := rfl

theorem kind_string (ps : List Piece) : (Value.string ps).kind =
    if (chars ps).isEmpty then .blank else .solid := by
  simp only [Value.kind, Value.nullish, Value.truthy, Value.text]
  by_cases h : (chars ps).isEmpty = true
  · simp [h]
  · simp [h]

theorem kind_array_one (v : Value) : (Value.array [v]).kind =
    if v.kind.silent then .hollow else .solid := by
  rw [kind_array, Value.text, Value.textAfter, List.append_nil, ← v.kind_silent]

theorem kind_array_more (v w : Value) (vs : List Value) :
    (Value.array (v :: w :: vs)).kind = .solid := by
  rw [kind_array, Value.text, Value.textAfter, chars_append, if_neg]
  simp [chars_cons, foreign]

/-! ## The kinds of an expression -/

mutual

/-- Some value of the expression is of the kind. -/
def Expr.can : Expr → ValueKind → Bool
  | .literal _ text, k => k = if text.isEmpty then .blank else .solid
  | .template _ head templateSpans, k =>
      if k = .blank then head.isEmpty && templateSpans.canBlank
      else k = .solid && (!head.isEmpty || templateSpans.canFill)
  | .parenthesized expression, k => expression.can k
  | .conditional condition whenTrue whenFalse, k =>
      ValueKind.meet (·.truthy) (fun j => condition.can j) && whenTrue.can k ||
        ValueKind.meet (!·.truthy) (fun j => condition.can j) && whenFalse.can k
  | .binary operatorToken left right, k =>
      k.keptBy operatorToken && left.can k ||
        ValueKind.meet (!·.keptBy operatorToken) (fun j => left.can j) && right.can k
  | .arrayLiteral elements, k => elements.can k
  | .leaf, _ => true

/-- Some array of such elements is of the kind. -/
def Elements.can : Elements → ValueKind → Bool
  | .nil, k => k = .hollow
  | .cons element .nil, k =>
      k = .hollow && ValueKind.meet (·.silent) (fun j => element.can j) ||
        k = .solid && ValueKind.meet (!·.silent) (fun j => element.can j)
  | .cons _ (.cons _ _), k => k = .solid

/-- The holes and what follows them can be empty. -/
def Spans.canBlank : Spans → Bool
  | .nil => true
  | .cons expression literal rest =>
      ValueKind.meet (·.empty) (fun j => expression.can j) && (literal.isEmpty && rest.canBlank)

def Spans.canFill : Spans → Bool
  | .nil => false
  | .cons expression literal rest =>
      ValueKind.meet (!·.empty) (fun j => expression.can j) || (!literal.isEmpty || rest.canFill)

end

mutual

theorem exists_eval : (e : Expr) → ∃ v, Eval e v
  | .literal _ _ => ⟨_, rfl⟩
  | .template node _ templateSpans => by
      rcases exists_evalSpans node templateSpans with ⟨ps, h⟩
      exact ⟨_, ps, h, rfl⟩
  | .parenthesized expression => exists_eval expression
  | .conditional condition whenTrue whenFalse => by
      rcases exists_eval condition with ⟨w, hw⟩
      cases ht : w.truthy with
      | true =>
          rcases exists_eval whenTrue with ⟨v, hv⟩
          exact ⟨v, w, hw, by rwa [if_pos ht]⟩
      | false =>
          rcases exists_eval whenFalse with ⟨v, hv⟩
          exact ⟨v, w, hw, by rwa [ht]⟩
  | .binary operatorToken left right => by
      rcases exists_eval left with ⟨w, hw⟩
      cases hk : operatorToken.keeps w with
      | true => exact ⟨w, w, hw, by rw [if_pos hk]⟩
      | false =>
          rcases exists_eval right with ⟨v, hv⟩
          exact ⟨v, w, hw, by rwa [hk]⟩
  | .arrayLiteral elements => by
      rcases exists_evalElements elements with ⟨vs, h⟩
      exact ⟨_, vs, h, rfl⟩
  | .leaf => ⟨.undefined, fun _ hp => absurd hp List.not_mem_nil⟩

theorem exists_evalElements : (es : Elements) → ∃ vs, EvalElements es vs
  | .nil => ⟨[], rfl⟩
  | .cons element rest => by
      rcases exists_eval element with ⟨v, hv⟩
      rcases exists_evalElements rest with ⟨vs, hvs⟩
      exact ⟨v :: vs, v, vs, hv, hvs, rfl⟩

theorem exists_evalSpans (node : ℕ) : (s : Spans) → ∃ ps, EvalSpans node s ps
  | .nil => ⟨[], rfl⟩
  | .cons expression literal rest => by
      rcases exists_eval expression with ⟨v, hv⟩
      rcases exists_evalSpans node rest with ⟨ps, hps⟩
      exact ⟨_, v, ps, hv, hps, rfl⟩

end

/-! ## Exactness -/

theorem meet_can {e : Expr} (h : ∀ k, e.can k = true ↔ ∃ v, Eval e v ∧ v.kind = k)
    (p : ValueKind → Bool) :
    ValueKind.meet p (fun j => e.can j) = true ↔ ∃ v, Eval e v ∧ p v.kind = true := by
  rw [ValueKind.meet_iff]
  constructor
  · intro hmeet
    rcases hmeet with ⟨k, hp, hk⟩
    rcases (h k).mp hk with ⟨v, hv, rfl⟩
    exact ⟨v, hv, hp⟩
  · intro hv
    rcases hv with ⟨v, hv, hp⟩
    exact ⟨v.kind, hp, (h v.kind).mpr ⟨v, hv, rfl⟩⟩

theorem exists_kind (k : ValueKind) : ∃ v : Value, v.Foreign ∧ v.kind = k := by
  have hnone : ∀ v : Value, v.children = [] → v.Foreign := by
    intro v hv p hp
    rw [hv] at hp
    exact absurd hp List.not_mem_nil
  cases k with
  | nullish => exact ⟨.undefined, hnone _ rfl, rfl⟩
  | blank => exact ⟨.string [], hnone _ rfl, rfl⟩
  | falsy => exact ⟨.boolean false, hnone _ rfl, by decide⟩
  | hollow => exact ⟨.array [], hnone _ rfl, rfl⟩
  | solid => exact ⟨.boolean true, hnone _ rfl, by decide⟩

mutual

/-- A kind is that of some value exactly if it is found to be. -/
theorem can_iff : (e : Expr) → ∀ k, e.can k = true ↔ ∃ v, Eval e v ∧ v.kind = k
  | .literal node text => by
      intro k
      rw [Expr.can, decide_eq_true_eq]
      have hkind : (Value.string [⟨some node, text⟩]).kind =
          if text.isEmpty then .blank else .solid := by
        rw [kind_string, chars_cons]
        exact congrArg (fun t : List Char => if t.isEmpty then ValueKind.blank else .solid)
          (List.append_nil text)
      constructor
      · intro hk
        exact ⟨_, rfl, hkind.trans hk.symm⟩
      · intro hv
        rcases hv with ⟨v, rfl, hk⟩
        exact hk.symm.trans hkind
  | .template node head templateSpans => by
      intro k
      have hkind : ∀ ps, (Value.string (⟨some node, head⟩ :: ps)).kind =
          if (head ++ chars ps).isEmpty then .blank else .solid :=
        fun ps => by rw [kind_string, chars_cons]
      rw [Expr.can]
      by_cases hb : k = .blank
      · rw [if_pos hb, Bool.and_eq_true, List.isEmpty_iff, canBlank_iff node templateSpans]
        constructor
        · intro h
          rcases h with ⟨hhead, ps, hps, hchars⟩
          refine ⟨_, ⟨ps, hps, rfl⟩, ?_⟩
          rw [hkind, hhead, hchars, hb]
          rfl
        · intro h
          rcases h with ⟨v, ⟨ps, hps, rfl⟩, hk⟩
          rw [hkind, hb] at hk
          split at hk
          · next hnil =>
              rw [List.isEmpty_iff, List.append_eq_nil_iff] at hnil
              exact ⟨hnil.1, ps, hps, hnil.2⟩
          · cases hk
      · rw [if_neg hb, Bool.and_eq_true, decide_eq_true_eq, Bool.or_eq_true, Bool.not_eq_true',
          ← Bool.not_eq_true, List.isEmpty_iff, canFill_iff node templateSpans]
        constructor
        · intro h
          rcases h with ⟨rfl, h⟩
          have hps : ∃ ps, EvalSpans node templateSpans ps ∧ head ++ chars ps ≠ [] := by
            rcases h with hhead | ⟨ps, hps, hchars⟩
            · rcases exists_evalSpans node templateSpans with ⟨ps, hps⟩
              exact ⟨ps, hps, List.append_ne_nil_of_left_ne_nil hhead _⟩
            · exact ⟨ps, hps, List.append_ne_nil_of_right_ne_nil _ hchars⟩
          rcases hps with ⟨ps, hps, hne⟩
          refine ⟨_, ⟨ps, hps, rfl⟩, ?_⟩
          rw [hkind, if_neg fun hnil => hne (List.isEmpty_iff.mp hnil)]
        · intro h
          rcases h with ⟨v, ⟨ps, hps, rfl⟩, hk⟩
          rw [hkind] at hk
          split at hk
          · exact absurd hk.symm hb
          · next hne =>
              refine ⟨hk.symm, ?_⟩
              by_cases hhead : head = []
              · rw [hhead, List.nil_append, List.isEmpty_iff] at hne
                exact .inr ⟨ps, hps, hne⟩
              · exact .inl hhead
  | .parenthesized expression => can_iff expression
  | .conditional condition whenTrue whenFalse => by
      intro k
      have hcond := meet_can (can_iff condition)
      rw [Expr.can, Bool.or_eq_true, Bool.and_eq_true, Bool.and_eq_true, hcond, hcond,
        can_iff whenTrue, can_iff whenFalse]
      simp only [Value.kind_truthy]
      constructor
      · intro h
        rcases h with ⟨⟨w, hw, ht⟩, v, hv, hk⟩ | ⟨⟨w, hw, ht⟩, v, hv, hk⟩
        · exact ⟨v, ⟨w, hw, by rwa [if_pos ht]⟩, hk⟩
        · rw [Bool.not_eq_true'] at ht
          exact ⟨v, ⟨w, hw, by rwa [ht]⟩, hk⟩
      · intro h
        rcases h with ⟨v, ⟨w, hw, hv⟩, hk⟩
        cases ht : w.truthy with
        | true =>
            rw [if_pos ht] at hv
            exact .inl ⟨⟨w, hw, ht⟩, v, hv, hk⟩
        | false =>
            rw [ht] at hv
            exact .inr ⟨⟨w, hw, by rw [ht]; rfl⟩, v, hv, hk⟩
  | .binary operatorToken left right => by
      intro k
      have hleft := meet_can (can_iff left)
      rw [Expr.can, Bool.or_eq_true, Bool.and_eq_true, Bool.and_eq_true, hleft, can_iff left,
        can_iff right]
      simp only [← Operator.keeps_kind]
      constructor
      · intro h
        rcases h with ⟨hkeeps, w, hw, rfl⟩ | ⟨⟨w, hw, hkeeps⟩, v, hv, hk⟩
        · rw [← Operator.keeps_kind] at hkeeps
          exact ⟨w, ⟨w, hw, by rw [if_pos hkeeps]⟩, rfl⟩
        · rw [Bool.not_eq_true'] at hkeeps
          exact ⟨v, ⟨w, hw, by rwa [hkeeps]⟩, hk⟩
      · intro h
        rcases h with ⟨v, ⟨w, hw, hv⟩, rfl⟩
        cases hkeeps : operatorToken.keeps w with
        | true =>
            rw [if_pos hkeeps] at hv
            rw [hv, ← Operator.keeps_kind]
            exact .inl ⟨hkeeps, w, hw, rfl⟩
        | false =>
            rw [hkeeps] at hv
            exact .inr ⟨⟨w, hw, by rw [hkeeps]; rfl⟩, v, hv, rfl⟩
  | .arrayLiteral elements => by
      intro k
      rw [Expr.can, canElements_iff elements k]
      constructor
      · intro h
        rcases h with ⟨vs, hvs, hk⟩
        exact ⟨_, ⟨vs, hvs, rfl⟩, hk⟩
      · intro h
        rcases h with ⟨v, ⟨vs, hvs, rfl⟩, hk⟩
        exact ⟨vs, hvs, hk⟩
  | .leaf => fun k => iff_of_true rfl (exists_kind k)

theorem canElements_iff : (es : Elements) → ∀ k, es.can k = true ↔
    ∃ vs, EvalElements es vs ∧ (Value.array vs).kind = k
  | .nil => by
      intro k
      rw [Elements.can, decide_eq_true_eq]
      constructor
      · intro hk
        exact ⟨[], rfl, hk.symm⟩
      · intro h
        rcases h with ⟨vs, rfl, hk⟩
        exact hk.symm
  | .cons element .nil => by
      intro k
      have hone := meet_can (can_iff element)
      rw [Elements.can, Bool.or_eq_true, Bool.and_eq_true, Bool.and_eq_true, hone, hone,
        decide_eq_true_eq, decide_eq_true_eq]
      constructor
      · intro h
        rcases h with ⟨rfl, v, hv, hs⟩ | ⟨rfl, v, hv, hs⟩
        · exact ⟨[v], ⟨v, [], hv, rfl, rfl⟩, by rw [kind_array_one, if_pos hs]⟩
        · rw [Bool.not_eq_true'] at hs
          refine ⟨[v], ⟨v, [], hv, rfl, rfl⟩, ?_⟩
          rw [kind_array_one, hs]
          rfl
      · intro h
        rcases h with ⟨vs, ⟨v, more, hv, rfl, rfl⟩, hk⟩
        rw [kind_array_one] at hk
        split at hk
        · next hs => exact .inl ⟨hk.symm, v, hv, hs⟩
        · next hs => exact .inr ⟨hk.symm, v, hv, by rw [Bool.not_eq_true']; simpa using hs⟩
  | .cons element (.cons second rest) => by
      intro k
      rw [Elements.can, decide_eq_true_eq]
      constructor
      · intro hk
        rcases exists_evalElements (.cons element (.cons second rest)) with ⟨vs, hvs⟩
        rcases hvs with ⟨v, more, hv, ⟨w, more', hw, hmore, rfl⟩, rfl⟩
        exact ⟨_, ⟨v, _, hv, ⟨w, more', hw, hmore, rfl⟩, rfl⟩,
          (kind_array_more v w more').trans hk.symm⟩
      · intro h
        rcases h with ⟨vs, ⟨v, more, hv, ⟨w, more', hw, hmore, rfl⟩, rfl⟩, hk⟩
        exact hk.symm.trans (kind_array_more v w more')

theorem canBlank_iff (node : ℕ) : (s : Spans) → (s.canBlank = true ↔
    ∃ ps, EvalSpans node s ps ∧ chars ps = [])
  | .nil => iff_of_true rfl ⟨[], rfl, rfl⟩
  | .cons expression literal rest => by
      rw [Spans.canBlank, Bool.and_eq_true, Bool.and_eq_true, meet_can (can_iff expression),
        List.isEmpty_iff, canBlank_iff node rest]
      simp only [Value.kind_empty, List.isEmpty_iff]
      constructor
      · intro h
        rcases h with ⟨⟨v, hv, htext⟩, hlit, ps, hps, hchars⟩
        refine ⟨_, ⟨v, ps, hv, hps, rfl⟩, ?_⟩
        rw [chars_append, chars_cons, htext, hlit, hchars]
        rfl
      · intro h
        rcases h with ⟨ps, ⟨v, more, hv, hmore, rfl⟩, hchars⟩
        rw [chars_append, chars_cons, List.append_eq_nil_iff, List.append_eq_nil_iff] at hchars
        exact ⟨⟨v, hv, hchars.1⟩, hchars.2.1, more, hmore, hchars.2.2⟩

theorem canFill_iff (node : ℕ) : (s : Spans) → (s.canFill = true ↔
    ∃ ps, EvalSpans node s ps ∧ chars ps ≠ [])
  | .nil => by
      refine iff_of_false Bool.false_ne_true fun h => ?_
      rcases h with ⟨ps, rfl, hne⟩
      exact hne rfl
  | .cons expression literal rest => by
      rw [Spans.canFill, Bool.or_eq_true, Bool.or_eq_true, meet_can (can_iff expression),
        canFill_iff node rest]
      simp only [Value.kind_empty, Bool.not_eq_true', List.isEmpty_eq_false_iff]
      constructor
      · intro h
        have hv : ∃ v, Eval expression v := exists_eval expression
        have hps : ∃ ps, EvalSpans node rest ps := exists_evalSpans node rest
        rcases h with ⟨v, hv, hne⟩ | hne | ⟨ps, hps, hne⟩
        · rcases hps with ⟨ps, hps⟩
          refine ⟨_, ⟨v, ps, hv, hps, rfl⟩, ?_⟩
          rw [chars_append]
          exact List.append_ne_nil_of_left_ne_nil hne _
        · rcases hv with ⟨v, hv⟩
          rcases hps with ⟨ps, hps⟩
          refine ⟨_, ⟨v, ps, hv, hps, rfl⟩, ?_⟩
          rw [chars_append, chars_cons]
          exact List.append_ne_nil_of_right_ne_nil _ (List.append_ne_nil_of_left_ne_nil hne _)
        · rcases hv with ⟨v, hv⟩
          refine ⟨_, ⟨v, ps, hv, hps, rfl⟩, ?_⟩
          rw [chars_append, chars_cons]
          exact List.append_ne_nil_of_right_ne_nil _ (List.append_ne_nil_of_right_ne_nil _ hne)
      · intro h
        rcases h with ⟨ps, ⟨v, more, hv, hmore, rfl⟩, hne⟩
        rw [chars_append, chars_cons, ne_eq, List.append_eq_nil_iff, List.append_eq_nil_iff,
          not_and_or, not_and_or] at hne
        rcases hne with hne | hne | hne
        · exact .inl ⟨v, hv, hne⟩
        · exact .inr (.inl hne)
        · exact .inr (.inr ⟨more, hmore, hne⟩)

end

/-! ## What can be seen -/

mutual

/-- The literals and static texts that some value of the expression has. -/
def Expr.shown : Expr → List Piece
  | .literal node text => [⟨some node, text⟩]
  | .template node head templateSpans =>
      (head :: templateSpans.texts).map (⟨some node, ·⟩) ++ templateSpans.held
  | .parenthesized expression => expression.shown
  | .conditional condition whenTrue whenFalse =>
      (if ValueKind.meet (·.truthy) condition.can then whenTrue.shown else []) ++
        (if ValueKind.meet (!·.truthy) condition.can then whenFalse.shown else [])
  -- A falsy value has no text of a literal.
  | .binary operatorToken left right =>
      (if operatorToken = .ampersandAmpersand then [] else left.shown) ++
        (if ValueKind.meet (!·.keptBy operatorToken) left.can then right.shown else [])
  | .arrayLiteral elements => elements.shown
  | .leaf => []

def Elements.shown : Elements → List Piece
  | .nil => []
  | .cons element rest => element.shown ++ rest.shown

/-- What the holes of a template bring in. -/
def Spans.held : Spans → List Piece
  | .nil => []
  | .cons expression _ rest => expression.shown ++ rest.held

end

section Pieces

variable {p : Piece} {node : ℕ}

mutual

/-- The texts of literals are the same in both renderings. -/
theorem mem_text (hnode : p.node = some node) : (v : Value) → (p ∈ v.text ↔ p ∈ v.children)
  | .undefined | .null | .boolean _ => by
      have hforeign : ∀ text, p ∉ [foreign text] := by
        intro text hp
        rw [List.mem_singleton.mp hp] at hnode
        cases hnode
      exact iff_of_false (hforeign _) List.not_mem_nil
  | .number _ _ | .string _ | .object _ => Iff.rfl
  | .array [] => Iff.rfl
  | .array (v :: rest) => by
      rw [Value.text, Value.children, Value.childrenOf, List.mem_append, List.mem_append,
        mem_textAfter hnode rest]
      by_cases hn : v.nullish = true
      · rw [if_pos hn]
        cases v <;> first | rfl | cases hn
      · rw [if_neg hn, mem_text hnode v]

theorem mem_textAfter (hnode : p.node = some node) :
    (vs : List Value) → (p ∈ Value.textAfter vs ↔ p ∈ Value.childrenOf vs)
  | [] => Iff.rfl
  | v :: rest => by
      have hcomma : p ≠ foreign [','] := by
        intro heq
        rw [heq] at hnode
        cases hnode
      rw [Value.textAfter, Value.childrenOf, List.cons_append, List.mem_cons, List.mem_append,
        List.mem_append, mem_textAfter hnode rest, or_iff_right hcomma]
      by_cases hn : v.nullish = true
      · rw [if_pos hn]
        cases v <;> first | rfl | cases hn
      · rw [if_neg hn, mem_text hnode v]

end

theorem mem_rendered (hnode : p.node = some node) (holder : Holder) (v : Value) :
    p ∈ holder.rendered v ↔ p ∈ v.children := by
  cases holder with
  | jsxChild => rfl
  | jsxAttribute name =>
      cases v <;> first | exact mem_text hnode _ | exact Iff.rfl

/-- A value with a text of a literal is truthy. -/
theorem truthy_of_mem (hnode : p.node = some node) (htext : p.text ≠ []) {v : Value}
    (hp : p ∈ v.children) : v.truthy = true := by
  cases v with
  | string ps =>
      rw [Value.truthy, Bool.not_eq_true', List.isEmpty_eq_false_iff]
      intro hnil
      exact htext (List.flatMap_eq_nil_iff.mp hnil p hp)
  | array => rfl
  | object => rfl
  | number text truthy =>
      rw [List.mem_singleton.mp hp] at hnode
      cases hnode
  | undefined => exact absurd hp List.not_mem_nil
  | null => exact absurd hp List.not_mem_nil
  | boolean => exact absurd hp List.not_mem_nil

theorem keeps_of_mem (hnode : p.node = some node) (htext : p.text ≠ []) {v : Value}
    (hp : p ∈ v.children) (op : Operator) :
    op.keeps v = decide (op ≠ .ampersandAmpersand) := by
  have ht := truthy_of_mem hnode htext hp
  cases op with
  | ampersandAmpersand =>
      rw [Operator.keeps, ht]
      rfl
  | barBar =>
      rw [Operator.keeps, ht]
      rfl
  | questionQuestion =>
      have hn : v.nullish = false := by
        cases h : v.nullish with
        | false => rfl
        | true =>
            rw [truthy_of_nullish h] at ht
            cases ht
      rw [Operator.keeps, hn]
      rfl

theorem mem_if {b : Bool} {ps : List Piece} : p ∈ (if b then ps else []) ↔ b = true ∧ p ∈ ps := by
  cases b with
  | true => exact (and_iff_right rfl).symm
  | false => exact iff_of_false List.not_mem_nil fun h => absurd h.1 Bool.false_ne_true

mutual

/-- Exactly these texts are in some value. -/
theorem mem_shown (hnode : p.node = some node) (htext : p.text ≠ []) :
    (e : Expr) → (p ∈ e.shown ↔ ∃ v, Eval e v ∧ p ∈ v.children)
  | .literal n text => by
      rw [Expr.shown]
      constructor
      · intro hp
        exact ⟨_, rfl, hp⟩
      · intro h
        rcases h with ⟨v, rfl, hp⟩
        exact hp
  | .template n head templateSpans => by
      rw [Expr.shown, List.map_cons, List.cons_append, List.mem_cons,
        mem_spans hnode htext n templateSpans]
      constructor
      · intro h
        rcases h with rfl | ⟨ps, hps, hp⟩
        · rcases exists_evalSpans n templateSpans with ⟨ps, hps⟩
          exact ⟨_, ⟨ps, hps, rfl⟩, List.mem_cons_self⟩
        · exact ⟨_, ⟨ps, hps, rfl⟩, List.mem_cons_of_mem _ hp⟩
      · intro h
        rcases h with ⟨v, ⟨ps, hps, rfl⟩, hp⟩
        rcases List.mem_cons.mp hp with hp | hp
        · exact .inl hp
        · exact .inr ⟨ps, hps, hp⟩
  | .parenthesized expression => mem_shown hnode htext expression
  | .conditional condition whenTrue whenFalse => by
      have hcond := meet_can (can_iff condition)
      rw [Expr.shown, List.mem_append, mem_if, mem_if, hcond, hcond,
        mem_shown hnode htext whenTrue, mem_shown hnode htext whenFalse]
      simp only [Value.kind_truthy, Bool.not_eq_true']
      constructor
      · intro h
        rcases h with ⟨⟨w, hw, ht⟩, v, hv, hp⟩ | ⟨⟨w, hw, ht⟩, v, hv, hp⟩
        · exact ⟨v, ⟨w, hw, by rwa [if_pos ht]⟩, hp⟩
        · exact ⟨v, ⟨w, hw, by rwa [ht]⟩, hp⟩
      · intro h
        rcases h with ⟨v, ⟨w, hw, hv⟩, hp⟩
        cases ht : w.truthy with
        | true =>
            rw [if_pos ht] at hv
            exact .inl ⟨⟨w, hw, ht⟩, v, hv, hp⟩
        | false =>
            rw [ht] at hv
            exact .inr ⟨⟨w, hw, ht⟩, v, hv, hp⟩
  | .binary operatorToken left right => by
      have hleft := meet_can (can_iff left)
      rw [Expr.shown, List.mem_append, mem_if, hleft, mem_shown hnode htext right]
      simp only [← Operator.keeps_kind, Bool.not_eq_true']
      constructor
      · intro h
        rcases h with hp | ⟨⟨w, hw, hkeeps⟩, v, hv, hp⟩
        · by_cases hand : operatorToken = .ampersandAmpersand
          · rw [if_pos hand] at hp
            exact absurd hp List.not_mem_nil
          · rw [if_neg hand, mem_shown hnode htext left] at hp
            rcases hp with ⟨w, hw, hp⟩
            have hkeeps := keeps_of_mem hnode htext hp operatorToken
            rw [decide_eq_true hand] at hkeeps
            exact ⟨w, ⟨w, hw, by rw [if_pos hkeeps]⟩, hp⟩
        · exact ⟨v, ⟨w, hw, by rwa [hkeeps]⟩, hp⟩
      · intro h
        rcases h with ⟨v, ⟨w, hw, hv⟩, hp⟩
        cases hkeeps : operatorToken.keeps w with
        | true =>
            rw [if_pos hkeeps] at hv
            rw [hv] at hp
            have hand := keeps_of_mem hnode htext hp operatorToken
            rw [hkeeps] at hand
            rw [if_neg (of_decide_eq_true hand.symm), mem_shown hnode htext left]
            exact .inl ⟨w, hw, hp⟩
        | false =>
            rw [hkeeps] at hv
            exact .inr ⟨⟨w, hw, hkeeps⟩, v, hv, hp⟩
  | .arrayLiteral elements => by
      rw [Expr.shown, mem_shownElements hnode htext elements]
      constructor
      · intro h
        rcases h with ⟨vs, hvs, hp⟩
        exact ⟨_, ⟨vs, hvs, rfl⟩, hp⟩
      · intro h
        rcases h with ⟨v, ⟨vs, hvs, rfl⟩, hp⟩
        exact ⟨vs, hvs, hp⟩
  | .leaf => by
      refine iff_of_false List.not_mem_nil fun h => ?_
      rcases h with ⟨v, hv, hp⟩
      rw [hv p hp] at hnode
      cases hnode

theorem mem_shownElements (hnode : p.node = some node) (htext : p.text ≠ []) :
    (es : Elements) → (p ∈ es.shown ↔ ∃ vs, EvalElements es vs ∧ p ∈ Value.childrenOf vs)
  | .nil => by
      refine iff_of_false List.not_mem_nil fun h => ?_
      rcases h with ⟨vs, rfl, hp⟩
      exact absurd hp List.not_mem_nil
  | .cons element rest => by
      rw [Elements.shown, List.mem_append, mem_shown hnode htext element,
        mem_shownElements hnode htext rest]
      constructor
      · intro h
        rcases h with ⟨v, hv, hp⟩ | ⟨vs, hvs, hp⟩
        · rcases exists_evalElements rest with ⟨vs, hvs⟩
          exact ⟨_, ⟨v, vs, hv, hvs, rfl⟩, List.mem_append_left _ hp⟩
        · rcases exists_eval element with ⟨v, hv⟩
          exact ⟨_, ⟨v, vs, hv, hvs, rfl⟩, List.mem_append_right _ hp⟩
      · intro h
        rcases h with ⟨vs, ⟨v, more, hv, hmore, rfl⟩, hp⟩
        rcases List.mem_append.mp hp with hp | hp
        · exact .inl ⟨v, hv, hp⟩
        · exact .inr ⟨more, hmore, hp⟩

theorem mem_spans (hnode : p.node = some node) (htext : p.text ≠ []) (n : ℕ) :
    (s : Spans) → (p ∈ s.texts.map (⟨some n, ·⟩) ++ s.held ↔ ∃ ps, EvalSpans n s ps ∧ p ∈ ps)
  | .nil => by
      refine iff_of_false List.not_mem_nil fun h => ?_
      rcases h with ⟨ps, rfl, hp⟩
      exact absurd hp List.not_mem_nil
  | .cons expression literal rest => by
      have hrest := mem_spans hnode htext n rest
      rw [List.mem_append] at hrest
      rw [Spans.texts, Spans.held, List.map_cons, List.cons_append, List.mem_cons,
        List.mem_append, List.mem_append, @or_left_comm (p ∈ List.map _ _), hrest, mem_shown hnode htext expression]
      constructor
      · intro h
        rcases h with rfl | ⟨v, hv, hp⟩ | ⟨ps, hps, hp⟩
        · rcases exists_eval expression with ⟨v, hv⟩
          rcases exists_evalSpans n rest with ⟨ps, hps⟩
          exact ⟨_, ⟨v, ps, hv, hps, rfl⟩, List.mem_append_right _ List.mem_cons_self⟩
        · rcases exists_evalSpans n rest with ⟨ps, hps⟩
          exact ⟨_, ⟨v, ps, hv, hps, rfl⟩,
            List.mem_append_left _ ((mem_text hnode v).mpr hp)⟩
        · rcases exists_eval expression with ⟨v, hv⟩
          exact ⟨_, ⟨v, ps, hv, hps, rfl⟩,
            List.mem_append_right _ (List.mem_cons_of_mem _ hp)⟩
      · intro h
        rcases h with ⟨ps, ⟨v, more, hv, hmore, rfl⟩, hp⟩
        rcases List.mem_append.mp hp with hp | hp
        · exact .inr (.inl ⟨v, hv, (mem_text hnode v).mp hp⟩)
        · rcases List.mem_cons.mp hp with hp | hp
          · exact .inl hp
          · exact .inr (.inr ⟨more, hmore, hp⟩)

end

end Pieces

end HardcodedStrings
