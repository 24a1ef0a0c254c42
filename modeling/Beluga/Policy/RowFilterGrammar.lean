import Beluga.Policy.RowFilterText
import Beluga.Text.SqlTokens

/-! # Row filters as tokens

A sequence of terms that one connective joins, over the tokens of SQL without the
white space.

* `Sequence.kinds`, `Sequence.parens`: the tokens that occur, and how parentheses stand;
* `Sequence.same_meaning`: an expression nests the connectives in any way and mixes
  them, and over the tokens of a sequence all expressions mean the same.
-/

namespace Policy.RowFilter

open Text Text.Sql

/-! ## Terms -/

inductive Connective where
  | and
  | or
  deriving DecidableEq, Repr

def Connective.text : Connective → String
  | .and => "AND"
  | .or => "OR"

inductive Value where
  | number (negative : Bool) (digits : List Char)
  | string (body : List Char)
  | currentUser
  deriving DecidableEq, Repr

/-- A column, or a table and its column. -/
structure Name where
  first : List Char
  second : Option (List Char)
  deriving DecidableEq, Repr

inductive Term where
  | compare (name : Name) (op : List Char) (v : Value)
  | isIn (name : Name) (v : Value) (more : List Value)
  deriving DecidableEq, Repr

/-! ## Their tokens -/

def Name.tokens (name : Name) : List Token :=
  .word name.first :: match name.second with
    | none => []
    | some w => [.symbol ['.'], .word w]

/-- Strings are free of quotes and backslashes. -/
inductive ValueTokens : Value → List Token → Prop where
  | number (n : List Char) (hn : PlainNumber n) : ValueTokens (.number false n) [.number n]
  | negative (n : List Char) (hn : PlainNumber n) :
      ValueTokens (.number true n) [.symbol ['-'], .number n]
  | string (s : List Char) (hs : ∀ c ∈ s, c ≠ '\'' ∧ c ≠ '\\') :
      ValueTokens (.string s) [.string s]
  | currentUser (w : List Char) (hw : Letters "current_user" w) : ValueTokens .currentUser [.word w]

/-- More values of a list, each behind a comma. -/
inductive MoreTokens : List Value → List Token → Prop where
  | nil : MoreTokens [] []
  | cons (v : Value) (vs : List Value) (toks rest : List Token) (hv : ValueTokens v toks)
      (hrest : MoreTokens vs rest) : MoreTokens (v :: vs) (.symbol [','] :: (toks ++ rest))

inductive TermTokens : Term → List Token → Prop where
  | compare (name : Name) (op : List Char) (v : Value) (toks : List Token)
      (hop : op ∈ COMPARISONS) (hv : ValueTokens v toks) :
      TermTokens (.compare name op v) (name.tokens ++ .symbol op :: toks)
  | isIn (name : Name) (w : List Char) (v : Value) (vs : List Value) (toks rest : List Token)
      (hw : Letters "IN" w) (hv : ValueTokens v toks) (hrest : MoreTokens vs rest) :
      TermTokens (.isIn name v vs)
        (name.tokens ++ .word w :: .symbol ['('] :: (toks ++ (rest ++ [.symbol [')']])))

/-- More terms, each behind the connective. -/
inductive TailTokens (c : Connective) : List Term → List Token → Prop where
  | nil : TailTokens c [] []
  | cons (w : List Char) (t : Term) (ts : List Term) (toks rest : List Token)
      (hw : Letters c.text w) (ht : TermTokens t toks) (hrest : TailTokens c ts rest) :
      TailTokens c (t :: ts) (.word w :: (toks ++ rest))

/-- Terms that one connective joins. -/
inductive Sequence (c : Connective) : List Term → List Token → Prop where
  | mk (t : Term) (ts : List Term) (toks rest : List Token) (ht : TermTokens t toks)
      (hrest : TailTokens c ts rest) : Sequence c (t :: ts) (toks ++ rest)

/-! ## What occurs -/

/-- A token of a sequence. -/
def Kind (t : Token) : Prop :=
  (∃ w, t = .word w) ∨ (∃ n, t = .number n) ∨ (∃ s, t = .string s) ∨
    ∃ s, t = .symbol s ∧ s ∈ COMPARISONS ++ [['.'], ['-'], [','], ['('], [')']]

/-- A token between parentheses. -/
def Inner (t : Token) : Prop :=
  (∃ n, t = .number n) ∨ (∃ s, t = .string s) ∨ t = .symbol ['-'] ∨ t = .symbol [','] ∨
    ∃ w, t = .word w ∧ Letters "current_user" w

/-- Each opening parenthesis is that of an `IN`, and closes behind values. -/
def Parens (toks : List Token) : Prop :=
  ∀ before after, toks = before ++ .symbol ['('] :: after →
    (∃ front w, before = front ++ [.word w] ∧ Letters "IN" w) ∧
      ∃ inner rest, after = inner ++ .symbol [')'] :: rest ∧ ∀ t ∈ inner, Inner t

theorem Inner.kind {t : Token} (h : Inner t) : Kind t := by
  rcases h with ⟨n, rfl⟩ | ⟨s, rfl⟩ | rfl | rfl | ⟨w, rfl, -⟩
  · exact .inr (.inl ⟨n, rfl⟩)
  · exact .inr (.inr (.inl ⟨s, rfl⟩))
  · exact .inr (.inr (.inr ⟨_, rfl, by decide⟩))
  · exact .inr (.inr (.inr ⟨_, rfl, by decide⟩))
  · exact .inl ⟨w, rfl⟩

theorem not_mem_of_inner {toks : List Token} (h : ∀ t ∈ toks, Inner t) :
    Token.symbol ['('] ∉ toks := by
  intro hmem
  have hinner := h _ hmem
  simp [Inner] at hinner

theorem ValueTokens.inner {v : Value} {toks : List Token} (h : ValueTokens v toks) :
    ∀ t ∈ toks, Inner t := by
  cases h with
  | number n hn => exact List.forall_mem_singleton.mpr (.inl ⟨n, rfl⟩)
  | negative n hn =>
      exact List.forall_mem_cons.mpr ⟨.inr (.inr (.inl rfl)),
        List.forall_mem_singleton.mpr (.inl ⟨n, rfl⟩)⟩
  | string s hs => exact List.forall_mem_singleton.mpr (.inr (.inl ⟨s, rfl⟩))
  | currentUser w hw =>
      exact List.forall_mem_singleton.mpr (.inr (.inr (.inr (.inr ⟨w, rfl, hw⟩))))

theorem MoreTokens.inner {vs : List Value} {toks : List Token} (h : MoreTokens vs toks) :
    ∀ t ∈ toks, Inner t := by
  induction h with
  | nil => exact fun t ht => absurd ht List.not_mem_nil
  | cons v vs toks rest hv _ ih =>
      refine List.forall_mem_cons.mpr ⟨.inr (.inr (.inr (.inl rfl))), ?_⟩
      exact List.forall_mem_append.mpr ⟨hv.inner, ih⟩

theorem Name.kinds (name : Name) : ∀ t ∈ name.tokens, Kind t := by
  refine List.forall_mem_cons.mpr ⟨.inl ⟨_, rfl⟩, ?_⟩
  cases name.second with
  | none => exact fun t ht => absurd ht List.not_mem_nil
  | some w =>
      exact List.forall_mem_cons.mpr ⟨.inr (.inr (.inr ⟨_, rfl, by decide⟩)),
        List.forall_mem_singleton.mpr (.inl ⟨w, rfl⟩)⟩

theorem TermTokens.kinds {t : Term} {toks : List Token} (h : TermTokens t toks) :
    ∀ tok ∈ toks, Kind tok := by
  have hsymbol : ∀ {s}, s ∈ COMPARISONS ++ [['.'], ['-'], [','], ['('], [')']] →
      Kind (.symbol s) := fun hs => .inr (.inr (.inr ⟨_, rfl, hs⟩))
  cases h with
  | compare name op v toks hop hv =>
      refine List.forall_mem_append.mpr ⟨name.kinds, List.forall_mem_cons.mpr ⟨?_, ?_⟩⟩
      · exact hsymbol (List.mem_append_left _ hop)
      · exact fun t ht => (hv.inner t ht).kind
  | isIn name w v vs toks rest hw hv hrest =>
      refine List.forall_mem_append.mpr ⟨name.kinds, List.forall_mem_cons.mpr ⟨.inl ⟨w, rfl⟩, ?_⟩⟩
      refine List.forall_mem_cons.mpr ⟨hsymbol (by decide), List.forall_mem_append.mpr ⟨?_, ?_⟩⟩
      · exact fun t ht => (hv.inner t ht).kind
      · refine List.forall_mem_append.mpr ⟨fun t ht => (hrest.inner t ht).kind, ?_⟩
        exact List.forall_mem_singleton.mpr (hsymbol (by decide))

theorem TailTokens.kinds {c : Connective} {ts : List Term} {toks : List Token}
    (h : TailTokens c ts toks) : ∀ t ∈ toks, Kind t := by
  induction h with
  | nil => exact fun t ht => absurd ht List.not_mem_nil
  | cons w t ts toks rest hw ht _ ih =>
      exact List.forall_mem_cons.mpr ⟨.inl ⟨w, rfl⟩, List.forall_mem_append.mpr ⟨ht.kinds, ih⟩⟩

theorem Sequence.kinds {c : Connective} {terms : List Term} {toks : List Token}
    (h : Sequence c terms toks) : ∀ t ∈ toks, Kind t := by
  cases h with
  | mk t ts toks rest ht hrest => exact List.forall_mem_append.mpr ⟨ht.kinds, hrest.kinds⟩

theorem Parens.of_not_mem {toks : List Token} (h : Token.symbol ['('] ∉ toks) : Parens toks := by
  intro before after heq
  rw [heq] at h
  exact absurd (List.mem_append_right _ List.mem_cons_self) h

theorem Parens.append {xs ys : List Token} (hx : Parens xs) (hy : Parens ys)
    (hhead : ys.head? ≠ some (.symbol ['('])) : Parens (xs ++ ys) := by
  intro before after heq
  rcases List.append_eq_append_iff.mp heq with ⟨mid, rfl, hys⟩ | ⟨mid, hxs, hafter⟩
  · -- the parenthesis is in `ys`, and not its first token
    obtain ⟨⟨front, w, hfront, hw⟩, hclosed⟩ := hy mid after hys
    refine ⟨⟨xs ++ front, w, ?_, hw⟩, hclosed⟩
    rw [hfront, List.append_assoc]
  · cases mid with
    | nil =>
        rw [List.nil_append] at hafter
        rw [← hafter] at hhead
        exact absurd rfl hhead
    | cons u mid =>
        obtain ⟨hu, rfl⟩ := List.cons.inj hafter
        rw [← hu] at hxs
        obtain ⟨hopen, inner, rest, rfl, hinner⟩ := hx before mid hxs
        exact ⟨hopen, inner, rest ++ ys, by simp, hinner⟩

theorem TermTokens.head {t : Term} {toks : List Token} (h : TermTokens t toks) :
    ∃ w rest, toks = .word w :: rest := by
  cases h with
  | compare name => exact ⟨name.first, _, rfl⟩
  | isIn name => exact ⟨name.first, _, rfl⟩

theorem TermTokens.parens {t : Term} {toks : List Token} (h : TermTokens t toks) :
    Parens toks := by
  have hname : ∀ name : Name, Token.symbol ['('] ∉ name.tokens := by
    intro name
    rw [Name.tokens]
    cases name.second <;> simp
  cases h with
  | compare name op v toks hop hv =>
      refine .of_not_mem ?_
      rw [List.mem_append, List.mem_cons, not_or, not_or]
      refine ⟨hname name, ?_, not_mem_of_inner hv.inner⟩
      rintro ⟨rfl⟩
      exact absurd hop (by decide)
  | isIn name w v vs toks rest hw hv hrest =>
      intro before after heq
      have hafter : Token.symbol ['('] ∉ toks ++ (rest ++ [.symbol [')']]) := by
        rw [List.mem_append, List.mem_append, not_or, not_or]
        exact ⟨not_mem_of_inner hv.inner, not_mem_of_inner hrest.inner, by simp⟩
      have hbefore : Token.symbol ['('] ∉ name.tokens ++ [.word w] := by
        rw [List.mem_append, not_or]
        exact ⟨hname name, by simp⟩
      have hsplit : (name.tokens ++ [.word w]) ++ .symbol ['('] ::
          (toks ++ (rest ++ [.symbol [')']])) = before ++ .symbol ['('] :: after := by
        rw [← heq]
        simp
      obtain ⟨rfl, -, rfl⟩ := (List.append_cons_inj_of_notMem hbefore hafter).mp hsplit
      refine ⟨⟨name.tokens, w, rfl, hw⟩, toks ++ rest, [], by simp, ?_⟩
      exact List.forall_mem_append.mpr ⟨hv.inner, hrest.inner⟩

theorem TailTokens.parens {c : Connective} {ts : List Term} {toks : List Token}
    (h : TailTokens c ts toks) : Parens toks ∧ toks.head? ≠ some (.symbol ['(']) := by
  induction h with
  | nil => exact ⟨.of_not_mem List.not_mem_nil, fun heq => (nomatch heq)⟩
  | cons w t ts toks rest hw ht _ ih =>
      refine ⟨?_, fun heq => (nomatch heq)⟩
      have hterm : (toks ++ rest).head? ≠ some (.symbol ['(']) := by
        obtain ⟨w', toks', rfl⟩ := ht.head
        exact fun heq => (nomatch heq)
      have hword : Parens [.word w] := .of_not_mem (by simp)
      exact hword.append (ht.parens.append ih.1 ih.2) hterm

theorem Sequence.parens {c : Connective} {terms : List Term} {toks : List Token}
    (h : Sequence c terms toks) : Parens toks := by
  cases h with
  | mk t ts toks rest ht hrest => exact ht.parens.append hrest.parens.1 hrest.parens.2

/-! ## Terms are told apart -/

theorem Name.tokens_inj {a b : Name} {x y : Token} {xs ys : List Token}
    (h : a.tokens ++ x :: xs = b.tokens ++ y :: ys) (hx : x ≠ .symbol ['.'])
    (hy : y ≠ .symbol ['.']) : a = b ∧ x :: xs = y :: ys := by
  obtain ⟨first, second⟩ := a
  obtain ⟨first', second'⟩ := b
  cases second with
  | none =>
      cases second' with
      | none =>
          simp only [tokens, List.cons_append, List.nil_append, List.cons.injEq,
            Token.word.injEq] at h
          exact ⟨by rw [h.1], by rw [h.2.1, h.2.2]⟩
      | some w =>
          simp only [tokens, List.cons_append, List.nil_append, List.cons.injEq] at h
          exact absurd h.2.1 hx
  | some w =>
      cases second' with
      | none =>
          simp only [tokens, List.cons_append, List.nil_append, List.cons.injEq] at h
          exact absurd h.2.1.symm hy
      | some w' =>
          simp only [tokens, List.cons_append, List.nil_append, List.cons.injEq,
            Token.word.injEq, true_and] at h
          exact ⟨by rw [h.1, h.2.1], by rw [h.2.2.1, h.2.2.2]⟩

/-- The first token tells what kind of value follows. -/
theorem ValueTokens.unique {v v' : Value} {toks toks' rest rest' : List Token}
    (h : ValueTokens v toks) (h' : ValueTokens v' toks') (heq : toks ++ rest = toks' ++ rest') :
    v = v' ∧ rest = rest' := by
  cases h <;> cases h' <;>
    simp only [List.cons_append, List.nil_append, List.cons.injEq, reduceCtorEq, false_and,
      Token.number.injEq, Token.string.injEq, Token.word.injEq, true_and] at heq
  case number.number => exact ⟨by rw [heq.1], heq.2⟩
  case negative.negative => exact ⟨by rw [heq.1], heq.2⟩
  case string.string => exact ⟨by rw [heq.1], heq.2⟩
  case currentUser.currentUser => exact ⟨rfl, heq.2⟩

theorem MoreTokens.unique {vs vs' : List Value} {toks toks' rest rest' : List Token}
    (h : MoreTokens vs toks) (h' : MoreTokens vs' toks')
    (heq : toks ++ .symbol [')'] :: rest = toks' ++ .symbol [')'] :: rest') :
    vs = vs' ∧ rest = rest' := by
  induction h generalizing vs' toks' with
  | nil =>
      cases h' with
      | nil => exact ⟨rfl, (List.cons.inj heq).2⟩
      | cons v vs toks rest hv hrest => simp at heq
  | cons v vs toks tail hv _ ih =>
      cases h' with
      | nil => simp at heq
      | cons v' vs' toks' tail' hv' hrest' =>
          rw [List.cons_append, List.cons_append, List.append_assoc, List.append_assoc] at heq
          obtain ⟨rfl, htail⟩ := hv.unique hv' (List.cons.inj heq).2
          obtain ⟨rfl, hrest⟩ := ih hrest' htail
          exact ⟨rfl, hrest⟩

theorem comparison_ne_dot {op : List Char} (h : op ∈ COMPARISONS) :
    Token.symbol op ≠ .symbol ['.'] := by
  rintro ⟨rfl⟩
  exact absurd h (by decide)

theorem TermTokens.unique {t t' : Term} {toks toks' rest rest' : List Token}
    (h : TermTokens t toks) (h' : TermTokens t' toks') (heq : toks ++ rest = toks' ++ rest') :
    t = t' ∧ rest = rest' := by
  cases h with
  | compare name op v vtoks hop hv =>
      rw [List.append_assoc, List.cons_append] at heq
      cases h' with
      | compare name' op' v' vtoks' hop' hv' =>
          rw [List.append_assoc, List.cons_append] at heq
          obtain ⟨rfl, htail⟩ :=
            Name.tokens_inj heq (comparison_ne_dot hop) (comparison_ne_dot hop')
          obtain ⟨hsymbol, hvalue⟩ := List.cons.inj htail
          obtain ⟨rfl, hrest⟩ := hv.unique hv' hvalue
          rw [Token.symbol.inj hsymbol]
          exact ⟨rfl, hrest⟩
      | isIn name' w v' vs' vtoks' more' hw' hv' hmore' =>
          rw [List.append_assoc, List.cons_append] at heq
          obtain ⟨-, htail⟩ := Name.tokens_inj heq (comparison_ne_dot hop) (by simp)
          simp at htail
  | isIn name w v vs vtoks more hw hv hmore =>
      rw [List.append_assoc, List.cons_append] at heq
      cases h' with
      | compare name' op' v' vtoks' hop' hv' =>
          rw [List.append_assoc, List.cons_append] at heq
          obtain ⟨-, htail⟩ := Name.tokens_inj heq (by simp) (comparison_ne_dot hop')
          simp at htail
      | isIn name' w' v' vs' vtoks' more' hw' hv' hmore' =>
          simp only [List.append_assoc, List.cons_append, List.nil_append] at heq
          obtain ⟨rfl, htail⟩ := Name.tokens_inj heq (by simp) (by simp)
          simp only [List.cons.injEq, true_and] at htail
          obtain ⟨rfl, hmores⟩ := hv.unique hv' htail.2
          obtain ⟨rfl, hrest⟩ := hmore.unique hmore' hmores
          exact ⟨rfl, hrest⟩

/-! ## Meanings -/

/-- SQL's `AND` and `OR`, where `none` is `NULL`. -/
def Connective.apply : Connective → Option Bool → Option Bool → Option Bool
  | .and, some true, b => b
  | .and, a, some true => a
  | .and, none, none => none
  | .and, _, _ => some false
  | .or, some false, b => b
  | .or, a, some false => a
  | .or, none, none => none
  | .or, _, _ => some true

theorem Connective.apply_assoc (c : Connective) (x y z : Option Bool) :
    c.apply (c.apply x y) z = c.apply x (c.apply y z) := by
  rcases c <;> rcases x with - | - | - <;> rcases y with - | - | - <;>
    rcases z with - | - | - <;> rfl

/-- Terms under connectives, nested in any way. -/
inductive Expression where
  | term (t : Term)
  | join (c : Connective) (a b : Expression)

namespace Expression

def eval (meaning : Term → Option Bool) : Expression → Option Bool
  | term t => meaning t
  | join c a b => c.apply (a.eval meaning) (b.eval meaning)

def first : Expression → Term
  | term t => t
  | join _ a _ => a.first

/-- The terms behind the first one, with the connective before each. -/
def more : Expression → List (Connective × Term)
  | term _ => []
  | join c a b => a.more ++ (c, b.first) :: b.more

/-- The expression, by a grammar that leaves open how connectives nest. -/
inductive Parses : List Token → Expression → Prop where
  | term (t : Term) (toks : List Token) (ht : TermTokens t toks) : Parses toks (.term t)
  | join (c : Connective) (w : List Char) (a b : Expression) (xs ys : List Token)
      (ha : Parses xs a) (hw : Letters c.text w) (hb : Parses ys b) :
      Parses (xs ++ .word w :: ys) (.join c a b)

/-- Terms behind connectives that may differ. -/
inductive MixedTail : List (Connective × Term) → List Token → Prop where
  | nil : MixedTail [] []
  | cons (c : Connective) (w : List Char) (t : Term) (ts : List (Connective × Term))
      (toks rest : List Token) (hw : Letters c.text w) (ht : TermTokens t toks)
      (hrest : MixedTail ts rest) : MixedTail ((c, t) :: ts) (.word w :: (toks ++ rest))

theorem MixedTail.append {xs ys : List (Connective × Term)} {toks rest : List Token}
    (h : MixedTail xs toks) (h' : MixedTail ys rest) : MixedTail (xs ++ ys) (toks ++ rest) := by
  induction h with
  | nil => exact h'
  | cons c w t ts toks rest hw ht _ ih =>
      rw [List.cons_append, List.cons_append, List.append_assoc]
      exact .cons c w t _ toks _ hw ht ih

theorem Parses.flat {toks : List Token} {e : Expression} (h : Parses toks e) :
    ∃ xs rest, toks = xs ++ rest ∧ TermTokens e.first xs ∧ MixedTail e.more rest := by
  induction h with
  | term t toks ht => exact ⟨toks, [], (List.append_nil toks).symm, ht, .nil⟩
  | join c w a b xs ys _ hw _ iha ihb =>
      obtain ⟨x, xrest, rfl, hx, hxrest⟩ := iha
      obtain ⟨y, yrest, rfl, hy, hyrest⟩ := ihb
      refine ⟨x, xrest ++ .word w :: (y ++ yrest), List.append_assoc .., hx, ?_⟩
      exact hxrest.append (.cons c w b.first b.more y yrest hw hy hyrest)

theorem connective_eq {c c' : Connective} {w : List Char} (h : Letters c.text w)
    (h' : Letters c'.text w) : c = c' := by
  have heq : c.text.toList.map Char.toUpper = c'.text.toList.map Char.toUpper := h.symm.trans h'
  cases c <;> cases c' <;> first | rfl | exact absurd heq (by decide)

/-- Read as a tail of one connective, the terms are the same. -/
theorem MixedTail.unique {c : Connective} {ts : List (Connective × Term)} {ts' : List Term}
    {toks : List Token} (h : MixedTail ts toks) (h' : TailTokens c ts' toks) :
    ts = ts'.map (c, ·) := by
  induction h generalizing ts' with
  | nil =>
      cases h'
      rfl
  | cons c' w t ts toks rest hw ht _ ih =>
      generalize hall : Token.word w :: (toks ++ rest) = all at h'
      cases h' with
      | nil => cases hall
      | cons w' t' ts' toks' rest' hw' ht' hrest' =>
          obtain ⟨hword, htoks⟩ := List.cons.inj hall
          rw [← Token.word.inj hword] at hw'
          obtain ⟨rfl, rfl⟩ := ht.unique ht' htoks
          rw [ih hrest', connective_eq hw hw']
          rfl

/-- An expression under one connective, as its terms from left to right. -/
theorem eval_eq_foldl {c : Connective} {meaning : Term → Option Bool} {e : Expression}
    {ts : List Term} (h : e.more = ts.map (c, ·)) :
    e.eval meaning = (ts.map meaning).foldl c.apply (meaning e.first) := by
  have hfold : ∀ (xs : List (Option Bool)) (x y : Option Bool),
      c.apply x (xs.foldl c.apply y) = xs.foldl c.apply (c.apply x y) := by
    intro xs
    induction xs with
    | nil => exact fun _ _ => rfl
    | cons z xs ih =>
        intro x y
        rw [List.foldl_cons, List.foldl_cons, ih, c.apply_assoc]
  induction e generalizing ts with
  | term t =>
      rw [List.map_eq_nil_iff.mp h.symm]
      rfl
  | join c' a b iha ihb =>
      -- the terms of `a`, the first of `b`, the others of `b`
      obtain ⟨xs, zs, rfl, hxs, hzs⟩ := List.map_eq_append_iff.mp h.symm
      obtain ⟨t, ys, rfl, ht, hys⟩ := List.map_eq_cons_iff.mp hzs
      obtain ⟨rfl, rfl⟩ := Prod.mk.inj ht
      rw [eval, iha hxs.symm, ihb hys.symm, hfold, List.map_append, List.foldl_append,
        List.map_cons, List.foldl_cons]
      rfl

end Expression

/-- However the connectives are nested, the meaning is that of the terms in order. -/
theorem Sequence.eval_eq {c : Connective} {terms : List Term} {toks : List Token}
    {e : Expression} (h : Sequence c terms toks) (he : Expression.Parses toks e)
    (meaning : Term → Option Bool) :
    ∃ t ts, terms = t :: ts ∧ e.eval meaning = (ts.map meaning).foldl c.apply (meaning t) := by
  obtain ⟨xs, rest, hsplit, hfirst, hmore⟩ := he.flat
  cases h with
  | mk t ts toks tail ht htail =>
      obtain ⟨hterm, rfl⟩ := ht.unique hfirst hsplit
      refine ⟨t, ts, rfl, ?_⟩
      rw [Expression.eval_eq_foldl (hmore.unique htail), hterm]

theorem Sequence.same_meaning {c : Connective} {terms : List Term} {toks : List Token}
    {e e' : Expression} (h : Sequence c terms toks) (he : Expression.Parses toks e)
    (he' : Expression.Parses toks e') (meaning : Term → Option Bool) :
    e.eval meaning = e'.eval meaning := by
  obtain ⟨t, ts, rfl, heval⟩ := h.eval_eq he meaning
  obtain ⟨t', ts', hterms, heval'⟩ := h.eval_eq he' meaning
  obtain ⟨rfl, rfl⟩ := List.cons.inj hterms
  rw [heval, heval']

end Policy.RowFilter
