import Beluga.Policy.RowFilterGrammar

/-! # White space in row filters

Where the expressions of `validate.ts` allow white space, ask for it and forbid it
(`Besides`). A filter is accepted if and only if its tokens are a sequence of terms
with such white space (`chain_iff`).
-/

namespace Policy.RowFilter

open Text Text.Sql

section Decidability

variable {p : Char → Prop} [DecidablePred p]

/-- The first or last character of a text, if there is one. -/
instance (priority := high) decidableOption (o : Option Char) : Decidable (∀ c ∈ o, p c) :=
  match o with
  | none => .isTrue fun _ hc => (nomatch hc)
  | some c => decidable_of_iff (p c) (by simp)

instance (priority := high) decidableBex (cs : List Char) : Decidable (∃ c ∈ cs, p c) :=
  List.decidableBEx p cs

end Decidability

/-! ## Neighbours -/

def isSpace : Token → Bool
  | .space _ => true
  | _ => false

def isWord : Token → Bool
  | .word _ => true
  | _ => false

/-- The end of a value, of a name or of a list. -/
def operand : Token → Bool
  | .word _ | .number _ | .string _ => true
  | .symbol s => s = [')']
  | _ => false

/-- No white space at a `.` and behind a `-`, and some before a word that follows an operand. -/
def Besides (a b : Token) : Prop :=
  (isSpace a = true → b ≠ .symbol ['.']) ∧
    (isSpace b = true → a ≠ .symbol ['.'] ∧ a ≠ .symbol ['-']) ∧
      (isWord b = true → operand a = false)

instance (a b : Token) : Decidable (Besides a b) := by
  unfold Besides
  infer_instance

def Spaced (toks : List Token) : Prop := toks.IsChain Besides

/-- The tokens without the white space. -/
def strip (toks : List Token) : List Token := toks.filter fun t => !isSpace t

/-- The second token may stand directly behind the first. -/
def Joins (a b : Token) : Prop := Apart Regex.space a b ∧ Besides a b

theorem besides_of_not_space {a b : Token} (ha : isSpace a = false) (hb : isSpace b = false)
    (hword : isWord b = true → operand a = false) : Besides a b := by
  refine ⟨fun h => ?_, fun h => ?_, hword⟩
  · rw [ha] at h
    cases h
  · rw [hb] at h
    cases h

/-! ## Characters -/

theorem wordStart_eq : wordStart = identStart := by
  funext c
  rw [wordStart, letter, identStart]

theorem wordRest_eq : wordRest = identRest := by
  funext c
  rw [wordRest, wordStart_eq, identRest]

theorem starter_range {c : Char} (h : starter c = true) : 33 ≤ c.toNat ∧ c.toNat ≤ 126 := by
  simp only [starter, Bool.or_eq_true, decide_eq_true_eq] at h
  rcases h with ((((h | h) | rfl) | rfl) | rfl) | rfl
  · rw [wordRest_eq, identRest_iff, identStart_iff, digit_iff] at h
    omega
  · have hall : ∀ d ∈ ['=', '<', '>', '+', '-', '*', '/', '%', '(', ')', ',', '.', ';', '[', ']',
        '?', ':'], 33 ≤ d.toNat ∧ d.toNat ≤ 126 := by decide
    rw [symbolChar, decide_eq_true_eq] at h
    exact hall c h
  all_goals decide

/-- White space does not begin other tokens. -/
theorem space_starter (c : Char) (h : Regex.space c = true) : starter c = false := by
  by_contra hstarter
  have hrange := starter_range (Bool.not_eq_false _ ▸ hstarter)
  simp only [Regex.space, Bool.or_eq_true, Bool.and_eq_true, decide_eq_true_eq] at h
  omega

theorem plainNumber_iff {cs : List Char} : PlainNumber cs ↔ Decimal cs := by
  constructor
  · rintro ⟨ds, fraction, rfl, hne, hds, rfl | ⟨es, rfl, hes⟩⟩
    · exact ⟨ds, [], rfl, ⟨hne, hds⟩, .inl rfl⟩
    · exact ⟨ds, _, rfl, ⟨hne, hds⟩, .inr ⟨es, rfl, hes⟩⟩
  · rintro ⟨ds, fraction, rfl, ⟨hne, hds⟩, rfl | ⟨es, rfl, hes⟩⟩
    · exact ⟨ds, [], rfl, hne, hds, .inl rfl⟩
    · exact ⟨ds, _, rfl, hne, hds, .inr ⟨es, rfl, hes⟩⟩

theorem word_plain_iff {cs : List Char} :
    (Token.word cs).Plain Regex.space ↔ Identifier cs := by
  show (∃ c rest, cs = c :: rest ∧ wordStart c = true ∧ ∀ d ∈ rest, wordRest d = true) ↔ _
  rw [wordStart_eq, wordRest_eq]
  exact Iff.rfl

/-- A keyword in any case is a word. -/
theorem identifier_of_letters {w : String} {cs : List Char} (h : Letters w cs)
    (hw : w.toList ≠ [] ∧ ∀ c ∈ w.toList, identStart c = true) : Identifier cs := by
  have hstart : ∀ c ∈ cs, identStart c = true := by
    intro c hc
    obtain ⟨x, hx, heq⟩ := List.mem_map.mp (h ▸ List.mem_map_of_mem hc)
    have hx' := hw.2 x hx
    have hnat := congrArg Char.toNat heq
    rw [toNat_toUpper, toNat_toUpper] at hnat
    rw [identStart_iff] at hx' ⊢
    split_ifs at hnat <;> omega
  have hne : cs ≠ [] := by
    rintro rfl
    exact hw.1 (List.map_eq_nil_iff.mp h.symm)
  obtain ⟨c, rest, rfl⟩ := List.exists_cons_of_ne_nil hne
  obtain ⟨hc, hrest⟩ := List.forall_mem_cons.mp hstart
  exact ⟨c, rest, rfl, hc, fun d hd => identRest_iff.mpr (.inl (hrest d hd))⟩

/-! ## From a filter to its tokens -/

theorem starter_of_wordRest {c : Char} (h : wordRest c = true) : starter c = true := by
  rw [starter, h]
  rfl

/-- The first character of a token that is no white space. -/
theorem plain_head {t : Token} (ht : t.Plain Regex.space) (hspace : isSpace t = false) :
    ∀ c ∈ t.text.head?, starter c = true := by
  intro c hc
  cases t with
  | space cs => cases hspace
  | word cs =>
      obtain ⟨d, rest, rfl, hd, -⟩ := ht
      obtain rfl : d = c := Option.some.inj hc
      exact starter_of_wordRest (by rw [wordRest, hd]; rfl)
  | number cs =>
      obtain ⟨ds, fraction, rfl, hne, hds, -⟩ := ht
      obtain ⟨d, ds, rfl⟩ := List.exists_cons_of_ne_nil hne
      obtain rfl : d = c := Option.some.inj hc
      exact starter_of_wordRest (by rw [wordRest, hds d List.mem_cons_self, Bool.or_true])
  | string cs =>
      obtain rfl : '\'' = c := Option.some.inj hc
      rfl
  | quoted cs => exact absurd ht id
  | comment cs => exact absurd ht id
  | symbol cs =>
      rcases ht with hpair | ⟨d, rfl, hd⟩
      · have hall : ∀ s ∈ SYMBOLS, ∀ d ∈ s.head?, starter d = true := by decide
        exact hall cs hpair c hc
      · obtain rfl : d = c := Option.some.inj hc
        simp [starter, hd]

/-- White space ends every other token. -/
theorem stops_space {t : Token} {c : Char} (ht : t.Plain Regex.space) (hspace : isSpace t = false)
    (hc : Regex.space c = true) : t.stops Regex.space c = true := by
  have hstarter := space_starter c hc
  have hfalse : ∀ {d : Char}, starter d = true → c ≠ d := by
    rintro d hd rfl
    rw [hstarter] at hd
    cases hd
  have hword : wordRest c = false := by
    by_contra hword
    rw [starter_of_wordRest (by simpa using hword)] at hstarter
    cases hstarter
  cases t with
  | space cs => cases hspace
  | word cs => simp [Token.stops, hword]
  | number cs => simp [Token.stops, hword, hfalse (d := '.') rfl]
  | string cs => simp [Token.stops, hfalse (d := '\'') rfl]
  | quoted cs => exact absurd ht id
  | comment cs => exact absurd ht id
  | symbol cs =>
      have hlast : ∀ s ∈ SYMBOLS ++ [['-', '-'], ['/', '*']], cs ++ [c] ≠ s := by
        rintro s hs rfl
        have hall : ∀ s ∈ SYMBOLS ++ [['-', '-'], ['/', '*']], ∀ d ∈ s.getLast?,
            starter d = true := by decide
        have hd := hall _ hs c (by simp)
        rw [hstarter] at hd
        cases hd
      have hdigit : Regex.digit c = false := by
        rw [wordRest, Bool.or_eq_false_iff] at hword
        exact hword.2
      have hpair : cs ++ [c] ∉ SYMBOLS := fun hmem => hlast _ (List.mem_append_left _ hmem) rfl
      have hcomment : cs ++ [c] ∉ [['-', '-'], ['/', '*']] :=
        fun hmem => hlast _ (List.mem_append_right _ hmem) rfl
      rw [Token.stops, decide_eq_true hpair, decide_eq_true hcomment, hdigit, Bool.and_false]
      rfl

/-- A token behind white space, or directly behind the one before. -/
structure Meets (p : Token) (b : List Char) (t : Token) : Prop where
  blank : Blank b
  plain : p.Plain Regex.space
  not_space : isSpace p = false ∧ isSpace t = false
  gap : b ≠ [] → p ≠ .symbol ['.'] ∧ p ≠ .symbol ['-'] ∧ t ≠ .symbol ['.']
  direct : b = [] → Joins p t

/-- The tokens of a text, behind `p`. -/
structure Written (p : Token) (toks : List Token) (cs : List Char) : Prop where
  text : Sql.text toks = cs
  plain : ∀ t ∈ toks, t.Plain Regex.space
  joins : (p :: toks).IsChain Joins

theorem Written.nil (p : Token) : Written p [] [] :=
  ⟨rfl, fun _ h => absurd h List.not_mem_nil, .singleton p⟩

/-- White space as a token. -/
def blankTokens (b : List Char) : List Token := if b = [] then [] else [.space b]

theorem strip_cons {b : List Char} {t : Token} {toks : List Token} (ht : isSpace t = false) :
    strip (blankTokens b ++ t :: toks) = t :: strip toks := by
  have hstrip : strip (t :: toks) = t :: strip toks := List.filter_cons_of_pos (by simp [ht])
  rw [blankTokens]
  split
  · exact hstrip
  · exact hstrip

theorem Written.cons {p t : Token} {b cs : List Char} {toks : List Token}
    (h : Written t toks cs) (ht : t.Plain Regex.space) (hmeets : Meets p b t) :
    Written p (blankTokens b ++ t :: toks) (b ++ (t.text ++ cs)) := by
  have htext : Sql.text (t :: toks) = t.text ++ cs := by
    rw [← h.text]
    rfl
  have hplain : ∀ u ∈ t :: toks, u.Plain Regex.space := List.forall_mem_cons.mpr ⟨ht, h.plain⟩
  by_cases hb : b = []
  · rw [hb, blankTokens, if_pos rfl]
    exact ⟨htext, hplain, List.isChain_cons_cons.mpr ⟨hmeets.direct hb, h.joins⟩⟩
  · obtain ⟨hdot, hminus, hdot'⟩ := hmeets.gap hb
    rw [blankTokens, if_neg hb]
    refine ⟨?_, List.forall_mem_cons.mpr ⟨⟨hb, hmeets.blank⟩, hplain⟩, ?_⟩
    · rw [← htext]
      rfl
    · refine List.isChain_cons_cons.mpr ⟨⟨?_, ?_⟩, List.isChain_cons_cons.mpr ⟨⟨?_, ?_⟩, h.joins⟩⟩
      · intro c hc
        exact stops_space hmeets.plain hmeets.not_space.1 (hmeets.blank c (List.mem_of_mem_head? hc))
      · refine ⟨fun hsp => ?_, fun _ => ⟨hdot, hminus⟩, fun hword => (nomatch hword)⟩
        rw [hmeets.not_space.1] at hsp
        cases hsp
      · intro c hc
        have hstarter := plain_head ht hmeets.not_space.2 c hc
        simp [Token.stops, space_false space_starter hstarter]
      · refine ⟨fun _ => hdot', fun hsp => ?_, fun _ => rfl⟩
        rw [hmeets.not_space.2] at hsp
        cases hsp

/-- Something that ends a value, and may end a term. -/
def Operand (q : Token) : Prop := q.Plain Regex.space ∧ operand q = true

theorem Operand.not_space {q : Token} (h : Operand q) : isSpace q = false := by
  obtain ⟨-, hq⟩ := h
  cases q <;> first | rfl | cases hq

theorem Operand.ne_symbol {q : Token} (h : Operand q) :
    q ≠ .symbol ['.'] ∧ q ≠ .symbol ['-'] := by
  obtain ⟨-, hq⟩ := h
  constructor
  · rintro rfl
    cases hq
  · rintro rfl
    cases hq

/-- What ends the text may be white space. -/
theorem Written.blank {q : Token} {b : List Char} (hq : Operand q) (hb : Blank b) :
    Written q (if b = [] then [] else [.space b]) b := by
  split
  case isTrue hnil =>
    rw [hnil]
    exact .nil q
  case isFalse hne =>
    refine ⟨List.append_nil b, List.forall_mem_singleton.mpr ⟨hne, hb⟩, ?_⟩
    refine List.isChain_cons_cons.mpr ⟨⟨?_, ?_⟩, .singleton _⟩
    · intro c hc
      exact stops_space hq.1 hq.not_space (hb c (List.mem_of_mem_head? hc))
    · refine ⟨fun hsp => ?_, fun _ => hq.ne_symbol, fun hword => (nomatch hword)⟩
      rw [hq.not_space] at hsp
      cases hsp

/-! ### What may stand side by side -/

/-- Symbols with a value behind them. -/
def OPENERS : List (List Char) := COMPARISONS ++ [[','], ['(']]

/-- The first character of a value. -/
def valueStart (c : Char) : Bool := wordRest c || c = '-' || c = '\''

theorem opener_stops {s : List Char} {c : Char} (hs : s ∈ OPENERS) (hc : valueStart c = true) :
    (Token.symbol s).stops Regex.space c = true := by
  have hne : ∀ d ∈ ['>', '=', '|', '*'], c ≠ d := by
    rintro d hd rfl
    have hall : ∀ d ∈ ['>', '=', '|', '*'], valueStart d = false := by decide
    rw [hall c hd] at hc
    cases hc
  have hpair : ∀ x ∈ SYMBOLS ++ [['-', '-'], ['/', '*']], s ++ [c] ≠ x := by
    rintro x hx heq
    have hall : ∀ x ∈ SYMBOLS ++ [['-', '-'], ['/', '*']],
        (∃ d ∈ ['>', '=', '|', '*'], x.getLast? = some d) ∨ x = ['-', '-'] := by decide
    rcases hall x hx with ⟨d, hd, hlast⟩ | rfl
    · rw [← heq, List.getLast?_concat] at hlast
      exact hne d hd (Option.some.inj hlast)
    · have hminus : ['-'] ∉ OPENERS := by decide
      have heq' : s ++ [c] = ['-'] ++ ['-'] := heq
      obtain ⟨hs', -⟩ := List.append_inj' heq' rfl
      exact hminus (hs' ▸ hs)
  have hdot : s ≠ ['.'] := by
    rintro rfl
    exact absurd hs (by decide)
  have h₁ : s ++ [c] ∉ SYMBOLS := fun hmem => hpair _ (List.mem_append_left _ hmem) rfl
  have h₂ : s ++ [c] ∉ [['-', '-'], ['/', '*']] :=
    fun hmem => hpair _ (List.mem_append_right _ hmem) rfl
  rw [Token.stops, decide_eq_true h₁, decide_eq_true h₂, decide_eq_false hdot]
  rfl

theorem opener_plain {s : List Char} (hs : s ∈ OPENERS) : (Token.symbol s).Plain Regex.space := by
  have hall : ∀ s ∈ OPENERS, s ∈ SYMBOLS ∨ (s.length = 1 ∧ ∀ c ∈ s, symbolChar c = true) := by
    decide
  rcases hall s hs with hpair | ⟨hone, hsymbol⟩
  · exact .inl hpair
  · obtain ⟨c, rfl⟩ := List.length_eq_one_iff.mp hone
    exact .inr ⟨c, rfl, hsymbol c List.mem_cons_self⟩

theorem opener_meets {s b : List Char} {t : Token} (hs : s ∈ OPENERS) (hb : Blank b)
    (ht : isSpace t = false) (hhead : ∀ c ∈ t.text.head?, valueStart c = true) :
    Meets (.symbol s) b t := by
  have hsymbols : ∀ s ∈ OPENERS, s ≠ ['.'] ∧ s ≠ ['-'] ∧ s ≠ [')'] := by decide
  obtain ⟨hdot, hminus, hclose⟩ := hsymbols s hs
  refine ⟨hb, opener_plain hs, ⟨rfl, ht⟩, fun _ => ⟨?_, ?_, ?_⟩, fun _ => ⟨?_, ?_⟩⟩
  · rintro ⟨rfl⟩
    exact hdot rfl
  · rintro ⟨rfl⟩
    exact hminus rfl
  · rintro rfl
    exact absurd (hhead '.' rfl) (by decide)
  · exact fun c hc => opener_stops hs (hhead c hc)
  · exact besides_of_not_space rfl ht fun _ => decide_eq_false hclose

/-- Two tokens that are no white space, each next to the other. -/
theorem Meets.adjacent {p t : Token} (hp : p.Plain Regex.space)
    (hspace : isSpace p = false ∧ isSpace t = false) (hword : isWord t = true → operand p = false)
    (hstops : ∀ c ∈ t.text.head?, p.stops Regex.space c = true) : Meets p [] t :=
  ⟨fun _ h => absurd h List.not_mem_nil, hp, hspace, fun h => absurd rfl h,
    fun _ => ⟨hstops, besides_of_not_space hspace.1 hspace.2 hword⟩⟩

/-- A symbol behind an operand. -/
theorem operand_meets {q : Token} {s b : List Char} (hq : Operand q) (hb : Blank b)
    (hdot : s ≠ ['.']) (hstops : b = [] → ∀ c ∈ s.head?, q.stops Regex.space c = true) :
    Meets q b (.symbol s) := by
  refine ⟨hb, hq.1, ⟨hq.not_space, rfl⟩, fun _ => ⟨hq.ne_symbol.1, hq.ne_symbol.2, ?_⟩,
    fun hnil => ⟨hstops hnil, besides_of_not_space hq.not_space rfl fun h => (nomatch h)⟩⟩
  rintro ⟨rfl⟩
  exact hdot rfl

/-- A word behind white space. -/
theorem gap_meets {q : Token} {w b : List Char} (hq : Operand q) (hb : Gap b) :
    Meets q b (.word w) := by
  refine ⟨hb.2, hq.1, ⟨hq.not_space, rfl⟩, fun _ => ⟨hq.ne_symbol.1, hq.ne_symbol.2, ?_⟩,
    fun hnil => absurd hnil hb.1⟩
  exact fun h => (nomatch h)

theorem operand_stops {q : Token} {c : Char} (hq : Operand q) (hc : c ∈ [',', ')']) :
    q.stops Regex.space c = true := by
  have hall : ∀ c ∈ [',', ')'], wordRest c = false ∧ c ≠ '.' ∧ c ≠ '\'' ∧
      [')'] ++ [c] ∉ SYMBOLS ∧ [')'] ++ [c] ∉ [['-', '-'], ['/', '*']] := by decide
  obtain ⟨hword, hdot, hquote, hpair, hcomment⟩ := hall c hc
  obtain ⟨-, hend⟩ := hq
  cases q with
  | space cs => cases hend
  | word cs => simp [Token.stops, hword]
  | number cs => simp [Token.stops, hword, hdot]
  | string cs => simp [Token.stops, hquote]
  | quoted cs => cases hend
  | comment cs => cases hend
  | symbol s =>
      obtain rfl : s = [')'] := of_decide_eq_true hend
      rw [Token.stops, decide_eq_true hpair, decide_eq_true hcomment]
      rfl

theorem word_operand {w : List Char} (h : Identifier w) : Operand (.word w) :=
  ⟨word_plain_iff.mpr h, rfl⟩

theorem word_stops {w : List Char} {c : Char} (h : wordRest c = false) :
    (Token.word w).stops Regex.space c = true := by
  simp [Token.stops, h]

theorem identifier_head {w : List Char} (h : Identifier w) :
    ∀ c ∈ (Token.word w).text.head?, wordStart c = true := by
  obtain ⟨d, rest, rfl, hd, -⟩ := h
  intro c hc
  obtain rfl : d = c := Option.some.inj hc
  rw [wordStart_eq]
  exact hd

theorem decimal_head {n : List Char} (h : Decimal n) : ∀ c ∈ n.head?, Regex.digit c = true := by
  obtain ⟨ds, fraction, rfl, ⟨hne, hds⟩, -⟩ := h
  obtain ⟨d, ds, rfl⟩ := List.exists_cons_of_ne_nil hne
  intro c hc
  obtain rfl : d = c := Option.some.inj hc
  exact hds d List.mem_cons_self

/-! ### The parts of a filter, each before what follows it -/

section Parts

variable {k : List Char} {toks : List Token}

theorem value_written {v b : List Char} (hv : v ∈ Regex.lang VALUE.caseless)
    (hk : ∀ q, Operand q → Written q toks k) (hb : Blank b) :
    ∃ val vtoks all, ValueTokens val vtoks ∧ strip all = vtoks ++ strip toks ∧
      ∀ s ∈ OPENERS, Written (.symbol s) all (b ++ (v ++ k)) := by
  have hdigit : ∀ {c}, Regex.digit c = true → wordRest c = true := by
    intro c hc
    rw [wordRest, hc, Bool.or_true]
  have hfirst : ∀ {c}, wordRest c = true → valueStart c = true := by
    intro c hc
    rw [valueStart, hc]
    rfl
  rw [mem_VALUE, mem_NUMBER, mem_STRING] at hv
  rcases hv with (hn | ⟨n, rfl, hn⟩) | ⟨s, rfl, hs⟩ | hw
  · have hplain : (Token.number v).Plain Regex.space := plainNumber_iff.mpr hn
    refine ⟨_, _, blankTokens b ++ .number v :: toks, .number v (plainNumber_iff.mpr hn),
      strip_cons rfl, fun s hs => ?_⟩
    refine (hk (.number v) ⟨hplain, rfl⟩).cons hplain (opener_meets hs hb rfl fun c hc => ?_)
    exact hfirst (hdigit (decimal_head hn c hc))
  · have hplain : (Token.number n).Plain Regex.space := plainNumber_iff.mpr hn
    have hminus : (Token.symbol ['-']).Plain Regex.space := .inr ⟨'-', rfl, rfl⟩
    refine ⟨_, _, blankTokens b ++ .symbol ['-'] :: (blankTokens [] ++ .number n :: toks),
      .negative n (plainNumber_iff.mpr hn), ?_, fun s hs => ?_⟩
    · rw [strip_cons rfl, strip_cons rfl]
      rfl
    · have hnumber := (hk (.number n) ⟨hplain, rfl⟩).cons hplain
        (.adjacent hminus ⟨rfl, rfl⟩ (fun h => by cases h) fun c hc => ?_)
      · refine hnumber.cons hminus (opener_meets hs hb rfl fun c hc => ?_)
        obtain rfl : '-' = c := Option.some.inj hc
        rfl
      · -- a digit behind the minus
        have hc' := decimal_head hn c hc
        have hne : ∀ d ∈ ['>', '-'], c ≠ d := by
          rintro d hd rfl
          have hall : ∀ d ∈ ['>', '-'], Regex.digit d = false := by decide
          rw [hall c hd] at hc'
          cases hc'
        simp [Token.stops, SYMBOLS, hne]
  · have hplain : (Token.string s).Plain Regex.space := fun hmem => (hs _ hmem).1 rfl
    refine ⟨_, _, blankTokens b ++ .string s :: toks, .string s hs, strip_cons rfl,
      fun o ho => ?_⟩
    refine (hk (.string s) ⟨hplain, rfl⟩).cons hplain (opener_meets ho hb rfl fun c hc => ?_)
    obtain rfl : '\'' = c := Option.some.inj hc
    rfl
  · have hword : Identifier v := identifier_of_letters hw (by decide)
    refine ⟨_, _, blankTokens b ++ .word v :: toks, .currentUser v hw, strip_cons rfl,
      fun s hs => ?_⟩
    refine (hk _ (word_operand hword)).cons (word_plain_iff.mpr hword)
      (opener_meets hs hb rfl fun c hc => ?_)
    exact hfirst (by rw [wordRest, identifier_head hword c hc]; rfl)

theorem more_written {cs : List Char} (h : ListTail cs) (hk : ∀ q, Operand q → Written q toks k) :
    ∃ vs vtoks all, MoreTokens vs vtoks ∧ strip all = vtoks ++ strip toks ∧
      ∀ q, Operand q → Written q all (cs ++ k) := by
  induction h with
  | nil => exact ⟨[], [], toks, .nil, rfl, hk⟩
  | cons b b' v rest hb hb' hv _ ih =>
      obtain ⟨vs, vstoks, tail, hvs, htail, hwritten⟩ := ih
      obtain ⟨val, vtoks, all, hval, hall, hvalue⟩ := value_written hv hwritten hb'
      have hcomma : [','] ∈ OPENERS := by decide
      refine ⟨val :: vs, .symbol [','] :: (vtoks ++ vstoks),
        blankTokens b ++ .symbol [','] :: all, .cons val vs vtoks vstoks hval hvs, ?_,
        fun q hq => ?_⟩
      · rw [strip_cons rfl, hall, htail, List.cons_append, List.append_assoc]
      · have hmeets : Meets q b (.symbol [',']) := by
          refine operand_meets hq hb (by decide) fun _ c hc => ?_
          obtain rfl : ',' = c := Option.some.inj hc
          exact operand_stops hq (by decide)
        have hcons := (hvalue [','] hcomma).cons (opener_plain hcomma) hmeets
        simpa [Token.text] using hcons

/-- A list behind the keyword. -/
theorem list_written {xs b : List Char} (h : xs ∈ Regex.lang IN_LIST.caseless)
    (hk : ∀ q, Operand q → Written q toks k) (hb : Blank b) :
    ∃ v vs vtoks vstoks all, ValueTokens v vtoks ∧ MoreTokens vs vstoks ∧
      strip all = .symbol ['('] :: (vtoks ++ (vstoks ++ .symbol [')'] :: strip toks)) ∧
      ∀ w, Identifier w → Written (.word w) all (b ++ (xs ++ k)) := by
  obtain ⟨b₁, v, tail, b₂, rfl, hb₁, hv, htail, hb₂⟩ := mem_IN_LIST.mp h
  have hclose : (Token.symbol [')']).Plain Regex.space := .inr ⟨')', rfl, rfl⟩
  have hopener : ['('] ∈ OPENERS := by decide
  -- from the closing parenthesis to the opening one
  have hend : ∀ q, Operand q →
      Written q (blankTokens b₂ ++ .symbol [')'] :: toks) (b₂ ++ (')' :: k)) := by
    intro q hq
    refine (hk _ ⟨hclose, rfl⟩).cons hclose (operand_meets hq hb₂ (by decide) fun _ c hc => ?_)
    obtain rfl : ')' = c := Option.some.inj hc
    exact operand_stops hq (by decide)
  obtain ⟨vs, vstoks, rest, hvs, hrest, hwritten⟩ := more_written htail hend
  obtain ⟨val, vtoks, all, hval, hall, hvalue⟩ := value_written hv hwritten hb₁
  refine ⟨val, vs, vtoks, vstoks, blankTokens b ++ .symbol ['('] :: all, hval, hvs, ?_,
    fun w hw => ?_⟩
  · rw [strip_cons rfl, hall, hrest, strip_cons rfl]
  · have hmeets : Meets (.word w) b (.symbol ['(']) := by
      refine operand_meets (word_operand hw) hb (by decide) fun _ c hc => ?_
      obtain rfl : '(' = c := Option.some.inj hc
      exact word_stops rfl
    have hcons := (hvalue ['('] hopener).cons (opener_plain hopener) hmeets
    simpa [Token.text] using hcons

theorem name_written {name b : List Char} {p : Token} (h : name ∈ Regex.lang IDENT.caseless)
    (hk : ∀ w, Identifier w → Written (.word w) toks k)
    (hp : ∀ w, Identifier w → Meets p b (.word w)) :
    ∃ n : Name, ∃ all, strip all = n.tokens ++ strip toks ∧ Written p all (b ++ (name ++ k)) := by
  rcases mem_IDENT.mp h with hname | ⟨x, y, rfl, hx, hy⟩
  · refine ⟨⟨name, none⟩, blankTokens b ++ .word name :: toks, strip_cons rfl, ?_⟩
    exact (hk name hname).cons (word_plain_iff.mpr hname) (hp name hname)
  · have hdot : (Token.symbol ['.']).Plain Regex.space := .inr ⟨'.', rfl, rfl⟩
    -- a letter behind the dot, and no letter before it
    have hsecond : Meets (.symbol ['.']) [] (.word y) := by
      refine .adjacent hdot ⟨rfl, rfl⟩ (fun _ => rfl) fun c hc => ?_
      have hstart := identifier_head hy c hc
      have hne : ∀ d ∈ ['>', '=', '|', '-', '*'], c ≠ d := by
        rintro d hd rfl
        have hall : ∀ d ∈ ['>', '=', '|', '-', '*'], wordStart d = false := by decide
        rw [hall c hd] at hstart
        cases hstart
      have hdigit : Regex.digit c = false := by
        by_contra hdigit
        rw [digit_not_wordStart (by simpa using hdigit)] at hstart
        cases hstart
      simp [Token.stops, SYMBOLS, hdigit]
    have hfirst : Meets (.word x) [] (.symbol ['.']) := by
      refine .adjacent (word_plain_iff.mpr hx) ⟨rfl, rfl⟩ (fun h => by cases h) fun c hc => ?_
      obtain rfl : '.' = c := Option.some.inj hc
      exact word_stops rfl
    have hwritten := (((hk y hy).cons (word_plain_iff.mpr hy) hsecond).cons hdot hfirst).cons
      (word_plain_iff.mpr hx) (hp x hx)
    refine ⟨⟨x, some y⟩, blankTokens b ++ .word x :: (blankTokens [] ++ .symbol ['.'] ::
      (blankTokens [] ++ .word y :: toks)), ?_, ?_⟩
    · rw [strip_cons rfl, strip_cons rfl, strip_cons rfl]
      rfl
    · simpa [Token.text] using hwritten

theorem comparison_stops {w op : List Char} (h : op ∈ COMPARISONS) :
    ∀ c ∈ op.head?, (Token.word w).stops Regex.space c = true := by
  have hall : ∀ op ∈ COMPARISONS, ∀ c ∈ op.head?, wordRest c = false := by decide
  exact fun c hc => word_stops (hall op h c hc)

theorem term_written {t b : List Char} {p : Token} (h : TermText t)
    (hk : ∀ q, Operand q → Written q toks k) (hp : ∀ w, Identifier w → Meets p b (.word w)) :
    ∃ term ttoks all, TermTokens term ttoks ∧ strip all = ttoks ++ strip toks ∧
      Written p all (b ++ (t ++ k)) := by
  cases h with
  | compare name b₁ op b₂ v hname hb₁ hop hb₂ hv =>
      obtain ⟨val, vtoks, rest, hval, hrest, hvalue⟩ := value_written hv hk hb₂
      have hopener : op ∈ OPENERS := List.mem_append_left _ hop
      have hsymbol : ∀ w, Identifier w →
          Written (.word w) (blankTokens b₁ ++ .symbol op :: rest) (b₁ ++ (op ++ (b₂ ++ (v ++ k)))) := by
        intro w hw
        refine (hvalue op hopener).cons (opener_plain hopener) (operand_meets (word_operand hw) hb₁
          ?_ fun _ => comparison_stops hop)
        rintro rfl
        exact absurd hop (by decide)
      obtain ⟨n, all, hall, hwritten⟩ := name_written hname hsymbol hp
      refine ⟨_, _, all, .compare n op val vtoks hop hval, ?_, ?_⟩
      · rw [hall, strip_cons rfl, hrest, List.append_assoc, List.cons_append]
      · simpa using hwritten
  | isIn name g w b₁ xs hname hg hw hb₁ hxs =>
      obtain ⟨v, vs, vtoks, vstoks, rest, hv, hvs, hrest, hlist⟩ := list_written hxs hk hb₁
      have hword : Identifier w := identifier_of_letters hw (by decide)
      have hin : ∀ x, Identifier x →
          Written (.word x) (blankTokens g ++ .word w :: rest) (g ++ (w ++ (b₁ ++ (xs ++ k)))) :=
        fun x hx => (hlist w hword).cons (word_plain_iff.mpr hword) (gap_meets (word_operand hx) hg)
      obtain ⟨n, all, hall, hwritten⟩ := name_written hname hin hp
      refine ⟨_, _, all, .isIn n w v vs vtoks vstoks hw hv hvs, ?_, ?_⟩
      · rw [hall, strip_cons rfl, hrest]
        simp
      · simpa using hwritten

theorem tail_written {c : Connective} {cs : List Char} (h : ChainTail c.text cs)
    (hk : ∀ q, Operand q → Written q toks k) :
    ∃ ts ttoks all, TailTokens c ts ttoks ∧ strip all = ttoks ++ strip toks ∧
      ∀ q, Operand q → Written q all (cs ++ k) := by
  induction h with
  | nil => exact ⟨[], [], toks, .nil, rfl, hk⟩
  | cons g w g' t rest hg hw hg' ht _ ih =>
      obtain ⟨ts, tstoks, tail, hts, htail, hwritten⟩ := ih
      have hword : Identifier w := by
        refine identifier_of_letters hw ?_
        cases c <;> decide
      obtain ⟨term, ttoks, all, hterm, hall, hterms⟩ := term_written ht hwritten
        fun x _ => gap_meets (w := x) (word_operand hword) hg'
      refine ⟨term :: ts, .word w :: (ttoks ++ tstoks), blankTokens g ++ .word w :: all,
        .cons w term ts ttoks tstoks hw hterm hts, ?_, fun q hq => ?_⟩
      · rw [strip_cons rfl, hall, htail, List.cons_append, List.append_assoc]
      · have hcons := hterms.cons (word_plain_iff.mpr hword) (gap_meets hq hg)
        simpa [Token.text] using hcons

end Parts

/-- The tokens of a filter that an expression accepts. -/
theorem chain_written {c : Connective} {cs : List Char} (h : cs ∈ Regex.lang (chain c.text)) :
    ∃ toks, lex Regex.space cs = some toks ∧ Spaced toks ∧ ∃ terms, Sequence c terms (strip toks) := by
  obtain ⟨b, t, tail, b', rfl, hb, ht, htail, hb'⟩ := mem_chain.mp h
  obtain ⟨ts, tstoks, rest, hts, hrest, hwritten⟩ :=
    tail_written htail fun q hq => Written.blank hq hb'
  have hopener : ['('] ∈ OPENERS := by decide
  -- nothing is before the filter, which a parenthesis does as well
  have hfirst : ∀ w, Identifier w → Meets (.symbol ['(']) b (.word w) := by
    refine fun w hw => opener_meets hopener hb rfl fun c hc => ?_
    rw [valueStart, wordRest, identifier_head hw c hc]
    rfl
  obtain ⟨term, ttoks, toks, hterm, hstrip, htext⟩ := term_written ht hwritten hfirst
  have hchain : toks.IsChain Joins := htext.joins.tail
  refine ⟨toks, ?_, hchain.imp fun _ _ hjoins => hjoins.2, term :: ts, ?_⟩
  · rw [← htext.text]
    exact text_lex space_starter htext.plain (hchain.imp fun _ _ hjoins => hjoins.1)
  · have hblank : strip (if b' = [] then [] else [.space b']) = [] := by
      split
      · rfl
      · rfl
    rw [hstrip, hrest, hblank, List.append_nil]
    exact .mk term ts ttoks tstoks hterm hts

end Policy.RowFilter
