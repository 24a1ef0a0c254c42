import Beluga.Policy.Validate
import Beluga.Text.RegexLanguage
import Beluga.Text.Words

/-! # What the row filter expressions accept

The languages of the parts of `AND_CHAIN` and `OR_CHAIN`, without regard to case:
white space, names, values, comparisons and lists, up to a term (`mem_term`) and a
chain of terms (`mem_chain`).
-/

namespace Policy

open Text Regex

/-! ## Letters without case -/

theorem toNat_toUpper (c : Char) :
    c.toUpper.toNat = if 97 ≤ c.toNat ∧ c.toNat ≤ 122 then c.toNat - 32 else c.toNat := by
  by_cases h : 'a'.val ≤ c.val ∧ c.val ≤ 'z'.val
  · have hval : c.toUpper.val = c.val + ('A'.val - 'a'.val) := by
      unfold Char.toUpper
      rw [dif_pos h]
    have hnat : c.toUpper.toNat = (c.val + ('A'.val - 'a'.val)).toNat := congrArg UInt32.toNat hval
    have hrange : 97 ≤ c.toNat ∧ c.toNat ≤ 122 := h
    rw [if_pos hrange, hnat, UInt32.toNat_add]
    have hc : c.val.toNat = c.toNat := rfl
    rw [hc]
    simp
    omega
  · have hnot : ¬ (97 ≤ c.toNat ∧ c.toNat ≤ 122) := h
    rw [if_neg hnot]
    unfold Char.toUpper
    rw [dif_neg h]

theorem toNat_toLower (c : Char) :
    c.toLower.toNat = if 65 ≤ c.toNat ∧ c.toNat ≤ 90 then c.toNat + 32 else c.toNat := by
  by_cases h : c.val ≥ 'A'.val ∧ c.val ≤ 'Z'.val
  · have hval : c.toLower.val = c.val + ('a'.val - 'A'.val) := congrArg Char.val (dif_pos h)
    have hnat : c.toLower.toNat = (c.val + ('a'.val - 'A'.val)).toNat := congrArg UInt32.toNat hval
    have hrange : 65 ≤ c.toNat ∧ c.toNat ≤ 90 := h
    rw [if_pos hrange, hnat, UInt32.toNat_add]
    have hc : c.val.toNat = c.toNat := rfl
    rw [hc]
    simp
    omega
  · have hnot : ¬ (65 ≤ c.toNat ∧ c.toNat ≤ 90) := h
    rw [if_neg hnot, show c.toLower = c from dif_neg h]

/-- The characters that the flag `i` lets pass for `x`. -/
theorem caseless_iff {c x : Char} :
    (c = x ∨ c.toLower = x ∨ c.toUpper = x) ↔ c.toUpper = x.toUpper := by
  simp only [← Char.toNat_inj, toNat_toUpper, toNat_toLower]
  split_ifs <;> omega

/-- Classes that are given by numbers. -/
theorem caseClosed_of {p : Char → Bool} (hlower : ∀ c : Char, 65 ≤ c.toNat → c.toNat ≤ 90 →
    p c.toLower = true → p c = true) (hupper : ∀ c : Char, 97 ≤ c.toNat → c.toNat ≤ 122 →
      p c.toUpper = true → p c = true) : CaseClosed p := by
  intro c
  constructor
  · intro h
    by_cases hc : 65 ≤ c.toNat ∧ c.toNat ≤ 90
    · exact hlower c hc.1 hc.2 h
    · have hsame : c.toLower = c := by
        rw [← Char.toNat_inj, toNat_toLower, if_neg hc]
      rwa [hsame] at h
  · intro h
    by_cases hc : 97 ≤ c.toNat ∧ c.toNat ≤ 122
    · exact hupper c hc.1 hc.2 h
    · have hsame : c.toUpper = c := by
        rw [← Char.toNat_inj, toNat_toUpper, if_neg hc]
      rwa [hsame] at h

theorem caseClosed_space : CaseClosed space := by
  refine caseClosed_of (fun c h₁ h₂ h => ?_) (fun c h₁ h₂ h => ?_)
  · have hn := toNat_toLower c
    rw [if_pos ⟨h₁, h₂⟩] at hn
    simp only [space, hn, Bool.or_eq_true, Bool.and_eq_true, decide_eq_true_eq] at h
    omega
  · have hn := toNat_toUpper c
    rw [if_pos ⟨h₁, h₂⟩] at hn
    simp only [space, hn, Bool.or_eq_true, Bool.and_eq_true, decide_eq_true_eq] at h
    omega

/-- A class in terms of the code of a character. -/
theorem digit_iff {c : Char} : digit c = true ↔ 48 ≤ c.toNat ∧ c.toNat ≤ 57 := by
  rw [digit, Bool.and_eq_true, decide_eq_true_eq, decide_eq_true_eq]
  exact Iff.rfl

theorem identStart_iff {c : Char} : identStart c = true ↔
    (65 ≤ c.toNat ∧ c.toNat ≤ 90) ∨ (97 ≤ c.toNat ∧ c.toNat ≤ 122) ∨ c.toNat = 95 := by
  have hdash : c = '_' ↔ c.toNat = 95 := by
    rw [← Char.toNat_inj]
    exact Iff.rfl
  rw [identStart, Bool.or_eq_true, Bool.or_eq_true, Bool.and_eq_true, Bool.and_eq_true,
    decide_eq_true_eq, decide_eq_true_eq, decide_eq_true_eq, decide_eq_true_eq, decide_eq_true_eq,
    hdash, or_assoc]
  exact Iff.rfl

theorem identRest_iff {c : Char} : identRest c = true ↔ identStart c = true ∨ digit c = true := by
  rw [identRest, Bool.or_eq_true]

theorem caseClosed_digit : CaseClosed digit := by
  refine caseClosed_of (fun c h₁ h₂ h => ?_) (fun c h₁ h₂ h => ?_)
  · rw [digit_iff, toNat_toLower, if_pos ⟨h₁, h₂⟩] at h
    omega
  · rw [digit_iff, toNat_toUpper, if_pos ⟨h₁, h₂⟩] at h
    omega

theorem caseClosed_identStart : CaseClosed identStart :=
  caseClosed_of (fun _ h₁ h₂ _ => identStart_iff.mpr (.inl ⟨h₁, h₂⟩))
    (fun _ h₁ h₂ _ => identStart_iff.mpr (.inr (.inl ⟨h₁, h₂⟩)))

theorem caseClosed_identRest : CaseClosed identRest :=
  caseClosed_of (fun _ h₁ h₂ _ => identRest_iff.mpr (.inl (identStart_iff.mpr (.inl ⟨h₁, h₂⟩))))
    (fun _ h₁ h₂ _ =>
      identRest_iff.mpr (.inl (identStart_iff.mpr (.inr (.inl ⟨h₁, h₂⟩)))))

/-- The characters of a string. -/
def stringChar (c : Char) : Bool := c ≠ '\'' && c ≠ '\\'

theorem stringChar_iff {c : Char} : stringChar c = true ↔ c ≠ '\'' ∧ c ≠ '\\' := by
  rw [stringChar, Bool.and_eq_true, decide_eq_true_eq, decide_eq_true_eq]

theorem caseClosed_stringChar : CaseClosed stringChar := by
  have hletter : ∀ c : Char, 65 ≤ c.toNat → c.toNat ≠ 92 → stringChar c = true := by
    intro c h₁ h₂
    rw [stringChar_iff]
    constructor
    · rintro rfl
      exact absurd h₁ (by decide)
    · rintro rfl
      exact h₂ rfl
  exact caseClosed_of (fun c h₁ h₂ _ => hletter c h₁ (by omega))
    (fun c h₁ h₂ _ => hletter c (by omega) (by omega))

/-! ## The parts -/

/-- `lit s` without regard to case. -/
theorem mem_lit {w : String} {cs : List Char} : cs ∈ lang (lit w).caseless ↔ Letters w cs := by
  have hall : ∀ {ws cs : List Char},
      cs ∈ lang (ws.foldr (fun c r => seq (char (· = c)) r) empty).caseless ↔
        cs.map Char.toUpper = ws.map Char.toUpper := by
    intro ws
    induction ws with
    | nil =>
        intro cs
        show cs ∈ (1 : Language Char) ↔ _
        rw [Language.mem_one, List.map_nil, List.map_eq_nil_iff]
    | cons x ws ih =>
        intro cs
        rw [List.foldr_cons, caseless, mem_seq]
        have hone : ∀ {y : List Char}, y ∈ lang (char (· = x)).caseless ↔
            ∃ c, y = [c] ∧ c.toUpper = x.toUpper := by
          intro y
          rw [caseless, mem_char]
          simp only [Bool.or_eq_true, decide_eq_true_eq, or_assoc, caseless_iff]
        simp only [hone, ih]
        constructor
        · rintro ⟨_, y, rfl, ⟨c, rfl, hc⟩, hy⟩
          rw [List.singleton_append, List.map_cons, List.map_cons, hc, hy]
        · intro h
          cases cs with
          | nil => cases h
          | cons c cs =>
              obtain ⟨hc, hcs⟩ := List.cons.inj h
              exact ⟨[c], cs, rfl, ⟨c, rfl, hc⟩, hcs⟩
  exact hall

/-- Symbols have no case. -/
theorem letters_symbol {w : String} {cs : List Char}
    (h : ∀ x ∈ w.toList, x.toUpper = x ∧ (x.toNat < 65 ∨ 90 < x.toNat)) :
    Letters w cs ↔ cs = w.toList := by
  have hone : ∀ {c x : Char}, x.toUpper = x → (x.toNat < 65 ∨ 90 < x.toNat) →
      c.toUpper = x → c = x := by
    intro c x hx hrange hc
    rw [← Char.toNat_inj, toNat_toUpper] at hc
    rw [← Char.toNat_inj]
    split_ifs at hc with hlower
    · omega
    · exact hc
  rw [Letters]
  generalize w.toList = ws at h
  constructor
  · intro heq
    induction ws generalizing cs with
    | nil => exact List.map_eq_nil_iff.mp heq
    | cons x ws ih =>
        cases cs with
        | nil => cases heq
        | cons c cs =>
            obtain ⟨hc, hcs⟩ := List.cons.inj heq
            obtain ⟨⟨hx, hrange⟩, hws⟩ := List.forall_mem_cons.mp h
            rw [hone hx hrange (hc.trans hx), ih hws hcs]
  · rintro rfl
    rfl

section Parts

variable {cs : List Char}

theorem mem_SPACES : cs ∈ lang SPACES.caseless ↔ Blank cs := by
  have hclass : SPACES.caseless = star (char space) := by
    show star (char space).caseless = _
    rw [caseClosed_space.caseless]
  rw [hclass, mem_star_char]
  exact Iff.rfl

theorem mem_SPACES1 : cs ∈ lang SPACES1.caseless ↔ Gap cs := by
  have hclass : SPACES1.caseless = plus (char space) := by
    show seq (char space).caseless (star (char space).caseless) = _
    rw [caseClosed_space.caseless]
    rfl
  rw [hclass, mem_plus_char]
  exact Iff.rfl

/-- An identifier. -/
def Identifier (cs : List Char) : Prop :=
  ∃ c rest, cs = c :: rest ∧ identStart c = true ∧ ∀ d ∈ rest, identRest d = true

theorem mem_IDENTIFIER : cs ∈ lang IDENTIFIER.caseless ↔ Identifier cs := by
  have hclass : IDENTIFIER.caseless = seq (char identStart) (star (char identRest)) := by
    show seq (char identStart).caseless (star (char identRest).caseless) = _
    rw [caseClosed_identStart.caseless, caseClosed_identRest.caseless]
  rw [hclass, mem_seq]
  constructor
  · rintro ⟨x, y, rfl, ⟨c, rfl, hc⟩, hy⟩
    exact ⟨c, y, rfl, hc, mem_star_char.mp hy⟩
  · rintro ⟨c, rest, rfl, hc, hrest⟩
    exact ⟨[c], rest, rfl, ⟨c, rfl, hc⟩, mem_star_char.mpr hrest⟩

/-- One identifier, or two with a dot between them. -/
theorem mem_IDENT : cs ∈ lang IDENT.caseless ↔
    Identifier cs ∨ ∃ a b, cs = a ++ '.' :: b ∧ Identifier a ∧ Identifier b := by
  have hform : IDENT.caseless =
      seq IDENTIFIER.caseless (opt (seq (lit ".").caseless IDENTIFIER.caseless)) := rfl
  have hdot : ∀ {y : List Char}, y ∈ lang (lit ".").caseless ↔ y = ['.'] := by
    intro y
    rw [mem_lit]
    exact letters_symbol (by decide)
  rw [hform, mem_seq]
  simp only [mem_opt, mem_seq, mem_IDENTIFIER, hdot]
  constructor
  · rintro ⟨a, y, rfl, ha, ⟨z, b, rfl, rfl, hb⟩ | rfl⟩
    · exact .inr ⟨a, b, rfl, ha, hb⟩
    · rw [List.append_nil]
      exact .inl ha
  · rintro (h | ⟨a, b, rfl, ha, hb⟩)
    · exact ⟨cs, [], (List.append_nil cs).symm, h, .inr rfl⟩
    · exact ⟨a, '.' :: b, rfl, ha, .inl ⟨['.'], b, rfl, rfl, hb⟩⟩

/-- Digits. -/
def Digits (cs : List Char) : Prop := cs ≠ [] ∧ ∀ c ∈ cs, digit c = true

/-- Digits, and more of them behind a point. -/
def Decimal (cs : List Char) : Prop :=
  ∃ ds fraction, cs = ds ++ fraction ∧ Digits ds ∧
    (fraction = [] ∨ ∃ es, fraction = '.' :: es ∧ Digits es)

theorem mem_NUMBER : cs ∈ lang NUMBER.caseless ↔
    Decimal cs ∨ ∃ n, cs = '-' :: n ∧ Decimal n := by
  have hdigits : (plus (char digit)).caseless = plus (char digit) := by
    show seq (char digit).caseless (star (char digit).caseless) = _
    rw [caseClosed_digit.caseless]
    rfl
  have hform : NUMBER.caseless = seq (opt (lit "-").caseless) (seq (plus (char digit)).caseless
      (opt (seq (lit ".").caseless (plus (char digit)).caseless))) := rfl
  have hdot : ∀ {y : List Char}, y ∈ lang (lit ".").caseless ↔ y = ['.'] := by
    intro y
    rw [mem_lit]
    exact letters_symbol (by decide)
  have hminus : ∀ {y : List Char}, y ∈ lang (lit "-").caseless ↔ y = ['-'] := by
    intro y
    rw [mem_lit]
    exact letters_symbol (by decide)
  have hdecimal : ∀ {y : List Char}, y ∈ lang (seq (plus (char digit))
      (opt (seq (lit ".").caseless (plus (char digit))))) ↔ Decimal y := by
    intro y
    rw [mem_seq]
    simp only [mem_opt, mem_seq, mem_plus_char, hdot]
    constructor
    · rintro ⟨ds, z, rfl, hds, ⟨z, es, rfl, rfl, hes⟩ | rfl⟩
      · exact ⟨ds, _, rfl, hds, .inr ⟨es, rfl, hes⟩⟩
      · exact ⟨ds, [], rfl, hds, .inl rfl⟩
    · rintro ⟨ds, fraction, rfl, hds, rfl | ⟨es, rfl, hes⟩⟩
      · exact ⟨ds, [], rfl, hds, .inr rfl⟩
      · exact ⟨ds, _, rfl, hds, .inl ⟨['.'], es, rfl, rfl, hes⟩⟩
  rw [hform, hdigits, mem_seq]
  simp only [mem_opt, hdecimal, hminus]
  constructor
  · rintro ⟨s, n, rfl, rfl | rfl, hn⟩
    · exact .inr ⟨n, rfl, hn⟩
    · exact .inl hn
  · rintro (h | ⟨n, rfl, hn⟩)
    · exact ⟨[], cs, rfl, .inr rfl, h⟩
    · exact ⟨['-'], n, rfl, .inl rfl, hn⟩

theorem mem_STRING : cs ∈ lang STRING.caseless ↔
    ∃ body, cs = '\'' :: (body ++ ['\'']) ∧ ∀ c ∈ body, c ≠ '\'' ∧ c ≠ '\\' := by
  have hform : STRING.caseless = seq (lit "'").caseless
      (seq (star (char stringChar).caseless) (lit "'").caseless) := rfl
  have hquote : ∀ {y : List Char}, y ∈ lang (lit "'").caseless ↔ y = ['\''] := by
    intro y
    rw [mem_lit]
    exact letters_symbol (by decide)
  rw [hform, caseClosed_stringChar.caseless, mem_seq]
  simp only [mem_seq, hquote, mem_star_char, stringChar_iff]
  constructor
  · rintro ⟨x, y, rfl, rfl, body, z, rfl, hbody, rfl⟩
    exact ⟨body, rfl, hbody⟩
  · rintro ⟨body, rfl, hbody⟩
    exact ⟨['\''], body ++ ['\''], rfl, rfl, body, ['\''], rfl, hbody, rfl⟩

theorem mem_VALUE : cs ∈ lang VALUE.caseless ↔
    cs ∈ lang NUMBER.caseless ∨ cs ∈ lang STRING.caseless ∨ Letters "current_user" cs := by
  have hform : VALUE.caseless = alt NUMBER.caseless (alt STRING.caseless SESSION.caseless) := rfl
  rw [hform, mem_alt, mem_alt, SESSION, mem_lit]

/-- The comparisons of a term. -/
def COMPARISONS : List (List Char) :=
  [['<', '>'], ['!', '='], ['<', '='], ['>', '='], ['='], ['<'], ['>']]

theorem mem_COMPARISON : cs ∈ lang COMPARISON.caseless ↔ cs ∈ COMPARISONS := by
  have hsymbol : ∀ w ∈ ["<>", "!=", "<=", ">=", "=", "<", ">"],
      ∀ x ∈ w.toList, x.toUpper = x ∧ (x.toNat < 65 ∨ 90 < x.toNat) := by decide
  rw [COMPARISON, caseless_any, mem_any]
  simp only [List.map_map, List.mem_map, Function.comp_apply]
  constructor
  · rintro ⟨r, ⟨w, hw, rfl⟩, hcs⟩
    rw [mem_lit, letters_symbol (hsymbol w hw)] at hcs
    have hall : ∀ w ∈ ["<>", "!=", "<=", ">=", "=", "<", ">"], w.toList ∈ COMPARISONS := by decide
    rw [hcs]
    exact hall w hw
  · intro h
    have hall : ∀ s ∈ COMPARISONS, ∃ w ∈ ["<>", "!=", "<=", ">=", "=", "<", ">"], s = w.toList := by
      decide
    obtain ⟨w, hw, rfl⟩ := hall cs h
    refine ⟨_, ⟨w, hw, rfl⟩, ?_⟩
    rw [mem_lit, letters_symbol (hsymbol w hw)]

/-- More values of a list. -/
inductive ListTail : List Char → Prop where
  | nil : ListTail []
  | cons (b b' v rest : List Char) (hb : Blank b) (hb' : Blank b') (hv : v ∈ lang VALUE.caseless)
      (hrest : ListTail rest) : ListTail (b ++ ',' :: (b' ++ (v ++ rest)))

theorem mem_symbol {w : String} (h : ∀ x ∈ w.toList, x.toUpper = x ∧ (x.toNat < 65 ∨ 90 < x.toNat)) :
    cs ∈ lang (lit w).caseless ↔ cs = w.toList := mem_lit.trans (letters_symbol h)

theorem mem_listTail : cs ∈ lang (star (cat [SPACES, lit ",", SPACES, VALUE])).caseless ↔
    ListTail cs := by
  have hform : (star (cat [SPACES, lit ",", SPACES, VALUE])).caseless = star (seq SPACES.caseless
      (seq (lit ",").caseless (seq SPACES.caseless VALUE.caseless))) := rfl
  have hpiece : ∀ {x : List Char}, x ∈ lang (seq SPACES.caseless (seq (lit ",").caseless
      (seq SPACES.caseless VALUE.caseless))) ↔ ∃ b b' v, x = b ++ ',' :: (b' ++ v) ∧ Blank b ∧
        Blank b' ∧ v ∈ lang VALUE.caseless := by
    intro x
    have hcomma : ∀ {y : List Char}, y ∈ lang (lit ",").caseless ↔ y = [','] :=
      mem_symbol (by decide)
    simp only [mem_seq, mem_SPACES, hcomma]
    constructor
    · rintro ⟨b, y, rfl, hb, z, w, rfl, rfl, b', v, rfl, hb', hv⟩
      exact ⟨b, b', v, rfl, hb, hb', hv⟩
    · rintro ⟨b, b', v, rfl, hb, hb', hv⟩
      exact ⟨b, _, rfl, hb, [','], _, rfl, rfl, b', v, rfl, hb', hv⟩
  rw [hform, mem_star]
  constructor
  · rintro ⟨pieces, rfl, hpieces⟩
    induction pieces with
    | nil => exact .nil
    | cons x pieces ih =>
        obtain ⟨hx, hrest⟩ := List.forall_mem_cons.mp hpieces
        obtain ⟨b, b', v, rfl, hb, hb', hv⟩ := hpiece.mp hx
        have h := ListTail.cons b b' v pieces.flatten hb hb' hv (ih hrest)
        simpa using h
  · intro h
    induction h with
    | nil => exact ⟨[], rfl, fun x hx => absurd hx List.not_mem_nil⟩
    | cons b b' v rest hb hb' hv _ ih =>
        obtain ⟨pieces, rfl, hpieces⟩ := ih
        refine ⟨(b ++ ',' :: (b' ++ v)) :: pieces, by simp, List.forall_mem_cons.mpr ⟨?_, hpieces⟩⟩
        exact hpiece.mpr ⟨b, b', v, rfl, hb, hb', hv⟩

/-- A list of values. -/
theorem mem_IN_LIST : cs ∈ lang IN_LIST.caseless ↔ ∃ b v tail b',
    cs = '(' :: (b ++ (v ++ (tail ++ (b' ++ [')'])))) ∧ Blank b ∧ v ∈ lang VALUE.caseless ∧
      ListTail tail ∧ Blank b' := by
  have hform : IN_LIST.caseless = seq (lit "(").caseless (seq SPACES.caseless (seq VALUE.caseless
      (seq (star (cat [SPACES, lit ",", SPACES, VALUE])).caseless
        (seq SPACES.caseless (lit ")").caseless)))) := rfl
  have hopen : ∀ {y : List Char}, y ∈ lang (lit "(").caseless ↔ y = ['('] := mem_symbol (by decide)
  have hclose : ∀ {y : List Char}, y ∈ lang (lit ")").caseless ↔ y = [')'] := mem_symbol (by decide)
  rw [hform]
  simp only [mem_seq, mem_SPACES, mem_listTail, hopen, hclose]
  constructor
  · rintro ⟨x, _, rfl, rfl, b, _, rfl, hb, v, _, rfl, hv, tail, _, rfl, htail, b', z, rfl, hb', rfl⟩
    exact ⟨b, v, tail, b', rfl, hb, hv, htail, hb'⟩
  · rintro ⟨b, v, tail, b', rfl, hb, hv, htail, hb'⟩
    exact ⟨['('], _, rfl, rfl, b, _, rfl, hb, v, _, rfl, hv, tail, _, rfl, htail, b', [')'], rfl,
      hb', rfl⟩

/-- A term, as text. -/
inductive TermText : List Char → Prop where
  | compare (name b op b' v : List Char) (hname : name ∈ lang IDENT.caseless) (hb : Blank b)
      (hop : op ∈ COMPARISONS) (hb' : Blank b') (hv : v ∈ lang VALUE.caseless) :
      TermText (name ++ (b ++ (op ++ (b' ++ v))))
  | isIn (name g w b xs : List Char) (hname : name ∈ lang IDENT.caseless) (hg : Gap g)
      (hw : Letters "IN" w) (hb : Blank b) (hxs : xs ∈ lang IN_LIST.caseless) :
      TermText (name ++ (g ++ (w ++ (b ++ xs))))

theorem mem_term : cs ∈ lang TERM.caseless ↔ TermText cs := by
  have hform : TERM.caseless = alt
      (seq IDENT.caseless (seq SPACES.caseless (seq COMPARISON.caseless
        (seq SPACES.caseless VALUE.caseless))))
      (seq IDENT.caseless (seq SPACES1.caseless (seq (lit "IN").caseless
        (seq SPACES.caseless IN_LIST.caseless)))) := rfl
  rw [hform, mem_alt]
  simp only [mem_seq, mem_SPACES, mem_SPACES1, mem_COMPARISON, mem_lit]
  constructor
  · rintro (⟨name, _, rfl, hname, b, _, rfl, hb, op, _, rfl, hop, b', v, rfl, hb', hv⟩ |
      ⟨name, _, rfl, hname, g, _, rfl, hg, w, _, rfl, hw, b, xs, rfl, hb, hxs⟩)
    · exact .compare name b op b' v hname hb hop hb' hv
    · exact .isIn name g w b xs hname hg hw hb hxs
  · intro h
    cases h with
    | compare name b op b' v hname hb hop hb' hv =>
        exact .inl ⟨name, _, rfl, hname, b, _, rfl, hb, op, _, rfl, hop, b', v, rfl, hb', hv⟩
    | isIn name g w b xs hname hg hw hb hxs =>
        exact .inr ⟨name, _, rfl, hname, g, _, rfl, hg, w, _, rfl, hw, b, xs, rfl, hb, hxs⟩

/-- More terms of a chain. -/
inductive ChainTail (connective : String) : List Char → Prop where
  | nil : ChainTail connective []
  | cons (g w g' t rest : List Char) (hg : Gap g) (hw : Letters connective w) (hg' : Gap g')
      (ht : TermText t) (hrest : ChainTail connective rest) :
      ChainTail connective (g ++ (w ++ (g' ++ (t ++ rest))))

theorem mem_chainTail {connective : String} :
    cs ∈ lang (star (cat [SPACES1, lit connective, SPACES1, TERM])).caseless ↔
      ChainTail connective cs := by
  have hform : (star (cat [SPACES1, lit connective, SPACES1, TERM])).caseless =
      star (seq SPACES1.caseless (seq (lit connective).caseless
        (seq SPACES1.caseless TERM.caseless))) := rfl
  have hpiece : ∀ {x : List Char}, x ∈ lang (seq SPACES1.caseless (seq (lit connective).caseless
      (seq SPACES1.caseless TERM.caseless))) ↔ ∃ g w g' t, x = g ++ (w ++ (g' ++ t)) ∧ Gap g ∧
        Letters connective w ∧ Gap g' ∧ TermText t := by
    intro x
    simp only [mem_seq, mem_SPACES1, mem_lit, mem_term]
    constructor
    · rintro ⟨g, _, rfl, hg, w, _, rfl, hw, g', t, rfl, hg', ht⟩
      exact ⟨g, w, g', t, rfl, hg, hw, hg', ht⟩
    · rintro ⟨g, w, g', t, rfl, hg, hw, hg', ht⟩
      exact ⟨g, _, rfl, hg, w, _, rfl, hw, g', t, rfl, hg', ht⟩
  rw [hform, mem_star]
  constructor
  · rintro ⟨pieces, rfl, hpieces⟩
    induction pieces with
    | nil => exact .nil
    | cons x pieces ih =>
        obtain ⟨hx, hrest⟩ := List.forall_mem_cons.mp hpieces
        obtain ⟨g, w, g', t, rfl, hg, hw, hg', ht⟩ := hpiece.mp hx
        have h := ChainTail.cons g w g' t pieces.flatten hg hw hg' ht (ih hrest)
        simpa using h
  · intro h
    induction h with
    | nil => exact ⟨[], rfl, fun x hx => absurd hx List.not_mem_nil⟩
    | cons g w g' t rest hg hw hg' ht _ ih =>
        obtain ⟨pieces, rfl, hpieces⟩ := ih
        refine ⟨(g ++ (w ++ (g' ++ t))) :: pieces, by simp, List.forall_mem_cons.mpr ⟨?_, hpieces⟩⟩
        exact hpiece.mpr ⟨g, w, g', t, rfl, hg, hw, hg', ht⟩

theorem mem_chain {connective : String} : cs ∈ lang (chain connective) ↔ ∃ b t tail b',
    cs = b ++ (t ++ (tail ++ b')) ∧ Blank b ∧ TermText t ∧ ChainTail connective tail ∧ Blank b' := by
  have hform : chain connective = seq SPACES.caseless (seq TERM.caseless
      (seq (star (cat [SPACES1, lit connective, SPACES1, TERM])).caseless SPACES.caseless)) := rfl
  rw [hform]
  simp only [mem_seq, mem_SPACES, mem_term, mem_chainTail]
  constructor
  · rintro ⟨b, _, rfl, hb, t, _, rfl, ht, tail, b', rfl, htail, hb'⟩
    exact ⟨b, t, tail, b', rfl, hb, ht, htail, hb'⟩
  · rintro ⟨b, t, tail, b', rfl, hb, ht, htail, hb'⟩
    exact ⟨b, _, rfl, hb, t, _, rfl, ht, tail, b', rfl, htail, hb'⟩

end Parts

end Policy
