import Beluga.Text.Regex
import Mathlib.Computability.Language

/-! # Languages of regular expressions

Matching by derivatives decides the language that an expression denotes
(`test_iff`), so what an expression accepts can be read off its parts.
-/

namespace Text

namespace Regex

/-! ## Languages -/

def lang : Regex → Language Char
  | fail => 0
  | empty => 1
  | char p => {cs | ∃ c, cs = [c] ∧ p c = true}
  | seq a b => lang a * lang b
  | alt a b => lang a + lang b
  | star a => KStar.kstar (lang a)

variable {L M : Language Char} {c : Char} {cs : List Char}

theorem mem_mul_iff : cs ∈ L * M ↔ ∃ x y, cs = x ++ y ∧ x ∈ L ∧ y ∈ M := by
  rw [Language.mem_mul]
  constructor
  · rintro ⟨x, hx, y, hy, h⟩
    exact ⟨x, y, h.symm, hx, hy⟩
  · rintro ⟨x, y, h, hx, hy⟩
    exact ⟨x, hx, y, hy, h.symm⟩

/-- The first character comes from the first factor, or this is empty. -/
theorem cons_mem_mul : c :: cs ∈ L * M ↔
    (∃ x y, cs = x ++ y ∧ c :: x ∈ L ∧ y ∈ M) ∨ ([] ∈ L ∧ c :: cs ∈ M) := by
  rw [mem_mul_iff]
  constructor
  · rintro ⟨x, y, h, hx, hy⟩
    cases x with
    | nil => exact .inr ⟨hx, h ▸ hy⟩
    | cons d x =>
        obtain ⟨rfl, rfl⟩ := List.cons.inj h
        exact .inl ⟨x, y, rfl, hx, hy⟩
  · rintro (⟨x, y, rfl, hx, hy⟩ | ⟨hnil, h⟩)
    · exact ⟨c :: x, y, rfl, hx, hy⟩
    · exact ⟨[], c :: cs, rfl, hnil, h⟩

/-- The first character of a repetition comes from a first piece. -/
theorem cons_mem_kstar : c :: cs ∈ KStar.kstar L ↔
    ∃ x y, cs = x ++ y ∧ c :: x ∈ L ∧ y ∈ KStar.kstar L := by
  constructor
  · intro h
    rw [Language.kstar_def_nonempty] at h
    obtain ⟨pieces, hcs, hpieces⟩ := h
    cases pieces with
    | nil => cases hcs
    | cons piece pieces =>
        obtain ⟨⟨hmem, hne⟩, hrest⟩ := List.forall_mem_cons.mp hpieces
        cases piece with
        | nil => exact absurd rfl hne
        | cons d x =>
            obtain ⟨rfl, rfl⟩ := List.cons.inj hcs
            exact ⟨x, pieces.flatten, rfl, hmem,
              Language.mem_kstar.mpr ⟨pieces, rfl, fun y hy => (hrest y hy).1⟩⟩
  · rintro ⟨x, y, h, hx, hy⟩
    obtain ⟨pieces, hflat, hpieces⟩ := Language.mem_kstar.mp hy
    refine Language.mem_kstar.mpr ⟨(c :: x) :: pieces, ?_, List.forall_mem_cons.mpr ⟨hx, hpieces⟩⟩
    rw [h, hflat]
    rfl

/-! ## Matching -/

theorem nullable_iff (r : Regex) : r.nullable = true ↔ [] ∈ lang r := by
  induction r with
  | fail => simp [nullable, lang]
  | empty => simp [nullable, lang]
  | char p =>
      refine iff_of_false Bool.false_ne_true ?_
      rintro ⟨c, h, _⟩
      cases h
  | seq a b iha ihb =>
      rw [nullable, Bool.and_eq_true, iha, ihb, lang, mem_mul_iff]
      constructor
      · rintro ⟨ha, hb⟩
        exact ⟨[], [], rfl, ha, hb⟩
      · rintro ⟨x, y, h, hx, hy⟩
        obtain ⟨rfl, rfl⟩ := List.append_eq_nil_iff.mp h.symm
        exact ⟨hx, hy⟩
  | alt a b iha ihb => rw [nullable, Bool.or_eq_true, iha, ihb, lang, Language.mem_add]
  | star a => exact iff_of_true rfl (Language.nil_mem_kstar _)

theorem lang_mkSeq (a b : Regex) : lang (mkSeq a b) = lang a * lang b := by
  unfold mkSeq
  split
  · simp [lang]
  · simp [lang]
  · rfl

theorem lang_mkAlt (a b : Regex) : lang (mkAlt a b) = lang a + lang b := by
  unfold mkAlt
  split
  · simp [lang]
  · simp [lang]
  · rfl

theorem mem_deriv (r : Regex) : cs ∈ lang (r.deriv c) ↔ c :: cs ∈ lang r := by
  induction r generalizing cs with
  | fail => simp [deriv, lang]
  | empty => simp [deriv, lang]
  | char p =>
      rw [deriv]
      split
      case isTrue hp =>
        show cs = [] ↔ ∃ d, c :: cs = [d] ∧ p d = true
        constructor
        · rintro rfl
          exact ⟨c, rfl, hp⟩
        · rintro ⟨d, h, _⟩
          exact (List.cons.inj h).2
      case isFalse hp =>
        refine iff_of_false (Language.notMem_zero cs) ?_
        rintro ⟨d, h, hd⟩
        rw [(List.cons.inj h).1] at hp
        exact hp hd
  | seq a b iha ihb =>
      rw [lang, cons_mem_mul, ← nullable_iff, deriv]
      have hleft : cs ∈ lang (mkSeq (a.deriv c) b) ↔
          ∃ x y, cs = x ++ y ∧ c :: x ∈ lang a ∧ y ∈ lang b := by
        rw [lang_mkSeq, mem_mul_iff]
        simp only [iha]
      by_cases hnull : a.nullable = true
      · rw [if_pos hnull, lang_mkAlt, Language.mem_add, hleft, ihb]
        simp only [hnull, true_and]
      · rw [if_neg hnull, hleft]
        simp only [hnull, Bool.false_eq_true, false_and, or_false]
  | alt a b iha ihb => rw [deriv, lang_mkAlt, lang, Language.mem_add, Language.mem_add, iha, ihb]
  | star a iha =>
      rw [lang, cons_mem_kstar, deriv, lang_mkSeq, mem_mul_iff]
      simp only [iha, lang]

theorem matches_iff (r : Regex) (cs : List Char) : r.matches' cs = true ↔ cs ∈ lang r := by
  induction cs generalizing r with
  | nil => exact nullable_iff r
  | cons c cs ih =>
      rw [← mem_deriv, ← ih]
      rfl

theorem test_iff (r : Regex) (s : String) : r.test s = true ↔ s.toList ∈ lang r :=
  matches_iff r s.toList

/-! ## The language of a part -/

section Parts

variable {a b : Regex} {p : Char → Bool}

theorem mem_char : cs ∈ lang (char p) ↔ ∃ c, cs = [c] ∧ p c = true := Iff.rfl

theorem mem_seq : cs ∈ lang (seq a b) ↔ ∃ x y, cs = x ++ y ∧ x ∈ lang a ∧ y ∈ lang b :=
  mem_mul_iff

theorem mem_alt : cs ∈ lang (alt a b) ↔ cs ∈ lang a ∨ cs ∈ lang b := Language.mem_add _ _ _

theorem mem_opt : cs ∈ lang (opt a) ↔ cs ∈ lang a ∨ cs = [] := mem_alt

theorem mem_star : cs ∈ lang (star a) ↔ ∃ pieces : List (List Char), cs = pieces.flatten ∧
    ∀ x ∈ pieces, x ∈ lang a := Language.mem_kstar

theorem mem_star_char : cs ∈ lang (star (char p)) ↔ ∀ c ∈ cs, p c = true := by
  rw [← matches_iff, matches_star_char, List.all_eq_true]

theorem mem_plus_char : cs ∈ lang (plus (char p)) ↔ cs ≠ [] ∧ ∀ c ∈ cs, p c = true := by
  rw [plus, mem_seq]
  constructor
  · rintro ⟨x, y, rfl, ⟨c, rfl, hc⟩, hy⟩
    refine ⟨by simp, fun d hd => ?_⟩
    rcases List.mem_cons.mp hd with rfl | hd
    · exact hc
    · exact mem_star_char.mp hy d hd
  · rintro ⟨hne, hall⟩
    obtain ⟨c, rest, rfl⟩ := List.exists_cons_of_ne_nil hne
    obtain ⟨hc, hrest⟩ := List.forall_mem_cons.mp hall
    exact ⟨[c], rest, rfl, ⟨c, rfl, hc⟩, mem_star_char.mpr hrest⟩

/-- A list of expressions, with at least two of them. -/
theorem mem_cat {rest : List Regex} (hne : rest ≠ []) : cs ∈ lang (cat (a :: rest)) ↔
    ∃ x y, cs = x ++ y ∧ x ∈ lang a ∧ y ∈ lang (cat rest) := by
  obtain ⟨b, bs, rfl⟩ := List.exists_cons_of_ne_nil hne
  exact mem_seq

theorem mem_any {rs : List Regex} : cs ∈ lang (any rs) ↔ ∃ r ∈ rs, cs ∈ lang r := by
  induction rs with
  | nil => exact iff_of_false (Language.notMem_zero cs) (by simp)
  | cons r rs ih =>
      cases rs with
      | nil => simp [any]
      | cons r' rs =>
          have hany : any (r :: r' :: rs) = alt r (any (r' :: rs)) := rfl
          rw [hany, mem_alt, ih]
          exact (List.exists_mem_cons_iff (fun x => cs ∈ lang x) r (r' :: rs)).symm

/-! ## The flag `i` -/

theorem caseless_cat (rs : List Regex) : (cat rs).caseless = cat (rs.map caseless) := by
  induction rs with
  | nil => rfl
  | cons r rs ih =>
      cases rs with
      | nil => rfl
      | cons r' rs =>
          show seq r.caseless (cat (r' :: rs)).caseless = _
          rw [ih]
          rfl

theorem caseless_any (rs : List Regex) : (any rs).caseless = any (rs.map caseless) := by
  induction rs with
  | nil => rfl
  | cons r rs ih =>
      cases rs with
      | nil => rfl
      | cons r' rs =>
          show alt r.caseless (any (r' :: rs)).caseless = _
          rw [ih]
          rfl

/-- A class that has the letters that it has in both cases. -/
def CaseClosed (p : Char → Bool) : Prop :=
  ∀ c, (p c.toLower = true → p c = true) ∧ (p c.toUpper = true → p c = true)

theorem CaseClosed.caseless (h : CaseClosed p) : (char p).caseless = char p := by
  show char _ = char p
  congr 1
  funext c
  rw [Bool.eq_iff_iff, Bool.or_eq_true, Bool.or_eq_true]
  constructor
  · rintro ((hc | hc) | hc)
    · exact hc
    · exact (h c).1 hc
    · exact (h c).2 hc
  · exact fun hc => .inl (.inl hc)

end Parts

end Regex

end Text
