import Beluga.Policy.RowFilterSpacing
import Beluga.Policy.GrantText
import Beluga.Policy.Valid

/-! # Which row filters are accepted

A row filter is accepted if and only if it has at most 200 code units and its tokens are
terms joined only by `AND` or only by `OR`, with white space where the expressions
ask for it (`rowFilter_iff`). White space is what `\s` matches.
-/

namespace Policy.RowFilter

open Text Text.Sql

/-! ## From tokens to the filter -/

/-- Tokens that are left to read, behind `p`, and what they are without white space. -/
structure Rest (p : Token) (toks rest : List Token) : Prop where
  scanned : ∀ t ∈ toks, Scanned Regex.space t
  spaced : (p :: toks).IsChain Besides
  strip_eq : strip toks = rest

/-- A token behind white space `b`, which follows `p`. -/
structure Behind (p : Token) (b : List Char) (t : Token) : Prop where
  blank : Blank b
  scanned : Scanned Regex.space t
  not_space : isSpace t = false
  gap : b ≠ [] → p ≠ .symbol ['.'] ∧ p ≠ .symbol ['-'] ∧ t ≠ .symbol ['.']
  direct : b = [] → isWord t = true → operand p = false

theorem text_blank {toks : List Token} (hscanned : ∀ t ∈ toks, Scanned Regex.space t)
    (hspaces : ∀ t ∈ toks, isSpace t = true) : Blank (Sql.text toks) := by
  intro c hc
  obtain ⟨t, ht, hct⟩ := List.mem_flatMap.mp hc
  have hspace := hspaces t ht
  cases t with
  | space cs => exact (hscanned _ ht).space cs rfl c hct
  | _ => cases hspace

theorem Rest.blank {p : Token} {toks : List Token} (h : Rest p toks []) :
    Blank (Sql.text toks) := by
  refine text_blank h.scanned fun t ht => ?_
  have hnone := List.filter_eq_nil_iff.mp h.strip_eq t ht
  simpa using hnone

theorem Rest.next {p t : Token} {toks rest : List Token} (h : Rest p toks (t :: rest)) :
    ∃ b toks', Sql.text toks = b ++ (t.text ++ Sql.text toks') ∧ Behind p b t ∧
      Rest t toks' rest := by
  obtain ⟨spaces, toks', rfl, hspaces, ht, hrest⟩ := List.filter_eq_cons_iff.mp h.strip_eq
  have hspaces' : ∀ s ∈ spaces, isSpace s = true := fun s hs => by simpa using hspaces s hs
  obtain ⟨hscanned, hscanned'⟩ := List.forall_mem_append.mp h.scanned
  obtain ⟨hst, hstail⟩ := List.forall_mem_cons.mp hscanned'
  have hchain : (t :: toks').IsChain Besides := (List.IsChain.tail h.spaced).right_of_append
  refine ⟨Sql.text spaces, toks', ?_, ⟨text_blank hscanned hspaces', hst, by simpa using ht, ?_, ?_⟩,
    ⟨hstail, hchain, hrest⟩⟩
  · simp [Sql.text]
  · intro hne
    have hsne : spaces ≠ [] := by
      rintro rfl
      exact hne rfl
    -- the first white space is behind `p`, the last one before `t`
    obtain ⟨s, ss, hfirst⟩ := List.exists_cons_of_ne_nil hsne
    obtain ⟨ss', s', hlast⟩ := List.eq_nil_or_concat spaces |>.resolve_left hsne
    have hbefore : Besides p s := by
      have hspaced := h.spaced
      rw [hfirst] at hspaced
      exact (List.isChain_cons_cons.mp hspaced).1
    have hafter : Besides s' t := by
      have hspaced := List.IsChain.tail h.spaced
      rw [hlast, List.tail_cons, List.concat_eq_append, List.append_assoc] at hspaced
      exact (List.isChain_cons_cons.mp hspaced.right_of_append).1
    obtain ⟨hdot, hminus⟩ := hbefore.2.1 (hspaces' s (hfirst ▸ List.mem_cons_self))
    refine ⟨hdot, hminus, hafter.1 (hspaces' s' ?_)⟩
    rw [hlast, List.concat_eq_append]
    exact List.mem_append_right _ List.mem_cons_self
  · intro hnil hword
    have hspaces_nil : spaces = [] := by
      cases spaces with
      | nil => rfl
      | cons s ss =>
          have hs := (hscanned s List.mem_cons_self).nonempty
          exact absurd (List.append_eq_nil_iff.mp hnil).1 hs
    have hspaced := h.spaced
    rw [hspaces_nil] at hspaced
    exact (List.isChain_cons_cons.mp hspaced).1.2.2 hword

theorem identifier_of_scanned {w : List Char} (h : Scanned Regex.space (.word w)) :
    Identifier w := word_plain_iff.mp (h.word w rfl)

theorem Behind.gap_of_operand {p : Token} {b w : List Char} (h : Behind p b (.word w))
    (hp : operand p = true) : Gap b := by
  refine ⟨fun hnil => ?_, h.blank⟩
  rw [h.direct hnil rfl] at hp
  cases hp

section Parts

variable {p : Token} {toks rest : List Token}

theorem value_read {v : Value} {vtoks : List Token} (hv : ValueTokens v vtoks)
    (h : Rest p toks (vtoks ++ rest)) : ∃ b val toks' q,
      Sql.text toks = b ++ (val ++ Sql.text toks') ∧ Blank b ∧ val ∈ Regex.lang VALUE.caseless ∧
        operand q = true ∧ Rest q toks' rest := by
  cases hv with
  | number n hn =>
      obtain ⟨b, toks', htext, hbehind, hrest⟩ := h.next
      refine ⟨b, n, toks', _, htext, hbehind.blank, ?_, rfl, hrest⟩
      exact mem_VALUE.mpr (.inl (mem_NUMBER.mpr (.inl (plainNumber_iff.mp hn))))
  | negative n hn =>
      obtain ⟨b, toks', htext, hbehind, hrest⟩ := h.next
      obtain ⟨b', toks'', htext', hbehind', hrest'⟩ := hrest.next
      -- nothing stands between the minus and the number
      have hnil : b' = [] := by
        by_contra hne
        exact (hbehind'.gap hne).2.1 rfl
      refine ⟨b, '-' :: n, toks'', _, ?_, hbehind.blank, ?_, rfl, hrest'⟩
      · rw [htext, htext', hnil]
        rfl
      · exact mem_VALUE.mpr (.inl (mem_NUMBER.mpr (.inr ⟨n, rfl, plainNumber_iff.mp hn⟩)))
  | string s hs =>
      obtain ⟨b, toks', htext, hbehind, hrest⟩ := h.next
      refine ⟨b, _, toks', _, htext, hbehind.blank, ?_, rfl, hrest⟩
      exact mem_VALUE.mpr (.inr (.inl (mem_STRING.mpr ⟨s, rfl, hs⟩)))
  | currentUser w hw =>
      obtain ⟨b, toks', htext, hbehind, hrest⟩ := h.next
      exact ⟨b, w, toks', _, htext, hbehind.blank, mem_VALUE.mpr (.inr (.inr hw)), rfl, hrest⟩

theorem more_read {vs : List Value} {vtoks : List Token} (hvs : MoreTokens vs vtoks)
    (hp : operand p = true) (h : Rest p toks (vtoks ++ rest)) : ∃ cs toks' q,
      Sql.text toks = cs ++ Sql.text toks' ∧ ListTail cs ∧ operand q = true ∧
        Rest q toks' rest := by
  induction hvs generalizing p toks with
  | nil => exact ⟨[], toks, p, rfl, .nil, hp, h⟩
  | cons v vs vtoks vstoks hv _ ih =>
      rw [List.cons_append, List.append_assoc] at h
      obtain ⟨b, toks₁, htext₁, hbehind, hrest₁⟩ := h.next
      obtain ⟨b', val, toks₂, q, htext₂, hb', hval, hq, hrest₂⟩ := value_read hv hrest₁
      obtain ⟨cs, toks₃, q', htext₃, hcs, hq', hrest₃⟩ := ih hq hrest₂
      refine ⟨_, toks₃, q', ?_, .cons b b' val cs hbehind.blank hb' hval hcs, hq', hrest₃⟩
      rw [htext₁, htext₂, htext₃]
      simp [Token.text]

theorem name_read {n : Name} (h : Rest p toks (n.tokens ++ rest)) : ∃ b name toks' w,
    Sql.text toks = b ++ (name ++ Sql.text toks') ∧ Blank b ∧ (operand p = true → Gap b) ∧
      name ∈ Regex.lang IDENT.caseless ∧ Rest (.word w) toks' rest := by
  obtain ⟨first, second⟩ := n
  obtain ⟨b, toks₁, htext₁, hbehind, hrest₁⟩ := h.next
  have hfirst := identifier_of_scanned hbehind.scanned
  cases second with
  | none => exact ⟨b, first, toks₁, first, htext₁, hbehind.blank, hbehind.gap_of_operand,
      mem_IDENT.mpr (.inl hfirst), hrest₁⟩
  | some w =>
      obtain ⟨b₁, toks₂, htext₂, hbehind₁, hrest₂⟩ := hrest₁.next
      obtain ⟨b₂, toks₃, htext₃, hbehind₂, hrest₃⟩ := hrest₂.next
      have hsecond := identifier_of_scanned hbehind₂.scanned
      -- no white space at the dot
      have hnil₁ : b₁ = [] := by
        by_contra hne
        exact (hbehind₁.gap hne).2.2 rfl
      have hnil₂ : b₂ = [] := by
        by_contra hne
        exact (hbehind₂.gap hne).1 rfl
      refine ⟨b, first ++ '.' :: w, toks₃, w, ?_, hbehind.blank, hbehind.gap_of_operand,
        mem_IDENT.mpr (.inr ⟨first, w, rfl, hfirst, hsecond⟩), hrest₃⟩
      rw [htext₁, htext₂, htext₃, hnil₁, hnil₂]
      simp [Token.text]

theorem list_read {v : Value} {vs : List Value} {vtoks vstoks : List Token}
    (hv : ValueTokens v vtoks) (hvs : MoreTokens vs vstoks)
    (h : Rest p toks (.symbol ['('] :: (vtoks ++ (vstoks ++ .symbol [')'] :: rest)))) :
    ∃ b xs toks' q, Sql.text toks = b ++ (xs ++ Sql.text toks') ∧ Blank b ∧
      xs ∈ Regex.lang IN_LIST.caseless ∧ operand q = true ∧ Rest q toks' rest := by
  obtain ⟨b, toks₁, htext₁, hbehind, hrest₁⟩ := h.next
  obtain ⟨b₁, val, toks₂, q, htext₂, hb₁, hval, hq, hrest₂⟩ := value_read hv hrest₁
  obtain ⟨tail, toks₃, q', htext₃, htail, -, hrest₃⟩ := more_read hvs hq hrest₂
  obtain ⟨b₂, toks₄, htext₄, hbehind₂, hrest₄⟩ := hrest₃.next
  refine ⟨b, _, toks₄, _, ?_, hbehind.blank,
    mem_IN_LIST.mpr ⟨b₁, val, tail, b₂, rfl, hb₁, hval, htail, hbehind₂.blank⟩, rfl, hrest₄⟩
  rw [htext₁, htext₂, htext₃, htext₄]
  simp [Token.text]

theorem term_read {t : Term} {ttoks : List Token} (ht : TermTokens t ttoks)
    (h : Rest p toks (ttoks ++ rest)) : ∃ b cs toks' q,
      Sql.text toks = b ++ (cs ++ Sql.text toks') ∧ Blank b ∧ (operand p = true → Gap b) ∧
        TermText cs ∧ operand q = true ∧ Rest q toks' rest := by
  cases ht with
  | compare n op v vtoks hop hv =>
      rw [List.append_assoc, List.cons_append] at h
      obtain ⟨b, name, toks₁, w, htext₁, hb, hgap, hname, hrest₁⟩ := name_read h
      obtain ⟨b₁, toks₂, htext₂, hbehind, hrest₂⟩ := hrest₁.next
      obtain ⟨b₂, val, toks₃, q, htext₃, hb₂, hval, hq, hrest₃⟩ := value_read hv hrest₂
      refine ⟨b, _, toks₃, q, ?_, hb, hgap,
        .compare name b₁ op b₂ val hname hbehind.blank hop hb₂ hval, hq, hrest₃⟩
      rw [htext₁, htext₂, htext₃]
      simp [Token.text]
  | isIn n w v vs vtoks vstoks hw hv hvs =>
      simp only [List.append_assoc, List.cons_append, List.nil_append] at h
      obtain ⟨b, name, toks₁, x, htext₁, hb, hgap, hname, hrest₁⟩ := name_read h
      obtain ⟨g, toks₂, htext₂, hbehind, hrest₂⟩ := hrest₁.next
      obtain ⟨b₁, xs, toks₃, q, htext₃, hb₁, hxs, hq, hrest₃⟩ := list_read hv hvs hrest₂
      refine ⟨b, _, toks₃, q, ?_, hb, hgap,
        .isIn name g w b₁ xs hname (hbehind.gap_of_operand rfl) hw hb₁ hxs, hq, hrest₃⟩
      rw [htext₁, htext₂, htext₃]
      simp [Token.text]

theorem tail_read {c : Connective} {ts : List Term} {ttoks : List Token}
    (hts : TailTokens c ts ttoks) (hp : operand p = true) (h : Rest p toks ttoks) :
    ∃ cs b, Sql.text toks = cs ++ b ∧ ChainTail c.text cs ∧ Blank b := by
  induction hts generalizing p toks with
  | nil => exact ⟨[], Sql.text toks, rfl, .nil, h.blank⟩
  | cons w t ts ttoks tstoks hw ht _ ih =>
      obtain ⟨g, toks₁, htext₁, hbehind, hrest₁⟩ := h.next
      obtain ⟨g', cs, toks₂, q, htext₂, -, hgap, hcs, hq, hrest₂⟩ := term_read ht hrest₁
      obtain ⟨tail, b, htext₃, htail, hb⟩ := ih hq hrest₂
      refine ⟨_, b, ?_, .cons g w g' cs tail (hbehind.gap_of_operand hp) hw (hgap rfl) hcs htail, hb⟩
      rw [htext₁, htext₂, htext₃]
      simp [Token.text]

end Parts

/-- A sequence with the white space that the expressions ask for is accepted by one. -/
theorem chain_read {c : Connective} {terms : List Term} {cs : List Char} {toks : List Token}
    (hlex : lex Regex.space cs = some toks) (hspaced : Spaced toks)
    (hterms : Sequence c terms (strip toks)) : cs ∈ Regex.lang (chain c.text) := by
  obtain ⟨htext, hscanned⟩ := lex_text hlex
  generalize hall : strip toks = all at hterms
  cases hterms with
  | mk t ts ttoks tstoks ht hts =>
      -- as if a parenthesis were before the filter
      have hstart : Rest (.symbol ['(']) toks (ttoks ++ tstoks) := by
        refine ⟨hscanned, List.isChain_cons.mpr ⟨fun u _ => ?_, hspaced⟩, hall⟩
        exact ⟨fun h => (nomatch h), fun _ => ⟨by simp, by simp⟩, fun _ => rfl⟩
      obtain ⟨b, first, toks', q, hfirst, hb, -, hterm, hq, hrest⟩ := term_read ht hstart
      obtain ⟨tail, b', htail, hchain, hb'⟩ := tail_read hts hq hrest
      rw [htext, hfirst, htail]
      exact mem_chain.mpr ⟨b, first, tail, b', rfl, hb, hterm, hchain, hb'⟩

/-! ## Accepted filters -/

theorem rowFilterValid_iff {filter : String} : rowFilterValid filter = true ↔
    Js.length filter ≤ ROW_FILTER_MAX_LENGTH ∧
      ∃ c : Connective, filter.toList ∈ Regex.lang (chain c.text) := by
  rw [rowFilterValid, Bool.and_eq_true, Bool.or_eq_true, decide_eq_true_eq, Regex.test_iff,
    Regex.test_iff]
  constructor
  · rintro ⟨hand | hor, hlength⟩
    · exact ⟨hlength, .and, hand⟩
    · exact ⟨hlength, .or, hor⟩
  · rintro ⟨hlength, c, hc⟩
    refine ⟨?_, hlength⟩
    cases c with
    | and => exact .inl hc
    | or => exact .inr hc

/-- Every row filter that is reported is one that the check rejects. -/
def RejectsInvalid (errors : List ValidationError) : Prop :=
  ∀ r f, ValidationError.rowFilterRejected r f ∈ errors → rowFilterValid f = false

theorem rejectsInvalid_append {es es' : List ValidationError} (h : RejectsInvalid es)
    (h' : RejectsInvalid es') : RejectsInvalid (es ++ es') := by
  intro r f hmem
  rcases List.mem_append.mp hmem with hmem | hmem
  · exact h r f hmem
  · exact h' r f hmem

theorem rejectsInvalid_flatMap {α : Type} {xs : List α} {errors : α → List ValidationError}
    (h : ∀ x ∈ xs, RejectsInvalid (errors x)) : RejectsInvalid (xs.flatMap errors) := by
  intro r f hmem
  obtain ⟨x, hx, hmem⟩ := List.mem_flatMap.mp hmem
  exact h x hx r f hmem

theorem mem_require {ok : Bool} {e e' : ValidationError} :
    e' ∈ require ok e ↔ ok = false ∧ e' = e := by
  cases ok <;> simp [require]

theorem rejectsInvalid_nil : RejectsInvalid [] := fun _ _ hmem => absurd hmem List.not_mem_nil

/-- A check that reports something else. -/
theorem rejectsInvalid_require {ok : Bool} {e : ValidationError}
    (he : e.code ≠ .ROW_FILTER_REJECTED := by intro heq; cases heq) :
    RejectsInvalid (require ok e) := by
  intro r f hmem
  rw [mem_require] at hmem
  rw [← hmem.2] at he
  exact absurd rfl he

section Declaration

variable {d : Declaration}

theorem rejectsInvalid_knownRole {place : RolePlace} {role : String} :
    RejectsInvalid (knownRole d place role) := rejectsInvalid_require

theorem rejectsInvalid_roleReference {place : RolePlace} {role : String} :
    RejectsInvalid (roleReference d place role) :=
  rejectsInvalid_append rejectsInvalid_knownRole rejectsInvalid_require

theorem rejectsInvalid_grantErrors {res : Resource} {grant : Grant} :
    RejectsInvalid (grantErrors d res grant) := by
  have hfilter : ∀ filter, RejectsInvalid
      (require (rowFilterValid filter) (.rowFilterRejected res.resource filter)) := by
    intro filter r f hmem
    obtain ⟨hvalid, heq⟩ := mem_require.mp hmem
    obtain ⟨-, rfl⟩ := ValidationError.rowFilterRejected.inj heq
    exact hvalid
  have hroles := rejectsInvalid_flatMap
    fun role (_ : role ∈ grant.roles) => @rejectsInvalid_roleReference d (.grant res.resource) role
  have hkeys : RejectsInvalid ((grant.masks.map Prod.fst).flatMap fun col =>
      require (IDENTIFIER.test col) (.invalidMaskKey res.resource col)) :=
    rejectsInvalid_flatMap fun _ _ => rejectsInvalid_require
  have hengine : ∀ {ok ok'}, RejectsInvalid (require ok (.postgresUnsupportedMask res.resource) ++
      require ok' (.postgresUnsupportedRowFilter res.resource)) :=
    rejectsInvalid_append rejectsInvalid_require rejectsInvalid_require
  have hbefore := fun {ok ok'} => rejectsInvalid_append
    (rejectsInvalid_append (@hengine ok ok') hroles) hkeys
  unfold grantErrors
  cases grant.rowFilter with
  | none =>
      exact rejectsInvalid_append (rejectsInvalid_append hbefore rejectsInvalid_nil)
        rejectsInvalid_require
  | some filter =>
      exact rejectsInvalid_append (rejectsInvalid_append hbefore (hfilter filter))
        rejectsInvalid_require

theorem rejectsInvalid_resourceErrors {res : Resource} :
    RejectsInvalid (resourceErrors d res) := by
  have hsensitive : RejectsInvalid (res.sensitive.flatMap fun col =>
      require (IDENTIFIER.test col) (.invalidSensitiveColumn res.resource col)) :=
    rejectsInvalid_flatMap fun _ _ => rejectsInvalid_require
  have hgrants := rejectsInvalid_flatMap
    fun grant (_ : grant ∈ res.grants) => @rejectsInvalid_grantErrors d res grant
  have hconflicts : RejectsInvalid (conflictErrors d res) :=
    rejectsInvalid_flatMap fun _ _ => rejectsInvalid_flatMap fun _ _ => rejectsInvalid_require
  exact rejectsInvalid_append (rejectsInvalid_append (rejectsInvalid_append
    (rejectsInvalid_append rejectsInvalid_require hsensitive) rejectsInvalid_require) hgrants)
      hconflicts

theorem rejectsInvalid_validate : RejectsInvalid (validateDeclaration d) := by
  have hcycle : RejectsInvalid (cycleErrors d) := by
    intro r f hmem
    unfold cycleErrors at hmem
    split at hmem
    · cases hmem
    · exact absurd (List.mem_singleton.mp hmem) (fun h => by cases h)
  have hroles : RejectsInvalid (d.roles.flatMap fun r =>
      require (ROLE_NAME.test r.name) (.invalidRoleName r.name) ++
        r.parents.flatMap (roleReference d (.parent r.name))) :=
    rejectsInvalid_flatMap fun _ _ => rejectsInvalid_append rejectsInvalid_require
      (rejectsInvalid_flatMap fun _ _ => rejectsInvalid_roleReference)
  have hpg : RejectsInvalid (collisionErrors d) :=
    rejectsInvalid_flatMap fun _ _ => rejectsInvalid_require
  have hgroups : RejectsInvalid (d.groups.flatMap fun g =>
      require (ROLE_NAME.test g.name) (.invalidGroupName g.name) ++
        g.roles.flatMap (roleReference d (.group g.name))) :=
    rejectsInvalid_flatMap fun _ _ => rejectsInvalid_append rejectsInvalid_require
      (rejectsInvalid_flatMap fun _ _ => rejectsInvalid_roleReference)
  have hkeys : RejectsInvalid (duplicateResourceErrors d) :=
    rejectsInvalid_flatMap fun _ _ => rejectsInvalid_require
  have hresources := rejectsInvalid_flatMap
    fun res (_ : res ∈ d.resources) => @rejectsInvalid_resourceErrors d res
  have hcatalogs : RejectsInvalid (d.catalogGrantList.flatMap (catalogGrantErrors d)) :=
    rejectsInvalid_flatMap fun _ _ => rejectsInvalid_append rejectsInvalid_require
      (rejectsInvalid_flatMap fun _ _ => rejectsInvalid_roleReference)
  have hops : RejectsInvalid (duplicateCatalogGrantErrors d) :=
    rejectsInvalid_flatMap fun _ _ => rejectsInvalid_require
  have hlogins : RejectsInvalid (d.loginList.flatMap (loginErrors d)) :=
    rejectsInvalid_flatMap fun _ _ => rejectsInvalid_append (rejectsInvalid_append
      (rejectsInvalid_append rejectsInvalid_require rejectsInvalid_require) rejectsInvalid_require)
        (rejectsInvalid_flatMap fun _ _ => rejectsInvalid_knownRole)
  exact rejectsInvalid_append (rejectsInvalid_append (rejectsInvalid_append (rejectsInvalid_append
    (rejectsInvalid_append (rejectsInvalid_append (rejectsInvalid_append (rejectsInvalid_append
      hcycle hroles) hpg) hgroups) hkeys) hresources) hcatalogs) hops) hlogins

/-- A declared row filter is reported if and only if the check rejects it. -/
theorem not_rejected_iff {res : Resource} {grant : Grant} {filter : String}
    (hres : res ∈ d.resources) (hgrant : grant ∈ res.grants)
    (hfilter : grant.rowFilter = some filter) :
    ValidationError.rowFilterRejected res.resource filter ∉ validateDeclaration d ↔
      rowFilterValid filter = true := by
  constructor
  · intro hnot
    by_contra hinvalid
    refine hnot ?_
    have hhere : ValidationError.rowFilterRejected res.resource filter ∈ grantErrors d res grant := by
      rw [grantErrors, hfilter]
      refine List.mem_append_left _ (List.mem_append_right _ (mem_require.mpr ⟨?_, rfl⟩))
      simpa using hinvalid
    have hresource : ValidationError.rowFilterRejected res.resource filter ∈ resourceErrors d res :=
      List.mem_append_left _ (List.mem_append_right _ (List.mem_flatMap.mpr ⟨grant, hgrant, hhere⟩))
    have hresources := List.mem_flatMap.mpr ⟨res, hres, hresource⟩
    simp only [validateDeclaration, List.mem_append]
    exact .inl (.inl (.inl (.inr hresources)))
  · intro hvalid hmem
    rw [rejectsInvalid_validate _ _ hmem] at hvalid
    cases hvalid

/-- What an accepted row filter is. -/
structure Shape (toks : List Token) : Prop where
  kinds : ∀ t ∈ toks, isSpace t = true ∨ Kind t
  parens : Parens (strip toks)
  same_meaning : ∀ e e', Expression.Parses (strip toks) e → Expression.Parses (strip toks) e' →
    ∀ meaning, e.eval meaning = e'.eval meaning

theorem shape_of_sequence {c : Connective} {terms : List Term} {toks : List Token}
    (h : Sequence c terms (strip toks)) : Shape toks := by
  refine ⟨fun t ht => ?_, h.parens, fun e e' he he' meaning => h.same_meaning he he' meaning⟩
  cases hspace : isSpace t with
  | true => exact .inl rfl
  | false => exact .inr (h.kinds t (List.mem_filter.mpr ⟨ht, by simp [hspace]⟩))

/-- A row filter is accepted if and only if it has at most 200 code units and its tokens are
terms joined by one connective; such tokens have no comment, no semicolon, no call and no
nested parenthesis, and their meaning does not depend on how the connectives associate. -/
theorem rowFilter_iff {res : Resource} {grant : Grant} {filter : String}
    (hres : res ∈ d.resources) (hgrant : grant ∈ res.grants)
    (hfilter : grant.rowFilter = some filter) :
    (ValidationError.rowFilterRejected res.resource filter ∉ validateDeclaration d ↔
      Js.length filter ≤ ROW_FILTER_MAX_LENGTH ∧ ∃ toks, lex Regex.space filter.toList = some toks ∧
        Spaced toks ∧ ∃ c terms, Sequence c terms (strip toks)) ∧
    (ValidationError.rowFilterRejected res.resource filter ∉ validateDeclaration d →
      ∃ toks, lex Regex.space filter.toList = some toks ∧ Shape toks) := by
  have hiff : ValidationError.rowFilterRejected res.resource filter ∉ validateDeclaration d ↔
      Js.length filter ≤ ROW_FILTER_MAX_LENGTH ∧ ∃ toks, lex Regex.space filter.toList = some toks ∧
        Spaced toks ∧ ∃ c terms, Sequence c terms (strip toks) := by
    rw [not_rejected_iff hres hgrant hfilter, rowFilterValid_iff]
    refine and_congr_right fun _ => ⟨fun ⟨c, hc⟩ => ?_, fun ⟨toks, hlex, hspaced, c, terms, h⟩ => ?_⟩
    · obtain ⟨toks, hlex, hspaced, terms, hterms⟩ := chain_written hc
      exact ⟨toks, hlex, hspaced, c, terms, hterms⟩
    · exact ⟨c, chain_read hlex hspaced h⟩
  refine ⟨hiff, fun hnot => ?_⟩
  obtain ⟨-, toks, hlex, -, c, terms, hterms⟩ := hiff.mp hnot
  exact ⟨toks, hlex, shape_of_sequence hterms⟩

end Declaration

/-- The row filter of the sample. -/
theorem rowFilter_iff_sample :
    ∃ toks, lex Regex.space "region = 'KR'".toList = some toks ∧ Shape toks := by
  have hiff := @rowFilter_iff sample
    { resource := "lake.customers", classification := .pii, sensitiveColumns := some ["email"],
      grants :=
        [{ roles := ["engineers"], privileges := [.select, .insert], allowUnmasked := some true },
         { roles := ["analysts"], privileges := [.select],
           columnMask := some ⟨[("email", .hash)], List.nodup_singleton _⟩,
           rowFilter := some "region = 'KR'" }] }
    { roles := ["analysts"], privileges := [.select],
      columnMask := some ⟨[("email", .hash)], List.nodup_singleton _⟩,
      rowFilter := some "region = 'KR'" }
    "region = 'KR'" (by simp [sample]) (by simp) rfl
  refine hiff.2 ?_
  rw [validate_sample]
  exact List.not_mem_nil

/-- One table under a row filter. -/
def filtered (filter : String) : Declaration where
  roles := [{ name := "analysts" }]
  groups := []
  resources :=
    [{ resource := "lake.events", classification := .internal,
       grants := [{ roles := ["analysts"], privileges := [.select], rowFilter := some filter }] }]

/-- A connective may not follow a string directly, although the tokens are two terms. And with the
white space of SQL an accepted filter need not have tokens, as `\s` matches more than that. -/
theorem glued_and_rejected :
    (∃ toks terms, lex sqlSpace "a = 'x'AND b = 1".toList = some toks ∧
      Sequence .and terms (strip toks) ∧ Js.length "a = 'x'AND b = 1" ≤ ROW_FILTER_MAX_LENGTH ∧
      validateDeclaration (filtered "a = 'x'AND b = 1") =
        [.rowFilterRejected "lake.events" "a = 'x'AND b = 1"]) ∧
    validateDeclaration (filtered "a =\u00a01") = [] ∧ lex sqlSpace "a =\u00a01".toList = none := by
  refine ⟨⟨_, [.compare ⟨['a'], none⟩ ['='] (.string ['x']),
    .compare ⟨['b'], none⟩ ['='] (.number false ['1'])], rfl, ?_, by decide, by decide +kernel⟩,
    by decide +kernel, by decide +kernel⟩
  have hand : Letters Connective.and.text ['A', 'N', 'D'] := by decide
  have hsecond : TermTokens (.compare ⟨['b'], none⟩ ['='] (.number false ['1']))
      [.word ['b'], .symbol ['='], .number ['1']] :=
    .compare ⟨['b'], none⟩ ['='] _ _ (by decide)
      (.number ['1'] ⟨['1'], [], rfl, by simp, by decide, .inl rfl⟩)
  exact .mk _ _ _ _ (.compare ⟨['a'], none⟩ ['='] _ _ (by decide) (.string ['x'] (by decide)))
    (.cons ['A', 'N', 'D'] _ [] _ [] hand hsecond .nil)

end Policy.RowFilter
