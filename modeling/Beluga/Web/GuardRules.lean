import Beluga.Web.GuardValues

/-! # What the guard reports

* `hasProse_trim`: nothing that is trimmed is prose;
* `reported_or_missed`, `missed_shown`, `missed_unreported`: the prose that some value shows is
  reported, or it is what `Expr.missed` lists;
* `guarded_exact`: when all prose of a place is reported;
* `guard_leaks`: three places where it is not.
-/

namespace HardcodedStrings

open Text

/-! ## Prose -/

section Prose

variable {uni : Unicode}

theorem mem_one {p : Char → Bool} {cs rest : List Char} :
    ((), rest) ∈ Matcher.one p cs ↔ ∃ c, p c = true ∧ cs = c :: rest := by
  cases cs with
  | nil =>
      refine iff_of_false List.not_mem_nil fun h => ?_
      rcases h with ⟨c, -, h⟩
      cases h
  | cons c cs =>
      rw [Matcher.one]
      by_cases hc : p c = true
      · rw [if_pos hc, List.mem_singleton, Prod.mk.injEq]
        constructor
        · intro h
          exact ⟨c, hc, by rw [h.2]⟩
        · intro h
          rcases h with ⟨d, -, h⟩
          cases h
          exact ⟨rfl, rfl⟩
      · rw [if_neg hc]
        refine iff_of_false List.not_mem_nil fun h => ?_
        rcases h with ⟨d, hd, h⟩
        cases h
        exact hc hd

/-- The text begins with a reference. -/
def Refers (cs rest : List Char) : Prop :=
  ∃ name, name ≠ [] ∧ (∀ c ∈ name, asciiLetter c = true) ∧ cs = '&' :: (name ++ ';' :: rest)

theorem mem_entityRef {cs rest : List Char} :
    ((), rest) ∈ HTML_ENTITY_REF cs ↔ Refers cs rest := by
  rw [HTML_ENTITY_REF, Matcher.mem_seq]
  constructor
  · intro h
    rcases h with ⟨mid, hmid, h⟩
    rcases mem_one.mp hmid with ⟨c, hc, rfl⟩
    rcases Matcher.mem_bind.mp h with ⟨name, tail, hname, hlast⟩
    rcases Matcher.mem_plus.mp hname with ⟨rfl, hne, hall⟩
    rcases mem_one.mp hlast with ⟨d, hd, rfl⟩
    exact ⟨name, hne, hall, by rw [of_decide_eq_true hc, of_decide_eq_true hd]⟩
  · intro h
    rcases h with ⟨name, hne, hall, rfl⟩
    refine ⟨name ++ ';' :: rest, mem_one.mpr ⟨'&', rfl, rfl⟩, ?_⟩
    exact Matcher.mem_bind.mpr ⟨name, ';' :: rest, Matcher.mem_plus.mpr ⟨rfl, hne, hall⟩,
      mem_one.mpr ⟨';', rfl, rfl⟩⟩

theorem Refers.unique {cs rest rest' : List Char} (h : Refers cs rest) (h' : Refers cs rest') :
    rest = rest' := by
  rcases h with ⟨name, -, hall, rfl⟩
  rcases h' with ⟨name', -, hall', heq⟩
  have hdrop : ∀ (w r : List Char), (∀ c ∈ w, asciiLetter c = true) →
      (w ++ ';' :: r).dropWhile asciiLetter = ';' :: r := by
    intro w r hw
    rw [List.dropWhile_append_of_pos hw]
    rfl
  have heq := congrArg (List.dropWhile asciiLetter) (List.cons.inj heq).2
  rw [hdrop name rest hall, hdrop name' rest' hall'] at heq
  exact (List.cons.inj heq).2

/-- There is at most one match. -/
theorem head_entityRef {cs rest : List Char} :
    (HTML_ENTITY_REF cs).head? = some ((), rest) ↔ Refers cs rest := by
  rw [← mem_entityRef]
  constructor
  · exact List.mem_of_mem_head?
  · intro h
    cases hhead : (HTML_ENTITY_REF cs).head? with
    | none =>
        rw [List.head?_eq_none_iff.mp hhead] at h
        exact absurd h List.not_mem_nil
    | some r =>
        have hr : ((), r.2) ∈ HTML_ENTITY_REF cs := List.mem_of_mem_head? hhead
        have heq := (mem_entityRef.mp hr).unique (mem_entityRef.mp h)
        rw [← heq]

theorem entityRef_none {cs : List Char} (h : ∀ rest, ¬ Refers cs rest) :
    HTML_ENTITY_REF cs = [] :=
  List.eq_nil_iff_forall_not_mem.mpr fun r hr => h r.2 (mem_entityRef.mp hr)

theorem entityRef_space {c : Char} (hc : Regex.space c = true) (cs : List Char) :
    HTML_ENTITY_REF (c :: cs) = [] := by
  refine entityRef_none fun rest h => ?_
  rcases h with ⟨name, -, -, heq⟩
  rw [(List.cons.inj heq).1] at hc
  exact absurd hc (by decide)

/-- White space behind a text is no part of a reference. -/
theorem refers_snoc {c : Char} (hc : Regex.space c = true) {cs rest : List Char} :
    Refers (cs ++ [c]) rest ↔ ∃ rest', rest = rest' ++ [c] ∧ Refers cs rest' := by
  constructor
  · intro h
    rcases h with ⟨name, hne, hall, heq⟩
    rcases List.eq_nil_or_concat rest with rfl | ⟨rest', d, rfl⟩
    · have hlast : cs ++ [c] = ('&' :: name) ++ [';'] := heq
      have hcut := List.append_inj' hlast rfl
      rw [(List.cons.inj hcut.2).1] at hc
      exact absurd hc (by decide)
    · have hlast : cs ++ [c] = ('&' :: (name ++ ';' :: rest')) ++ [d] := by
        rw [heq, List.concat_eq_append, List.cons_append, List.append_assoc, List.cons_append]
      have hcut := List.append_inj' hlast rfl
      refine ⟨rest', ?_, name, hne, hall, hcut.1⟩
      rw [List.concat_eq_append, hcut.2]
  · intro h
    rcases h with ⟨rest', rfl, name, hne, hall, rfl⟩
    refine ⟨name, hne, hall, ?_⟩
    rw [List.cons_append, List.append_assoc, List.cons_append]

theorem head_entityRef_snoc {c : Char} (hc : Regex.space c = true) (cs : List Char) :
    (HTML_ENTITY_REF (cs ++ [c])).head? =
      (HTML_ENTITY_REF cs).head?.map fun r => (r.1, r.2 ++ [c]) := by
  apply Option.ext
  intro r
  have hr : r = ((), r.2) := rfl
  rw [hr, head_entityRef, refers_snoc hc]
  constructor
  · intro h
    rcases h with ⟨rest', hrest, h⟩
    rw [head_entityRef.mpr h, hrest]
    rfl
  · intro h
    rcases Option.map_eq_some_iff.mp h with ⟨r', hr', heq⟩
    exact ⟨r'.2, (congrArg Prod.snd heq).symm, head_entityRef.mp hr'⟩

/-- What is trimmed is not prose. -/
theorem hasProse_trim (text : List Char) : hasProse uni (trim text) = hasProse uni text := by
  rcases trim_spec text with ⟨lead, trail, htext, hlead, htrail⟩
  have hblank : ∀ blank : List Char, (∀ c ∈ blank, Regex.space c = true) →
      blank.any uni.letter = false := by
    intro blank h
    refine List.any_eq_false.mpr fun c hc hletter => ?_
    have hspace := uni.letter_space c hletter
    rw [h c hc] at hspace
    cases hspace
  conv_rhs => rw [htext]
  rw [hasProse, hasProse, Matcher.replace_lead fun d hd rest => entityRef_space (hlead d hd) rest,
    Matcher.replace_trail (fun d hd => entityRef_space (htrail d hd) [])
      (fun d hd ds => head_entityRef_snoc (htrail d hd) ds),
    List.any_append, List.any_append, hblank lead hlead, hblank trail htrail, Bool.false_or,
    Bool.or_false]

theorem translatableText_isSome (text : List Char) :
    (translatableText uni text).isSome = hasProse uni text := by
  rw [translatableText, hasProse_trim]
  by_cases hnil : (trim text).length = 0
  · have hprose : hasProse uni text = false := by
      rw [← hasProse_trim, List.length_eq_zero_iff.mp hnil]
      rfl
    rw [if_pos hnil, hprose]
    rfl
  · rw [if_neg hnil]
    cases hasProse uni text with
    | true => rfl
    | false => rfl

theorem text_ne_nil {text : List Char} (h : hasProse uni text = true) : text ≠ [] := by
  intro hnil
  rw [hnil] at h
  cases h

end Prose

/-! ## What the scan misses -/

section

variable (uni : Unicode)

def prose (pieces : List Piece) : List Piece := pieces.filter fun p => hasProse uni p.text

mutual

/-- The prose that some value of the expression has and that is not reported: to the left of an
operator, in a hole, or the letters that a template loses to a reference around a hole. -/
def Expr.missed : Expr → List Piece
  | .literal _ _ => []
  | .template node head templateSpans =>
      (if hasProse uni (head :: templateSpans.texts).flatten then []
        else prose uni ((head :: templateSpans.texts).map (⟨some node, ·⟩))) ++
        prose uni templateSpans.held
  | .parenthesized expression => expression.missed
  | .conditional condition whenTrue whenFalse =>
      (if ValueKind.meet (·.truthy) condition.can then whenTrue.missed else []) ++
        (if ValueKind.meet (!·.truthy) condition.can then whenFalse.missed else [])
  | .binary operatorToken left right =>
      prose uni (if operatorToken = .ampersandAmpersand then [] else left.shown) ++
        (if ValueKind.meet (!·.keptBy operatorToken) left.can then right.missed else [])
  | .arrayLiteral elements => elements.missed
  | .leaf => []

def Elements.missed : Elements → List Piece
  | .nil => []
  | .cons element rest => element.missed ++ rest.missed

end

end

section Missed

variable {uni : Unicode} {p : Piece} {node : ℕ}

theorem mem_prose {ps : List Piece} : p ∈ prose uni ps ↔ p ∈ ps ∧ hasProse uni p.text = true :=
  List.mem_filter

theorem mem_translatable {text : List Char} {n : ℕ} {found : ResolvedLiteral} :
    found ∈ (translatableText uni text).toList.map (⟨·, n⟩) →
      found.node = n ∧ hasProse uni text = true := by
  intro h
  rcases List.mem_map.mp h with ⟨t, ht, rfl⟩
  rw [← translatableText_isSome, Option.mem_toList.mp ht]
  exact ⟨rfl, rfl⟩

theorem exists_translatable {text : List Char} (n : ℕ) (h : hasProse uni text = true) :
    ∃ found ∈ (translatableText uni text).toList.map (⟨·, n⟩ : List Char → ResolvedLiteral),
      found.node = n := by
  rw [← translatableText_isSome] at h
  rcases Option.isSome_iff_exists.mp h with ⟨t, ht⟩
  exact ⟨⟨t, n⟩, List.mem_map_of_mem (Option.mem_toList.mpr ht), rfl⟩

/-! ### Prose is reported or missed -/

mutual

theorem reported_or_missed (hnode : p.node = some node) (hprose : hasProse uni p.text = true) :
    (e : Expr) → p ∈ e.shown →
      p ∈ e.missed uni ∨ ∃ found ∈ resolveTranslatableLiterals uni e, found.node = node
  | .literal n text => by
      intro hp
      rw [List.mem_singleton.mp hp] at hnode hprose
      cases hnode
      exact .inr (exists_translatable node hprose)
  | .template n head templateSpans => by
      intro hp
      rw [Expr.missed, List.mem_append, mem_prose]
      rcases List.mem_append.mp hp with hp | hp
      · cases hjoined : hasProse uni (head :: templateSpans.texts).flatten with
        | true =>
            rcases List.mem_map.mp hp with ⟨t, -, rfl⟩
            cases hnode
            exact .inr (exists_translatable node hjoined)
        | false => exact .inl (.inl (mem_prose.mpr ⟨hp, hprose⟩))
      · exact .inl (.inr ⟨hp, hprose⟩)
  | .parenthesized expression => reported_or_missed hnode hprose expression
  | .conditional condition whenTrue whenFalse => by
      intro hp
      rw [Expr.missed, resolveTranslatableLiterals, List.mem_append, mem_if, mem_if]
      rcases List.mem_append.mp hp with hp | hp
      · rw [mem_if] at hp
        rcases reported_or_missed hnode hprose whenTrue hp.2 with h | ⟨found, hfound, h⟩
        · exact .inl (.inl ⟨hp.1, h⟩)
        · exact .inr ⟨found, List.mem_append_left _ hfound, h⟩
      · rw [mem_if] at hp
        rcases reported_or_missed hnode hprose whenFalse hp.2 with h | ⟨found, hfound, h⟩
        · exact .inl (.inr ⟨hp.1, h⟩)
        · exact .inr ⟨found, List.mem_append_right _ hfound, h⟩
  | .binary operatorToken left right => by
      intro hp
      rw [Expr.missed, List.mem_append, mem_prose, mem_if]
      rcases List.mem_append.mp hp with hp | hp
      · exact .inl (.inl ⟨hp, hprose⟩)
      · rw [mem_if] at hp
        rcases reported_or_missed hnode hprose right hp.2 with h | h
        · exact .inl (.inr ⟨hp.1, h⟩)
        · exact .inr h
  | .arrayLiteral elements => reported_or_missed_elements hnode hprose elements
  | .leaf => fun hp => absurd hp List.not_mem_nil

theorem reported_or_missed_elements (hnode : p.node = some node)
    (hprose : hasProse uni p.text = true) : (es : Elements) → p ∈ es.shown →
      p ∈ es.missed uni ∨ ∃ found ∈ resolveElements uni es, found.node = node
  | .nil => fun hp => absurd hp List.not_mem_nil
  | .cons element rest => by
      intro hp
      rw [Elements.missed, List.mem_append, resolveElements]
      rcases List.mem_append.mp hp with hp | hp
      · rcases reported_or_missed hnode hprose element hp with h | ⟨found, hfound, h⟩
        · exact .inl (.inl h)
        · exact .inr ⟨found, List.mem_append_left _ hfound, h⟩
      · rcases reported_or_missed_elements hnode hprose rest hp with h | ⟨found, hfound, h⟩
        · exact .inl (.inr h)
        · exact .inr ⟨found, List.mem_append_right _ hfound, h⟩

end

/-! ### What is missed can be seen -/

mutual

theorem missed_shown : (e : Expr) → p ∈ e.missed uni → p ∈ e.shown ∧ hasProse uni p.text = true
  | .literal _ _ => fun hp => absurd hp List.not_mem_nil
  | .template n head templateSpans => by
      intro hp
      rw [Expr.shown, List.mem_append]
      rcases List.mem_append.mp hp with hp | hp
      · cases hjoined : hasProse uni (head :: templateSpans.texts).flatten with
        | true =>
            rw [if_pos hjoined] at hp
            exact absurd hp List.not_mem_nil
        | false =>
            rw [hjoined] at hp
            exact ⟨.inl (mem_prose.mp hp).1, (mem_prose.mp hp).2⟩
      · exact ⟨.inr (mem_prose.mp hp).1, (mem_prose.mp hp).2⟩
  | .parenthesized expression => missed_shown expression
  | .conditional condition whenTrue whenFalse => by
      intro hp
      rw [Expr.shown, List.mem_append, mem_if, mem_if]
      rcases List.mem_append.mp hp with hp | hp
      · rw [mem_if] at hp
        have h := missed_shown whenTrue hp.2
        exact ⟨.inl ⟨hp.1, h.1⟩, h.2⟩
      · rw [mem_if] at hp
        have h := missed_shown whenFalse hp.2
        exact ⟨.inr ⟨hp.1, h.1⟩, h.2⟩
  | .binary operatorToken left right => by
      intro hp
      rw [Expr.shown, List.mem_append, mem_if]
      rcases List.mem_append.mp hp with hp | hp
      · exact ⟨.inl (mem_prose.mp hp).1, (mem_prose.mp hp).2⟩
      · rw [mem_if] at hp
        have h := missed_shown right hp.2
        exact ⟨.inr ⟨hp.1, h.1⟩, h.2⟩
  | .arrayLiteral elements => missed_shown_elements elements
  | .leaf => fun hp => absurd hp List.not_mem_nil

theorem missed_shown_elements :
    (es : Elements) → p ∈ es.missed uni → p ∈ es.shown ∧ hasProse uni p.text = true
  | .nil => fun hp => absurd hp List.not_mem_nil
  | .cons element rest => by
      intro hp
      rw [Elements.shown, List.mem_append]
      rcases List.mem_append.mp hp with hp | hp
      · have h := missed_shown element hp
        exact ⟨.inl h.1, h.2⟩
      · have h := missed_shown_elements rest hp
        exact ⟨.inr h.1, h.2⟩

end

mutual

theorem shown_nodes : (e : Expr) → p ∈ e.shown → ∃ n ∈ e.nodes, p.node = some n
  | .literal n text => by
      intro hp
      rw [List.mem_singleton.mp hp]
      exact ⟨n, List.mem_cons_self, rfl⟩
  | .template n head templateSpans => by
      intro hp
      rcases List.mem_append.mp hp with hp | hp
      · rcases List.mem_map.mp hp with ⟨t, -, rfl⟩
        exact ⟨n, List.mem_cons_self, rfl⟩
      · rcases held_nodes templateSpans hp with ⟨m, hm, hp⟩
        exact ⟨m, List.mem_cons_of_mem _ hm, hp⟩
  | .parenthesized expression => shown_nodes expression
  | .conditional condition whenTrue whenFalse => by
      intro hp
      rcases List.mem_append.mp hp with hp | hp
      · rcases shown_nodes whenTrue (mem_if.mp hp).2 with ⟨m, hm, hp⟩
        exact ⟨m, List.mem_append_right _ (List.mem_append_left _ hm), hp⟩
      · rcases shown_nodes whenFalse (mem_if.mp hp).2 with ⟨m, hm, hp⟩
        exact ⟨m, List.mem_append_right _ (List.mem_append_right _ hm), hp⟩
  | .binary operatorToken left right => by
      intro hp
      rcases List.mem_append.mp hp with hp | hp
      · split at hp
        · exact absurd hp List.not_mem_nil
        · rcases shown_nodes left hp with ⟨m, hm, hp⟩
          exact ⟨m, List.mem_append_left _ hm, hp⟩
      · rcases shown_nodes right (mem_if.mp hp).2 with ⟨m, hm, hp⟩
        exact ⟨m, List.mem_append_right _ hm, hp⟩
  | .arrayLiteral elements => shown_nodes_elements elements
  | .leaf => fun hp => absurd hp List.not_mem_nil

theorem shown_nodes_elements : (es : Elements) → p ∈ es.shown → ∃ n ∈ es.nodes, p.node = some n
  | .nil => fun hp => absurd hp List.not_mem_nil
  | .cons element rest => by
      intro hp
      rcases List.mem_append.mp hp with hp | hp
      · rcases shown_nodes element hp with ⟨m, hm, hp⟩
        exact ⟨m, List.mem_append_left _ hm, hp⟩
      · rcases shown_nodes_elements rest hp with ⟨m, hm, hp⟩
        exact ⟨m, List.mem_append_right _ hm, hp⟩

theorem held_nodes : (s : Spans) → p ∈ s.held → ∃ n ∈ s.nodes, p.node = some n
  | .nil => fun hp => absurd hp List.not_mem_nil
  | .cons expression literal rest => by
      intro hp
      rcases List.mem_append.mp hp with hp | hp
      · rcases shown_nodes expression hp with ⟨m, hm, hp⟩
        exact ⟨m, List.mem_append_left _ hm, hp⟩
      · rcases held_nodes rest hp with ⟨m, hm, hp⟩
        exact ⟨m, List.mem_append_right _ hm, hp⟩

end

mutual

theorem resolve_nodes {found : ResolvedLiteral} :
    (e : Expr) → found ∈ resolveTranslatableLiterals uni e → found.node ∈ e.nodes
  | .literal n text => by
      intro h
      rw [(mem_translatable h).1]
      exact List.mem_cons_self
  | .template n head templateSpans => by
      intro h
      rw [(mem_translatable h).1]
      exact List.mem_cons_self
  | .parenthesized expression => resolve_nodes expression
  | .conditional condition whenTrue whenFalse => by
      intro h
      rcases List.mem_append.mp h with h | h
      · exact List.mem_append_right _ (List.mem_append_left _ (resolve_nodes whenTrue h))
      · exact List.mem_append_right _ (List.mem_append_right _ (resolve_nodes whenFalse h))
  | .binary operatorToken left right =>
      fun h => List.mem_append_right _ (resolve_nodes right h)
  | .arrayLiteral elements => resolve_nodes_elements elements
  | .leaf => fun h => absurd h List.not_mem_nil

theorem resolve_nodes_elements {found : ResolvedLiteral} :
    (es : Elements) → found ∈ resolveElements uni es → found.node ∈ es.nodes
  | .nil => fun h => absurd h List.not_mem_nil
  | .cons element rest => by
      intro h
      rcases List.mem_append.mp h with h | h
      · exact List.mem_append_left _ (resolve_nodes element h)
      · exact List.mem_append_right _ (resolve_nodes_elements rest h)

end

theorem missed_nodes {e : Expr} (h : p ∈ e.missed uni) (hnode : p.node = some node) :
    node ∈ e.nodes := by
  rcases shown_nodes e (missed_shown e h).1 with ⟨n, hn, hp⟩
  rw [hp] at hnode
  cases hnode
  exact hn

theorem missed_nodes_elements {es : Elements} (h : p ∈ es.missed uni)
    (hnode : p.node = some node) : node ∈ es.nodes := by
  rcases shown_nodes_elements es (missed_shown_elements es h).1 with ⟨n, hn, hp⟩
  rw [hp] at hnode
  cases hnode
  exact hn

/-! ### What is missed is not reported -/

mutual

theorem missed_unreported (hnode : p.node = some node) {found : ResolvedLiteral} : (e : Expr) →
    e.nodes.Nodup → p ∈ e.missed uni → found ∈ resolveTranslatableLiterals uni e →
      found.node ≠ node
  | .literal _ _ => fun _ hp => absurd hp List.not_mem_nil
  | .template n head templateSpans => by
      intro hnodup hp hfound heq
      have hreport := mem_translatable hfound
      rcases List.mem_append.mp hp with hp | hp
      · rw [if_pos hreport.2] at hp
        exact absurd hp List.not_mem_nil
      · rcases held_nodes templateSpans (mem_prose.mp hp).1 with ⟨m, hm, hm'⟩
        rw [hm'] at hnode
        cases hnode
        rw [← heq, hreport.1] at hm
        exact (List.nodup_cons.mp hnodup).1 hm
  | .parenthesized expression => missed_unreported hnode expression
  | .conditional condition whenTrue whenFalse => by
      intro hnodup hp hfound
      have hbranches : (whenTrue.nodes ++ whenFalse.nodes).Nodup :=
        (List.nodup_append.mp hnodup).2.1
      have hcut := List.nodup_append.mp hbranches
      rcases List.mem_append.mp hp with hp | hp
      · have hp := (mem_if.mp hp).2
        rcases List.mem_append.mp hfound with hfound | hfound
        · exact missed_unreported hnode whenTrue hcut.1 hp hfound
        · intro heq
          have hin := resolve_nodes whenFalse hfound
          rw [heq] at hin
          exact hcut.2.2 _ (missed_nodes hp hnode) _ hin rfl
      · have hp := (mem_if.mp hp).2
        rcases List.mem_append.mp hfound with hfound | hfound
        · intro heq
          have hin := resolve_nodes whenTrue hfound
          rw [heq] at hin
          exact hcut.2.2 _ hin _ (missed_nodes hp hnode) rfl
        · exact missed_unreported hnode whenFalse hcut.2.1 hp hfound
  | .binary operatorToken left right => by
      intro hnodup hp hfound
      have hcut := List.nodup_append.mp hnodup
      rcases List.mem_append.mp hp with hp | hp
      · have hp := (mem_prose.mp hp).1
        split at hp
        · exact absurd hp List.not_mem_nil
        · rcases shown_nodes left hp with ⟨m, hm, hm'⟩
          rw [hm'] at hnode
          cases hnode
          intro heq
          have hin := resolve_nodes right hfound
          rw [heq] at hin
          exact hcut.2.2 _ hm _ hin rfl
      · exact missed_unreported hnode right hcut.2.1 (mem_if.mp hp).2 hfound
  | .arrayLiteral elements => missed_unreported_elements hnode elements
  | .leaf => fun _ hp => absurd hp List.not_mem_nil

theorem missed_unreported_elements (hnode : p.node = some node) {found : ResolvedLiteral} :
    (es : Elements) → es.nodes.Nodup → p ∈ es.missed uni → found ∈ resolveElements uni es →
      found.node ≠ node
  | .nil => fun _ hp => absurd hp List.not_mem_nil
  | .cons element rest => by
      intro hnodup hp hfound
      have hcut := List.nodup_append.mp hnodup
      rcases List.mem_append.mp hp with hp | hp
      · rcases List.mem_append.mp hfound with hfound | hfound
        · exact missed_unreported hnode element hcut.1 hp hfound
        · intro heq
          have hin := resolve_nodes_elements rest hfound
          rw [heq] at hin
          exact hcut.2.2 _ (missed_nodes hp hnode) _ hin rfl
      · rcases List.mem_append.mp hfound with hfound | hfound
        · intro heq
          have hin := resolve_nodes element hfound
          rw [heq] at hin
          exact hcut.2.2 _ hin _ (missed_nodes_elements hp hnode) rfl
        · exact missed_unreported_elements hnode rest hcut.2.1 hp hfound

end

end Missed

/-- What is rendered there is read by a person. -/
def Holder.userFacing (uni : Unicode) : Holder → Bool
  | .jsxChild => true
  | .jsxAttribute name => isUserFacingAttribute uni name

section Guard

variable {uni : Unicode} {site : Site} {node : ℕ}

theorem collectViolations_eq (hface : site.holder.userFacing uni = true) :
    ∃ kind attrName, site.collectViolations uni = site.report uni kind attrName := by
  unfold Site.collectViolations
  cases hholder : site.holder with
  | jsxChild => exact ⟨_, _, rfl⟩
  | jsxAttribute name =>
      rw [hholder] at hface
      exact ⟨_, _, if_pos hface⟩

/-- Each literal that the scan finds is reported, the only one of a place at the place. -/
theorem exists_violation (hexempt : site.exemptReason = none)
    (hface : site.holder.userFacing uni = true) (hnode : node ∈ site.expression.nodes) :
    (∃ violation ∈ site.collectViolations uni, violation.position = site.positionOf node) ↔
      ∃ found ∈ resolveTranslatableLiterals uni site.expression, found.node = node := by
  rcases collectViolations_eq hface with ⟨kind, attrName, heq⟩
  have hnone : ¬ site.exemptReason.isSome = true := by
    rw [hexempt]
    exact Bool.false_ne_true
  have hmap : ∀ {α : Type} (xs : List α) (f : α → HardcodedStringViolation) (g : α → ℕ),
      (∀ x, (f x).position = g x) → ((∃ violation ∈ xs.map f, violation.position = node) ↔
        ∃ x ∈ xs, g x = node) := by
    intro α xs f g hfg
    constructor
    · intro h
      rcases h with ⟨violation, hv, hpos⟩
      rcases List.mem_map.mp hv with ⟨x, hx, rfl⟩
      exact ⟨x, hx, (hfg x).symm.trans hpos⟩
    · intro h
      rcases h with ⟨x, hx, hg⟩
      exact ⟨f x, List.mem_map_of_mem hx, (hfg x).trans hg⟩
  rw [heq, Site.report, if_neg hnone, Site.positionOf]
  cases he : site.expression with
  | literal n text =>
      rw [he, Expr.nodes, List.mem_singleton] at hnode
      rw [hnode, resolveTranslatableLiterals]
      constructor
      · intro h
        rcases h with ⟨violation, hv, -⟩
        rcases List.mem_map.mp hv with ⟨t, ht, -⟩
        exact ⟨⟨t, n⟩, List.mem_map_of_mem ht, rfl⟩
      · intro h
        rcases h with ⟨found, hf, -⟩
        rcases List.mem_map.mp hf with ⟨t, ht, -⟩
        exact ⟨_, List.mem_map_of_mem ht, rfl⟩
  | template => exact hmap _ _ _ fun _ => rfl
  | parenthesized => exact hmap _ _ _ fun _ => rfl
  | conditional => exact hmap _ _ _ fun _ => rfl
  | binary => exact hmap _ _ _ fun _ => rfl
  | arrayLiteral => exact hmap _ _ _ fun _ => rfl
  | leaf => exact hmap _ _ _ fun _ => rfl

/-- All prose is reported exactly if none that can be rendered stands to the left of `||` or
`??`, in a hole, or in a template whose letters make a reference around a hole. -/
theorem guarded_exact (hexempt : site.exemptReason = none)
    (hface : site.holder.userFacing uni = true) :
    site.Guarded uni ↔ site.expression.missed uni = [] := by
  constructor
  · intro hguard
    refine List.eq_nil_iff_forall_not_mem.mpr fun p hp => ?_
    have hshown := missed_shown site.expression hp
    rcases shown_nodes site.expression hshown.1 with ⟨node, hin, hnode⟩
    -- some value has the missed text, so the guard has to report it
    rcases (mem_shown hnode (text_ne_nil hshown.2) site.expression).mp hshown.1 with ⟨v, hv, hmem⟩
    have hreport := hguard v hv p ((mem_rendered hnode site.holder v).mpr hmem) node hnode hshown.2
    rcases (exists_violation hexempt hface hin).mp hreport with ⟨found, hfound, heq⟩
    exact missed_unreported hnode site.expression site.distinct hp hfound heq
  · intro hmissed v hv p hp node hnode hprose
    have hmem := (mem_rendered hnode site.holder v).mp hp
    have hshown := (mem_shown hnode (text_ne_nil hprose) site.expression).mpr ⟨v, hv, hmem⟩
    rcases shown_nodes site.expression hshown with ⟨n, hin, hn⟩
    rw [hnode] at hn
    cases hn
    rcases reported_or_missed hnode hprose site.expression hshown with h | hfound
    · rw [hmissed] at h
      exact absurd h List.not_mem_nil
    · exact (exists_violation hexempt hface hin).mpr hfound

end Guard

/-! ## Prose that escapes -/

theorem asciiLetter_space (c : Char) (h : asciiLetter c = true) : Regex.space c = false := by
  simp only [asciiLetter, Bool.or_eq_true, Bool.and_eq_true, decide_eq_true_eq, Char.le_def,
    UInt32.le_iff_toNat_le] at h
  have hrange : 65 ≤ c.toNat ∧ c.toNat ≤ 122 := by
    rcases h with h | h
    · exact ⟨Nat.le_trans (by decide) h.1, h.2⟩
    · exact ⟨h.1, Nat.le_trans h.2 (by decide)⟩
  simp only [Regex.space, Bool.or_eq_false_iff, Bool.and_eq_false_iff, decide_eq_false_iff_not]
  omega

/-- Only ASCII letters are letters. -/
def ascii : Unicode where
  letter := asciiLetter
  toLowerCase := String.toLower
  letter_space := asciiLetter_space

/-- `{expression}` in an element. -/
def childSite (expression : Expr) (distinct : expression.nodes.Nodup) : Site where
  start := 0
  holder := .jsxChild
  exemptReason := none
  expression := expression
  distinct := distinct

/-- `{saving ? "Saving" : "Save"}`. -/
def savingLabel : Expr :=
  .conditional .leaf (.literal 10 "Saving".toList) (.literal 21 "Save".toList)

theorem guarded_exact_saving : (childSite savingLabel (by decide)).Guarded ascii :=
  (guarded_exact rfl rfl).mpr rfl

/-- `{(ok && "Saved") || status}`. -/
def savedOrStatus : Expr :=
  .binary .barBar
    (.parenthesized (.binary .ampersandAmpersand .leaf (.literal 8 "Saved".toList))) .leaf

/-- A template with `saving ? "Saving" : "Save"` in its hole. -/
def savingTemplate : Expr := .template 1 [] (.cons savingLabel [] .nil)

/-- A template with the static texts `&a` and `b;`. -/
def splitReference : Expr := .template 1 ['&', 'a'] (.cons .leaf ['b', ';'] .nil)

theorem foreign_true : (Value.boolean true).Foreign := fun _ hp => absurd hp List.not_mem_nil

/-- To the left of `||`, in a hole and around a hole. -/
theorem guard_leaks : ¬ (childSite savedOrStatus (by decide)).Guarded ascii ∧
    ¬ (childSite savingTemplate (by decide)).Guarded ascii ∧
    ¬ (childSite splitReference (by decide)).Guarded ascii := by
  refine ⟨fun h => ?_, fun h => ?_, fun h => ?_⟩
  · have heval : Eval savedOrStatus (.string [⟨some 8, "Saved".toList⟩]) :=
      ⟨_, ⟨.boolean true, foreign_true, rfl⟩, rfl⟩
    rcases h _ heval _ List.mem_cons_self 8 rfl (by decide +kernel) with ⟨violation, hv, -⟩
    exact absurd hv List.not_mem_nil
  · have heval : Eval savingTemplate
        (.string [⟨some 1, []⟩, ⟨some 10, "Saving".toList⟩, ⟨some 1, []⟩]) :=
      ⟨_, ⟨.string [⟨some 10, "Saving".toList⟩], [],
        ⟨.boolean true, foreign_true, rfl⟩, rfl, rfl⟩, rfl⟩
    rcases h _ heval _ (List.mem_cons_of_mem _ List.mem_cons_self) 10 rfl (by decide +kernel) with
      ⟨violation, hv, -⟩
    exact absurd hv List.not_mem_nil
  · have heval : Eval splitReference
        (.string [⟨some 1, ['&', 'a']⟩, foreign ['x'], ⟨some 1, ['b', ';']⟩]) :=
      ⟨_, ⟨.string [foreign ['x']], [], fun p hp => by
        rw [List.mem_singleton.mp hp]
        rfl, rfl, rfl⟩, rfl⟩
    rcases h _ heval _ List.mem_cons_self 1 rfl (by decide +kernel) with ⟨violation, hv, -⟩
    exact absurd hv List.not_mem_nil

end HardcodedStrings
