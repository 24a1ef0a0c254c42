import Beluga.Correlation.Rules
import Mathlib.Data.List.Count
import Mathlib.Data.List.Nodup

/-! # What is linked

The links of a rule are described by its entities alone, in no order: who has declared
a partner, and which pairs share a key. Ids are taken to be distinct within each kind.

* `links_of_owner`: a declaration decides on the links of its owner;
* `convention_iff`, `confidence_iff`: links by name, and how far they are trusted;
* `correlate_links`: all of it, for the sorted list.
-/

namespace Correlation

open Js

/-! ## Lists -/

section Lists

variable {α : Type}

/-- Counted more than once: there is another one. -/
theorem one_lt_countP [DecidableEq α] {p : α → Bool} {xs : List α} {x : α} (h : xs.Nodup)
    (hx : x ∈ xs) (hp : p x = true) : 1 < xs.countP p ↔ ∃ y ∈ xs, y ≠ x ∧ p y = true := by
  have hcount : xs.countP p = (xs.erase x).countP p + 1 := by
    rw [(List.perm_cons_erase hx).countP_eq, List.countP_cons_of_pos hp]
  rw [hcount, Nat.lt_add_left_iff_pos, List.countP_pos_iff]
  constructor
  · rintro ⟨y, hy, hpy⟩
    obtain ⟨hne, hmem⟩ := h.mem_erase_iff.mp hy
    exact ⟨y, hmem, hne, hpy⟩
  · rintro ⟨y, hy, hne, hpy⟩
    exact ⟨y, h.mem_erase_iff.mpr ⟨hne, hy⟩, hpy⟩

theorem eq_singleton_iff {xs : List α} {x : α} (h : xs.Nodup) :
    xs = [x] ↔ x ∈ xs ∧ ∀ y ∈ xs, y = x := by
  constructor
  · rintro rfl
    exact ⟨List.mem_singleton_self x, fun y => List.mem_singleton.mp⟩
  · rintro ⟨hx, hall⟩
    cases xs with
    | nil => cases hx
    | cons a xs =>
        rw [hall a List.mem_cons_self] at h ⊢
        cases xs with
        | nil => rfl
        | cons b xs =>
            rw [hall b (List.mem_cons_of_mem a List.mem_cons_self)] at h
            exact absurd List.mem_cons_self (List.nodup_cons.mp h).1

end Lists

/-! ## Entities -/

/-- Ids are distinct within each kind. -/
def Distinct (es : List CorrelationEntity) : Prop := (es.map CorrelationEntity.ref).Nodup

instance (es : List CorrelationEntity) : Decidable (Distinct es) :=
  inferInstanceAs (Decidable (List.Nodup _))

/-- The entities of a kind, in the order of their ids. -/
def ofKind (es : List CorrelationEntity) (kind : CorrelationEntityKind) : List CorrelationEntity :=
  (sortOn (·.id) es).filter (·.kind = kind)

variable {lower : String → String} {es : List CorrelationEntity} {kind : CorrelationEntityKind}
  {a b : CorrelationEntity}

theorem mem_ofKind : a ∈ ofKind es kind ↔ a ∈ es ∧ a.kind = kind := by
  rw [ofKind, List.mem_filter, mem_sortOn, decide_eq_true_eq]

theorem Distinct.eq (h : Distinct es) (ha : a ∈ es) (hb : b ∈ es) (href : a.ref = b.ref) : a = b :=
  List.inj_on_of_nodup_map h ha hb href

theorem Distinct.nodup (h : Distinct es) : (ofKind es kind).Nodup :=
  ((sortOn_perm _ es).nodup_iff.mpr (List.Nodup.of_map _ h)).filter _

theorem Distinct.eq_of_id (h : Distinct es) (ha : a ∈ ofKind es kind) (hb : b ∈ ofKind es kind)
    (hid : a.id = b.id) : a = b := by
  rw [mem_ofKind] at ha hb
  refine h.eq ha.1 hb.1 ?_
  rw [CorrelationEntity.ref, CorrelationEntity.ref, ha.2, hb.2, hid]

theorem ofKind_perm {es' : List CorrelationEntity} (h : Distinct es) (hperm : es'.Perm es) :
    ofKind es' kind = ofKind es kind := by
  refine (filter_sortOn_congr hperm.symm fun a ha b hb hka hkb hid => ?_).symm
  refine h.eq ha hb ?_
  rw [decide_eq_true_eq] at hka hkb
  rw [CorrelationEntity.ref, CorrelationEntity.ref, hka, hkb, hid]

/-! ## Links of a rule -/

namespace Rule

variable (rule : Rule)

def ownKind : CorrelationEntityKind :=
  if rule.declaredOn = .source then rule.sourceKind else rule.targetKind

def farKind : CorrelationEntityKind :=
  if rule.declaredOn = .source then rule.targetKind else rule.sourceKind

/-- The end of a link on the declaring side. -/
def ownEnd (l : CorrelationLink) : CorrelationEntityRef :=
  if rule.declaredOn = .source then l.source else l.target

def declaredBy (owner other : CorrelationEntity) (declared : String) : CorrelationLink :=
  if rule.declaredOn = .source then rule.declaredLink owner other declared
  else rule.declaredLink other owner declared

def label (owner : CorrelationEntity) : Option String := owner.labels.lookup rule.labelKey

/-- The one entity of the other kind with the declared name. -/
structure OnlyNamed (lower : String → String) (es : List CorrelationEntity) (declared : String)
    (other : CorrelationEntity) : Prop where
  mem : other ∈ es
  kind : other.kind = rule.farKind
  name : lower other.name = lower declared
  only : ∀ e ∈ es, e.kind = rule.farKind → lower e.name = lower declared → e = other

/-- Two entities that may be linked by their names: neither of them has declared a partner. -/
structure Eligible (s t : CorrelationEntity) : Prop where
  source : s.kind = rule.sourceKind
  target : t.kind = rule.targetKind
  undeclared : rule.label (if rule.declaredOn = .source then s else t) = none

/-- The links of the rule, for a list of entities. -/
def linksOf (lower : String → String) (es : List CorrelationEntity) : List CorrelationLink :=
  rule.links lower (ofKind es rule.sourceKind) (ofKind es rule.targetKind)

def pairsOf (es : List CorrelationEntity) : List (CorrelationEntity × CorrelationEntity) :=
  rule.pairs (ofKind es rule.sourceKind) (ofKind es rule.targetKind)

/-- A pair that is not the only one of its source, or of its target. -/
def crowded (es : List CorrelationEntity) (pair : CorrelationEntity × CorrelationEntity) : Bool :=
  1 < (rule.pairsOf es).countP (·.1.id = pair.1.id) ||
    1 < (rule.pairsOf es).countP (·.2.id = pair.2.id)

end Rule

variable {rule : Rule} {l : CorrelationLink} {s t : CorrelationEntity}

theorem declaring_eq : rule.declaring (ofKind es rule.sourceKind) (ofKind es rule.targetKind) =
    ofKind es rule.ownKind := by
  rw [Rule.declaring, Rule.ownKind]
  split
  · rfl
  · rfl

theorem matching_eq {declared : String} :
    rule.matching lower (ofKind es rule.sourceKind) (ofKind es rule.targetKind) declared =
      (ofKind es rule.farKind).filter fun entity => lower entity.name = lower declared := by
  rw [Rule.matching, Rule.farKind]
  split
  · rfl
  · rfl

theorem matching_iff (h : Distinct es) {declared : String} {other : CorrelationEntity} :
    (ofKind es rule.farKind).filter (fun entity => lower entity.name = lower declared) = [other] ↔
      rule.OnlyNamed lower es declared other := by
  rw [eq_singleton_iff (h.nodup.filter _)]
  simp only [List.mem_filter, mem_ofKind, decide_eq_true_eq]
  constructor
  · rintro ⟨⟨⟨hmem, hkind⟩, hname⟩, honly⟩
    exact ⟨hmem, hkind, hname, fun e he hk hn => honly e ⟨⟨he, hk⟩, hn⟩⟩
  · rintro ⟨hmem, hkind, hname, honly⟩
    exact ⟨⟨⟨hmem, hkind⟩, hname⟩, fun e ⟨⟨he, hk⟩, hn⟩ => honly e he hk hn⟩

/-- The links by declaration. -/
theorem mem_declaredLinks (h : Distinct es) :
    l ∈ rule.declaredLinks lower (ofKind es rule.sourceKind) (ofKind es rule.targetKind) ↔
      ∃ owner ∈ es, owner.kind = rule.ownKind ∧ ∃ declared, rule.label owner = some declared ∧
        ∃ other, rule.OnlyNamed lower es declared other ∧
          l = rule.declaredBy owner other declared := by
  rw [Rule.declaredLinks, List.mem_filterMap, declaring_eq]
  simp only [mem_ofKind, and_assoc]
  refine exists_congr fun owner => and_congr_right fun _ => and_congr_right fun _ => ?_
  rw [Option.bind_eq_some_iff]
  refine exists_congr fun declared => and_congr_right fun _ => ?_
  rw [matching_eq]
  constructor
  · intro heq
    split at heq
    next other hone =>
      cases heq
      exact ⟨other, (matching_iff h).mp hone, rfl⟩
    next => cases heq
  · rintro ⟨other, honly, heq⟩
    rw [(matching_iff h).mpr honly, heq]
    rfl

/-- Who has declared something, by id. -/
theorem mem_declaredIds (h : Distinct es) (ha : a ∈ es) (hkind : a.kind = rule.ownKind) :
    a.id ∈ rule.declaredIds (ofKind es rule.sourceKind) (ofKind es rule.targetKind) ↔
      rule.label a ≠ none := by
  rw [Rule.declaredIds, declaring_eq, List.mem_map]
  constructor
  · rintro ⟨owner, howner, hid⟩
    obtain ⟨hmem, hlabel⟩ := List.mem_filter.mp howner
    rw [h.eq_of_id (mem_ofKind.mpr ⟨ha, hkind⟩) hmem hid.symm]
    exact Option.isSome_iff_ne_none.mp hlabel
  · intro hlabel
    exact ⟨a, List.mem_filter.mpr ⟨mem_ofKind.mpr ⟨ha, hkind⟩,
      Option.isSome_iff_ne_none.mpr hlabel⟩, rfl⟩

theorem mem_pairs {sources targets : List CorrelationEntity} : (s, t) ∈ rule.pairs sources targets ↔
    s ∈ sources ∧ t ∈ targets ∧
      ¬ (rule.declaredOn = .source ∧ s.id ∈ rule.declaredIds sources targets) ∧
      ¬ (rule.declaredOn = .target ∧ t.id ∈ rule.declaredIds sources targets) ∧
      rule.key s ≠ "" ∧ rule.key t = rule.key s := by
  simp only [Rule.pairs, List.mem_flatMap, List.mem_filter, Bool.not_eq_true', Bool.and_eq_false_iff,
    decide_eq_false_iff_not]
  constructor
  · rintro ⟨s', ⟨hs, hns⟩, hpair⟩
    split at hpair
    case isTrue => cases hpair
    case isFalse hkey =>
      obtain ⟨t', ht, heq⟩ := List.mem_map.mp hpair
      cases heq
      simp only [List.mem_filter, Bool.not_eq_true', Bool.and_eq_false_iff, decide_eq_true_eq,
        decide_eq_false_iff_not] at ht
      exact ⟨hs, ht.1.1, not_and_or.mpr hns, not_and_or.mpr ht.1.2, hkey, ht.2⟩
  · rintro ⟨hs, ht, hns, hnt, hkey, hsame⟩
    refine ⟨s, ⟨hs, not_and_or.mp hns⟩, ?_⟩
    rw [if_neg hkey, List.mem_map]
    refine ⟨t, ?_, rfl⟩
    simp only [List.mem_filter, Bool.not_eq_true', Bool.and_eq_false_iff, decide_eq_true_eq,
      decide_eq_false_iff_not]
    exact ⟨⟨ht, not_and_or.mp hnt⟩, hsame⟩

/-- The pairs that share a key. -/
theorem mem_pairsOf (h : Distinct es) : (s, t) ∈ rule.pairsOf es ↔
    s ∈ es ∧ t ∈ es ∧ rule.Eligible s t ∧ rule.key s ≠ "" ∧ rule.key t = rule.key s := by
  rw [Rule.pairsOf, mem_pairs, mem_ofKind, mem_ofKind]
  -- who has not declared anything is eligible
  have hdeclared : s ∈ es → s.kind = rule.sourceKind → t ∈ es → t.kind = rule.targetKind →
      ((¬ (rule.declaredOn = .source ∧
          s.id ∈ rule.declaredIds (ofKind es rule.sourceKind) (ofKind es rule.targetKind)) ∧
        ¬ (rule.declaredOn = .target ∧
          t.id ∈ rule.declaredIds (ofKind es rule.sourceKind) (ofKind es rule.targetKind))) ↔
        rule.label (if rule.declaredOn = .source then s else t) = none) := by
    intro hs hks ht hkt
    cases hside : rule.declaredOn with
    | source =>
        rw [mem_declaredIds h hs (by rw [Rule.ownKind, if_pos hside, hks])]
        simp
    | target =>
        rw [mem_declaredIds h ht (by rw [Rule.ownKind, if_neg (by simp [hside]), hkt])]
        simp
  constructor
  · rintro ⟨⟨hs, hks⟩, ⟨ht, hkt⟩, hns, hnt, hkey⟩
    exact ⟨hs, ht, ⟨hks, hkt, (hdeclared hs hks ht hkt).mp ⟨hns, hnt⟩⟩, hkey⟩
  · rintro ⟨hs, ht, ⟨hks, hkt, hlabel⟩, hkey⟩
    obtain ⟨hns, hnt⟩ := (hdeclared hs hks ht hkt).mpr hlabel
    exact ⟨⟨hs, hks⟩, ⟨ht, hkt⟩, hns, hnt, hkey⟩

theorem pairsOf_nodup (h : Distinct es) : (rule.pairsOf es).Nodup := by
  rw [Rule.pairsOf, Rule.pairs]
  refine List.nodup_flatMap.mpr ⟨fun s _ => ?_, ?_⟩
  · split
    · exact List.nodup_nil
    · exact (((h.nodup.filter _).filter _).map fun t t' heq => (Prod.mk.inj heq).2)
  · -- the pairs of one source differ from those of another
    refine (h.nodup.filter _).imp fun {s s'} hne pair hs hs' => hne ?_
    have hfront : ∀ {s : CorrelationEntity} {ts : List CorrelationEntity},
        pair ∈ (if rule.key s = "" then [] else ts.map (s, ·)) → pair.1 = s := by
      intro s ts hmem
      split at hmem
      · cases hmem
      · obtain ⟨t, -, rfl⟩ := List.mem_map.mp hmem
        rfl
    exact (hfront hs).symm.trans (hfront hs')

theorem mem_conventionLinks :
    l ∈ rule.conventionLinks (ofKind es rule.sourceKind) (ofKind es rule.targetKind) ↔
      ∃ pair ∈ rule.pairsOf es, l = rule.conventionLink (rule.crowded es pair) pair.1 pair.2 := by
  rw [Rule.conventionLinks, List.mem_map]
  refine exists_congr fun pair => and_congr_right fun _ => ?_
  exact eq_comm

theorem mem_linksOf : l ∈ rule.linksOf lower es ↔
    l ∈ rule.declaredLinks lower (ofKind es rule.sourceKind) (ofKind es rule.targetKind) ∨
      l ∈ rule.conventionLinks (ofKind es rule.sourceKind) (ofKind es rule.targetKind) :=
  List.mem_append

/-- What every link of a rule says. -/
theorem declaredBy_fields (owner other : CorrelationEntity) (declared : String) :
    (rule.declaredBy owner other declared).relation = rule.relation ∧
      (rule.declaredBy owner other declared).method = .declaredLabel ∧
      rule.ownEnd (rule.declaredBy owner other declared) = owner.ref := by
  rw [Rule.declaredBy, Rule.ownEnd]
  split
  · exact ⟨rfl, rfl, rfl⟩
  · exact ⟨rfl, rfl, rfl⟩

theorem conventionLink_method (ambiguous : Bool) :
    (rule.conventionLink ambiguous s t).method ≠ .declaredLabel := by
  cases ambiguous with
  | false => exact nofun
  | true => exact nofun

/-- A declaration decides on the links of its owner. -/
theorem links_of_owner (h : Distinct es) {owner : CorrelationEntity} (howner : owner ∈ es)
    (hkind : owner.kind = rule.ownKind) {declared : String}
    (hlabel : rule.label owner = some declared) :
    l ∈ rule.linksOf lower es ∧ rule.ownEnd l = owner.ref ↔
      ∃ other, rule.OnlyNamed lower es declared other ∧
        l = rule.declaredBy owner other declared := by
  constructor
  · rintro ⟨hl, hend⟩
    rcases mem_linksOf.mp hl with hl | hl
    · obtain ⟨owner', howner', -, declared', hlabel', other, honly, rfl⟩ := (mem_declaredLinks h).mp hl
      cases h.eq howner' howner ((declaredBy_fields _ _ _).2.2.symm.trans hend)
      cases hlabel'.symm.trans hlabel
      exact ⟨other, honly, rfl⟩
    · -- an eligible entity has no label
      obtain ⟨⟨s, t⟩, hpair, rfl⟩ := mem_conventionLinks.mp hl
      obtain ⟨hs, ht, heligible, -⟩ := (mem_pairsOf h).mp hpair
      have hnone := heligible.undeclared
      have hown : (if rule.declaredOn = .source then s else t) = owner := by
        rw [Rule.ownEnd] at hend
        by_cases hside : rule.declaredOn = .source
        · rw [if_pos hside] at hend ⊢
          exact h.eq hs howner hend
        · rw [if_neg hside] at hend ⊢
          exact h.eq ht howner hend
      rw [hown, hlabel] at hnone
      cases hnone
  · rintro ⟨other, honly, heq⟩
    refine ⟨mem_linksOf.mpr (.inl ((mem_declaredLinks h).mpr ?_)), ?_⟩
    · exact ⟨owner, howner, hkind, declared, hlabel, other, honly, heq⟩
    · rw [heq, (declaredBy_fields _ _ _).2.2]

/-- Links by name: where the keys are equal. -/
theorem convention_iff (h : Distinct es) (hs : s ∈ es) (ht : t ∈ es) (heligible : rule.Eligible s t) :
    (∃ l ∈ rule.linksOf lower es, l.method ≠ .declaredLabel ∧ l.source = s.ref ∧
      l.target = t.ref) ↔ rule.key s ≠ "" ∧ rule.key t = rule.key s := by
  constructor
  · rintro ⟨l, hl, hmethod, hsource, htarget⟩
    rcases mem_linksOf.mp hl with hl | hl
    · obtain ⟨owner, -, -, declared, -, other, -, rfl⟩ := (mem_declaredLinks h).mp hl
      exact absurd (declaredBy_fields _ _ _).2.1 hmethod
    · obtain ⟨⟨s', t'⟩, hpair, rfl⟩ := mem_conventionLinks.mp hl
      obtain ⟨hs', ht', -, hkeys⟩ := (mem_pairsOf h).mp hpair
      cases h.eq hs' hs hsource
      cases h.eq ht' ht htarget
      exact hkeys
  · intro hkeys
    have hpair := (mem_pairsOf h).mpr ⟨hs, ht, heligible, hkeys⟩
    exact ⟨_, mem_linksOf.mpr (.inr (mem_conventionLinks.mpr ⟨_, hpair, rfl⟩)),
      conventionLink_method _, rfl, rfl⟩

/-- A link by name is ambiguous, when another pair has one of its ends. -/
theorem crowded_iff (h : Distinct es) (hpair : (s, t) ∈ rule.pairsOf es) :
    rule.crowded es (s, t) = true ↔
      ∃ pair ∈ rule.pairsOf es, pair ≠ (s, t) ∧ (pair.1 = s ∨ pair.2 = t) := by
  obtain ⟨hs, ht, heligible, -⟩ := (mem_pairsOf h).mp hpair
  have hid : ∀ pair ∈ rule.pairsOf es, (pair.1.id = s.id ↔ pair.1 = s) ∧
      (pair.2.id = t.id ↔ pair.2 = t) := by
    rintro ⟨s', t'⟩ hpair'
    obtain ⟨hs', ht', heligible', -⟩ := (mem_pairsOf h).mp hpair'
    refine ⟨⟨fun hid => ?_, congrArg _⟩, ⟨fun hid => ?_, congrArg _⟩⟩
    · exact h.eq_of_id (mem_ofKind.mpr ⟨hs', heligible'.source⟩)
        (mem_ofKind.mpr ⟨hs, heligible.source⟩) hid
    · exact h.eq_of_id (mem_ofKind.mpr ⟨ht', heligible'.target⟩)
        (mem_ofKind.mpr ⟨ht, heligible.target⟩) hid
  rw [Rule.crowded, Bool.or_eq_true, decide_eq_true_eq, decide_eq_true_eq,
    one_lt_countP (pairsOf_nodup h) hpair (by simp),
    one_lt_countP (pairsOf_nodup h) hpair (by simp)]
  simp only [decide_eq_true_eq]
  constructor
  · rintro (⟨pair, hmem, hne, hsame⟩ | ⟨pair, hmem, hne, hsame⟩)
    · exact ⟨pair, hmem, hne, .inl ((hid pair hmem).1.mp hsame)⟩
    · exact ⟨pair, hmem, hne, .inr ((hid pair hmem).2.mp hsame)⟩
  · rintro ⟨pair, hmem, hne, hsame | hsame⟩
    · exact .inl ⟨pair, hmem, hne, (hid pair hmem).1.mpr hsame⟩
    · exact .inr ⟨pair, hmem, hne, (hid pair hmem).2.mpr hsame⟩

/-- No other link by name of these has one of its ends. -/
def Alone (links : List CorrelationLink) (l : CorrelationLink) : Prop :=
  ∀ l' ∈ links, l'.relation = l.relation → l'.method ≠ .declaredLabel →
    (l'.source = l.source ∨ l'.target = l.target) → l' = l

/-- How far a link by name is trusted. -/
theorem confidence_iff (h : Distinct es) (hl : l ∈ rule.linksOf lower es)
    (hmethod : l.method ≠ .declaredLabel) :
    (l.confidence = 6 / 10 ↔ Alone (rule.linksOf lower es) l) ∧
      (l.confidence = 3 / 10 ↔ ¬ Alone (rule.linksOf lower es) l) := by
  rcases mem_linksOf.mp hl with hl | hl
  · obtain ⟨owner, -, -, declared, -, other, -, rfl⟩ := (mem_declaredLinks h).mp hl
    exact absurd (declaredBy_fields _ _ _).2.1 hmethod
  · obtain ⟨⟨s, t⟩, hpair, rfl⟩ := mem_conventionLinks.mp hl
    have halone : Alone (rule.linksOf lower es)
        (rule.conventionLink (rule.crowded es (s, t)) s t) ↔ rule.crowded es (s, t) = false := by
      obtain ⟨hs, ht, -⟩ := (mem_pairsOf h).mp hpair
      rw [← Bool.not_eq_true, crowded_iff h hpair]
      constructor
      · rintro halone ⟨⟨s', t'⟩, hpair', hne, hsame⟩
        -- the other pair has a link, which is then the same
        have hsame' := halone (rule.conventionLink (rule.crowded es (s', t')) s' t')
          (mem_linksOf.mpr (.inr (mem_conventionLinks.mpr ⟨_, hpair', rfl⟩))) rfl
          (conventionLink_method _)
          (hsame.imp (congrArg CorrelationEntity.ref) (congrArg CorrelationEntity.ref))
        obtain ⟨hs', ht', -⟩ := (mem_pairsOf h).mp hpair'
        refine hne (Prod.ext ?_ ?_)
        · exact h.eq hs' hs (congrArg CorrelationLink.source hsame')
        · exact h.eq ht' ht (congrArg CorrelationLink.target hsame')
      · intro hnone l' hl' _ hmethod' hends
        rcases mem_linksOf.mp hl' with hl' | hl'
        · obtain ⟨owner, -, -, declared, -, other, -, rfl⟩ := (mem_declaredLinks h).mp hl'
          exact absurd (declaredBy_fields _ _ _).2.1 hmethod'
        · obtain ⟨⟨s', t'⟩, hpair', rfl⟩ := mem_conventionLinks.mp hl'
          obtain ⟨hs', ht', -⟩ := (mem_pairsOf h).mp hpair'
          by_contra hne
          refine hnone ⟨(s', t'), hpair', fun heq => hne ?_, hends.imp ?_ ?_⟩
          · cases heq
            rfl
          · exact h.eq hs' hs
          · exact h.eq ht' ht
    rw [halone]
    cases rule.crowded es (s, t) with
    | false =>
        refine ⟨iff_of_true rfl rfl, iff_of_false ?_ (by simp)⟩
        show ¬ (6 / 10 : ℚ) = 3 / 10
        norm_num
    | true =>
        refine ⟨iff_of_false ?_ (by simp), iff_of_true rfl (by simp)⟩
        show ¬ (3 / 10 : ℚ) = 6 / 10
        norm_num

/-- The ends of a link are entities of the kinds of its rule. -/
theorem linksOf_ends (h : Distinct es) (hl : l ∈ rule.linksOf lower es) :
    l.relation = rule.relation ∧ ∃ s ∈ es, ∃ t ∈ es, s.kind = rule.sourceKind ∧
      t.kind = rule.targetKind ∧ l.source = s.ref ∧ l.target = t.ref := by
  rcases mem_linksOf.mp hl with hl | hl
  · obtain ⟨owner, howner, hkind, declared, -, other, honly, rfl⟩ := (mem_declaredLinks h).mp hl
    have hfar := honly.kind
    refine ⟨(declaredBy_fields _ _ _).1, ?_⟩
    rw [Rule.ownKind] at hkind
    rw [Rule.farKind] at hfar
    rw [Rule.declaredBy]
    split
    case isTrue hside =>
      rw [if_pos hside] at hkind hfar
      exact ⟨owner, howner, other, honly.mem, hkind, hfar, rfl, rfl⟩
    case isFalse hside =>
      rw [if_neg hside] at hkind hfar
      exact ⟨other, honly.mem, owner, howner, hfar, hkind, rfl, rfl⟩
  · obtain ⟨⟨s, t⟩, hpair, rfl⟩ := mem_conventionLinks.mp hl
    obtain ⟨hs, ht, heligible, -⟩ := (mem_pairsOf h).mp hpair
    exact ⟨rfl, s, hs, t, ht, heligible.source, heligible.target, rfl, rfl⟩

theorem ownEnd_of_declared {owner : CorrelationEntity} {l : CorrelationLink}
    (h : ((owner.labels.lookup rule.labelKey).bind fun declared =>
      match rule.matching lower (ofKind es rule.sourceKind) (ofKind es rule.targetKind)
        declared with
      | [other] => some
          (if rule.declaredOn = .source then rule.declaredLink owner other declared
          else rule.declaredLink other owner declared)
      | _ => none) = some l) : rule.ownEnd l = owner.ref := by
  obtain ⟨declared, -, hmatch⟩ := Option.bind_eq_some_iff.mp h
  split at hmatch
  next other _ =>
    cases hmatch
    exact (declaredBy_fields owner other declared).2.2
  next => cases hmatch

theorem linksOf_nodup (h : Distinct es) : (rule.linksOf lower es).Nodup := by
  rw [Rule.linksOf, Rule.links]
  refine List.nodup_append.mpr ⟨?_, ?_, ?_⟩
  · -- each owner has at most one link
    rw [Rule.declaredLinks, declaring_eq]
    refine List.pairwise_filterMap.mpr (h.nodup.imp_of_mem ?_)
    intro owner owner' howner howner' hne l hl l' hl' heq
    refine hne (h.eq (mem_ofKind.mp howner).1 (mem_ofKind.mp howner').1 ?_)
    rw [← ownEnd_of_declared hl, ← ownEnd_of_declared hl', heq]
  · rw [Rule.conventionLinks]
    refine (List.nodup_map_iff_inj_on (pairsOf_nodup h)).mpr ?_
    rintro ⟨s, t⟩ hpair ⟨s', t'⟩ hpair' heq
    obtain ⟨hs, ht, -⟩ := (mem_pairsOf h).mp hpair
    obtain ⟨hs', ht', -⟩ := (mem_pairsOf h).mp hpair'
    exact Prod.ext (h.eq hs hs' (congrArg CorrelationLink.source heq))
      (h.eq ht ht' (congrArg CorrelationLink.target heq))
  · intro l hl l' hl' heq
    obtain ⟨owner, -, -, declared, -, other, -, rfl⟩ := (mem_declaredLinks h).mp hl
    obtain ⟨pair, -, rfl⟩ := mem_conventionLinks.mp hl'
    have hmethod := congrArg CorrelationLink.method heq
    rw [(declaredBy_fields _ _ _).2.1] at hmethod
    exact conventionLink_method _ hmethod.symm

/-! ## All rules -/

theorem RULES_inj {rule' : Rule} (h : rule ∈ RULES lower) (h' : rule' ∈ RULES lower)
    (heq : rule.relation = rule'.relation) : rule = rule' := by
  have hnodup : ((RULES lower).map Rule.relation).Nodup := by
    show [CorrelationRelation.topicFeedsJob, .jobWritesTable, .tableServedByCatalog,
      .dagTriggersJob].Nodup
    decide
  exact List.inj_on_of_nodup_map hnodup h h' heq

theorem mem_correlate : l ∈ correlate lower es ↔
    ∃ rule ∈ RULES lower, l ∈ rule.linksOf lower es := by
  rw [correlate, mem_sortOn, List.mem_flatMap]
  exact Iff.rfl

/-- The links on a relation are those of its rule. -/
theorem mem_correlate_on (h : Distinct es) (hrule : rule ∈ RULES lower) :
    l ∈ correlate lower es ∧ l.relation = rule.relation ↔ l ∈ rule.linksOf lower es := by
  rw [mem_correlate]
  constructor
  · rintro ⟨⟨rule', hrule', hl⟩, hrel⟩
    rwa [RULES_inj hrule hrule' (hrel.symm.trans (linksOf_ends h hl).1)]
  · intro hl
    exact ⟨⟨rule, hrule, hl⟩, (linksOf_ends h hl).1⟩

theorem alone_iff (h : Distinct es) (hrule : rule ∈ RULES lower) (hl : l ∈ rule.linksOf lower es) :
    Alone (correlate lower es) l ↔ Alone (rule.linksOf lower es) l := by
  have hrel := (linksOf_ends h hl).1
  constructor
  · intro halone l' hl' hrel'
    exact halone l' (mem_correlate.mpr ⟨rule, hrule, hl'⟩) hrel'
  · intro halone l' hl' hrel'
    exact halone l' ((mem_correlate_on h hrule).mp ⟨hl', hrel'.trans hrel⟩) hrel'

theorem correlate_nodup (h : Distinct es) : (correlate lower es).Nodup := by
  rw [correlate]
  refine (sortOn_perm _ _).nodup_iff.mpr (List.nodup_flatMap.mpr ⟨fun rule _ => ?_, ?_⟩)
  · exact linksOf_nodup h
  · have hnodup : (RULES lower).Nodup := by
      refine List.Nodup.of_map Rule.relation ?_
      show [CorrelationRelation.topicFeedsJob, .jobWritesTable, .tableServedByCatalog,
        .dagTriggersJob].Nodup
      decide
    refine hnodup.imp_of_mem fun {rule rule'} hrule hrule' hne l hl hl' => hne ?_
    have hrel : l.relation = rule.relation := (@linksOf_ends lower es rule l h hl).1
    have hrel' : l.relation = rule'.relation := (@linksOf_ends lower es rule' l h hl').1
    exact RULES_inj hrule hrule' (hrel.symm.trans hrel')

theorem correlate_perm {es' : List CorrelationEntity} (h : Distinct es) (hperm : es'.Perm es) :
    correlate lower es' = correlate lower es := by
  show sortOn (·.id) ((RULES lower).flatMap fun rule =>
      rule.links lower (ofKind es' rule.sourceKind) (ofKind es' rule.targetKind)) =
    sortOn (·.id) ((RULES lower).flatMap fun rule =>
      rule.links lower (ofKind es rule.sourceKind) (ofKind es rule.targetKind))
  simp only [ofKind_perm h hperm]

/-- The links do not depend on the order of the entities; a label decides on the links of who
carries it; names link the other entities, with confidence where they link nothing else; and links
are between entities of their rule. -/
theorem correlate_links (lower : String → String) (es : List CorrelationEntity) (h : Distinct es) :
    (∀ es', es'.Perm es → correlate lower es' = correlate lower es) ∧
    (∀ rule ∈ RULES lower, ∀ owner ∈ es, owner.kind = rule.ownKind →
      ∀ declared, rule.label owner = some declared →
        ∀ l, (l ∈ correlate lower es ∧ l.relation = rule.relation) ∧ rule.ownEnd l = owner.ref ↔
          ∃ other, rule.OnlyNamed lower es declared other ∧
            l = rule.declaredBy owner other declared) ∧
    (∀ rule ∈ RULES lower, ∀ s ∈ es, ∀ t ∈ es, rule.Eligible s t →
      ((∃ l, (l ∈ correlate lower es ∧ l.relation = rule.relation) ∧ l.method ≠ .declaredLabel ∧
        l.source = s.ref ∧ l.target = t.ref) ↔ rule.key s ≠ "" ∧ rule.key t = rule.key s)) ∧
    (∀ l ∈ correlate lower es, l.method ≠ .declaredLabel →
      (l.confidence = 6 / 10 ↔ Alone (correlate lower es) l) ∧
        (l.confidence = 3 / 10 ↔ ¬ Alone (correlate lower es) l)) ∧
    (∀ l ∈ correlate lower es, ∃ rule ∈ RULES lower, l.relation = rule.relation ∧
      ∃ s ∈ es, ∃ t ∈ es, s.kind = rule.sourceKind ∧ t.kind = rule.targetKind ∧
        l.source = s.ref ∧ l.target = t.ref) ∧
    (correlate lower es).Nodup := by
  refine ⟨fun es' => correlate_perm h, fun rule hrule owner howner hkind declared hlabel l => ?_,
    fun rule hrule s hs t ht heligible => ?_, fun l hl hmethod => ?_, fun l hl => ?_,
    correlate_nodup h⟩
  · rw [mem_correlate_on h hrule]
    exact links_of_owner h howner hkind hlabel
  · simp only [mem_correlate_on h hrule]
    exact convention_iff h hs ht heligible
  · obtain ⟨rule, hrule, hl⟩ := mem_correlate.mp hl
    rw [alone_iff h hrule hl]
    exact confidence_iff h hl hmethod
  · obtain ⟨rule, hrule, hl⟩ := mem_correlate.mp hl
    exact ⟨rule, hrule, linksOf_ends h hl⟩

def ordersTopic : CorrelationEntity := ⟨.kafkaTopic, "t1", "orders.raw", []⟩

def auditTopic : CorrelationEntity := ⟨.kafkaTopic, "t2", "audit", []⟩

/-- A job with the name of one topic and a label for the other. -/
def labelledJob : CorrelationEntity :=
  ⟨.flinkJob, "j1", "orders-sync", [("beluga.io/source-topic", "audit")]⟩

def twoTopics : List CorrelationEntity := [ordersTopic, auditTopic, labelledJob]

def topicRule : Rule := (RULES String.toLower).head (List.cons_ne_nil _ _)

/-- `correlate_links` on those: the label decides, in any order. -/
theorem correlate_links_twoTopics :
    topicRule.declaredBy labelledJob auditTopic "audit" ∈ correlate String.toLower twoTopics ∧
      correlate String.toLower twoTopics.reverse = correlate String.toLower twoTopics := by
  have h := correlate_links String.toLower twoTopics (by decide)
  have honly : ∀ e ∈ twoTopics, e.kind = .kafkaTopic →
      String.toLower e.name = String.toLower "audit" → e = auditTopic := by
    intro e he hkind hname
    rcases List.mem_cons.mp he with rfl | he
    · exact absurd hname (by decide +kernel)
    · rcases List.mem_cons.mp he with rfl | he
      · rfl
      · rw [List.mem_singleton.mp he] at hkind
        exact absurd hkind (by decide)
  have hrule : topicRule ∈ RULES String.toLower := List.head_mem _
  have hlink := (h.2.1 topicRule hrule labelledJob (by decide) rfl "audit" rfl _).mpr
    ⟨auditTopic, ⟨by decide, rfl, rfl, honly⟩, rfl⟩
  exact ⟨hlink.1.1, h.1 _ (List.reverse_perm twoTopics)⟩

end Correlation
