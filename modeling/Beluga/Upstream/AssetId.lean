import Beluga.Js.Replace

/-! # Asset ids

`assetId.ts`: an asset id is the kind and the escaped segments with dots between
them. `deriveAssetId` writes ids, `parseAssetId` reads those of catalogs, schemas
and tables.

`encodeIdSegment` escapes `%` and `.`, and `decodeIdSegment` reads it back. A raw
segment is what is written for some segment when it is `Canonical`: each of its `%`
begins one of the two escapes.

* `decode_encode`: a segment is read back;
* `encode_decode_iff`: a raw segment is written again as it was, when it is canonical.
-/

namespace Upstream

open Js

inductive DataAssetKind where
  | table
  | topic
  | schema
  | catalog
  deriving DecidableEq, Repr

def DataAssetKind.text : DataAssetKind → String
  | .table => "table"
  | .topic => "topic"
  | .schema => "schema"
  | .catalog => "catalog"

def encodeIdSegment (segment : String) : String :=
  replaceAll "." "%2E" (replaceAll "%" "%25" segment)

/-- `%2E` first, so that `%252E` becomes `%2E`. -/
def decodeIdSegment (segment : String) : String :=
  replaceAll "%25" "%" (replaceAll "%2E" "." segment)

def deriveAssetId (kind : DataAssetKind) (segments : List String) : String :=
  "asset-" ++ kind.text ++ "-" ++ join "." (segments.map encodeIdSegment)

def MAX_ASSET_ID_LENGTH : Nat := 256

/-- `[\u0000-\u001F\u007F/\\]`. -/
def unsafeChar (c : Char) : Bool := c.toNat ≤ 0x1f || c.toNat = 0x7f || c = '/' || c = '\\'

/-- A plain name: no dot segment, no control characters, no path separators. -/
def isSafeUpstreamSegment (segment : String) : Bool :=
  segment ≠ "" && segment ≠ "." && segment ≠ ".." && !segment.toList.any unsafeChar

structure ParsedId where
  kind : DataAssetKind
  segments : List String
  deriving DecidableEq, Repr

/-- What `.` of a regular expression does not match. -/
def lineTerminator (c : Char) : Bool := c ∈ ['\n', '\r', '\u2028', '\u2029']

/-- `/^asset-(catalog|schema|table)-(.+)$/.exec(id)`. -/
def matchAssetId (id : String) : Option (DataAssetKind × List Char) :=
  [DataAssetKind.catalog, .schema, .table].findSome? fun kind =>
    let front := ("asset-" ++ kind.text ++ "-").toList
    let raw := id.toList.drop front.length
    if front <+: id.toList ∧ raw ≠ [] ∧ raw.all (!lineTerminator ·) then some (kind, raw) else none

/-- `{ catalog: 1, schema: 2, table: 3 }[kind]`. -/
def minSegments : DataAssetKind → Nat
  | .catalog => 1
  | .schema => 2
  | .table => 3
  | .topic => 0

def parseAssetId (id : String) : Option ParsedId :=
  if MAX_ASSET_ID_LENGTH < length id then none
  else
    match matchAssetId id with
    | none => none
    | some (kind, raw) =>
        let segments := (raw.splitOn '.').map String.ofList
        let decoded := segments.map decodeIdSegment
        if segments.any (· = "") then none
        else if !decoded.all isSafeUpstreamSegment then none
        else if segments.length < minSegments kind ∨ (kind = .catalog ∧ segments.length ≠ 1) then none
        else some ⟨kind, decoded⟩

open Js

/-! ## Segments -/

/-- An escaped character. -/
def escaped (c : Char) : List Char :=
  if c = '%' then ['%', '2', '5'] else if c = '.' then ['%', '2', 'E'] else [c]

theorem toList_encodeIdSegment (segment : String) :
    (encodeIdSegment segment).toList = segment.toList.flatMap escaped := by
  have hdot : "." = String.singleton '.' := rfl
  have hpercent : "%" = String.singleton '%' := rfl
  rw [encodeIdSegment, hdot, replaceAll_char, hpercent, replaceAll_char, List.flatMap_assoc]
  refine List.flatMap_congr fun c _ => ?_
  by_cases hc : c = '%'
  · subst hc
    rfl
  · by_cases hc' : c = '.'
    · subst hc'
      rfl
    · simp [escaped, hc, hc']

/-- `%2E` is read back first. -/
theorem replaceFrom_dot (cs : List Char) :
    replaceFrom ['%', '2', 'E'] ['.'] 0 (cs.flatMap escaped) =
      cs.flatMap fun c => if c = '%' then ['%', '2', '5'] else [c] := by
  induction cs with
  | nil => rfl
  | cons c cs ih =>
      rw [List.flatMap_cons, List.flatMap_cons, ← ih]
      by_cases hc : c = '%'
      · subst hc
        have hno : ∀ d ∈ ['2', '5'], ∀ rest, ¬ ['%', '2', 'E'] <+: d :: rest := by
          intro d hd rest hp
          obtain ⟨rfl, -⟩ := List.cons_prefix_cons.mp hp
          exact absurd hd (by decide)
        have hfirst : ∀ rest, ¬ ['%', '2', 'E'] <+: '%' :: '2' :: '5' :: rest := by
          intro rest hp
          simp [List.cons_prefix_cons] at hp
        show replaceFrom _ _ 0 ('%' :: '2' :: '5' :: _) = '%' :: '2' :: '5' :: _
        rw [replaceFrom_no_match (hfirst _), replaceFrom_no_match (hno '2' (by simp) _),
          replaceFrom_no_match (hno '5' (by simp) _)]
        rfl
      · by_cases hc' : c = '.'
        · subst hc'
          exact @replaceFrom_match ['2', 'E'] ['.'] '%' _
        · have hone : escaped c = [c] := by rw [escaped, if_neg hc, if_neg hc']
          have hno : ∀ rest, ¬ ['%', '2', 'E'] <+: c :: rest := by
            intro rest hp
            exact hc (List.cons_prefix_cons.mp hp).1.symm
          rw [hone, if_neg hc, List.singleton_append, replaceFrom_no_match (hno _),
            List.singleton_append]

theorem replaceFrom_percent (cs : List Char) :
    replaceFrom ['%', '2', '5'] ['%'] 0
      (cs.flatMap fun c => if c = '%' then ['%', '2', '5'] else [c]) = cs := by
  induction cs with
  | nil => rfl
  | cons c cs ih =>
      rw [List.flatMap_cons]
      by_cases hc : c = '%'
      · subst hc
        have hmatch := @replaceFrom_match ['2', '5'] ['%'] '%'
          (cs.flatMap fun c => if c = '%' then ['%', '2', '5'] else [c])
        rw [ih] at hmatch
        exact hmatch
      · have hno : ∀ rest, ¬ ['%', '2', '5'] <+: c :: rest := by
          intro rest hp
          exact hc (List.cons_prefix_cons.mp hp).1.symm
        rw [if_neg hc, List.singleton_append, replaceFrom_no_match (hno _), ih]

/-- A segment is read back. -/
theorem decode_encode (segment : String) : decodeIdSegment (encodeIdSegment segment) = segment := by
  have hdot : (replaceAll "%2E" "." (encodeIdSegment segment)).toList =
      segment.toList.flatMap fun c => if c = '%' then ['%', '2', '5'] else [c] := by
    rw [replaceAll, String.toList_ofList, toList_encodeIdSegment]
    exact replaceFrom_dot _
  refine String.toList_inj.mp ?_
  rw [decodeIdSegment, replaceAll, String.toList_ofList, hdot]
  exact replaceFrom_percent _

theorem dot_not_mem_encode (segment : String) : '.' ∉ (encodeIdSegment segment).toList := by
  rw [toList_encodeIdSegment, List.mem_flatMap]
  rintro ⟨c, -, hc⟩
  unfold escaped at hc
  split_ifs at hc with h₁ h₂
  · exact absurd hc (by decide)
  · exact absurd hc (by decide)
  · exact h₂ (List.mem_singleton.mp hc).symm

/-- Every `%` is that of an escape. -/
def Canonical (cs : List Char) : Prop :=
  ∀ front rest, cs = front ++ '%' :: rest → ['2', '5'] <+: rest ∨ ['2', 'E'] <+: rest

theorem canonical_nil : Canonical [] := by
  intro front rest heq
  simp at heq

theorem canonical_cons {c : Char} {cs : List Char} (hc : c ≠ '%') :
    Canonical (c :: cs) ↔ Canonical cs := by
  constructor
  · intro h front rest heq
    exact h (c :: front) rest (by rw [heq]; rfl)
  · intro h front rest heq
    cases front with
    | nil => exact absurd (List.cons.inj heq).1 hc
    | cons d front =>
        obtain ⟨-, heq'⟩ := List.cons.inj heq
        exact h front rest heq'

theorem canonical_escape {d : Char} {cs : List Char} (hd : d = '5' ∨ d = 'E') :
    Canonical ('%' :: '2' :: d :: cs) ↔ Canonical cs := by
  have hne : d ≠ '%' := by
    rcases hd with rfl | rfl <;> decide
  have hrest : Canonical cs ↔ Canonical ('2' :: d :: cs) :=
    (canonical_cons hne).symm.trans (canonical_cons (by decide)).symm
  rw [hrest]
  constructor
  · intro h front rest heq
    exact h ('%' :: front) rest (by rw [heq]; rfl)
  · intro h front rest heq
    cases front with
    | nil =>
        obtain ⟨-, rfl⟩ := List.cons.inj heq
        rcases hd with rfl | rfl
        · exact .inl ⟨cs, rfl⟩
        · exact .inr ⟨cs, rfl⟩
    | cons e front =>
        obtain ⟨-, heq'⟩ := List.cons.inj heq
        exact h front rest heq'

/-- The canonical texts without dots are the encoded ones. -/
theorem canonical_iff {cs : List Char} (hdot : '.' ∉ cs) :
    Canonical cs ↔ ∃ xs : List Char, cs = xs.flatMap escaped := by
  constructor
  · intro h
    induction hn : cs.length using Nat.strongRecOn generalizing cs with
    | _ n ih =>
        cases cs with
        | nil => exact ⟨[], rfl⟩
        | cons c cs =>
            obtain ⟨hc, hcs⟩ := not_or.mp (List.mem_cons.not.mp hdot)
            by_cases hp : c = '%'
            · subst hp
              have hlt : ∀ {d : Char} (rest : List Char),
                  ('%' :: (['2', d] ++ rest)).length = n → rest.length < n := by
                intro d rest hlen
                simp only [List.length_cons, List.length_append] at hlen
                omega
              have hafter := h [] cs rfl
              rcases hafter with ⟨rest, rfl⟩ | ⟨rest, rfl⟩
              · have hrest : '.' ∉ rest := fun hmem => hcs (List.mem_append_right _ hmem)
                obtain ⟨xs, hxs⟩ := ih rest.length (hlt rest hn) hrest
                  ((canonical_escape (.inl rfl)).mp h) rfl
                exact ⟨'%' :: xs, by rw [List.flatMap_cons, ← hxs]; rfl⟩
              · have hrest : '.' ∉ rest := fun hmem => hcs (List.mem_append_right _ hmem)
                obtain ⟨xs, hxs⟩ := ih rest.length (hlt rest hn) hrest
                  ((canonical_escape (.inr rfl)).mp h) rfl
                exact ⟨'.' :: xs, by rw [List.flatMap_cons, ← hxs]; rfl⟩
            · obtain ⟨xs, hxs⟩ := ih cs.length (by rw [← hn]; simp) hcs
                ((canonical_cons hp).mp h) rfl
              refine ⟨c :: xs, ?_⟩
              have hone : escaped c = [c] := by rw [escaped, if_neg hp, if_neg fun heq => hc heq.symm]
              rw [List.flatMap_cons, hone, ← hxs]
              rfl
  · rintro ⟨xs, rfl⟩
    clear hdot
    induction xs with
    | nil =>
        intro front rest heq
        simp at heq
    | cons x xs ih =>
        rw [List.flatMap_cons]
        by_cases hx : x = '%'
        · rw [hx]
          exact (canonical_escape (.inl rfl)).mpr ih
        · by_cases hx' : x = '.'
          · rw [hx']
            exact (canonical_escape (.inr rfl)).mpr ih
          · have hone : escaped x = [x] := by rw [escaped, if_neg hx, if_neg hx']
            rw [hone]
            exact (canonical_cons hx).mpr ih

/-- A raw segment is written again as it was read, if and only if it is canonical. -/
theorem encode_decode_iff {segment : String} (hdot : '.' ∉ segment.toList) :
    encodeIdSegment (decodeIdSegment segment) = segment ↔ Canonical segment.toList := by
  rw [canonical_iff hdot]
  constructor
  · intro h
    exact ⟨(decodeIdSegment segment).toList, by rw [← toList_encodeIdSegment, h]⟩
  · rintro ⟨xs, hxs⟩
    have hencode : segment = encodeIdSegment (String.ofList xs) := by
      refine String.toList_inj.mp ?_
      rw [toList_encodeIdSegment, String.toList_ofList, hxs]
    rw [hencode, decode_encode]

theorem canonical_append {cs ds : List Char} :
    Canonical (cs ++ '.' :: ds) ↔ Canonical cs ∧ Canonical ds := by
  -- an escape ends before the dot
  have hcut : ∀ (d : Char) (rest : List Char), d ≠ '.' →
      ['2', d] <+: rest ++ '.' :: ds → ['2', d] <+: rest := by
    intro d rest hd hp
    rcases rest with _ | ⟨a, _ | ⟨b, rest⟩⟩
    · exact absurd (List.cons_prefix_cons.mp hp).1 (by decide)
    · exact absurd (List.cons_prefix_cons.mp (List.cons_prefix_cons.mp hp).2).1 hd
    · obtain ⟨rfl, hp'⟩ := List.cons_prefix_cons.mp hp
      obtain ⟨rfl, -⟩ := List.cons_prefix_cons.mp hp'
      exact ⟨rest, rfl⟩
  constructor
  · intro h
    refine ⟨?_, ?_⟩
    · intro front rest heq
      have hesc := h front (rest ++ '.' :: ds) (by rw [heq, List.append_assoc, List.cons_append])
      exact hesc.imp (hcut _ _ (by decide)) (hcut _ _ (by decide))
    · intro front rest heq
      exact h (cs ++ '.' :: front) rest (by rw [heq, List.append_assoc, List.cons_append])
  · rintro ⟨hcs, hds⟩ front rest heq
    rcases List.append_eq_append_iff.mp heq with ⟨more, hfront, hrest⟩ | ⟨more, hcs', hrest⟩
    · cases more with
      | nil => exact absurd (List.cons.inj hrest).1 (by decide)
      | cons d more => exact hds more rest (List.cons.inj hrest).2
    · cases more with
      | nil => exact absurd (List.cons.inj hrest).1 (by decide)
      | cons d more =>
          obtain ⟨rfl, rfl⟩ := List.cons.inj hrest
          exact (hcs front more hcs').imp (·.trans (List.prefix_append _ _))
            (·.trans (List.prefix_append _ _))

theorem canonical_intercalate (raws : List (List Char)) :
    Canonical (['.'].intercalate raws) ↔ ∀ cs ∈ raws, Canonical cs := by
  induction raws with
  | nil => simpa using canonical_nil
  | cons cs raws ih =>
      cases raws with
      | nil => simp
      | cons ds raws =>
          rw [List.intercalate_cons_cons, List.append_assoc, List.singleton_append,
            List.forall_mem_cons]
          exact canonical_append.trans (and_congr Iff.rfl ih)

end Upstream
