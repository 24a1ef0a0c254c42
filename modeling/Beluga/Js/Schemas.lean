import Beluga.Js.Strings
import Beluga.Sso.Json
import Mathlib.Data.List.Forall2

/-! # Strict schemas

Reading a typed value out of parsed JSON or YAML, as `z.string()`, `z.array(..)`
and `z.object(..).strict()` do.

* `Same`: two values are the same up to the order of object members, the
  equality `isDeepStrictEqual` decides;
* `Schema`: a reader that carries the proof that it loses nothing: what it
  reads as one typed value is one value. `Fields` is the same for the members
  of an object;
* `setMember`, `modifyMember`, `mapItems`: a value with one place changed, and what a
  schema reads of it (`read_strict_iff` with `shaped_modify` and `member_modify`,
  `read_array_iff`).
-/

namespace Js

open Sso

/-! ## Values up to the order of members -/

inductive Same : Json → Json → Prop where
  | null : Same .null .null
  | bool (b : Bool) : Same (.bool b) (.bool b)
  | num (n : Int) : Same (.num n) (.num n)
  | str (s : String) : Same (.str s) (.str s)
  | arr {xs ys : List Json} (h : List.Forall₂ Same xs ys) : Same (.arr xs) (.arr ys)
  | obj {xs ys : List (String × Json)}
      (h : ∀ key, Option.Rel Same (Json.field (some (.obj xs)) key)
        (Json.field (some (.obj ys)) key)) :
      Same (.obj xs) (.obj ys)

mutual
/-- `JSON.stringify(value)`. -/
def stringifyJson : Json → String
  | .null => "null"
  | .bool b => if b then "true" else "false"
  | .num n => toString n
  | .str s => stringify s
  | .arr items => "[" ++ join "," (stringifyItems items) ++ "]"
  | .obj fields => "\x7b" ++ join "," (stringifyMembers fields) ++ "\x7d"

def stringifyItems : List Json → List String
  | [] => []
  | item :: rest => stringifyJson item :: stringifyItems rest

def stringifyMembers : List (String × Json) → List String
  | [] => []
  | (key, value) :: rest =>
      (stringify key ++ ":" ++ stringifyJson value) :: stringifyMembers rest
end

/-- The member of an object under a key. -/
def member (v : Json) (key : String) : Option Json := Json.field (some v) key

/-! ## Schemas -/

variable {α β : Type}

structure Schema (α : Type) where
  read : Json → Option α
  faithful : ∀ {v w : Json} {a : α}, read v = some a → read w = some a → Same v w

/-- The members of an object, read through their lookup. -/
structure Fields (α : Type) where
  keys : List String
  read : (String → Option Json) → Option α
  faithful : ∀ {f g : String → Option Json} {a : α}, read f = some a → read g = some a →
    ∀ key ∈ keys, Option.Rel Same (f key) (g key)

namespace Schema

theorem asString_eq_some {v : Json} {s : String} :
    Json.asString (some v) = some s ↔ v = .str s := by
  cases v <;> simp [Json.asString]

theorem asArray_eq_some {v : Json} {items : List Json} :
    Json.asArray (some v) = some items ↔ v = .arr items := by
  cases v <;> simp [Json.asArray]

/-- `z.string()`. -/
def string : Schema String where
  read v := Json.asString (some v)
  faithful hv hw := by
    rw [asString_eq_some] at hv hw
    rw [hv, hw]
    exact .str _

/-- A schema with its result turned into another type, or refused. -/
def convert (s : Schema α) (f : α → Option β)
    (hf : ∀ {x y : α} {b : β}, f x = some b → f y = some b → x = y) : Schema β where
  read v := (s.read v).bind f
  faithful hv hw := by
    obtain ⟨x, hx, hfx⟩ := Option.bind_eq_some_iff.mp hv
    obtain ⟨y, hy, hfy⟩ := Option.bind_eq_some_iff.mp hw
    obtain rfl := hf hfx hfy
    exact s.faithful hx hy

/-- `.refine(p)`, and the checks of zod that refuse a value. -/
def refine (s : Schema α) (p : α → Bool) : Schema α where
  read v := (s.read v).filter p
  faithful hv hw :=
    s.faithful (Option.eq_some_of_filter_eq_some hv) (Option.eq_some_of_filter_eq_some hw)

theorem read_refine (s : Schema α) (p : α → Bool) {v : Json} {a : α} :
    (s.refine p).read v = some a ↔ s.read v = some a ∧ p a = true := by
  simp [refine]

theorem mapM_eq_some_iff {f : α → Option β} {xs : List α} {ys : List β} :
    xs.mapM f = some ys ↔ List.Forall₂ (fun x y => f x = some y) xs ys := by
  induction xs generalizing ys with
  | nil =>
      cases ys with
      | nil => exact ⟨fun _ => .nil, fun _ => rfl⟩
      | cons y ys =>
          simp only [List.mapM_nil, Option.pure_def, Option.some.injEq, reduceCtorEq, false_iff]
          intro h
          cases h
  | cons x xs ih =>
      rw [List.mapM_cons]
      constructor
      · intro h
        obtain ⟨y, hy, h⟩ := Option.bind_eq_some_iff.mp h
        obtain ⟨rest, hrest, h⟩ := Option.bind_eq_some_iff.mp h
        cases h
        exact .cons hy (ih.mp hrest)
      · intro h
        cases h with
        | cons hy hrest => simp [hy, ih.mpr hrest]

theorem mapM_faithful {s : Schema α} {vs ws : List Json} {as : List α}
    (hv : vs.mapM s.read = some as) (hw : ws.mapM s.read = some as) :
    List.Forall₂ Same vs ws := by
  rw [mapM_eq_some_iff] at hv hw
  induction as generalizing vs ws with
  | nil => cases hv; cases hw; exact .nil
  | cons a as ih =>
      cases hv with
      | cons hva hvs =>
        cases hw with
        | cons hwa hws => exact .cons (s.faithful hva hwa) (ih hvs hws)

/-- `z.array(s)`. -/
def array (s : Schema α) : Schema (List α) where
  read v := (Json.asArray (some v)).bind fun items => items.mapM s.read
  faithful hv hw := by
    obtain ⟨vs, hvs, hva⟩ := Option.bind_eq_some_iff.mp hv
    obtain ⟨ws, hws, hwa⟩ := Option.bind_eq_some_iff.mp hw
    rw [asArray_eq_some] at hvs hws
    rw [hvs, hws]
    exact .arr (mapM_faithful hva hwa)

end Schema

namespace Fields

/-- A member that must be there. -/
def required (key : String) (s : Schema α) : Fields α where
  keys := [key]
  read f := (f key).bind s.read
  faithful hf hg k hk := by
    rw [List.mem_singleton.mp hk]
    obtain ⟨v, hv, hva⟩ := Option.bind_eq_some_iff.mp hf
    obtain ⟨w, hw, hwa⟩ := Option.bind_eq_some_iff.mp hg
    rw [hv, hw]
    exact .some (s.faithful hva hwa)

/-- A member of `s.optional()`, `none` where it is absent. -/
def optional (key : String) (s : Schema α) : Fields (Option α) where
  keys := [key]
  read f :=
    match f key with
    | none => some none
    | some v => (s.read v).map some
  faithful {f g a} hf hg k hk := by
    rw [List.mem_singleton.mp hk]
    cases hfk : f key with
    | none =>
        cases hgk : g key with
        | none => exact .none
        | some w => simp only [hfk, hgk] at hf hg; cases hf; simp at hg
    | some v =>
        cases hgk : g key with
        | none => simp only [hfk, hgk] at hf hg; cases hg; simp at hf
        | some w =>
            simp only [hfk, hgk, Option.map_eq_some_iff] at hf hg
            obtain ⟨x, hx, rfl⟩ := hf
            obtain ⟨y, hy, hxy⟩ := hg
            obtain rfl := Option.some.inj hxy
            exact .some (s.faithful hx hy)

/-- The members of both. -/
def and (a : Fields α) (b : Fields β) : Fields (α × β) where
  keys := a.keys ++ b.keys
  read f := (a.read f).bind fun x => (b.read f).map fun y => (x, y)
  faithful {f g p} hf hg k hk := by
    simp only [Option.bind_eq_some_iff, Option.map_eq_some_iff] at hf hg
    obtain ⟨x, hx, y, hy, rfl⟩ := hf
    obtain ⟨x', hx', y', hy', hp⟩ := hg
    obtain ⟨rfl, rfl⟩ := Prod.mk.inj hp
    rcases List.mem_append.mp hk with hk | hk
    · exact a.faithful hx hx' k hk
    · exact b.faithful hy hy' k hk

theorem read_and (a : Fields α) (b : Fields β) {f : String → Option Json} {x : α} {y : β} :
    (a.and b).read f = some (x, y) ↔ a.read f = some x ∧ b.read f = some y := by
  simp [Fields.and, Option.bind_eq_some_iff]

theorem all_keys_iff {keys : List String} {fields : List (String × Json)} :
    (fields.all fun kv => decide (kv.1 ∈ keys)) = true ↔
      ∀ key, (member (.obj fields) key).isSome → key ∈ keys := by
  simp only [List.all_eq_true, decide_eq_true_eq]
  constructor
  · intro h key hkey
    obtain ⟨v, hv⟩ := Option.isSome_iff_exists.mp hkey
    obtain ⟨kv, hfind, -⟩ := Option.map_eq_some_iff.mp hv
    have heq := List.find?_some hfind
    rw [← eq_of_beq heq]
    exact h kv (List.mem_of_find?_eq_some hfind)
  · intro h kv hkv
    apply h
    show (Option.map _ (fields.find? _)).isSome = true
    rw [Option.isSome_map, List.find?_isSome]
    exact ⟨kv, hkv, beq_self_eq_true _⟩

/-- `z.object(shape).strict()`: an object with no member outside the shape. -/
def strict (shape : Fields α) : Schema α where
  read v :=
    match v with
    | .obj fields =>
        if fields.all fun kv => decide (kv.1 ∈ shape.keys) then shape.read (member (.obj fields))
        else none
    | _ => none
  faithful {v w a} hv hw := by
    split at hv
    case h_2 => cases hv
    case h_1 vs =>
      split at hw
      case h_2 => cases hw
      case h_1 ws =>
        split_ifs at hv with hvk
        split_ifs at hw with hwk
        refine .obj fun key => ?_
        by_cases hkey : key ∈ shape.keys
        · exact shape.faithful hv hw key hkey
        · -- a key outside the shape is on neither side
          have hvn := mt (all_keys_iff.mp hvk key) hkey
          have hwn := mt (all_keys_iff.mp hwk key) hkey
          rw [Option.not_isSome_iff_eq_none] at hvn hwn
          show Option.Rel Same (member (.obj vs) key) (member (.obj ws) key)
          rw [hvn, hwn]
          exact .none

theorem read_strict_obj {shape : Fields α} {fields : List (String × Json)} :
    shape.strict.read (.obj fields) =
      if fields.all fun kv => decide (kv.1 ∈ shape.keys) then shape.read (member (.obj fields))
      else none := rfl

theorem read_strict {shape : Fields α} {v : Json} {a : α} :
    shape.strict.read v = some a ↔
      ∃ fields, v = .obj fields ∧
        (∀ key, (member (.obj fields) key).isSome → key ∈ shape.keys) ∧
        shape.read (member (.obj fields)) = some a := by
  constructor
  · intro h
    cases v with
    | obj fields =>
        rw [read_strict_obj] at h
        split_ifs at h with hk
        exact ⟨fields, rfl, all_keys_iff.mp hk, h⟩
    | _ => cases h
  · rintro ⟨fields, rfl, hk, h⟩
    rw [read_strict_obj, if_pos (all_keys_iff.mpr hk), h]

end Fields

/-! ## One place changed -/

/-- `{ ...fields, [key]: x }`. -/
def setIn (key : String) (x : Json) : List (String × Json) → List (String × Json)
  | [] => [(key, x)]
  | kv :: rest => if kv.1 = key then (key, x) :: rest else kv :: setIn key x rest

/-- An object with one member replaced or added. -/
def setMember (key : String) (x : Json) : Json → Json
  | .obj fields => .obj (setIn key x fields)
  | v => v

/-- An object with one of its members changed. -/
def modifyMember (key : String) (f : Json → Json) : Json → Json
  | .obj fields => .obj (fields.map fun kv => if kv.1 = key then (kv.1, f kv.2) else kv)
  | v => v

/-- An array with every item changed. -/
def mapItems (f : Json → Json) : Json → Json
  | .arr items => .arr (items.map f)
  | v => v

theorem member_cons (kv : String × Json) (fields : List (String × Json)) (key : String) :
    member (.obj (kv :: fields)) key =
      if kv.1 = key then some kv.2 else member (.obj fields) key := by
  by_cases h : kv.1 = key
  · simp [member, h]
  · simp [member, h]

@[simp] theorem member_nil (key : String) : member (.obj []) key = none := rfl

theorem member_setMember (key : String) (x : Json) (fields : List (String × Json))
    (k : String) :
    member (setMember key x (.obj fields)) k =
      if k = key then some x else member (.obj fields) k := by
  show member (.obj (setIn key x fields)) k = _
  induction fields with
  | nil => simp [setIn, member_cons, eq_comm]
  | cons kv rest ih =>
      by_cases hkv : kv.1 = key
      · by_cases hk : k = key
        · simp [setIn, hkv, hk, member_cons]
        · simp [setIn, hkv, hk, member_cons, Ne.symm hk]
      · rw [setIn, if_neg hkv, member_cons, member_cons, ih]
        by_cases hk : kv.1 = k
        · simp [hk, show k ≠ key from fun h => hkv (hk.trans h)]
        · simp [hk]

theorem member_modifyMember (key : String) (f : Json → Json) (fields : List (String × Json))
    (k : String) :
    member (modifyMember key f (.obj fields)) k =
      if k = key then (member (.obj fields) k).map f else member (.obj fields) k := by
  show member (.obj (fields.map _)) k = _
  induction fields with
  | nil => simp
  | cons kv rest ih =>
      rw [List.map_cons, member_cons, member_cons, ih]
      by_cases hkv : kv.1 = key
      · by_cases hk : k = key
        · simp [hkv, hk]
        · simp [hkv, hk, Ne.symm hk]
      · by_cases hk : kv.1 = k
        · have hne : k ≠ key := fun h => hkv (hk.trans h)
          simp [hk, hne]
        · simp [hkv, hk]

/-- A member of the shape, set in an object of the shape. -/
theorem read_setMember {shape : Fields α} {key : String} {x v : Json} {a : α}
    (hkey : key ∈ shape.keys) (hv : shape.strict.read v = some a) :
    shape.strict.read (setMember key x v) =
      shape.read fun k => if k = key then some x else member v k := by
  obtain ⟨fields, rfl, hin, -⟩ := Fields.read_strict.mp hv
  have hset : setMember key x (.obj fields) = .obj (setIn key x fields) := rfl
  rw [hset, Fields.read_strict_obj, if_pos]
  · congr 1
    funext k
    rw [← hset, member_setMember]
  · rw [Fields.all_keys_iff]
    intro k hk
    rw [← hset, member_setMember] at hk
    split_ifs at hk with heq
    · rwa [heq]
    · exact hin k hk

/-- A member of the shape, changed in an object of the shape. -/
theorem read_modifyMember {shape : Fields α} {key : String} {f : Json → Json} {v : Json}
    {a : α} (hv : shape.strict.read v = some a) :
    shape.strict.read (modifyMember key f v) =
      shape.read fun k => if k = key then (member v k).map f else member v k := by
  obtain ⟨fields, rfl, hin, -⟩ := Fields.read_strict.mp hv
  have hmod : modifyMember key f (.obj fields) =
      .obj (fields.map fun kv => if kv.1 = key then (kv.1, f kv.2) else kv) := rfl
  rw [hmod, Fields.read_strict_obj, if_pos]
  · congr 1
    funext k
    rw [← hmod, member_modifyMember]
  · rw [Fields.all_keys_iff]
    intro k hk
    rw [← hmod, member_modifyMember] at hk
    split_ifs at hk with heq
    · exact hin k (by simpa using hk)
    · exact hin k hk

/-- An array whose items were changed into ones that read as `g` of the old ones. -/
theorem read_mapItems {s : Schema α} {f : Json → Json} {g : α → α} {v : Json} {as : List α}
    (hv : s.array.read v = some as) (hf : ∀ x a, s.read x = some a → s.read (f x) = some (g a)) :
    s.array.read (mapItems f v) = some (as.map g) := by
  obtain ⟨items, hitems, has⟩ := Option.bind_eq_some_iff.mp hv
  rw [Schema.asArray_eq_some.mp hitems]
  show ((items.map f).mapM s.read) = some (as.map g)
  rw [Schema.mapM_eq_some_iff] at has ⊢
  rw [List.forall₂_map_left_iff, List.forall₂_map_right_iff]
  exact has.imp fun x a h => hf x a h

/-! ## Reading what was changed -/

section Changed

variable {shape : Fields α} {key : String} {f : Json → Json} {x v : Json}

/-- An object without members outside the shape. -/
def Shaped (shape : Fields α) (v : Json) : Prop :=
  ∃ fields, v = .obj fields ∧ ∀ k, (member v k).isSome → k ∈ shape.keys

theorem read_strict_iff {a : α} :
    shape.strict.read v = some a ↔ Shaped shape v ∧ shape.read (member v) = some a := by
  rw [Fields.read_strict]
  constructor
  · rintro ⟨fields, rfl, hin, hread⟩
    exact ⟨⟨fields, rfl, hin⟩, hread⟩
  · rintro ⟨⟨fields, rfl, hin⟩, hread⟩
    exact ⟨fields, rfl, hin, hread⟩

theorem member_modify (key : String) (f : Json → Json) (v : Json) (k : String) :
    member (modifyMember key f v) k = if k = key then (member v k).map f else member v k := by
  cases v with
  | obj fields => exact member_modifyMember key f fields k
  | null | bool _ | num _ | str _ | arr _ =>
      show member _ k = _
      split_ifs <;> rfl

theorem shaped_modify : Shaped shape (modifyMember key f v) ↔ Shaped shape v := by
  have hmember : ∀ k, (member (modifyMember key f v) k).isSome = (member v k).isSome := by
    intro k
    rw [member_modify]
    split_ifs
    · exact Option.isSome_map
    · rfl
  unfold Shaped
  simp only [hmember]
  cases v with
  | obj fields =>
      constructor
      · rintro ⟨-, -, hin⟩
        exact ⟨fields, rfl, hin⟩
      · rintro ⟨-, -, hin⟩
        exact ⟨_, rfl, hin⟩
  | null | bool _ | num _ | str _ | arr _ => exact Iff.rfl

theorem shaped_set (hkey : key ∈ shape.keys) :
    Shaped shape (setMember key x v) ↔ Shaped shape v := by
  cases v with
  | obj fields =>
      constructor
      · rintro ⟨-, -, hin⟩
        refine ⟨fields, rfl, fun k hk => hin k ?_⟩
        rw [member_setMember]
        split_ifs
        · rfl
        · exact hk
      · rintro ⟨-, -, hin⟩
        refine ⟨_, rfl, fun k hk => ?_⟩
        rw [member_setMember] at hk
        split_ifs at hk with heq
        · exact heq ▸ hkey
        · exact hin k hk
  | null | bool _ | num _ | str _ | arr _ => exact Iff.rfl

theorem member_set (h : Shaped shape v) (k : String) :
    member (setMember key x v) k = if k = key then some x else member v k := by
  obtain ⟨fields, rfl, -⟩ := h
  exact member_setMember key x fields k

/-- An array whose items read as the items of another one do. -/
theorem read_array_iff {s : Schema α} {g : α → α} {ok : α → Prop} (v : Json)
    (hf : ∀ items, v = .arr items → ∀ x ∈ items, ∀ b,
      s.read (f x) = some b ↔ ∃ a, s.read x = some a ∧ ok a ∧ b = g a) (bs : List α) :
    s.array.read (mapItems f v) = some bs ↔
      ∃ as, s.array.read v = some as ∧ (∀ a ∈ as, ok a) ∧ bs = as.map g := by
  cases v with
  | arr items =>
      have hitems := hf items rfl
      clear hf
      show (items.map f).mapM s.read = some bs ↔
        ∃ as, items.mapM s.read = some as ∧ (∀ a ∈ as, ok a) ∧ bs = as.map g
      simp only [Schema.mapM_eq_some_iff, List.forall₂_map_left_iff]
      induction items generalizing bs with
      | nil =>
          constructor
          · intro h
            cases h
            exact ⟨[], .nil, List.forall_mem_nil _, rfl⟩
          · rintro ⟨as, has, -, rfl⟩
            cases has
            exact .nil
      | cons x items ih =>
          have hrest := fun bs => ih bs fun y hy => hitems y (List.mem_cons_of_mem _ hy)
          have hfirst := hitems x List.mem_cons_self
          constructor
          · rintro (- | ⟨hb, hbs⟩)
            obtain ⟨a, ha, hok, rfl⟩ := (hfirst _).mp hb
            obtain ⟨as, has, hall, rfl⟩ := (hrest _).mp hbs
            exact ⟨a :: as, .cons ha has, List.forall_mem_cons.mpr ⟨hok, hall⟩, rfl⟩
          · rintro ⟨as, ha | ⟨ha, has⟩, hall, rfl⟩
            obtain ⟨hok, hall⟩ := List.forall_mem_cons.mp hall
            exact .cons ((hfirst _).mpr ⟨_, ha, hok, rfl⟩) ((hrest _).mpr ⟨_, has, hall, rfl⟩)
  | null | bool _ | num _ | str _ | obj _ =>
      constructor
      · intro h
        cases h
      · rintro ⟨as, has, -⟩
        cases has

end Changed

end Js
