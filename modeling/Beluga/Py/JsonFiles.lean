import Beluga.Py.JsonText
import Beluga.Py.Lines

/-! # Values in files of JSON

A value that is written to a file and read back, in text mode both ways.

* `read_jsonText`: the value that is read from a written text;
* `loads_jsonText`: the same where the keys are not sorted;
* `lookup_sortEntries`, `sortKeys_eq_str`: what sorting the keys leaves as it is.
-/

namespace Py

namespace Json

section Clean

variable {py : Text}

theorem hexChar_clean : ∀ n, n < 16 → hexChar n ≠ '\r' := by decide

theorem escaped_clean (c : Char) : '\r' ∉ escaped c := by
  unfold escaped
  split
  · decide
  split
  · decide
  split
  · decide
  split
  · decide
  split
  · decide
  split
  · decide
  split
  · decide
  split
  · rename_i hlow
    have hhigh := hexChar_clean (c.toNat / 16) (by omega)
    have hdigit := hexChar_clean (c.toNat % 16) (by omega)
    simp [hhigh.symm, hdigit.symm]
  · rename_i hreturn _ _ _ _
    rw [List.mem_singleton]
    exact fun h => hreturn h.symm

theorem quotedEnd_clean (cs : List Char) : '\r' ∉ quotedEnd cs := by
  induction cs with
  | nil => decide
  | cons c cs ih =>
      rw [quotedEnd, List.mem_append, not_or]
      exact ⟨escaped_clean c, ih⟩

theorem newline_clean (level : ℕ) : '\r' ∉ newline level := by
  intro h
  rcases List.mem_cons.mp h with h | h
  · exact absurd h (by decide)
  · exact absurd (List.eq_of_mem_replicate h) (by decide)

theorem toDigits_clean (n : ℕ) : '\r' ∉ Nat.toDigits 10 n := by
  intro h
  exact absurd (isDigit_toDigits h) (by decide)

theorem int_clean (n : ℤ) : '\r' ∉ (toString n).toList := by
  cases n with
  | ofNat m =>
      have htext : (toString (Int.ofNat m)).toList = Nat.toDigits 10 m := Nat.toList_repr
      rw [htext]
      exact toDigits_clean m
  | negSucc m =>
      have htext : (toString (Int.negSucc m)).toList = '-' :: (m + 1).repr.toList :=
        String.toList_append
      rw [htext, Nat.toList_repr, List.mem_cons, not_or]
      exact ⟨by decide, toDigits_clean (m + 1)⟩

/-- A value whose text is on one line, but for its layout. -/
def CleanText (py : Text) (v : Value) : Prop := ∀ level, '\r' ∉ write py level v

theorem items_clean {vs : List Value} (h : ∀ v ∈ vs, CleanText py v) (level : ℕ) :
    '\r' ∉ writeItems py level vs := by
  induction vs with
  | nil =>
      rw [writeItems_nil, List.mem_append, not_or]
      exact ⟨newline_clean level, by decide⟩
  | cons v vs ih =>
      rcases List.forall_mem_cons.mp h with ⟨hv, hvs⟩
      rw [writeItems_cons]
      simp only [List.mem_cons, List.mem_append, not_or]
      exact ⟨by decide, newline_clean _, hv _, ih hvs⟩

theorem members_clean {es : Entries} (h : ∀ e ∈ es, CleanText py e.2) (level : ℕ) :
    '\r' ∉ writeMembers py level es := by
  induction es with
  | nil =>
      rw [writeMembers_nil, List.mem_append, not_or]
      exact ⟨newline_clean level, by decide⟩
  | cons e es ih =>
      rcases e with ⟨key, v⟩
      rcases List.forall_mem_cons.mp h with ⟨hv, hes⟩
      rw [writeMembers_cons]
      simp only [List.mem_cons, List.mem_append, not_or]
      exact ⟨by decide, newline_clean _, by decide, quotedEnd_clean _, by decide, by decide,
        hv _, ih hes⟩

theorem Writable.cleanText (hfloat : ∀ x, '\r' ∉ (py.float x).toList) {v : Value}
    (h : Writable py v) : CleanText py v := by
  induction h with
  | none =>
      intro level
      exact (by decide : '\r' ∉ "null".toList)
  | bool b =>
      intro level
      cases b with
      | false => exact (by decide : '\r' ∉ "false".toList)
      | true => exact (by decide : '\r' ∉ "true".toList)
  | int n =>
      intro level
      exact int_clean n
  | @float x _ =>
      intro level
      cases x with
      | nan => exact (by decide : '\r' ∉ "NaN".toList)
      | posInf => exact (by decide : '\r' ∉ "Infinity".toList)
      | negInf => exact (by decide : '\r' ∉ "-Infinity".toList)
      | fin q => exact hfloat (.fin q)
  | str s =>
      intro level
      show '\r' ∉ '"' :: quotedEnd s.toList
      rw [List.mem_cons, not_or]
      exact ⟨by decide, quotedEnd_clean _⟩
  | @list vs _ ih =>
      intro level
      cases vs with
      | nil =>
          exact (by decide : '\r' ∉ ['[', ']'])
      | cons v vs =>
          rcases List.forall_mem_cons.mp ih with ⟨hv, hvs⟩
          rw [write_list]
          simp only [List.mem_cons, List.mem_append, not_or]
          exact ⟨by decide, newline_clean _, hv _, items_clean hvs _⟩
  | @dict es _ _ ih =>
      intro level
      cases es with
      | nil =>
          exact (by decide : '\r' ∉ ['\x7b', '\x7d'])
      | cons e es =>
          rcases e with ⟨key, v⟩
          rcases List.forall_mem_cons.mp ih with ⟨hv, hes⟩
          rw [write_dict]
          simp only [List.mem_cons, List.mem_append, not_or]
          exact ⟨by decide, newline_clean _, by decide, quotedEnd_clean _, by decide, by decide,
            hv _, members_clean hes _⟩

end Clean

/-! ## Files -/

section Files

variable {py : Text}

/-- A value as it stands, and a last line end. -/
def jsonText (py : Text) (v : Value) : String := String.ofList (write py 0 v) ++ "\n"

theorem loads_jsonText {v : Value} (h : Writable py v) : loads (jsonText py v) = some v := by
  have htext : (jsonText py v).toList = write py 0 v ++ ['\n'] := by
    rw [jsonText, String.toList_append, String.toList_ofList]
    rfl
  have hrest : Ends ['\n'] := by
    intro c hc
    obtain rfl := Option.some.inj hc
    decide
  rw [loads, htext, skipWs_write, rawDecode_write h 0 hrest]
  rfl

theorem read_jsonText (hfloat : ∀ x, '\r' ∉ (py.float x).toList) {v : Value} (h : Writable py v) :
    read_text (write_text (jsonText py v)) = .ok (jsonText py v) := by
  apply read_text_clean
  rw [Clean, jsonText, String.toList_append, String.toList_ofList, List.mem_append, not_or]
  exact ⟨h.cleanText hfloat 0, by decide⟩

theorem dumps_eq (v : Value) : dumps py v ++ "\n" = jsonText py (sortKeys v) := rfl

end Files

/-! ## Keys in order -/

theorem lookup_cons_if (entry : String × Value) (es : Entries) (key : String) :
    (entry :: es).lookup key = if key = entry.1 then some entry.2 else es.lookup key := by
  rw [List.lookup_cons]
  by_cases hkey : key = entry.1
  · rw [if_pos hkey, beq_iff_eq.mpr hkey]
  · rw [if_neg hkey, beq_eq_false_iff_ne.mpr hkey]

theorem lookup_insertEntry {es : Entries} {entry : String × Value} (h : entry.1 ∉ es.map Prod.fst)
    (key : String) : (insertEntry entry es).lookup key =
      if key = entry.1 then some entry.2 else es.lookup key := by
  induction es with
  | nil => exact lookup_cons_if entry [] key
  | cons other es ih =>
      rw [List.map_cons, List.mem_cons, not_or] at h
      rw [insertEntry]
      by_cases hle : entry.1 ≤ other.1
      · rw [if_pos hle, lookup_cons_if]
      · rw [if_neg hle, lookup_cons_if, ih h.2, lookup_cons_if]
        by_cases hkey : key = entry.1
        · rw [if_pos hkey, if_pos hkey, if_neg fun heq => h.1 (hkey.symm.trans heq)]
        · rw [if_neg hkey, if_neg hkey]

theorem lookup_sortEntries {es : Entries} (h : (es.map Prod.fst).Nodup) (key : String) :
    (sortEntries es).lookup key = (es.lookup key).map sortKeys := by
  induction es with
  | nil => rfl
  | cons e es ih =>
      rcases e with ⟨k, v⟩
      rw [List.map_cons, List.nodup_cons] at h
      have hfresh : k ∉ (sortEntries es).map Prod.fst := by
        intro hmem
        rcases List.mem_map.mp hmem with ⟨entry, hentry, rfl⟩
        rcases List.mem_map.mp ((sortEntries_perm es).mem_iff.mp hentry) with ⟨e, he, rfl⟩
        exact h.1 (List.mem_map.mpr ⟨e, he, rfl⟩)
      rw [sortEntries, lookup_insertEntry hfresh, ih h.2, lookup_cons_if]
      by_cases hkey : key = k
      · rw [if_pos hkey, if_pos hkey]
        rfl
      · rw [if_neg hkey, if_neg hkey]

theorem get_sortEntries {es : Entries} (h : (es.map Prod.fst).Nodup) (key : String) :
    Py.get (sortEntries es) key = sortKeys (Py.get es key) := by
  rw [Py.get, getD, lookup_sortEntries h, Py.get, getD]
  cases es.lookup key with
  | none => rfl
  | some v => rfl

theorem sortKeys_eq_str {v : Value} {s : String} : sortKeys v = .str s ↔ v = .str s := by
  cases v <;> simp [sortKeys]

theorem sortKeys_strList (xs : List String) :
    sortKeys (.list (xs.map .str)) = .list (xs.map .str) := by
  rw [sortKeys, sortItems_eq, List.map_map]
  exact congrArg Value.list (List.map_congr_left fun x _ => sortKeys_eq_str.mpr rfl)

end Json

end Py
