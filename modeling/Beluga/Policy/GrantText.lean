import Beluga.Policy.GrantLines

/-! # Grants of a table as PostgreSQL reads them

The grammar of `GRANT … ON [TABLE] … TO … [WITH GRANT OPTION][;]` for one table and
one role, as `role_table_grants` and `pg_dump` write such lines: an identifier in
quotes is meant as it stands and may contain anything, one without quotes is meant
in small letters. `Reads` says which pieces make up the text of a grant.

Where all identifiers are plain, `parseGrantLine` understands a line as PostgreSQL
does, if it understands it (`Written.understood`).
-/

namespace Policy

open Text Matcher

/-! ## Identifiers -/

/-- White space between tokens. -/
def sqlSpace (c : Char) : Bool := c = ' ' || (9 ≤ c.toNat && c.toNat ≤ 13)

/-- A quoted identifier: quotes in it are doubled. -/
def quote (raw : String) : List Char :=
  '"' :: (raw.toList.flatMap (fun c => if c = '"' then ['"', '"'] else [c]) ++ ['"'])

def Ident.written : Ident → List Char
  | .bare raw => raw.toList
  | .quoted raw => quote raw

def bareStart (c : Char) : Bool := identStart c || 128 ≤ c.toNat

def bareRest (c : Char) : Bool := bareStart c || Regex.digit c || c = '$'

/-- The keywords of the statement, which are reserved. -/
def GRANT_KEYWORDS : List String := ["GRANT", "ON", "TABLE", "TO", "WITH"]

def Ident.WellFormed : Ident → Prop
  | .bare raw => (∃ c cs, raw.toList = c :: cs ∧ bareStart c = true ∧ ∀ d ∈ cs, bareRest d = true) ∧
      ∀ w ∈ GRANT_KEYWORDS, ¬ Letters w raw.toList
  | .quoted raw => raw ≠ ""

/-- An identifier that means its text in small letters, and is made of plain characters. -/
structure Ident.Plain (i : Ident) : Prop where
  chars : ∀ c ∈ i.raw.toList, identRest c = true
  name : i.name = fold i.raw

/-- The parts of a name, with dots between them. -/
def tableText : List Ident → List Char
  | [] => []
  | [i] => i.written
  | i :: rest => i.written ++ '.' :: tableText rest

/-! ## The grammar -/

def TABLE_PRIVILEGES : List String :=
  ["SELECT", "INSERT", "UPDATE", "DELETE", "TRUNCATE", "REFERENCES", "TRIGGER", "MAINTAIN"]

/-- Keywords with commas between them. -/
inductive PrivilegeText : List String → List Char → Prop where
  | one (w : String) (text : List Char) (hw : w ∈ "ALL" :: TABLE_PRIVILEGES)
      (htext : Letters w text) : PrivilegeText [w] text
  | cons (w : String) (text b b' : List Char) (ws : List String) (rest : List Char)
      (hw : w ∈ "ALL" :: TABLE_PRIVILEGES) (htext : Letters w text) (hb : Blank b)
      (hb' : Blank b') (hrest : PrivilegeText ws rest) :
      PrivilegeText (w :: ws) (text ++ (b ++ ',' :: (b' ++ rest)))

structure WrittenGrant where
  table : List Ident
  grantee : Ident
  privileges : List String
  grantOption : Bool

structure Pieces extends Cut where
  lead : List Char
  option : List Char
  finish : List Char
  trail : List Char

/-- All white space between the tokens. -/
def Pieces.between (p : Pieces) : List Char :=
  p.lead ++ p.s₁ ++ p.privileges ++ p.s₂ ++ p.s₃ ++ p.keyword ++ p.s₄ ++ p.s₅ ++ p.option ++
    p.finish ++ p.trail

def Pieces.line (p : Pieces) : List Char := p.lead ++ (p.text ++ p.trail)

/-- The pieces of the text of a grant. -/
structure Reads (p : Pieces) (g : WrittenGrant) : Prop where
  grant : Letters "GRANT" p.grant
  gap₁ : Gap p.s₁
  privileges : PrivilegeText g.privileges p.privileges
  gap₂ : Gap p.s₂
  on : Letters "ON" p.on
  gap₃ : Gap p.s₃
  keyword : TableKeyword p.keyword
  table : p.table = tableText g.table
  table_ne : g.table ≠ []
  names : ∀ i ∈ g.grantee :: g.table, i.WellFormed
  gap₄ : Gap p.s₄
  to_ : Letters "TO" p.to_
  gap₅ : Gap p.s₅
  rest : p.rest = g.grantee.written ++ (p.option ++ p.finish)
  option : (g.grantOption = true ∧ GrantOption p.option) ∨ (g.grantOption = false ∧ p.option = [])
  finish : p.finish = [] ∨ ∃ b, Blank b ∧ p.finish = b ++ [';']
  lead : Blank p.lead
  trail : Blank p.trail
  sql : ∀ c ∈ p.between, Regex.space c = true → sqlSpace c = true

/-- A line is the text of a grant. -/
def Written (line : String) (g : WrittenGrant) : Prop := ∃ p : Pieces, Reads p g ∧ line.toList = p.line

/-! ## Plain identifiers -/

theorem identRest_ne {c : Char} (h : identRest c = true) :
    Regex.space c = false ∧ c ≠ ';' ∧ c ≠ '"' ∧ c ≠ '.' ∧ c ≠ '/' ∧ c.toNat < 128 := by
  have hn : (65 ≤ c.toNat ∧ c.toNat ≤ 90) ∨ (97 ≤ c.toNat ∧ c.toNat ≤ 122) ∨ c.toNat = 95 ∨
      (48 ≤ c.toNat ∧ c.toNat ≤ 57) := by
    simp only [identRest, identStart, Regex.digit, Bool.or_eq_true, Bool.and_eq_true,
      decide_eq_true_eq, Char.le_def, UInt32.le_iff_toNat_le] at h
    rcases h with ((⟨h₁, h₂⟩ | ⟨h₁, h₂⟩) | rfl) | ⟨h₁, h₂⟩
    · exact .inl ⟨h₁, h₂⟩
    · exact .inr (.inl ⟨h₁, h₂⟩)
    · exact .inr (.inr (.inl rfl))
    · exact .inr (.inr (.inr ⟨h₁, h₂⟩))
  have hne : ∀ d : Char, ¬ ((65 ≤ d.toNat ∧ d.toNat ≤ 90) ∨ (97 ≤ d.toNat ∧ d.toNat ≤ 122) ∨
      d.toNat = 95 ∨ (48 ≤ d.toNat ∧ d.toNat ≤ 57)) → c ≠ d := by
    intro d hd heq
    subst heq
    exact hd hn
  refine ⟨?_, hne _ (by decide), hne _ (by decide), hne _ (by decide), hne _ (by decide), by omega⟩
  simp only [Regex.space, Bool.or_eq_false_iff, Bool.and_eq_false_iff, decide_eq_false_iff_not]
  omega

theorem Ident.WellFormed.raw_ne {i : Ident} (h : i.WellFormed) : i.raw.toList ≠ [] := by
  cases i with
  | bare raw =>
      obtain ⟨⟨c, cs, hraw, -⟩, -⟩ := h
      simp [Ident.raw, hraw]
  | quoted raw =>
      intro hnil
      exact h (String.toList_inj.mp hnil)

/-- The text of a plain identifier. -/
theorem Ident.Plain.written {i : Ident} (h : i.Plain) :
    i.written = i.raw.toList ∨ i.written = '"' :: (i.raw.toList ++ ['"']) := by
  cases i with
  | bare raw => exact .inl rfl
  | quoted raw =>
      right
      have hsame : raw.toList.flatMap (fun c => if c = '"' then ['"', '"'] else [c]) =
          raw.toList := by
        have hone : ∀ c ∈ raw.toList, (if c = '"' then ['"', '"'] else [c]) = [c] := by
          intro c hc
          rw [if_neg (identRest_ne (h.chars c hc)).2.2.1]
        rw [List.flatMap_congr hone]
        simp
      show quote raw = _
      rw [quote, hsame]
      rfl

theorem Ident.Plain.mem_written {i : Ident} (h : i.Plain) {c : Char} (hc : c ∈ i.written) :
    identRest c = true ∨ c = '"' := by
  rcases h.written with hw | hw
  · rw [hw] at hc
    exact .inl (h.chars c hc)
  · rw [hw, List.mem_cons, List.mem_append, List.mem_singleton] at hc
    rcases hc with rfl | hc | rfl
    · exact .inr rfl
    · exact .inl (h.chars c hc)
    · exact .inr rfl

theorem Ident.Plain.solid {i : Ident} (h : i.Plain) (hw : i.WellFormed) : Solid i.written := by
  refine ⟨?_, fun c hc => ?_⟩
  · rcases h.written with heq | heq
    · rw [heq]
      exact hw.raw_ne
    · rw [heq]
      simp
  · rcases h.mem_written hc with hc | rfl
    · exact (identRest_ne hc).1
    · decide

/-- `stripQuotes` leaves the characters of a plain identifier. -/
theorem Ident.Plain.strip {i : Ident} (h : i.Plain) :
    i.written.filter (· ≠ '"') = i.raw.toList := by
  have hraw : i.raw.toList.filter (· ≠ '"') = i.raw.toList := by
    rw [List.filter_eq_self]
    intro c hc
    simpa using (identRest_ne (h.chars c hc)).2.2.1
  rcases h.written with heq | heq
  · rw [heq, hraw]
  · rw [heq, List.filter_cons, List.filter_append, hraw]
    simp

theorem Ident.Plain.no_semicolon {i : Ident} (h : i.Plain) : ';' ∉ i.written := by
  intro hmem
  rcases h.mem_written hmem with hc | hc
  · exact (identRest_ne hc).2.1 rfl
  · exact absurd hc (by decide)

theorem tableText_cons {i j : Ident} {rest : List Ident} :
    tableText (i :: j :: rest) = i.written ++ '.' :: tableText (j :: rest) := rfl

theorem tableText_solid {is : List Ident} (hne : is ≠ []) (hplain : ∀ i ∈ is, i.Plain)
    (hwell : ∀ i ∈ is, i.WellFormed) : Solid (tableText is) := by
  induction is with
  | nil => exact absurd rfl hne
  | cons i rest ih =>
      have hi := (hplain i List.mem_cons_self).solid (hwell i List.mem_cons_self)
      cases rest with
      | nil => exact hi
      | cons j rest =>
          have hrest := ih (by simp) (fun k hk => hplain k (List.mem_cons_of_mem _ hk))
            fun k hk => hwell k (List.mem_cons_of_mem _ hk)
          rw [tableText_cons]
          refine ⟨by simp, fun c hc => ?_⟩
          rcases List.mem_append.mp hc with hc | hc
          · exact hi.2 c hc
          · rcases List.mem_cons.mp hc with rfl | hc
            · decide
            · exact hrest.2 c hc

/-- `stripQuotes` of the text of a name: its parts with dots between them. -/
theorem stripQuotes_tableText {is : List Ident} (hplain : ∀ i ∈ is, i.Plain) :
    stripQuotes (tableText is) = Js.join "." (is.map (·.raw)) := by
  rw [← String.toList_inj, stripQuotes, String.toList_ofList]
  induction is with
  | nil => rfl
  | cons i rest ih =>
      have hi := (hplain i List.mem_cons_self).strip
      cases rest with
      | nil => simpa [tableText] using hi
      | cons j rest =>
          have hrest := ih fun k hk => hplain k (List.mem_cons_of_mem _ hk)
          rw [tableText_cons, List.filter_append, hi, List.filter_cons, if_pos (by decide), hrest]
          simp [Js.join_cons_cons]

/-! ## Privileges -/

theorem comma_not_blank {b : List Char} (h : Blank b) : ',' ∉ b :=
  fun hmem => absurd (h ',' hmem) (by decide)

/-- White space behind a text goes to the last of its parts. -/
theorem splitOn_append_blank {b : List Char} (h : Blank b) (cs : List Char) :
    List.Forall₂ (fun x y => ∃ t, Blank t ∧ x = y ++ t) ((cs ++ b).splitOn ',')
      (cs.splitOn ',') := by
  induction cs with
  | nil =>
      rw [List.nil_append, List.splitOn_eq_singleton (comma_not_blank h), List.splitOn_nil]
      exact .cons ⟨b, h, rfl⟩ .nil
  | cons c cs ih =>
      rw [List.cons_append, List.splitOn_cons_eq_if_modifyHead, List.splitOn_cons_eq_if_modifyHead]
      split
      · exact .cons ⟨[], by simp [Blank], rfl⟩ ih
      · cases hx : (cs ++ b).splitOn ',' with
        | nil => exact absurd hx (List.splitOn_ne_nil _ _)
        | cons x xs =>
            rw [hx] at ih
            cases hy : cs.splitOn ',' with
            | nil => exact absurd hy (List.splitOn_ne_nil _ _)
            | cons y ys =>
                rw [hy] at ih
                obtain ⟨⟨t, ht, hxy⟩, hrest⟩ := List.forall₂_cons.mp ih
                exact .cons ⟨t, ht, by rw [hxy, List.cons_append]⟩ hrest

/-- White space before a text goes to the first of its parts. -/
theorem splitOn_blank_append {b : List Char} (h : Blank b) (cs : List Char) :
    (b ++ cs).splitOn ',' = (cs.splitOn ',').modifyHead (b ++ ·) := by
  induction b with
  | nil =>
      rw [List.nil_append]
      cases cs.splitOn ',' <;> rfl
  | cons c b ih =>
      have hc : c ≠ ',' := fun heq => comma_not_blank h (heq ▸ List.mem_cons_self)
      rw [List.cons_append, List.splitOn_cons_eq_if_modifyHead, if_neg (by simpa using hc),
        ih fun d hd => h d (List.mem_cons_of_mem c hd)]
      cases cs.splitOn ',' <;> rfl

variable {toUpperCase : String → String}

/-- White space around the privileges does not show. -/
theorem splitPrivileges_pad {b b' : List Char} (hb : Blank b) (hb' : Blank b') (cs : List Char) :
    splitPrivileges toUpperCase (b ++ (cs ++ b')) = splitPrivileges toUpperCase cs := by
  have htrim : ((b ++ (cs ++ b')).splitOn ',').map trim = (cs.splitOn ',').map trim := by
    rw [splitOn_blank_append hb]
    have hback : ((cs ++ b').splitOn ',').map trim = (cs.splitOn ',').map trim := by
      rw [← List.forall₂_eq_eq_eq, List.forall₂_map_left_iff, List.forall₂_map_right_iff]
      refine (splitOn_append_blank hb' cs).imp ?_
      rintro x y ⟨t, ht, rfl⟩
      exact trim_append_blank ht y
    rw [← hback]
    cases (cs ++ b').splitOn ',' with
    | nil => rfl
    | cons x xs => simp [trim_blank_append hb]
  have hmap : ∀ xs : List (List Char), xs.map (fun p => toUpperCase (String.ofList (trim p))) =
      (xs.map trim).map fun p => toUpperCase (String.ofList p) := by
    intro xs
    rw [List.map_map]
    rfl
  rw [splitPrivileges, splitPrivileges, hmap, hmap, htrim]

/-- The letters of a keyword in capitals. -/
theorem AsciiUpper.letters (hup : AsciiUpper toUpperCase) {w : String} {text : List Char}
    (h : Letters w text) (hw : ∀ c ∈ w.toList, 'A' ≤ c ∧ c ≤ 'Z') :
    toUpperCase (String.ofList text) = w := by
  have hcapital : ∀ c : Char, 'A' ≤ c ∧ c ≤ 'Z' → c.toUpper = c := by
    intro c hc
    unfold Char.toUpper
    rw [dif_neg]
    simp only [Char.le_def, UInt32.le_iff_toNat_le] at hc ⊢
    simp at hc ⊢
    omega
  have hwords : w.toList.map Char.toUpper = w.toList := by
    conv_rhs => rw [← List.map_id w.toList]
    exact List.map_congr_left fun c hc => hcapital c (hw c hc)
  rw [Letters, hwords] at h
  have hascii : ∀ c ∈ (String.ofList text).toList, c.toNat < 128 := by
    rw [String.toList_ofList]
    intro c hc
    have hmem : c.toUpper ∈ w.toList := h ▸ List.mem_map_of_mem hc
    have hZ := (hw _ hmem).2
    unfold Char.toUpper at hZ
    split at hZ
    case isTrue hlower =>
      have hz : c.toNat ≤ 122 := hlower.2
      omega
    case isFalse =>
      have hz : c.toNat ≤ 90 := hZ
      omega
  rw [hup _ hascii, upperAscii, String.toList_ofList, h, String.ofList_toList]

theorem capital_keywords : ∀ w ∈ "ALL" :: TABLE_PRIVILEGES, w ≠ "" ∧
    (∀ x ∈ w.toList.map Char.toUpper, Regex.space x = false ∧ x ≠ ',') ∧
      ∀ c ∈ w.toList, 'A' ≤ c ∧ c ≤ 'Z' := by
  decide

theorem comma_not_letters {w : String} {text : List Char} (h : Letters w text)
    (hw : ∀ x ∈ w.toList.map Char.toUpper, x ≠ ',') : ',' ∉ text := by
  intro hmem
  have hup : ',' ∈ w.toList.map Char.toUpper := by
    rw [← h]
    exact List.mem_map.mpr ⟨',', hmem, rfl⟩
  exact hw ',' hup rfl

/-- The privileges of a line, as they are written. -/
theorem PrivilegeText.split (hup : AsciiUpper toUpperCase) {ws : List String} {cs : List Char}
    (h : PrivilegeText ws cs) : splitPrivileges toUpperCase cs = ws := by
  induction h with
  | one w text hw htext =>
      obtain ⟨hne, hchars, hcapital⟩ := capital_keywords w hw
      have hsolid := htext.solid (by simpa using hne) fun x hx => (hchars x hx).1
      have hcomma := comma_not_letters htext fun x hx => (hchars x hx).2
      rw [splitPrivileges, List.splitOn_eq_singleton hcomma]
      simp [hsolid.trim, hup.letters htext hcapital, hne]
  | cons w text b b' ws rest hw htext hb hb' hrest ih =>
      obtain ⟨hne, hchars, hcapital⟩ := capital_keywords w hw
      have hsolid := htext.solid (by simpa using hne) fun x hx => (hchars x hx).1
      have hcomma := comma_not_letters htext fun x hx => (hchars x hx).2
      have hhead : ',' ∉ text ++ b := by
        rw [List.mem_append]
        exact fun h => h.elim hcomma (comma_not_blank hb)
      have htail := @splitPrivileges_pad toUpperCase _ [] hb' (by simp [Blank]) rest
      rw [List.append_nil, ih] at htail
      rw [splitPrivileges, ← List.append_assoc, List.splitOn_append_cons_self, List.map_append,
        List.filter_append, List.splitOn_eq_singleton hhead]
      rw [splitPrivileges] at htail
      rw [htail]
      simp [trim_append_blank hb, hsolid.trim, hup.letters htext hcapital, hne]

/-! ## The same reading -/

def WrittenGrant.Plain (g : WrittenGrant) : Prop := ∀ i ∈ g.grantee :: g.table, i.Plain

theorem Ident.WellFormed.not_to {i : Ident} (h : i.WellFormed) : ¬ Letters "TO" i.written := by
  cases i with
  | bare raw => exact h.2 "TO" (by decide)
  | quoted raw =>
      intro hto
      have hhead := congrArg List.head? hto
      simp [Ident.written, quote] at hhead

section Reading

variable {p : Pieces} {g : WrittenGrant}

theorem Reads.solid_role (h : Reads p g) (hplain : g.Plain) : Solid g.grantee.written :=
  (hplain _ List.mem_cons_self).solid (h.names _ List.mem_cons_self)

theorem Reads.starts_rest (h : Reads p g) (hplain : g.Plain) : Starts p.rest := by
  rw [h.rest]
  exact (h.solid_role hplain).starts _

theorem Reads.ok (h : Reads p g) (hplain : g.Plain) : p.toCut.Ok where
  grant := h.grant
  gap₁ := h.gap₁
  gap₂ := h.gap₂
  on := h.on
  gap₃ := h.gap₃
  keyword := h.keyword
  table := by
    rw [h.table]
    exact tableText_solid h.table_ne (fun i hi => hplain i (List.mem_cons_of_mem _ hi))
      fun i hi => h.names i (List.mem_cons_of_mem _ hi)
  gap₄ := h.gap₄
  to_ := h.to_
  gap₅ := h.gap₅
  rest := h.starts_rest hplain

theorem gap_of_cons {c : Char} {b : List Char} (h : Blank (c :: b)) : Gap (c :: b) := ⟨by simp, h⟩

/-- The words from the role on. -/
theorem Reads.words_rest (h : Reads p g) (hplain : g.Plain) : Ending (words p.rest) ∧
    (Close (words p.rest) → p.finish = [] ∨ p.finish = [';']) ∧
    ((g.grantOption = true ∧ ∃ ws, words p.rest = g.grantee.written :: ws ∧ ws ≠ []) ∨
      (g.grantOption = false ∧ p.rest = g.grantee.written ++ p.finish)) := by
  have hrole := h.solid_role hplain
  have hnot := (h.names g.grantee List.mem_cons_self).not_to
  have hrest := h.rest
  rcases h.option with ⟨hopt, hoption⟩ | ⟨hopt, hoption⟩
  · obtain ⟨w, gr, o, hgr, ho, hwords⟩ := hoption.words
    have hlen : o.length = 6 := ho.length
    have hclose : ∀ fin, Solid fin ∨ fin = [] → p.finish = fin → words p.rest =
        [g.grantee.written, w, gr, o ++ fin] := by
      intro fin hfin heq
      rw [hrest, heq, hwords _ fin hfin, words_solid hrole]
      rfl
    rcases h.finish with hfin | ⟨b, hb, hfin⟩
    · have hw := hclose [] (.inr rfl) hfin
      refine ⟨?_, fun _ => .inl hfin, .inl ⟨hopt, _, hw, by simp⟩⟩
      rw [hw, List.append_nil]
      exact .close (.option _ w gr o hgr.length hlen.ge)
    · cases b with
      | nil =>
          have hw := hclose [';'] (.inl solid_semicolon) hfin
          refine ⟨?_, fun _ => .inr hfin, .inl ⟨hopt, _, hw, by simp⟩⟩
          rw [hw]
          refine .close (.option _ w gr _ hgr.length ?_)
          rw [List.length_append]
          omega
      | cons c b =>
          have hw : words p.rest = [g.grantee.written, w, gr, o, [';']] := by
            rw [hrest, hfin, ← List.append_assoc, words_append_gap (gap_of_cons hb),
              words_solid solid_semicolon]
            have hone := hwords g.grantee.written [] (.inr rfl)
            rw [List.append_nil, List.append_nil, words_solid hrole] at hone
            rw [hone]
            rfl
          refine ⟨?_, ?_, .inl ⟨hopt, _, hw, by simp⟩⟩
          · rw [hw]
            exact .optionApart _ w gr o hlen
          · rw [hw]
            intro hc
            cases hc
  · rw [hoption, List.nil_append] at hrest
    rcases h.finish with hfin | ⟨b, hb, hfin⟩
    · refine ⟨?_, fun _ => .inl hfin, .inr ⟨hopt, hrest⟩⟩
      rw [hrest, hfin, List.append_nil, words_solid hrole]
      exact .close (.role _)
    · cases b with
      | nil =>
          have hsolid : Solid p.rest := by
            rw [hrest, hfin, List.nil_append]
            refine ⟨by simp, fun c hc => ?_⟩
            rcases List.mem_append.mp hc with hc | hc
            · exact hrole.2 c hc
            · exact solid_semicolon.2 c hc
          refine ⟨?_, fun _ => .inr hfin, .inr ⟨hopt, hrest⟩⟩
          rw [words_solid hsolid]
          exact .close (.role _)
      | cons c b =>
          have hw : words p.rest = [g.grantee.written, [';']] := by
            rw [hrest, hfin, words_append_gap (gap_of_cons hb), words_solid hrole,
              words_solid solid_semicolon]
            rfl
          refine ⟨?_, ?_, .inr ⟨hopt, hrest⟩⟩
          · rw [hw]
            exact .roleApart _ hnot
          · rw [hw]
            intro hc
            cases hc

/-- The role that the expression captures. -/
theorem Reads.role (h : Reads p g) (hplain : g.Plain) {role : List Char} {option : Bool}
    (hgrantee : Grantee p.rest role option) :
    role = g.grantee.written ∧ option = g.grantOption := by
  obtain ⟨-, hclosed, hkind⟩ := h.words_rest hplain
  have hrole := h.solid_role hplain
  have hsemi := (hplain g.grantee List.mem_cons_self).no_semicolon
  rcases hkind with ⟨hopt, ws, hwords, hws⟩ | ⟨hopt, hrest⟩
  · obtain ⟨-, ⟨-, hone, -⟩ | ⟨rfl, ws', hwords', -⟩⟩ := hgrantee.words
    · rw [hone] at hwords
      exact absurd (List.cons.inj hwords).2.symm hws
    · rw [hwords'] at hwords
      exact ⟨(List.cons.inj hwords).1, hopt.symm⟩
  · rw [hopt]
    exact hgrantee.of_solid hrest hrole hsemi (hclosed hgrantee.words.1)

/-- A grant of the map that is the one that is written. -/
structure Understood (pg : ParsedGrant) (g : WrittenGrant) : Prop where
  table : pg.table = Js.join "." (g.table.map (·.raw))
  role : pg.role = g.grantee.raw
  privileges : ∀ w, w ∈ pg.privileges ↔
    w ∈ g.privileges ∨ (g.grantOption = true ∧ w = "GRANT OPTION")

/-- The groups of a match. -/
theorem Reads.exec (h : Reads p g) (hplain : g.Plain) {m : GrantMatch}
    (hexec : GRANT_LINE_RE.exec p.text = some m) :
    m.rawTable = tableText g.table ∧ m.rawRole = g.grantee.written ∧ m.grantOption = g.grantOption ∧
      splitPrivileges toUpperCase m.rawPrivileges = splitPrivileges toUpperCase p.privileges := by
  obtain ⟨c, hc, htext, hpriv, -, -, htable, hgrantee⟩ := exec_grantLine hexec
  obtain ⟨htab, hrest, hpad⟩ := Cut.unique hc (h.ok hplain) htext.symm hgrantee.words.1
    (h.words_rest hplain).1
  rw [hrest] at hgrantee
  obtain ⟨hrole, hoption⟩ := h.role hplain hgrantee
  refine ⟨htable.symm.trans (htab.trans h.table), hrole, hoption, ?_⟩
  rw [← hpriv, ← splitPrivileges_pad hc.gap₁.2 hc.gap₂.2, hpad,
    splitPrivileges_pad h.gap₁.2 h.gap₂.2]

theorem Reads.parse (hup : AsciiUpper toUpperCase) (h : Reads p g) (hplain : g.Plain)
    {m : GrantMatch} (hexec : GRANT_LINE_RE.exec p.text = some m) :
    Understood (grantOf toUpperCase m) g := by
  obtain ⟨htable, hrole, hoption, hprivileges⟩ := @Reads.exec toUpperCase _ _ h hplain _ hexec
  rw [h.privileges.split hup] at hprivileges
  refine ⟨?_, ?_, fun w => ?_⟩
  · rw [grantOf, htable]
    exact stripQuotes_tableText fun i hi => hplain i (List.mem_cons_of_mem _ hi)
  · show stripQuotes m.rawRole = _
    rw [hrole, stripQuotes, (hplain g.grantee List.mem_cons_self).strip, String.ofList_toList]
  · rw [grantOf, mem_addAll, hprivileges, hoption, List.mem_append]
    cases g.grantOption <;> simp

/-- A line ends with the role, with `OPTION` or with the semicolon. -/
theorem Reads.ends_rest (h : Reads p g) (hplain : g.Plain) : Ends p.rest := by
  rw [h.rest]
  rcases h.finish with hfin | ⟨b, -, hfin⟩
  · rcases h.option with ⟨-, s₁, w, s₂, gr, s₃, o, hoption, -, -, -, -, -, ho⟩ | ⟨-, hoption⟩
    · have heq : g.grantee.written ++ (p.option ++ p.finish) =
          (g.grantee.written ++ (s₁ ++ (w ++ (s₂ ++ (gr ++ s₃))))) ++ o := by
        rw [hfin, hoption]
        simp only [List.append_assoc, List.append_nil]
      rw [heq]
      exact (ho.solid (by decide) (by decide)).ends _
    · rw [hoption, hfin]
      simpa using (h.solid_role hplain).ends []
  · rw [hfin, ← List.append_assoc, ← List.append_assoc]
    exact solid_semicolon.ends _

theorem Reads.trim_line (h : Reads p g) (hplain : g.Plain) : trim p.line = p.text := by
  have hok := h.ok hplain
  have hstarts : Starts p.text := by
    rw [Cut.text, Cut.head, List.append_assoc]
    exact (hok.grant.solid (by decide) (by decide)).starts _
  have hends : Ends p.text := by
    rw [Cut.text, ← List.append_assoc, ← List.append_assoc]
    exact (h.ends_rest hplain).append _
  rw [Pieces.line, trim_blank_append h.lead, trim_append_blank h.trail,
    trim_eq_self hstarts hends]

end Reading

theorem Written.exec {line : String} {g : WrittenGrant} (h : Written line g) (hplain : g.Plain)
    {m : GrantMatch} (hexec : GRANT_LINE_RE.exec (trim line.toList) = some m) :
    m.rawTable = tableText g.table ∧ m.rawRole = g.grantee.written := by
  obtain ⟨p, hreads, hline⟩ := h
  rw [hline, hreads.trim_line hplain] at hexec
  obtain ⟨htable, hrole, -⟩ := @Reads.exec id _ _ hreads hplain _ hexec
  exact ⟨htable, hrole⟩

/-- A line that is understood and is the text of a grant of plain names is understood as it. -/
theorem Written.understood (hup : AsciiUpper toUpperCase) {line : String} {g : WrittenGrant}
    (h : Written line g) (hplain : g.Plain) {pg : ParsedGrant}
    (hparse : parseGrantLine toUpperCase line = some pg) : Understood pg g := by
  obtain ⟨p, hreads, hline⟩ := h
  rw [parseGrantLine, hline, hreads.trim_line hplain] at hparse
  obtain ⟨m, hexec, rfl⟩ := Option.map_eq_some_iff.mp hparse
  exact hreads.parse hup hplain hexec

end Policy
