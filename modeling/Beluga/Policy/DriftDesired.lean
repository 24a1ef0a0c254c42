import Beluga.Policy.GrantText
import Beluga.Policy.Privileges
import Beluga.Policy.NoDrift

/-! # The grants of the compiled script

`diffState` reads the declared grants back from the text of the script. Of all its
lines only the grants of tables are understood, each as the statement that it is
(`desired_facts`): the others have no `ON` or `TABLE` before the name.
-/

namespace Policy

open Text Matcher

/-! ## Names -/

theorem nameRest_ne {c : Char} (h : nameRest c = true) :
    Regex.space c = false ∧ c ≠ ';' ∧ c ≠ '"' ∧ c ≠ '/' ∧ c ≠ ',' := by
  rw [nameRest, Bool.or_eq_true, decide_eq_true_eq] at h
  rcases h with h | rfl
  · obtain ⟨hspace, hsemi, hquote, -, hslash, -⟩ := identRest_ne h
    refine ⟨hspace, hsemi, hquote, hslash, ?_⟩
    rintro rfl
    exact absurd h (by decide)
  · decide

/-- Names have no white space. -/
theorem solid_of_name {s : String} (h : ROLE_NAME.test s = true) :
    Solid s.toList ∧ ∀ c ∈ s.toList, nameRest c = true := by
  obtain ⟨c, cs, heq, hc, hcs⟩ := (Regex.test_ident identStart nameRest s).mp h
  have hall : ∀ x ∈ s.toList, nameRest x = true := by
    rw [heq]
    intro x hx
    rcases List.mem_cons.mp hx with rfl | hx
    · simp [nameRest, identRest, hc]
    · exact hcs x hx
  exact ⟨⟨by simp [heq], fun x hx => (nameRest_ne (hall x hx)).1⟩, hall⟩

theorem solid_of_identifier {s : String} (h : IDENTIFIER.test s = true) :
    Solid s.toList ∧ ∀ c ∈ s.toList, identRest c = true := by
  have hall := identRest_of_identifier h
  obtain ⟨c, cs, heq, -⟩ := identifier_iff.mp h
  exact ⟨⟨by simp [heq], fun x hx => (identRest_ne (hall x hx)).1⟩, hall⟩

theorem identRest_toLower {c : Char} (h : identRest c = true) : identRest c.toLower = true := by
  by_cases hc : c.val ≥ 'A'.val ∧ c.val ≤ 'Z'.val
  · have hlower : c.toLower.val = c.val + ('a'.val - 'A'.val) := congrArg Char.val (dif_pos hc)
    simp only [ge_iff_le, UInt32.le_iff_toNat_le] at hc
    simp only [identRest, identStart, Bool.or_eq_true, Bool.and_eq_true, decide_eq_true_eq,
      Char.le_def, hlower, UInt32.le_iff_toNat_le, UInt32.toNat_add]
    left
    left
    right
    simp at hc ⊢
    omega
  · rwa [show c.toLower = c from dif_neg hc]

/-- A PG role name is an identifier. -/
theorem identRest_toPgRole {role : String} (h : ROLE_NAME.test role = true) :
    Solid (toPgRole role).toList ∧ ∀ c ∈ (toPgRole role).toList, identRest c = true := by
  obtain ⟨hsolid, hall⟩ := solid_of_name h
  have hchars : ∀ c ∈ (toPgRole role).toList, identRest c = true := by
    rw [toPgRole, String.toList_ofList]
    intro c hc
    obtain ⟨x, hx, rfl⟩ := List.mem_map.mp hc
    have hname := hall x hx
    split
    · rfl
    · rename_i hne
      rw [nameRest, Bool.or_eq_true, decide_eq_true_eq] at hname
      exact identRest_toLower (hname.resolve_right hne)
  refine ⟨⟨?_, fun c hc => (identRest_ne (hchars c hc)).1⟩, hchars⟩
  rw [toPgRole, String.toList_ofList]
  exact fun hnil => hsolid.1 (List.map_eq_nil_iff.mp hnil)

theorem stripQuotes_plain {cs : List Char} (h : '"' ∉ cs) : stripQuotes cs = String.ofList cs := by
  rw [stripQuotes, List.filter_eq_self.mpr]
  intro c hc
  have hne : c ≠ '"' := fun heq => h (heq ▸ hc)
  simpa using hne

/-! ## Grants with single spaces -/

/-- The privileges of a statement. -/
def privilegeText (ps : List Privilege) : List Char :=
  (Js.join ", " (ps.map Privilege.sql)).toList

/-- `GRANT … ON [TABLE ]… TO …[;]`. -/
def spaced (ps : List Privilege) (keyword : Bool) (table role : List Char) (semicolon : Bool) :
    Cut where
  grant := "GRANT".toList
  s₁ := [' ']
  privileges := privilegeText ps
  s₂ := [' ']
  on := "ON".toList
  s₃ := [' ']
  keyword := if keyword then "TABLE ".toList else []
  table := table
  s₄ := [' ']
  to_ := "TO".toList
  s₅ := [' ']
  rest := role ++ if semicolon then [';'] else []

section Spaced

variable {toUpperCase : String → String} {ps : List Privilege} {keyword semicolon : Bool}
  {table role : List Char}

theorem gap_space : Gap [' '] := ⟨by simp, by decide⟩

theorem spaced_finish : (if semicolon then [';'] else []) = ([] : List Char) ∨
    (if semicolon then [';'] else []) = [';'] := by
  cases semicolon
  · exact .inl rfl
  · exact .inr rfl

theorem spaced_ok (htable : Solid table) (hrole : Solid role) :
    (spaced ps keyword table role semicolon).Ok where
  grant := rfl
  gap₁ := gap_space
  gap₂ := gap_space
  on := rfl
  gap₃ := gap_space
  keyword := by
    cases keyword with
    | false => exact .inl rfl
    | true => exact .inr ⟨"TABLE".toList, [' '], rfl, rfl, gap_space⟩
  table := htable
  gap₄ := gap_space
  to_ := rfl
  gap₅ := gap_space
  rest := hrole.starts _

theorem Privilege.sql_keyword (p : Privilege) : p.sql ∈ "ALL" :: TABLE_PRIVILEGES := by
  cases p <;> decide

theorem privilegeText_cons (p q : Privilege) (ps : List Privilege) :
    privilegeText (p :: q :: ps) =
      p.sql.toList ++ ([] ++ ',' :: ([' '] ++ privilegeText (q :: ps))) := by
  simp [privilegeText, Js.join_cons_cons, show (", " : String).toList = [',', ' '] from rfl]

theorem privilegeText_reads (hne : ps ≠ []) :
    PrivilegeText (ps.map Privilege.sql) (privilegeText ps) := by
  induction ps with
  | nil => exact absurd rfl hne
  | cons p rest ih =>
      cases rest with
      | nil => exact .one p.sql _ p.sql_keyword (by simp [privilegeText, Letters])
      | cons q rest =>
          rw [privilegeText_cons]
          exact .cons p.sql _ [] [' '] _ _ p.sql_keyword rfl (by simp [Blank])
            gap_space.2 (ih (by simp))

theorem Privilege.sql_text (p : Privilege) : p.sql.toList ≠ [] ∧ ∀ c ∈ p.sql.toList, dot c = true := by
  cases p <;> decide

theorem dot_privilegeText : ∀ c ∈ privilegeText ps, dot c = true := by
  induction ps with
  | nil => exact fun c hc => absurd hc List.not_mem_nil
  | cons p rest ih =>
      cases rest with
      | nil => exact p.sql_text.2
      | cons q rest =>
          rw [privilegeText_cons]
          intro c hc
          simp only [List.nil_append, List.mem_append, List.mem_cons, List.not_mem_nil,
            or_false] at hc
          rcases hc with hc | rfl | rfl | hc
          · exact p.sql_text.2 c hc
          · rfl
          · rfl
          · exact ih c hc

theorem privilegeText_eq_nil : privilegeText ps = [] ↔ ps = [] := by
  constructor
  · intro h
    cases ps with
    | nil => rfl
    | cons p rest =>
        cases rest with
        | nil => exact absurd h p.sql_text.1
        | cons q rest =>
            rw [privilegeText_cons] at h
            exact absurd (List.append_eq_nil_iff.mp h).1 p.sql_text.1
  · rintro rfl
    rfl

/-- The cut of a match is that of the statement. -/
theorem spaced_exec (htable : Solid table) (hrole : Solid role) (hsemi : ';' ∉ role)
    {m : GrantMatch}
    (hexec : GRANT_LINE_RE.exec (spaced ps keyword table role semicolon).text = some m) :
    m.rawTable = table ∧ m.rawRole = role ∧ m.grantOption = false ∧ ∃ b b', Gap b ∧ Gap b' ∧
      m.rawPrivileges ≠ [] ∧ b ++ (m.rawPrivileges ++ b') = [' '] ++ (privilegeText ps ++ [' ']) := by
  have hok := @spaced_ok ps keyword semicolon _ _ htable hrole
  obtain ⟨c, hc, htext, hpriv, hne, -, htab, hgrantee⟩ := exec_grantLine hexec
  have hword := words_solid (solid_append_finish hrole (@spaced_finish semicolon))
  obtain ⟨htable', hrest, hpad⟩ := Cut.unique hc hok htext.symm hgrantee.words.1 (by
    rw [show (spaced ps keyword table role semicolon).rest =
      role ++ if semicolon then [';'] else [] from rfl, hword]
    exact .close (.role _))
  obtain ⟨hrole', hoption⟩ := hgrantee.of_solid hrest hrole hsemi spaced_finish
  rw [hpriv] at hpad hne
  exact ⟨htab.symm.trans htable', hrole', hoption, c.s₁, c.s₂, hc.gap₁, hc.gap₂, hne, hpad⟩

theorem spaced_trim (htable : Solid table) (hrole : Solid role) :
    trim (spaced ps keyword table role semicolon).text =
      (spaced ps keyword table role semicolon).text := by
  have hok := @spaced_ok ps keyword semicolon _ _ htable hrole
  refine trim_eq_self ?_ ?_
  · rw [Cut.text, Cut.head, List.append_assoc]
    exact (hok.grant.solid (by decide) (by decide)).starts _
  · rw [Cut.text, ← List.append_assoc, ← List.append_assoc]
    exact (solid_append_finish hrole spaced_finish).ends _

variable {line : String}

/-- A line without privileges is not understood. -/
theorem spaced_none (htable : Solid table) (hrole : Solid role) (hsemi : ';' ∉ role)
    (hline : line.toList = (spaced [] keyword table role semicolon).text) :
    parseGrantLine toUpperCase line = none := by
  by_contra hsome
  obtain ⟨g, hg⟩ := Option.ne_none_iff_exists'.mp hsome
  obtain ⟨m, hexec, -⟩ := parseGrantLine_eq_some hg
  rw [hline, spaced_trim htable hrole] at hexec
  obtain ⟨-, -, -, b, b', hb, hb', hne, hpad⟩ := spaced_exec htable hrole hsemi hexec
  have hlen := congrArg List.length hpad
  have h₁ := List.length_pos_iff.mpr hb.1
  have h₂ := List.length_pos_iff.mpr hb'.1
  have h₃ := List.length_pos_iff.mpr hne
  simp only [List.length_append, privilegeText, List.map_nil, Js.join_nil] at hlen
  simp at hlen
  omega

/-- A grant of the map that is a statement. -/
structure ReadAs (g : ParsedGrant) (ps : List Privilege) (table role : List Char) : Prop where
  table : g.table = stripQuotes table
  role : g.role = stripQuotes role
  privileges : ∀ w, w ∈ g.privileges ↔ ∃ p ∈ ps, w = p.sql

theorem spaced_some (hup : AsciiUpper toUpperCase) (hne : ps ≠ []) (htable : Solid table)
    (hrole : Solid role) (hsemi : ';' ∉ role)
    (hline : line.toList = (spaced ps keyword table role semicolon).text) :
    ∃ g, parseGrantLine toUpperCase line = some g ∧ ReadAs g ps table role := by
  have hok := @spaced_ok ps keyword semicolon _ _ htable hrole
  have htext := privilegeText_eq_nil.not.mpr hne
  obtain ⟨m, hexec⟩ := hok.parses htext dot_privilegeText hrole spaced_finish rfl
  refine ⟨grantOf toUpperCase m, ?_, ?_⟩
  · rw [parseGrantLine, hline, spaced_trim htable hrole, hexec]
    rfl
  obtain ⟨htab, hrole', hoption, b, b', hb, hb', -, hpad⟩ := spaced_exec htable hrole hsemi hexec
  have hsplit : splitPrivileges toUpperCase m.rawPrivileges = ps.map Privilege.sql := by
    rw [← splitPrivileges_pad hb.2 hb'.2, hpad, splitPrivileges_pad gap_space.2 gap_space.2]
    exact (privilegeText_reads hne).split hup
  refine ⟨?_, ?_, fun w => ?_⟩
  · rw [grantOf, htab]
  · rw [grantOf, hrole']
  · rw [grantOf, mem_addAll, hsplit, hoption]
    simp [eq_comm]

end Spaced

/-! ## The lines of the script -/

/-- Lines that no statement stands in. -/
def DdlItem.framing : DdlItem → List String
  | .line text => [text]
  | .stmt _ => []
  | .block _ => ["DO $$", "BEGIN", "END $$;"]

theorem DdlItem.mem_lines {item : DdlItem} {line : String} :
    line ∈ item.lines ↔ line ∈ item.framing ∨ ∃ s ∈ item.stmts, line ∈ s.lines := by
  cases item with
  | line text => simp [lines, framing, stmts]
  | stmt s => simp [lines, framing, stmts]
  | block ss =>
      simp only [lines, framing, stmts, List.mem_append, List.mem_flatMap, List.mem_cons,
        List.not_mem_nil, or_false]
      rw [or_right_comm]
      simp only [or_assoc]

def pgLines (d : Declaration) : List String := (pgItems d).flatMap DdlItem.lines

/-- The lines of `pgItems` that are always the same. -/
def FRAMING : List String :=
  ["-- 자동 생성 — 직접 수정하지 말 것. 원천: policies/*.yaml", "", "-- 1. 권한 롤 (NOLOGIN, 상속 가능)",
    "DO $$", "BEGIN", "END $$;", "-- 2. 롤 상속 (D19)",
    "-- 3. 스키마 및 테이블 권한 (allow-by-role, 명시적 GRANT만)",
    "-- 4. LOGIN 계정 (D20, LDAP uid — 하이픈 보존, toPgRole() 미적용)",
    "-- 5. LOGIN 계정을 정책 롤에 바인딩",
    "-- 6. CONNECT 권한 (테이블 그랜트 + 해당 DB의 LOGIN memberOf 교집합에서 유도)"]

variable {d : Declaration}

theorem framing_stmts {ss : List Stmt} {item : DdlItem} (h : item ∈ ss.map DdlItem.stmt) :
    item.framing = [] := by
  obtain ⟨s, -, rfl⟩ := List.mem_map.mp h
  rfl

theorem mem_framing {item : DdlItem} (h : item ∈ pgItems d) : item.framing ⊆ FRAMING := by
  have hstmts : ∀ ss : List Stmt, item ∈ ss.map DdlItem.stmt → item.framing ⊆ FRAMING := by
    intro ss hmem
    rw [framing_stmts hmem]
    exact List.nil_subset _
  have hconnect : item ∈ connectItems d → item.framing ⊆ FRAMING := by
    intro hmem
    unfold connectItems at hmem
    split at hmem
    · simp only [List.mem_append, List.mem_cons, List.not_mem_nil, or_false] at hmem
      rcases hmem with (rfl | rfl) | hmem
      · simp [DdlItem.framing, FRAMING]
      · simp [DdlItem.framing, FRAMING]
      · exact hstmts _ hmem
    · cases hmem
  have hlogin : item ∈ loginItems d → item.framing ⊆ FRAMING := by
    intro hmem
    unfold loginItems at hmem
    split at hmem
    · simp only [List.mem_append, List.mem_cons, List.not_mem_nil, or_false] at hmem
      rcases hmem with ((rfl | rfl | rfl | rfl | rfl) | hmem) | hmem
      all_goals first | exact hstmts _ hmem | exact hconnect hmem | simp [DdlItem.framing, FRAMING]
    · cases hmem
  simp only [pgItems, List.mem_append, List.mem_cons, List.not_mem_nil, or_false] at h
  rcases h with ((((((((h | h) | h) | h) | h) | h) | h) | h) | h) | rfl
  · rcases h with rfl | rfl | rfl <;> simp [DdlItem.framing, FRAMING]
  · obtain ⟨r, -, rfl⟩ := List.mem_map.mp h
    simp [DdlItem.framing, FRAMING]
  · rcases h with rfl | rfl <;> simp [DdlItem.framing, FRAMING]
  · exact hstmts _ h
  · rcases h with rfl | rfl <;> simp [DdlItem.framing, FRAMING]
  · exact hstmts _ h
  · exact hstmts _ h
  · exact hstmts _ h
  · exact hlogin h
  · simp [DdlItem.framing, FRAMING]

theorem mem_pgLines {line : String} (h : line ∈ pgLines d) :
    line ∈ FRAMING ∨ ∃ s, Emitted d s ∧ line ∈ s.lines := by
  obtain ⟨item, hitem, hline⟩ := List.mem_flatMap.mp h
  rcases DdlItem.mem_lines.mp hline with hframing | ⟨s, hs, hline'⟩
  · exact .inl (mem_framing hitem hframing)
  · exact .inr ⟨s, mem_ddl.mp (List.mem_flatMap.mpr ⟨item, hitem, hs⟩), hline'⟩

theorem Emitted.mem_pgLines {s : Stmt} (hs : Emitted d s) {line : String} (h : line ∈ s.lines) :
    line ∈ pgLines d := by
  obtain ⟨item, hitem, hstmt⟩ := List.mem_flatMap.mp (mem_ddl.mpr hs)
  exact List.mem_flatMap.mpr ⟨item, hitem, DdlItem.mem_lines.mpr (.inr ⟨s, hstmt, h⟩)⟩

/-! ## Lines that are no grants of tables -/

/-- A line of its own that is not understood. -/
structure Idle (toUpperCase : String → String) (line : String) : Prop where
  parse : parseGrantLine toUpperCase line = none
  newline : '\n' ∉ line.toList

section Lines

variable {toUpperCase : String → String} {line : String}

theorem idle_framing (h : line ∈ FRAMING) : Idle toUpperCase line := by
  have hall : ∀ line ∈ FRAMING, '\n' ∉ line.toList ∧
      ((words line.toList).length < 5 ∨ ((words line.toList).headD []).length ≠ 5) := by
    decide +kernel
  obtain ⟨hnewline, hwords⟩ := hall line h
  refine ⟨?_, hnewline⟩
  rcases hwords with hshort | hhead
  · exact not_parsed_of_short hshort
  · cases hw : words line.toList with
    | nil => exact not_parsed_of_short (by simp [hw])
    | cons w ws =>
        rw [hw] at hhead
        exact not_parsed_of_head hw hhead

theorem newline_solid {cs : List Char} (h : Solid cs) : '\n' ∉ cs :=
  fun hmem => absurd (h.2 _ hmem) (by decide)

/-- The words of `… name TO role;`. -/
theorem words_to {pre name role : List Char} (hname : Solid name) (hrole : Solid role)
    (hline : line.toList = pre ++ ' ' :: (name ++ ' ' :: ('T' :: 'O' :: ' ' :: (role ++ [';'])))) :
    words line.toList = words pre ++ [name, ['T', 'O'], role ++ [';']] := by
  have hto : words ('T' :: 'O' :: ' ' :: (role ++ [';'])) = [['T', 'O'], role ++ [';']] := by
    have hsplit := words_append_cons (c := ' ') (by decide) ['T', 'O'] (role ++ [';'])
    rw [words_solid (solid_append_finish hrole (.inr rfl))] at hsplit
    exact hsplit
  rw [hline, words_append_cons (by decide), words_append_cons (by decide), words_solid hname, hto]
  rfl

theorem newline_to {pre name role : List Char} (hpre : '\n' ∉ pre) (hname : Solid name)
    (hrole : Solid role)
    (hline : line.toList = pre ++ ' ' :: (name ++ ' ' :: ('T' :: 'O' :: ' ' :: (role ++ [';'])))) :
    '\n' ∉ line.toList := by
  rw [hline]
  simp [hpre, newline_solid hname, newline_solid hrole]

/-- Rights on something else than a table. -/
theorem idle_kind {pre kind name role : List Char} {front : List (List Char)}
    (hwords : words pre = front ++ [kind]) (hon : kind.length ≠ 2) (htable : kind.length ≠ 5)
    (hpre : '\n' ∉ pre) (hname : Solid name) (hrole : Solid role)
    (hline : line.toList = pre ++ ' ' :: (name ++ ' ' :: ('T' :: 'O' :: ' ' :: (role ++ [';'])))) :
    Idle toUpperCase line := by
  have hall := words_to hname hrole hline
  rw [hwords, List.append_assoc] at hall
  exact ⟨not_parsed_of_kind hall hon htable rfl, newline_to hpre hname hrole hline⟩

/-- A line that begins with a word that is not `GRANT`. -/
theorem idle_head {pre rest : List Char} {w : List Char} (hwords : words pre = [w])
    (hlen : w.length ≠ 5) (hpre : '\n' ∉ pre) (hrest : '\n' ∉ rest)
    (hline : line.toList = pre ++ ' ' :: rest) : Idle toUpperCase line := by
  have hall : words line.toList = w :: words rest := by
    rw [hline, words_append_cons (by decide), hwords]
    rfl
  refine ⟨not_parsed_of_head hall hlen, ?_⟩
  rw [hline]
  simp [hpre, hrest]

/-! ## The statements -/

/-- Names that stand in statements: one word each. -/
structure Name (i : Ident) : Prop where
  text : Solid i.text.toList
  raw : Solid i.raw.toList

theorem name_pgRole {role : String} (h : ROLE_NAME.test role = true) : Name (pgRole role) :=
  ⟨(identRest_toPgRole h).1, (identRest_toPgRole h).1⟩

theorem name_login {login : String} (h : LOGIN_NAME.test login = true) :
    Name (toPgLoginIdentifier login) := by
  obtain ⟨hsolid, -⟩ := solid_of_name h
  refine ⟨⟨?_, fun c hc => ?_⟩, hsolid⟩
  · simp [toPgLoginIdentifier, Ident.text]
  · simp only [toPgLoginIdentifier, Ident.text, String.toList_append,
      show ("\"" : String).toList = ['"'] from rfl, List.mem_append, List.mem_singleton] at hc
    rcases hc with (rfl | hc) | rfl
    · decide
    · exact hsolid.2 c hc
    · decide

theorem idle_createRole {role : Ident} {login : Bool} (hname : Name role)
    (h : line ∈ (Stmt.createRole role login).lines) : Idle toUpperCase line := by
  simp only [Stmt.lines, List.mem_cons, List.not_mem_nil, or_false] at h
  rcases h with rfl | rfl | rfl
  · refine @idle_head _ _ "  IF".toList
      ("NOT EXISTS (SELECT FROM pg_roles WHERE rolname = '".toList ++
        (role.raw.toList ++ "') THEN".toList)) "IF".toList (by decide) (by decide) (by decide) ?_ ?_
    · simp [newline_solid hname.raw]
    · simp
  · refine @idle_head _ _ "    CREATE".toList
      ("ROLE ".toList ++ (role.text.toList ++ (" WITH ".toList ++
        ((if login then "LOGIN" else "NOLOGIN" : String).toList ++ " INHERIT;".toList))))
      "CREATE".toList (by decide) (by decide) (by decide) ?_ ?_
    · cases login <;> simp [newline_solid hname.text]
    · simp
  · refine @idle_head _ _ "  END".toList "IF;".toList "END".toList (by decide)
      (by decide) (by decide) (by decide) rfl

theorem idle_grantRole {role member : Ident} (hrole : Name role) (hmember : Name member)
    (h : line ∈ (Stmt.grantRole role member).lines) : Idle toUpperCase line := by
  simp only [Stmt.lines, List.mem_singleton] at h
  subst h
  have hline : ("GRANT " ++ role.text ++ " TO " ++ member.text ++ ";").toList = "GRANT".toList ++
      ' ' :: (role.text.toList ++ ' ' :: ('T' :: 'O' :: ' ' :: (member.text.toList ++ [';']))) := by
    simp
  have hwords := words_to hrole.text hmember.text hline
  refine ⟨not_parsed_of_short ?_, newline_to (by decide) hrole.text hmember.text hline⟩
  rw [hwords, show words "GRANT".toList = ["GRANT".toList] from by decide]
  exact Nat.lt_succ_self 4

theorem idle_grantUsage {schema : String} {role : Ident} (hschema : Solid schema.toList)
    (hrole : Name role) (h : line ∈ (Stmt.grantUsage schema role).lines) :
    Idle toUpperCase line := by
  simp only [Stmt.lines, List.mem_singleton] at h
  subst h
  exact @idle_kind _ _ "GRANT USAGE ON SCHEMA".toList "SCHEMA".toList _ _
    ["GRANT".toList, "USAGE".toList, "ON".toList] (by decide) (by decide) (by decide)
    (by decide) hschema hrole.text (by simp)

theorem idle_grantSequences {schema : String} {role : Ident} (hschema : Solid schema.toList)
    (hrole : Name role) (h : line ∈ (Stmt.grantSequences schema role).lines) :
    Idle toUpperCase line := by
  simp only [Stmt.lines, List.mem_singleton] at h
  subst h
  exact @idle_kind _ _ "GRANT USAGE, SELECT ON ALL SEQUENCES IN SCHEMA".toList
    "SCHEMA".toList _ _
    ["GRANT".toList, "USAGE,".toList, "SELECT".toList, "ON".toList, "ALL".toList,
      "SEQUENCES".toList, "IN".toList] (by decide) (by decide) (by decide) (by decide) hschema
    hrole.text (by simp)

theorem idle_grantConnect {database : String} {role : Ident} (hdatabase : Solid database.toList)
    (hrole : Name role) (h : line ∈ (Stmt.grantConnect database role).lines) :
    Idle toUpperCase line := by
  simp only [Stmt.lines, List.mem_singleton] at h
  subst h
  exact @idle_kind _ _ "GRANT CONNECT ON DATABASE".toList "DATABASE".toList _ _
    ["GRANT".toList, "CONNECT".toList, "ON".toList] (by decide) (by decide) (by decide)
    (by decide) hdatabase hrole.text (by simp)

/-- The line of a grant of a table. -/
theorem line_grantTable {ps : List Privilege} {table role : String}
    (h : line ∈ (Stmt.grantTable ps table (pgRole role)).lines) :
    line.toList = (spaced ps true table.toList (toPgRole role).toList true).text := by
  have htext : (pgRole role).text = toPgRole role := rfl
  simp only [Stmt.lines, List.mem_singleton, htext] at h
  subst h
  simp [spaced, Cut.text, Cut.head, Cut.middle, Cut.target, privilegeText]

end Lines

/-! ## The grants that are read back -/

theorem newline_text {ps : List Privilege} {keyword semicolon : Bool} {table role : List Char}
    (htable : Solid table) (hrole : Solid role) :
    '\n' ∉ (spaced ps keyword table role semicolon).text := by
  have hps : '\n' ∉ privilegeText ps := fun hmem => absurd (dot_privilegeText _ hmem) (by decide)
  simp only [spaced, Cut.text, Cut.head, Cut.middle, Cut.target]
  cases keyword <;> cases semicolon <;>
    simp [hps, newline_solid htable, newline_solid hrole]

/-- The characters of a resource name. -/
theorem ResourceSound.chars {res : Resource} (h : ResourceSound d res) :
    Solid res.resource.toList ∧ Solid (schemaOf res.resource).toList ∧
      ∀ c ∈ res.resource.toList, identRest c = true ∨ c = '.' := by
  obtain ⟨schema, table, -, hname, hschema, htable⟩ := h.split
  have hs := solid_of_identifier hschema
  have ht := solid_of_identifier htable
  have hchars : ∀ c ∈ res.resource.toList, identRest c = true ∨ c = '.' := by
    rw [hname]
    simp only [String.toList_append, List.mem_append, show (".": String).toList = ['.'] from rfl,
      List.mem_singleton]
    rintro c ((hc | rfl) | hc)
    · exact .inl (hs.2 c hc)
    · exact .inr rfl
    · exact .inl (ht.2 c hc)
  refine ⟨⟨?_, fun c hc => ?_⟩, ?_, hchars⟩
  · rw [hname]
    simp
  · rcases hchars c hc with hc | rfl
    · exact (identRest_ne hc).1
    · decide
  · rw [hname, schemaOf, resourceParts_dot (no_dot_of_identifier hschema)
      (no_dot_of_identifier htable)]
    exact hs.1

section Desired

variable {toUpperCase : String → String}

/-- All lines but those of grants of tables. -/
theorem Sound.idle (h : Sound d) {s : Stmt} (hs : Emitted d s) {line : String}
    (hline : line ∈ s.lines) : Idle toUpperCase line ∨
      ∃ res grant role, PgGrant d res grant role ∧ line.toList = (spaced
        (sortPrivileges grant.privileges) true res.resource.toList (toPgRole role).toList
          true).text := by
  have hrole : ∀ {res : Resource} {grant : Grant} {role : String}, PgGrant d res grant role →
      Name (pgRole role) := fun hgrant =>
    name_pgRole (((h.resources _ hgrant.declared).grants _ hgrant.granted).roles _ hgrant.listed).2
  cases hs with
  | role hr => exact .inl (idle_createRole (name_pgRole (h.role_names _ (List.mem_map_of_mem hr))) hline)
  | parent hr hp =>
      exact .inl (idle_grantRole (name_pgRole (h.parents _ hr _ hp).2)
        (name_pgRole (h.role_names _ (List.mem_map_of_mem hr))) hline)
  | usage hgrant =>
      exact .inl (idle_grantUsage (h.resources _ hgrant.declared).chars.2.1 (hrole hgrant) hline)
  | @table res grant role hgrant =>
      have htext := line_grantTable hline
      exact .inr ⟨res, grant, role, hgrant, htext⟩
  | sequences hgrant =>
      exact .inl (idle_grantSequences (h.resources _ hgrant.declared).chars.2.1 (hrole hgrant) hline)
  | login hlogin => exact .inl (idle_createRole (name_login (h.logins _ hlogin).name) hline)
  | member hlogin hm =>
      exact .inl (idle_grantRole (name_pgRole (h.role_names _ ((h.logins _ hlogin).memberOf _ hm)))
        (name_login (h.logins _ hlogin).name) hline)
  | connect hgrant hlogin =>
      exact .inl (idle_grantConnect (solid_of_identifier (h.logins _ hlogin).database).1
        (hrole hgrant) hline)

/-- What the statement of a grant is read as. -/
structure Declares (d : Declaration) (g : ParsedGrant) (res : Resource) (grant : Grant)
    (role : String) : Prop where
  declared : PgGrant d res grant role
  nonempty : grant.privileges ≠ []
  table : g.table = res.resource
  role : g.role = toPgRole role
  privileges : ∀ w, w ∈ g.privileges ↔ ∃ p ∈ grant.privileges, w = p.sql

/-- The names in the statement of a grant. -/
theorem Sound.grant_names (h : Sound d) {res : Resource} {grant : Grant} {role : String}
    (hgrant : PgGrant d res grant role) :
    Solid res.resource.toList ∧ stripQuotes res.resource.toList = res.resource ∧
      Solid (toPgRole role).toList ∧ stripQuotes (toPgRole role).toList = toPgRole role ∧
        ';' ∉ (toPgRole role).toList := by
  obtain ⟨hsolid, -, hchars⟩ := (h.resources _ hgrant.declared).chars
  obtain ⟨hrole, hroleChars⟩ := identRest_toPgRole
    (((h.resources _ hgrant.declared).grants _ hgrant.granted).roles _ hgrant.listed).2
  have hquote : '"' ∉ res.resource.toList := fun hmem =>
    (hchars _ hmem).elim (fun hc => (identRest_ne hc).2.2.1 rfl) fun hc => absurd hc (by decide)
  have hquote' : '"' ∉ (toPgRole role).toList := fun hmem =>
    (identRest_ne (hroleChars _ hmem)).2.2.1 rfl
  refine ⟨hsolid, ?_, hrole, ?_, fun hmem => (identRest_ne (hroleChars _ hmem)).2.1 rfl⟩
  · rw [stripQuotes_plain hquote, String.ofList_toList]
  · rw [stripQuotes_plain hquote', String.ofList_toList]

theorem sortPrivileges_eq_nil {ps : List Privilege} : sortPrivileges ps = [] ↔ ps = [] := by
  rw [← List.length_eq_zero_iff, ← List.length_eq_zero_iff, sortPrivileges, List.length_mergeSort]

theorem Sound.declares (h : Sound d) (hup : AsciiUpper toUpperCase) {res : Resource} {grant : Grant}
    {role line : String} (hgrant : PgGrant d res grant role) (hne : grant.privileges ≠ [])
    (hline : line.toList = (spaced (sortPrivileges grant.privileges) true res.resource.toList
      (toPgRole role).toList true).text) :
    ∃ g, parseGrantLine toUpperCase line = some g ∧ Declares d g res grant role := by
  obtain ⟨htable, hstrip, hrole, hstrip', hsemi⟩ := h.grant_names hgrant
  obtain ⟨g, hparse, hg⟩ := spaced_some hup (sortPrivileges_eq_nil.not.mpr hne) htable hrole hsemi
    hline
  refine ⟨g, hparse, hgrant, hne, hg.table.trans hstrip, hg.role.trans hstrip', fun w => ?_⟩
  rw [hg.privileges]
  simp only [mem_sortPrivileges]

theorem Sound.splitLines (h : Sound d) : splitLines (compilePgDdl d) = pgLines d := by
  have hnewline : ∀ line ∈ pgLines d, '\n' ∉ line.toList := by
    intro line hline
    rcases mem_pgLines hline with hframing | ⟨s, hs, hmem⟩
    · exact (@idle_framing id _ hframing).newline
    · rcases @Sound.idle d id h _ hs _ hmem with hidle | ⟨res, grant, role, hgrant, htext⟩
      · exact hidle.newline
      · obtain ⟨htable, -, hrole, -, -⟩ := h.grant_names hgrant
        rw [htext]
        exact newline_text htable hrole
  have hne : pgLines d ≠ [] := by
    rw [pgLines, pgItems]
    simp [DdlItem.lines]
  have hjoin : compilePgDdl d = Js.join "\n" (pgLines d) := rfl
  rw [Policy.splitLines, hjoin, Js.join, String.toList_intercalate, show ("\n" : String).toList = ['\n'] from rfl,
    List.splitOn_intercalate '\n' (by simpa using hnewline) (by simpa using hne)]
  simp

theorem Sound.mem_desired (h : Sound d) (hup : AsciiUpper toUpperCase) {g : ParsedGrant}
    (hg : g ∈ parsedGrants toUpperCase (Policy.splitLines (compilePgDdl d))) :
    ∃ res grant role, Declares d g res grant role := by
  rw [h.splitLines] at hg
  obtain ⟨line, hline, hparse⟩ := mem_parsedGrants.mp hg
  have hidle : ¬ Idle toUpperCase line := by
    intro hidle
    rw [hidle.parse] at hparse
    cases hparse
  rcases mem_pgLines hline with hframing | ⟨s, hs, hmem⟩
  · exact absurd (idle_framing hframing) hidle
  · obtain ⟨res, grant, role, hgrant, htext⟩ := (h.idle hs hmem).resolve_left hidle
    obtain ⟨htable, -, hrole, -, hsemi⟩ := h.grant_names hgrant
    have hne : grant.privileges ≠ [] := by
      intro hnil
      rw [sortPrivileges_eq_nil.mpr hnil] at htext
      rw [spaced_none htable hrole hsemi htext] at hparse
      cases hparse
    obtain ⟨g', hparse', hdeclares⟩ := h.declares hup hgrant hne htext
    rw [hparse] at hparse'
    cases hparse'
    exact ⟨res, grant, role, hdeclares⟩

theorem Sound.desired_of_grant (h : Sound d) (hup : AsciiUpper toUpperCase) {res : Resource}
    {grant : Grant} {role : String} (hgrant : PgGrant d res grant role)
    (hne : grant.privileges ≠ []) :
    ∃ g ∈ parsedGrants toUpperCase (Policy.splitLines (compilePgDdl d)), Declares d g res grant role := by
  have hs := Emitted.table hgrant
  obtain ⟨line, hmem⟩ := List.exists_mem_of_ne_nil (Stmt.grantTable
    (sortPrivileges grant.privileges) res.resource (pgRole role)).lines (List.cons_ne_nil _ _)
  have htext := line_grantTable hmem
  obtain ⟨g, hparse, hdeclares⟩ := h.declares hup hgrant hne htext
  rw [h.splitLines]
  exact ⟨g, mem_parsedGrants.mpr ⟨line, hs.mem_pgLines hmem, hparse⟩, hdeclares⟩

/-- The declared grants, by the keys that both sides are compared by. -/
theorem Sound.desired_facts (h : Sound d) (hup : AsciiUpper toUpperCase) {key w : String} :
    Facts (parsedGrants toUpperCase (Policy.splitLines (compilePgDdl d))) key w ↔
      ∃ role table p, TableDeclared d role table p ∧ key = table ++ "/" ++ toPgRole role ∧
        w = p.sql := by
  constructor
  · rintro ⟨g, hg, hkey, hw⟩
    obtain ⟨res, grant, role, hdecl⟩ := h.mem_desired hup hg
    obtain ⟨p, hp, rfl⟩ := (hdecl.privileges w).mp hw
    refine ⟨role, res.resource, p, ⟨res, grant, hdecl.declared, rfl, hp⟩, ?_, rfl⟩
    rw [← hkey, ParsedGrant.key, hdecl.table, hdecl.role]
  · rintro ⟨role, table, p, ⟨res, grant, hgrant, rfl, hp⟩, rfl, rfl⟩
    obtain ⟨g, hg, hdecl⟩ := h.desired_of_grant hup hgrant (List.ne_nil_of_mem hp)
    refine ⟨g, hg, ?_, (hdecl.privileges _).mpr ⟨p, hp, rfl⟩⟩
    rw [ParsedGrant.key, hdecl.table, hdecl.role]

theorem Sound.desired_keys (h : Sound d) (hup : AsciiUpper toUpperCase) {key : String} :
    key ∈ keysOf (parsedGrants toUpperCase (Policy.splitLines (compilePgDdl d))) ↔
      ∃ w, Facts (parsedGrants toUpperCase (Policy.splitLines (compilePgDdl d))) key w := by
  constructor
  · intro hkey
    obtain ⟨g, hg, rfl⟩ := List.mem_map.mp hkey
    obtain ⟨res, grant, role, hdecl⟩ := h.mem_desired hup hg
    obtain ⟨p, hp⟩ := List.exists_mem_of_ne_nil _ hdecl.nonempty
    exact ⟨p.sql, g, hg, rfl, (hdecl.privileges _).mpr ⟨p, hp, rfl⟩⟩
  · rintro ⟨w, g, hg, hkey, _⟩
    exact List.mem_map.mpr ⟨g, hg, hkey⟩

end Desired

end Policy
