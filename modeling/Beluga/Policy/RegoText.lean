import Beluga.Js.Template
import Beluga.Policy.Allow

/-! # The text of the policy

Values of a declaration reach the policy in comments and in string literals. Both
stay where they are put, for any declaration that compiles, validated or not.

* `rego_lines`: the physical lines are the lines that were emitted, and each is
  empty, a comment, or one of the fixed templates with literals in it.
-/

namespace Policy

open Js

variable {d : Declaration}

/-! ## Templates -/

/-- The code lines of a policy. Only literals vary. -/
inductive Template : List Piece → Prop where
  | statement {text : String}
      (h : text ∈ ["package trino", "import rego.v1", "default allow := false"]) :
      Template [.code text]
  | groups : Template [.code "groups := object.get(input, [", .literal "context", .code ", ",
      .literal "identity", .code ", ", .literal "groups", .code "], [])"]
  | allow : Template [.code "allow if \x7b"]
  | rowFilters (e : String) : Template [.code "rowFilters contains \x7b", .literal "expression",
      .code ": ", .literal e, .code "\x7d if \x7b"]
  | columnMask (e : String) : Template [.code "columnMask := \x7b", .literal "expression",
      .code ": ", .literal e, .code "\x7d if \x7b"]
  | eq (path : Path) (value : String) :
      Template [.code ("\t" ++ path.text ++ " == "), .literal value]
  | oneOf (path : Path) (values : List String) :
      Template (.code ("\t" ++ path.text ++ " in \x7b") :: literalList values ++ [.code "\x7d"])
  | someGroup : Template [.code "\tsome g in groups"]
  | member (values : List String) :
      Template (.code "\tg in \x7b" :: literalList values ++ [.code "\x7d"])
  | noGroup (values : List String) :
      Template (.code "\tevery ug in groups \x7b not ug in \x7b" :: literalList values ++
        [.code "\x7d \x7d"])
  | close : Template [.code "\x7d"]

/-! ## Fixed texts -/

/-- The texts of the templates, without literals. -/
def codeTexts : List String :=
  ["package trino", "import rego.v1", "default allow := false", "groups := object.get(input, [",
    ", ", "], [])", "allow if \x7b", "rowFilters contains \x7b", "columnMask := \x7b", ": ",
    "\x7d if \x7b", "\t", " == ", " in \x7b", "\x7d", "\tsome g in groups", "\tg in \x7b",
    "\tevery ug in groups \x7b not ug in \x7b", "\x7d \x7d"]

/-- The texts of the comments, without names. -/
def commentTexts : List String :=
  [" — ", " (", ")", " — 행 필터", ".", " — 마스킹(", "카탈로그 ", " — information_schema SELECT (",
    ", SHOW TABLES/COLUMNS 등이 내부적으로 요구)", "Trino 내장 system 카탈로그 — ",
    ", Superset 메타데이터 검증용)", "Trino 내장 system 메타데이터 — ", ", metadata/jdbc만; runtime 제외)"]

/-- What holds of the fixed texts. -/
structure FixedTexts : Prop where
  code : ∀ text ∈ codeTexts, (Piece.code text).Plain
  path : ∀ path : Path, (Piece.code path.text).Plain
  header : ∀ line ∈ regoHeader, OneLine line
  comment : ∀ text ∈ commentTexts, OneLine text
  priv : ∀ p : Privilege, OneLine p.text
  kind : ∀ kind : MaskKind, OneLine kind.text
  op : ∀ op : QueryOperation, OneLine op.text
  system : ∀ op ∈ systemMetadataOperations, OneLine op.1
  expression : stringify "expression" = "\"expression\""
  allow : Head.allow.text = render [.code "allow if \x7b"]
  groups : regoHeader[8]? = some (render [.code "groups := object.get(input, [",
    .literal "context", .code ", ", .literal "identity", .code ", ", .literal "groups",
    .code "], [])"])

-- the kernel reads each text once, here
theorem fixedTexts : FixedTexts where
  code := by decide +kernel
  path := fun path => by cases path <;> decide +kernel
  header := by decide +kernel
  comment := by decide +kernel
  priv := fun p => by cases p <;> decide +kernel
  kind := fun kind => by cases kind <;> decide +kernel
  op := fun op => by cases op <;> decide +kernel
  system := by decide +kernel
  expression := by decide +kernel
  allow := by decide +kernel
  groups := by decide +kernel

theorem plain_code {text : String} (h : text ∈ codeTexts) : (Piece.code text).Plain :=
  FixedTexts.code fixedTexts text h

theorem oneLine_text {text : String} (h : text ∈ commentTexts) : OneLine text :=
  FixedTexts.comment fixedTexts text h

theorem plain_path {path : Path} {before after : String}
    (hbefore : (Piece.code before).Plain) (hafter : (Piece.code after).Plain) :
    (Piece.code (before ++ path.text ++ after)).Plain := by
  have hpath := FixedTexts.path fixedTexts path
  intro c hc
  simp only [String.toList_append, List.mem_append] at hc
  rcases hc with (hc | hc) | hc
  · exact hbefore c hc
  · exact hpath c hc
  · exact hafter c hc

theorem plain_set {before after : String} {values : List String}
    (hbefore : (Piece.code before).Plain) (hafter : (Piece.code after).Plain) :
    ∀ p ∈ Piece.code before :: literalList values ++ [.code after], p.Plain := by
  intro p hp
  rcases List.mem_append.mp hp with hp | hp
  · rcases List.mem_cons.mp hp with rfl | hp
    · exact hbefore
    · exact plain_literalList values p hp
  · rwa [List.mem_singleton.mp hp]

theorem Template.plain {pieces : List Piece} (h : Template pieces) : ∀ p ∈ pieces, p.Plain := by
  cases h with
  | statement h =>
      refine List.forall_mem_singleton.mpr (plain_code ?_)
      exact List.mem_append_left (codeTexts.drop 3) h
  | groups =>
      simp only [List.forall_mem_cons]
      exact ⟨plain_code (by simp [codeTexts]), trivial, plain_code (by simp [codeTexts]), trivial,
        plain_code (by simp [codeTexts]), trivial, plain_code (by simp [codeTexts]), by simp⟩
  | allow => exact List.forall_mem_singleton.mpr (plain_code (by simp [codeTexts]))
  | someGroup => exact List.forall_mem_singleton.mpr (plain_code (by simp [codeTexts]))
  | close => exact List.forall_mem_singleton.mpr (plain_code (by simp [codeTexts]))
  | rowFilters e =>
      simp only [List.forall_mem_cons]
      exact ⟨plain_code (by simp [codeTexts]), trivial, plain_code (by simp [codeTexts]), trivial,
        plain_code (by simp [codeTexts]), by simp⟩
  | columnMask e =>
      simp only [List.forall_mem_cons]
      exact ⟨plain_code (by simp [codeTexts]), trivial, plain_code (by simp [codeTexts]), trivial,
        plain_code (by simp [codeTexts]), by simp⟩
  | eq path value =>
      simp only [List.forall_mem_cons]
      exact ⟨plain_path (plain_code (by simp [codeTexts])) (plain_code (by simp [codeTexts])),
        trivial, by simp⟩
  | oneOf path values =>
      exact plain_set (plain_path (plain_code (by simp [codeTexts]))
        (plain_code (by simp [codeTexts]))) (plain_code (by simp [codeTexts]))
  | member values =>
      exact plain_set (plain_code (by simp [codeTexts])) (plain_code (by simp [codeTexts]))
  | noGroup values =>
      exact plain_set (plain_code (by simp [codeTexts])) (plain_code (by simp [codeTexts]))

/-! ## The lines of a rule -/

theorem render_set (before after : String) (values : List String) :
    render (.code before :: literalList values ++ [.code after]) =
      before ++ literals values ++ after := by
  rw [render_append, render, render_literalList]
  simp [render, Piece.render, literals]

theorem condition_template {c : Condition} {line : String} (h : line ∈ c.lines) :
    ∃ pieces, Template pieces ∧ line = render pieces := by
  cases c with
  | eq path value =>
      rw [List.mem_singleton.mp h]
      exact ⟨_, .eq path value, by simp [render, Piece.render]⟩
  | oneOf path values =>
      rw [List.mem_singleton.mp h]
      refine ⟨_, .oneOf path values, ?_⟩
      rw [render_set]
      simp [setOf, ← String.toList_inj]
  | someGroup groups =>
      rcases List.mem_cons.mp h with rfl | h
      · exact ⟨_, .someGroup, by simp [render, Piece.render]⟩
      · rw [List.mem_singleton.mp h]
        refine ⟨_, .member groups, ?_⟩
        rw [render_set]
        simp [setOf, ← String.toList_inj]
  | noGroup groups =>
      rw [List.mem_singleton.mp h]
      refine ⟨_, .noGroup groups, ?_⟩
      rw [render_set]
      simp [setOf, ← String.toList_inj]

theorem head_template (head : Head) :
    ∃ pieces, Template pieces ∧ head.text = render pieces := by
  have hliteral := FixedTexts.expression fixedTexts
  cases head with
  | allow => exact ⟨_, .allow, FixedTexts.allow fixedTexts⟩
  | rowFilters e =>
      refine ⟨_, .rowFilters e, ?_⟩
      change "rowFilters contains \x7b\"expression\": " ++ stringify e ++ "\x7d if \x7b" = _
      simp [render, Piece.render, hliteral, ← String.toList_inj]
  | columnMask e =>
      refine ⟨_, .columnMask e, ?_⟩
      change "columnMask := \x7b\"expression\": " ++ stringify e ++ "\x7d if \x7b" = _
      simp [render, Piece.render, hliteral, ← String.toList_inj]

/-- A line of a policy as it should be. -/
def SafeLine (line : String) : Prop :=
  line = "" ∨ line.toList.head? = some '#' ∨
    ∃ pieces, Template pieces ∧ line = render pieces ∧
      tokens line = some (pieces.flatMap Piece.tokens)

theorem safe_of_template {line : String} (h : ∃ pieces, Template pieces ∧ line = render pieces) :
    SafeLine line ∧ OneLine line := by
  obtain ⟨pieces, htemplate, rfl⟩ := h
  exact ⟨.inr (.inr ⟨pieces, htemplate, rfl, tokens_render htemplate.plain⟩),
    oneLine_render htemplate.plain⟩

theorem safe_of_comment {comment : String} (h : OneLine comment) :
    SafeLine ("# " ++ comment) ∧ OneLine ("# " ++ comment) := by
  refine ⟨.inr (.inl ?_), OneLine.append (by decide) h⟩
  rw [String.toList_append, List.head?_append]
  rfl

theorem safe_empty : SafeLine "" ∧ OneLine "" := ⟨.inl rfl, by decide⟩

theorem safe_rule {r : Rule} (h : OneLine r.comment) {line : String} (hline : line ∈ r.lines) :
    SafeLine line ∧ OneLine line := by
  simp only [Rule.lines, List.cons_append, List.mem_cons, List.mem_append, List.mem_flatMap,
    List.not_mem_nil, or_false] at hline
  rcases hline with rfl | rfl | ⟨c, -, hc⟩ | rfl | rfl
  · exact safe_of_comment h
  · exact safe_of_template (head_template r.head)
  · exact safe_of_template (condition_template hc)
  · exact safe_of_template ⟨_, .close, by decide⟩
  · exact safe_empty

theorem safe_header {line : String} (hline : line ∈ regoHeader) :
    SafeLine line ∧ OneLine line := by
  have hone := FixedTexts.header fixedTexts line hline
  simp only [regoHeader, List.mem_cons, List.not_mem_nil, or_false] at hline
  rcases hline with rfl | rfl | rfl | rfl | rfl | rfl | rfl | rfl | rfl | rfl
  · exact ⟨.inr (.inl (by simp)), hone⟩
  · exact safe_of_template
      ⟨_, @Template.statement "package trino" (by simp), by simp [render, Piece.render]⟩
  · exact safe_empty
  · exact safe_of_template
      ⟨_, @Template.statement "import rego.v1" (by simp), by simp [render, Piece.render]⟩
  · exact safe_empty
  · exact safe_of_template
      ⟨_, @Template.statement "default allow := false" (by simp), by simp [render, Piece.render]⟩
  · exact safe_empty
  · exact ⟨.inr (.inl (by simp)), hone⟩
  · exact safe_of_template ⟨_, .groups, Option.some.inj (FixedTexts.groups fixedTexts)⟩
  · exact safe_empty

/-! ## Comments -/

theorem oneLine_sanitizeComment (value : String) : OneLine (sanitizeComment value) :=
  oneLine_flatten false value.toList

theorem oneLine_sanitized (roles : List String) :
    OneLine (join ", " (roles.map sanitizeComment)) := by
  refine OneLine.join (by decide) fun x hx => ?_
  obtain ⟨role, -, rfl⟩ := List.mem_map.mp hx
  exact oneLine_sanitizeComment role

theorem oneLine_effectiveComment (roles : List String) : OneLine (effectiveComment roles) := by
  unfold effectiveComment
  split_ifs
  · exact oneLine_sanitized roles
  · decide

theorem oneLine_comment {rules : List Rule} (hrules : regoRules d = .ok rules) {r : Rule}
    (hr : r ∈ rules) : OneLine r.comment := by
  have hpriv := FixedTexts.priv fixedTexts
  have hkind := FixedTexts.kind fixedTexts
  have hop := FixedTexts.op fixedTexts
  have hname := FixedTexts.system fixedTexts
  have hdash := @oneLine_text " — " (by simp [commentTexts])
  have hopen := @oneLine_text " (" (by simp [commentTexts])
  have hclose := @oneLine_text ")" (by simp [commentTexts])
  have hcatalog := @oneLine_text "카탈로그 " (by simp [commentTexts])
  rcases (mem_regoRules hrules).mp hr with
    ⟨res, -, -, schema, table, -, grant, -, hr⟩ | ⟨cg, -, hr⟩
  · have hres := oneLine_sanitizeComment res.resource
    simp only [grantRules, List.mem_append, List.mem_map] at hr
    rcases hr with (⟨p, -, rfl⟩ | ⟨filter, -, rfl⟩) | ⟨mask, -, rfl⟩
    · exact ((((hres.append hdash).append (hpriv p)).append hopen).append
        (oneLine_sanitized _)).append hclose
    · exact hres.append (oneLine_text (by simp [commentTexts]))
    · exact ((((hres.append (oneLine_text (by simp [commentTexts]))).append
        (oneLine_sanitizeComment _)).append (oneLine_text (by simp [commentTexts]))).append
          (hkind _)).append hclose
  · rcases mem_catalogRules.mp hr with ⟨op, -, rfl⟩ | rfl | ⟨-, ⟨op, -, rfl⟩ | ⟨op, hsys, rfl⟩⟩
    · exact (((((hcatalog.append (oneLine_sanitizeComment _)).append hdash).append
        (hop op)).append hopen).append (oneLine_effectiveComment _)).append hclose
    · exact (((hcatalog.append (oneLine_sanitizeComment _)).append
        (oneLine_text (by simp [commentTexts]))).append (oneLine_effectiveComment _)).append
          (oneLine_text (by simp [commentTexts]))
    · have hfront := @oneLine_text "Trino 내장 system 카탈로그 — " (by simp [commentTexts])
      exact (((hfront.append (hop op.1)).append hopen).append
        (oneLine_effectiveComment _)).append (oneLine_text (by simp [commentTexts]))
    · have hfront := @oneLine_text "Trino 내장 system 메타데이터 — " (by simp [commentTexts])
      exact (((hfront.append (hname op hsys)).append hopen).append
        (oneLine_effectiveComment _)).append (oneLine_text (by simp [commentTexts]))

/-- A compiled policy is the header and the lines of its rules, and each of its
physical lines is empty, a comment or an instance of a template that reads back
with its literals whole. -/
theorem rego_lines (d : Declaration) (text : String) (h : compileRego d = .ok text) :
    (∃ rules, regoRules d = .ok rules ∧
      physicalLines text = regoHeader ++ rules.flatMap Rule.lines) ∧
    ∀ line ∈ physicalLines text, SafeLine line := by
  obtain ⟨rules, hrules, rfl⟩ := map_ok h
  have hsafe : ∀ line ∈ regoHeader ++ rules.flatMap Rule.lines, SafeLine line ∧ OneLine line := by
    intro line hline
    rcases List.mem_append.mp hline with hline | hline
    · exact safe_header hline
    · obtain ⟨r, hr, hline⟩ := List.mem_flatMap.mp hline
      exact safe_rule (oneLine_comment hrules hr) hline
  have hlines : physicalLines (join "\n" (regoHeader ++ rules.flatMap Rule.lines)) =
      regoHeader ++ rules.flatMap Rule.lines :=
    physicalLines_join (by simp [regoHeader]) fun line hline => (hsafe line hline).2
  refine ⟨⟨rules, hrules, hlines⟩, fun line hline => ?_⟩
  rw [hlines] at hline
  exact (hsafe line hline).1

theorem rego_lines_sample : ∃ text, compileRego sample = .ok text ∧
    ∀ line ∈ physicalLines text, SafeLine line := by
  obtain ⟨rules, hrules⟩ := (valid_of_validate validate_sample).toSound.regoRules
  have htext : compileRego sample = .ok (join "\n" (regoHeader ++ rules.flatMap Rule.lines)) := by
    rw [compileRego, hrules]
    rfl
  exact ⟨_, htext, (rego_lines sample _ htext).2⟩

end Policy
