import Beluga.Sso.GithubApp
import Beluga.Sso.PrText
import Beluga.Text.Fences

/-! # What user text can do to a commit and a pull request

* `oneLine_gap`: of white space and control characters only blanks are left;
* `prBody_lines`: the lines of the body up to the fence around the reason;
* `texts_contained`: the commit message has three lines, and the fence around the reason
  closes where the body closes it.
-/

namespace Sso

open Text

/-! ## Neutralised values -/

theorem mem_collapseGaps {cs : List Char} {after : Bool} {c : Char}
    (h : c ∈ collapseGaps after cs) : c = ' ' ∨ isGap c = false := by
  induction cs generalizing after with
  | nil => cases h
  | cons c₀ cs ih =>
      rw [collapseGaps] at h
      by_cases hgap : isGap c₀ = true
      · rw [if_pos hgap] at h
        cases after with
        | true => exact ih h
        | false =>
            rcases List.mem_cons.mp h with rfl | h
            · exact .inl rfl
            · exact ih h
      · rw [if_neg hgap] at h
        rcases List.mem_cons.mp h with rfl | h
        · exact .inr (Bool.eq_false_iff.mpr hgap)
        · exact ih h

theorem mem_jsTrim {cs : List Char} {c : Char} (h : c ∈ jsTrim cs) : c ∈ cs := by
  unfold jsTrim at h
  have hback := (List.dropWhile_sublist _).subset (List.mem_reverse.mp h)
  exact (List.dropWhile_sublist _).subset (List.mem_reverse.mp hback)

/-- White space and control characters are blanks. -/
theorem oneLine_gap {text : String} {c : Char} (h : c ∈ (oneLine text).toList) :
    c = ' ' ∨ isGap c = false := by
  rw [oneLine, String.toList_ofList] at h
  exact mem_collapseGaps (mem_jsTrim h)

theorem not_mem_oneLine {text : String} {c : Char} (hblank : c ≠ ' ') (hgap : isGap c = true) :
    c ∉ (oneLine text).toList := by
  intro h
  rcases oneLine_gap h with heq | hfalse
  · exact hblank heq
  · rw [hgap] at hfalse
    cases hfalse

theorem not_mem_escapeMarkdown {text : String} {c : Char} (hblank : c ≠ ' ') (hslash : c ≠ '\\')
    (hgap : isGap c = true) : c ∉ (escapeMarkdown text).toList := by
  intro h
  rw [escapeMarkdown, String.toList_ofList] at h
  obtain ⟨c₀, hc₀, hc⟩ := List.mem_flatMap.mp h
  have heq : c = c₀ := by
    split_ifs at hc
    · rcases List.mem_cons.mp hc with rfl | hc
      · exact absurd rfl hslash
      · exact List.mem_singleton.mp hc
    · exact List.mem_singleton.mp hc
  exact not_mem_oneLine hblank hgap (heq ▸ hc₀)

theorem mem_unixLines {cs : List Char} {after : Bool} {c : Char} (h : c ∈ unixLines after cs) :
    c ≠ '\r' ∧ (c = '\n' ∨ c ∈ cs) := by
  induction cs generalizing after with
  | nil => cases h
  | cons c₀ cs ih =>
      have hlater : ∀ {after}, c ∈ unixLines after cs → c ≠ '\r' ∧ (c = '\n' ∨ c ∈ c₀ :: cs) := by
        intro after h
        obtain ⟨hreturn, hmem⟩ := ih h
        exact ⟨hreturn, hmem.imp_right (List.mem_cons_of_mem _)⟩
      rw [unixLines] at h
      split_ifs at h with hreturn hfeed
      · rcases List.mem_cons.mp h with rfl | h
        · exact ⟨by decide, .inl rfl⟩
        · exact hlater h
      · exact hlater h
      · rcases List.mem_cons.mp h with rfl | h
        · exact ⟨hreturn, .inr List.mem_cons_self⟩
        · exact hlater h

/-- The reason has neither backticks nor carriage returns. -/
theorem fencedReason_clean (reason : Option String) :
    '`' ∉ (fencedReason reason).toList ∧ '\r' ∉ (fencedReason reason).toList := by
  unfold fencedReason
  cases reason with
  | none => exact ⟨by decide, by decide⟩
  | some reason =>
      simp only
      split_ifs
      · exact ⟨by decide, by decide⟩
      · rw [String.toList_ofList]
        refine ⟨fun h => ?_, fun h => (mem_unixLines h).1 rfl⟩
        rcases (mem_unixLines h).2 with heq | hmem
        · exact absurd heq (by decide)
        · exact absurd (List.mem_filter.mp hmem).2 (by decide)

/-! ## The commit message -/

def commitSubject (endpoint : String) : String :=
  "chore(sso): " ++ endpoint ++ " allowedGroups via Manager"

def commitTrailer (username : Option String) (sub : String) : String :=
  "Requested-by: " ++ oneLine (username.getD "unknown") ++ " (" ++ oneLine sub ++ ")"

theorem commitTrailer_toList (username : Option String) (sub : String) :
    (commitTrailer username sub).toList = "Requested-by: ".toList ++
      ((oneLine (username.getD "unknown")).toList ++
        (" (".toList ++ ((oneLine sub).toList ++ ")".toList))) := by
  delta commitTrailer
  simp only [String.toList_append, List.append_assoc]

/-- The message is the subject, a blank line and the trailer. -/
theorem commitMessage_toList (endpoint : String) (username : Option String) (sub : String) :
    (commitMessage endpoint username sub).toList =
      (commitSubject endpoint).toList ++ '\n' :: '\n' :: (commitTrailer username sub).toList := by
  have hmiddle : " allowedGroups via Manager\n\nRequested-by: ".toList =
      " allowedGroups via Manager".toList ++ '\n' :: '\n' :: "Requested-by: ".toList := by
    decide
  rw [commitTrailer_toList]
  delta commitMessage commitSubject
  simp only [String.toList_append, hmiddle, List.append_assoc, List.cons_append]

theorem commitMessage_lines {endpoint : String} (hendpoint : '\n' ∉ endpoint.toList)
    (username : Option String) (sub : String) :
    (commitMessage endpoint username sub).toList.splitOn '\n' =
      [(commitSubject endpoint).toList, [], (commitTrailer username sub).toList] := by
  have hsubject : '\n' ∉ (commitSubject endpoint).toList := by
    simp only [commitSubject, String.toList_append, List.mem_append, not_or]
    exact ⟨⟨by decide, hendpoint⟩, by decide⟩
  have htrailer : '\n' ∉ (commitTrailer username sub).toList := by
    simp only [commitTrailer_toList, List.mem_append, not_or]
    exact ⟨by decide, not_mem_oneLine (by decide) (by decide), by decide,
      not_mem_oneLine (by decide) (by decide), by decide⟩
  rw [commitMessage_toList, List.splitOn_append_cons_self,
    ← List.nil_append ('\n' :: (commitTrailer username sub).toList),
    List.splitOn_append_cons_self, List.splitOn_eq_singleton hsubject,
    List.splitOn_eq_singleton htrailer, List.splitOn_nil]
  rfl

theorem trailer_prefix (username : Option String) (sub : String) :
    "Requested-by:".toList <+: (commitTrailer username sub).toList := by
  have hfront : "Requested-by: ".toList = "Requested-by:".toList ++ [' '] := by decide
  rw [commitTrailer_toList, hfront, List.append_assoc]
  exact List.prefix_append _ _

/-! ## The body -/

def requesterLine (input : PrBodyInput) : String :=
  "Requested-by: " ++ escapeMarkdown (input.username.getD "unknown") ++
    " (" ++ escapeMarkdown input.sub ++ ")"

theorem requesterLine_toList (input : PrBodyInput) :
    (requesterLine input).toList = "Requested-by: ".toList ++
      ((escapeMarkdown (input.username.getD "unknown")).toList ++
        (" (".toList ++ ((escapeMarkdown input.sub).toList ++ ")".toList))) := by
  delta requesterLine
  simp only [String.toList_append, List.append_assoc]

def noticeLine : String :=
  "Requested through Beluga Manager (ADR-0009). Review like any other change; " ++
    "the Manager never merges."

/-- The lines before the reason. -/
def headLines (input : PrBodyInput) : List String :=
  [noticeLine, "", requesterLine input, "Base-blob-sha: " ++ input.baseBlobSha,
    "Source-commit-sha: " ++ input.sourceCommitSha, "", "Reason:"]

/-- What follows the fence around the reason. -/
def afterReason (input : PrBodyInput) : List Char :=
  '\n' :: "````diff\n".toList ++ input.diff.toList ++ "\n````".toList

theorem mem_sha {sha : String} (h : isSha sha = true) {c : Char} (hc : c ∈ sha.toList) :
    isLowerHex c = true := by
  simp only [isSha, Bool.decide_and, Bool.and_eq_true, List.all_eq_true] at h
  exact of_decide_eq_true h.2 c hc

theorem not_mem_sha {sha : String} (h : isSha sha = true) {c : Char}
    (hc : isLowerHex c = false) : c ∉ sha.toList := by
  intro hmem
  rw [mem_sha h hmem] at hc
  cases hc

theorem not_mem_requesterLine (input : PrBodyInput) {c : Char} (hblank : c ≠ ' ')
    (hslash : c ≠ '\\') (hgap : isGap c = true) (hconst : c ∉ "Requested-by: ()".toList) :
    c ∉ (requesterLine input).toList := by
  have hpieces : c ∉ "Requested-by: ".toList ∧ c ∉ " (".toList ∧ c ∉ ")".toList := by
    refine ⟨fun h => hconst ?_, fun h => hconst ?_, fun h => hconst ?_⟩
    · exact List.mem_append_left "()".toList h
    · rcases List.mem_cons.mp h with rfl | h
      · exact absurd rfl hblank
      · exact List.mem_append_right "Requested-by: ".toList (List.mem_append_left ")".toList h)
    · exact List.mem_append_right "Requested-by: (".toList h
  simp only [requesterLine_toList, List.mem_append, not_or]
  exact ⟨hpieces.1, not_mem_escapeMarkdown hblank hslash hgap, hpieces.2.1,
    not_mem_escapeMarkdown hblank hslash hgap, hpieces.2.2⟩

theorem headLines_single {input : PrBodyInput} (hbase : isSha input.baseBlobSha = true)
    (hsource : isSha input.sourceCommitSha = true) {c : Char} (hc : c = '\n' ∨ c = '\r') :
    ∀ line ∈ headLines input, c ∉ line.toList := by
  have hkind : c ≠ ' ' ∧ c ≠ '\\' ∧ isGap c = true ∧ isLowerHex c = false := by
    rcases hc with rfl | rfl <;> decide +kernel
  intro line hline
  simp only [headLines, List.mem_cons, List.not_mem_nil, or_false] at hline
  rcases hline with rfl | rfl | rfl | rfl | rfl | rfl | rfl
  · rcases hc with rfl | rfl <;> decide +kernel
  · exact List.not_mem_nil
  · apply not_mem_requesterLine input hkind.1 hkind.2.1 hkind.2.2.1
    rcases hc with rfl | rfl <;> decide +kernel
  · rw [String.toList_append, List.mem_append, not_or]
    refine ⟨?_, not_mem_sha hbase hkind.2.2.2⟩
    rcases hc with rfl | rfl <;> decide +kernel
  · rw [String.toList_append, List.mem_append, not_or]
    refine ⟨?_, not_mem_sha hsource hkind.2.2.2⟩
    rcases hc with rfl | rfl <;> decide +kernel
  · exact List.not_mem_nil
  · rcases hc with rfl | rfl <;> decide +kernel

theorem lines_blocks {blocks : List (List Char)} (h : ∀ block ∈ blocks, '\r' ∉ block)
    (back : List Char) :
    lines (blocks.flatMap (· ++ ['\n']) ++ back) = blocks.flatMap lines ++ lines back := by
  induction blocks with
  | nil => rfl
  | cons block blocks ih =>
      have hrest := ih fun block' hmem => h block' (List.mem_cons_of_mem _ hmem)
      rw [List.flatMap_cons, List.flatMap_cons, List.append_assoc, List.append_assoc,
        List.append_assoc, List.singleton_append,
        lines_append (h block List.mem_cons_self), hrest]

/-- The body in blocks: the head, the opening fence, the reason, the closing fence. -/
theorem prBody_blocks (input : PrBodyInput) :
    (prBody input).toList =
      ((headLines input).map String.toList ++
        ["```text".toList, (fencedReason input.reason).toList, "```".toList]).flatMap
          (· ++ ['\n']) ++ afterReason input := by
  have hdiff : "\n````".toList = '\n' :: "````".toList := by decide
  have hopen : "````diff\n".toList = "````diff".toList ++ ['\n'] := by decide
  have hbreak : "\n".toList = ['\n'] := by decide
  have hempty : "".toList = [] := by decide
  have hbody : prBody input = "\n".intercalate (headLines input ++ ["```text",
      fencedReason input.reason, "```", "", "````diff", input.diff, "````"]) := rfl
  rw [hbody, String.toList_intercalate, afterReason, hdiff, hopen, hbreak]
  simp only [List.map_cons, List.map_nil, headLines, List.intercalate_cons_cons,
    List.intercalate_singleton, List.cons_append, List.nil_append, List.flatMap_cons,
    List.flatMap_nil, List.append_assoc, List.append_nil, hempty]

/-- The lines of the body around the reason. -/
theorem prBody_lines {input : PrBodyInput} (hbase : isSha input.baseBlobSha = true)
    (hsource : isSha input.sourceCommitSha = true) :
    lines (prBody input).toList =
      (headLines input).map String.toList ++ ("```text".toList ::
        (lines (fencedReason input.reason).toList ++
          ("```".toList :: lines (afterReason input)))) := by
  have hhead : ∀ block ∈ (headLines input).map String.toList, '\n' ∉ block ∧ '\r' ∉ block := by
    intro block hblock
    obtain ⟨line, hline, rfl⟩ := List.mem_map.mp hblock
    exact ⟨headLines_single hbase hsource (.inl rfl) line hline,
      headLines_single hbase hsource (.inr rfl) line hline⟩
  have hlines : ((headLines input).map String.toList).flatMap lines =
      (headLines input).map String.toList := by
    conv_rhs => rw [← List.flatMap_singleton' ((headLines input).map String.toList)]
    apply List.flatMap_congr
    intro block hblock
    exact lines_single (hhead block hblock).1 (hhead block hblock).2
  rw [prBody_blocks, lines_blocks, List.flatMap_append, hlines]
  · simp only [List.flatMap_cons, List.flatMap_nil, List.append_nil, List.append_assoc]
    rw [@lines_single "```text".toList (by decide) (by decide),
      @lines_single "```".toList (by decide) (by decide)]
    rfl
  · intro block hblock
    rcases List.mem_append.mp hblock with hblock | hblock
    · exact (hhead block hblock).2
    · simp only [List.mem_cons, List.not_mem_nil, or_false] at hblock
      rcases hblock with rfl | rfl | rfl
      · decide
      · exact (fencedReason_clean input.reason).2
      · decide

theorem opens_of_prefix {front : List Char} (back : List Char) (hne : front ≠ [])
    (hhead : front.head? ≠ some ' ' ∧ front.head? ≠ some '`') : opens (front ++ back) = none := by
  cases front with
  | nil => exact absurd rfl hne
  | cons c front =>
      apply opens_of_head
      · exact fun heq => hhead.1 (congrArg some heq)
      · exact fun heq => hhead.2 (congrArg some heq)

/-- No line of the head opens a fence. -/
theorem headLines_text (input : PrBodyInput) :
    ∀ line ∈ headLines input, opens line.toList = none := by
  intro line hline
  simp only [headLines, List.mem_cons, List.not_mem_nil, or_false] at hline
  rcases hline with rfl | rfl | rfl | rfl | rfl | rfl | rfl
  · apply opens_of_not_mem
    decide
  · apply opens_of_not_mem
    decide
  · rw [requesterLine_toList]
    exact opens_of_prefix _ (by decide) (by decide)
  · rw [String.toList_append]
    exact opens_of_prefix _ (by decide) (by decide)
  · rw [String.toList_append]
    exact opens_of_prefix _ (by decide) (by decide)
  · apply opens_of_not_mem
    decide
  · apply opens_of_not_mem
    decide

theorem reason_inside (reason : Option String) :
    ∀ line ∈ lines (fencedReason reason).toList, '`' ∉ line := by
  obtain ⟨htick, hreturn⟩ := fencedReason_clean reason
  intro line hline hmem
  exact htick (mem_of_mem_lines hreturn hline '`' hmem)

/-- What the lines are: the head is text, and the reason is inside the fence that the body
opens before it and closes behind it. -/
theorem prBody_roles {input : PrBodyInput} (hbase : isSha input.baseBlobSha = true)
    (hsource : isSha input.sourceCommitSha = true) :
    roles none (lines (prBody input).toList) =
      (headLines input).map (fun _ => .text) ++ (.opening ::
        ((lines (fencedReason input.reason).toList).map (fun _ => .inside) ++
          (.closing :: roles none (lines (afterReason input))))) := by
  have hopen : opens "```text".toList = some 3 := by decide
  have hclose : closes 3 "```".toList = true := by decide
  have hhead : ∀ line ∈ (headLines input).map String.toList, opens line = none := by
    intro line hline
    obtain ⟨text, htext, rfl⟩ := List.mem_map.mp hline
    exact headLines_text input text htext
  rw [prBody_lines hbase hsource, roles_text hhead, List.map_map]
  congr 1
  rw [roles, hopen]
  simp only
  rw [roles_inside (by omega) (reason_inside input.reason), roles, hclose]
  rfl

/-- No user text adds a trailer to the commit, and none leaves its place in the body. The
endpoint is one of the editable ones, and both hashes come from the repository's answers. -/
theorem texts_contained {endpoint : String} (hendpoint : '\n' ∉ endpoint.toList)
    {input : PrBodyInput} (hbase : isSha input.baseBlobSha = true)
    (hsource : isSha input.sourceCommitSha = true) :
    (∃ subject trailer,
      (commitMessage endpoint input.username input.sub).toList.splitOn '\n' =
        [subject, [], trailer] ∧ "Requested-by:".toList <+: trailer) ∧
      ∃ before reason after,
        lines (prBody input).toList =
          before ++ "```text".toList :: (reason ++ "```".toList :: after) ∧
        reason = lines (fencedReason input.reason).toList ∧
        before[2]? = some (requesterLine input).toList ∧
        roles none (lines (prBody input).toList) =
          before.map (fun _ => .text) ++ .opening ::
            (reason.map (fun _ => .inside) ++ .closing :: roles none after) := by
  refine ⟨⟨_, _, commitMessage_lines hendpoint _ _, trailer_prefix _ _⟩,
    (headLines input).map String.toList, _, lines (afterReason input),
    prBody_lines hbase hsource, rfl, rfl, ?_⟩
  rw [prBody_roles hbase hsource, List.map_map]
  rfl

/-- A name with a trailer of its own and a reason that closes fences. -/
def hostileInput : PrBodyInput where
  username := some "eve\nSigned-off-by: root"
  sub := "s-1"
  reason := some "because\r\n```\n# outside"
  baseBlobSha := "0000000000000000000000000000000000000000"
  sourceCommitSha := "0000000000000000000000000000000000000000"
  diff := ""

theorem texts_contained_hostile :
    ((commitMessage "flink" hostileInput.username hostileInput.sub).toList.splitOn
        '\n').length = 3 ∧
      LineRole.closing ∈ roles none (lines (prBody hostileInput).toList) := by
  obtain ⟨⟨subject, trailer, hlines, -⟩, before, reason, after, -, -, -, hroles⟩ :=
    @texts_contained "flink" (by decide) hostileInput (by decide) (by decide)
  rw [hlines, hroles]
  refine ⟨rfl, List.mem_append_right _ (List.mem_cons_of_mem _ (List.mem_append_right _ ?_))⟩
  exact List.mem_cons_self

end Sso
