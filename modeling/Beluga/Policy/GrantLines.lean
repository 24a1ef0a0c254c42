import Beluga.Policy.Drift

/-! # What a GRANT line is read as

`GRANT_LINE_RE` can cut a line in several ways. A line that has the form of a
grant of a table is cut in one way only, since what follows the privileges is a
fixed number of words, and the words of a text do not depend on the cut
(`Cut.unique`). So the privileges, the table and the role are those that the line
is about, whatever its white space and the case of its keywords. Every cut with a
role at its end is a match (`Cut.Ok.parses`), and a line of which the words are
not those of such a grant is not understood (`parse_words`).
-/

namespace Policy

open Text Matcher

/-! ## A match -/

/-- `(?:TABLE\s+)?`. -/
def TableKeyword (cs : List Char) : Prop :=
  cs = [] ∨ ∃ table s, cs = table ++ s ∧ Letters "TABLE" table ∧ Gap s

/-- `(\s+WITH\s+GRANT\s+OPTION)`. -/
def GrantOption (cs : List Char) : Prop :=
  ∃ s₁ w s₂ g s₃ p, cs = s₁ ++ (w ++ (s₂ ++ (g ++ (s₃ ++ p)))) ∧ Gap s₁ ∧ Letters "WITH" w ∧
    Gap s₂ ∧ Letters "GRANT" g ∧ Gap s₃ ∧ Letters "OPTION" p

/-- A letter that `toUpper` changes becomes a capital. -/
theorem toUpper_cases (c : Char) : c.toUpper = c ∨ ('A' ≤ c.toUpper ∧ c.toUpper ≤ 'Z') := by
  by_cases h : 'a'.val ≤ c.val ∧ c.val ≤ 'z'.val
  · right
    have hupper : c.toUpper.val = c.val + ('A'.val - 'a'.val) := by
      unfold Char.toUpper
      rw [dif_pos h]
    simp only [Char.le_def, hupper]
    simp only [UInt32.le_iff_toNat_le, UInt32.toNat_add] at h ⊢
    simp at h ⊢
    omega
  · exact .inl (dif_neg h)

theorem letters_semicolon {cs : List Char} : Letters ";" cs ↔ cs = [';'] := by
  constructor
  · intro h
    cases cs with
    | nil => simp [Letters] at h
    | cons c rest =>
        simp only [Letters, List.map_cons, show (";" : String).toList = [';'] from rfl,
          List.map_nil, List.cons.injEq, List.map_eq_nil_iff] at h
        obtain ⟨hc, rfl⟩ := h
        rw [show ';'.toUpper = ';' from rfl] at hc
        rcases toUpper_cases c with h | h
        · rw [← h, hc]
        · rw [hc] at h
          exact absurd h (by decide)
  · rintro rfl
    rfl

/-- The text behind `TO\s+`: the role, and what is left of it. -/
inductive Grantee (rest : List Char) : List Char → Bool → Prop where
  | plain (role finish : List Char) (hrest : rest = role ++ finish) (hrole : Solid role)
      (hfinish : finish = [] ∨ finish = [';'])
      (hlazy : ∀ r, r ≠ [] → role ++ finish = r ++ [';'] → role = r) : Grantee rest role false
  | option (role option finish : List Char) (hrest : rest = role ++ (option ++ finish))
      (hrole : Solid role) (hoption : GrantOption option)
      (hfinish : finish = [] ∨ finish = [';']) : Grantee rest role true

theorem mem_withGrantOption {cs rest : List Char} {u : Unit} :
    (u, rest) ∈ WITH_GRANT_OPTION cs ↔ ∃ option, cs = option ++ rest ∧ GrantOption option := by
  simp only [WITH_GRANT_OPTION, mem_seq, mem_gap, mem_word]
  constructor
  · rintro ⟨_, ⟨s₁, h₁, hs₁⟩, _, ⟨w, h₂, hw⟩, _, ⟨s₂, h₃, hs₂⟩, _, ⟨g, h₄, hg⟩, _, ⟨s₃, h₅, hs₃⟩,
      p, h₆, hp⟩
    subst h₁ h₂ h₃ h₄ h₅ h₆
    exact ⟨s₁ ++ (w ++ (s₂ ++ (g ++ (s₃ ++ p)))), by simp only [List.append_assoc], s₁, w, s₂, g,
      s₃, p, rfl, hs₁, hw, hs₂, hg, hs₃, hp⟩
  · rintro ⟨option, hcs, s₁, w, s₂, g, s₃, p, hoption, hs₁, hw, hs₂, hg, hs₃, hp⟩
    subst hoption
    simp only [List.append_assoc] at hcs
    exact ⟨_, ⟨s₁, hcs, hs₁⟩, _, ⟨w, rfl, hw⟩, _, ⟨s₂, rfl, hs₂⟩, _, ⟨g, rfl, hg⟩, _,
      ⟨s₃, rfl, hs₃⟩, p, rfl, hp⟩

theorem mem_semicolon {cs rest : List Char} {b : Bool} (h : (b, rest) ∈ opt (word ";") cs) :
    ∃ finish, cs = finish ++ rest ∧ (finish = [] ∨ finish = [';']) := by
  rcases mem_opt.mp h with ⟨-, h⟩ | ⟨-, h⟩
  · obtain ⟨finish, hcs, hf⟩ := mem_word.mp h
    exact ⟨finish, hcs, .inr (letters_semicolon.mp hf)⟩
  · exact ⟨[], by rw [h, List.nil_append], .inl rfl⟩

theorem solid_of_nonspace {cs : List Char} (hne : cs ≠ [])
    (h : ∀ c ∈ cs, nonspace c = true) : Solid cs :=
  ⟨hne, fun c hc => by simpa [nonspace] using h c hc⟩

theorem exec_grantee {rest role : List Char} {option : Bool}
    (h : GRANTEE_RE.exec rest = some (role, option)) : Grantee rest role option := by
  obtain ⟨taken, left, hmem, hexec, hlazy⟩ := exec_plusLazy h
  obtain ⟨hcs, hne, hall⟩ := mem_plusLazy.mp hmem
  have hsolid := solid_of_nonspace hne hall
  obtain ⟨b, left₂, hopt, hexec₂⟩ := exec_bind hexec
  obtain ⟨b', left₃, hsemi, hexec₃⟩ := exec_bind hexec₂
  obtain ⟨finish, hfinish, hf⟩ := mem_semicolon hsemi
  obtain ⟨heq, hnil⟩ := mem_pure.mp (exec_mem hexec₃)
  obtain ⟨rfl, rfl⟩ := Prod.mk.injEq .. |>.mp heq
  subst hnil
  rw [List.append_nil] at hfinish
  rcases mem_opt.mp hopt with ⟨rfl, hoption⟩ | ⟨rfl, hleft⟩
  · obtain ⟨text, hleft, htext⟩ := mem_withGrantOption.mp hoption
    exact .option role text finish (by rw [hcs, hleft, hfinish]) hsolid htext hf
  · subst hleft
    refine .plain role finish (by rw [hcs, hfinish]) hsolid hf ?_
    intro r hr heq'
    rcases hf with rfl | rfl
    · -- without the semicolon the role would have been tried before
      exfalso
      rw [List.append_nil] at heq'
      subst heq'
      have hshort : (r, [';']) ∈ plusLazy nonspace rest := by
        refine mem_plusLazy.mpr ⟨by rw [hcs, hfinish, List.append_nil], hr, fun c hc => ?_⟩
        exact hall c (List.mem_append_left _ hc)
      have hnone := hlazy (r, [';']) hshort (by simp)
      have hsome := @exec_isSome _ (do
          let grantOption ← opt WITH_GRANT_OPTION
          let _ ← opt (word ";")
          pure (r, grantOption)) [';'] (r, false) (by
        refine mem_bind.mpr ⟨false, [';'], mem_opt.mpr (.inr ⟨rfl, rfl⟩), ?_⟩
        refine mem_bind.mpr ⟨true, [], mem_opt.mpr (.inl ⟨rfl, mem_word.mpr ⟨[';'], rfl, rfl⟩⟩), ?_⟩
        exact mem_pure.mpr ⟨rfl, rfl⟩)
      obtain ⟨x, hx⟩ := hsome
      exact Option.some_ne_none x (hx.symm.trans hnone)
    · exact (List.append_inj' heq' rfl).1

theorem Grantee.starts {rest role : List Char} {option : Bool} (h : Grantee rest role option) :
    Starts rest := by
  cases h with
  | plain finish hrest hrole => exact hrest ▸ hrole.starts finish
  | option option finish hrest hrole => exact hrest ▸ hrole.starts (option ++ finish)

theorem keyword_of_opt {cs rest : List Char} {b : Bool}
    (h : (b, rest) ∈ opt (do word "TABLE"; gap) cs) :
    ∃ keyword, cs = keyword ++ rest ∧ TableKeyword keyword := by
  rcases mem_opt.mp h with ⟨-, h⟩ | ⟨-, h⟩
  · obtain ⟨mid, hword, hgap⟩ := mem_seq.mp h
    obtain ⟨table, hcs, ht⟩ := mem_word.mp hword
    obtain ⟨s, hmid, hs⟩ := mem_gap.mp hgap
    exact ⟨table ++ s, by rw [hcs, hmid, List.append_assoc], .inr ⟨table, s, rfl, ht, hs⟩⟩
  · exact ⟨[], by rw [h, List.nil_append], .inl rfl⟩

/-! ## Cuts of a line -/

/-- A line as the expression cuts it, up to the text behind `TO\s+`. -/
structure Cut where
  grant : List Char
  s₁ : List Char
  privileges : List Char
  s₂ : List Char
  on : List Char
  s₃ : List Char
  keyword : List Char
  table : List Char
  s₄ : List Char
  to_ : List Char
  s₅ : List Char
  rest : List Char

namespace Cut

/-- Up to `ON`. -/
def head (c : Cut) : List Char := c.grant ++ (c.s₁ ++ (c.privileges ++ c.s₂))

/-- From `ON` to the table. -/
def middle (c : Cut) : List Char := c.on ++ (c.s₃ ++ c.keyword)

/-- From the table to the role. -/
def target (c : Cut) : List Char := c.table ++ (c.s₄ ++ (c.to_ ++ c.s₅))

def text (c : Cut) : List Char := c.head ++ (c.middle ++ (c.target ++ c.rest))

structure Ok (c : Cut) : Prop where
  grant : Letters "GRANT" c.grant
  gap₁ : Gap c.s₁
  gap₂ : Gap c.s₂
  on : Letters "ON" c.on
  gap₃ : Gap c.s₃
  keyword : TableKeyword c.keyword
  table : Solid c.table
  gap₄ : Gap c.s₄
  to_ : Letters "TO" c.to_
  gap₅ : Gap c.s₅
  rest : Starts c.rest

end Cut

/-- The expression between `^` and `$`, as a cut. -/
theorem exec_grantLine {cs : List Char} {m : GrantMatch} (h : GRANT_LINE_RE.exec cs = some m) :
    ∃ c : Cut, c.Ok ∧ cs = c.text ∧ c.privileges = m.rawPrivileges ∧ c.privileges ≠ [] ∧
      (∀ x ∈ c.privileges, dot x = true) ∧ c.table = m.rawTable ∧
      Grantee c.rest m.rawRole m.grantOption := by
  obtain ⟨_, r₁, hgrant, h⟩ := exec_bind h
  obtain ⟨_, r₂, hs₁, h⟩ := exec_bind h
  obtain ⟨privileges, r₃, hpriv, h⟩ := exec_bind h
  obtain ⟨_, r₄, hs₂, h⟩ := exec_bind h
  obtain ⟨_, r₅, hon, h⟩ := exec_bind h
  obtain ⟨_, r₆, hs₃, h⟩ := exec_bind h
  obtain ⟨b, r₇, hkey, h⟩ := exec_bind h
  obtain ⟨table, r₈, htable, h⟩ := exec_bind h
  obtain ⟨_, r₉, hs₄, h⟩ := exec_bind h
  obtain ⟨_, r₁₀, hto, h⟩ := exec_bind h
  obtain ⟨_, rest, hs₅, hexec⟩ := exec_bind h
  obtain ⟨grant, rfl, hgrant'⟩ := mem_word.mp hgrant
  obtain ⟨s₁, rfl, hs₁'⟩ := mem_gap.mp hs₁
  obtain ⟨rfl, hne, hdot⟩ := mem_plusLazy.mp hpriv
  obtain ⟨s₂, rfl, hs₂'⟩ := mem_gap.mp hs₂
  obtain ⟨on, rfl, hon'⟩ := mem_word.mp hon
  obtain ⟨s₃, rfl, hs₃'⟩ := mem_gap.mp hs₃
  obtain ⟨keyword, rfl, hkeyword⟩ := keyword_of_opt hkey
  obtain ⟨rfl, hsome, hsolid⟩ := mem_plus.mp htable
  obtain ⟨s₄, rfl, hs₄'⟩ := mem_gap.mp hs₄
  obtain ⟨to_, rfl, hto'⟩ := mem_word.mp hto
  obtain ⟨s₅, rfl, hs₅'⟩ := mem_gap.mp hs₅
  -- the last step only puts the groups together
  have hlast := @exec_map _ _ GRANTEE_RE
    (fun x => (⟨privileges, table, x.1, x.2⟩ : GrantMatch)) rest
  obtain ⟨⟨role, option⟩, hgrantee, heq⟩ := Option.map_eq_some_iff.mp (hlast.symm.trans hexec)
  subst heq
  have hg := exec_grantee hgrantee
  refine ⟨⟨grant, s₁, privileges, s₂, on, s₃, keyword, table, s₄, to_, s₅, rest⟩,
    ⟨hgrant', hs₁', hs₂', hon', hs₃', hkeyword, solid_of_nonspace hsome hsolid, hs₄', hto', hs₅',
      hg.starts⟩,
    by simp only [Cut.text, Cut.head, Cut.middle, Cut.target, List.append_assoc], rfl, hne, hdot,
    rfl, hg⟩

/-! ## The words of a line -/

/-- The words of the optional keyword. -/
theorem TableKeyword.words {keyword : List Char} (h : TableKeyword keyword) (b : List Char) :
    words (keyword ++ b) = words keyword ++ words b ∧
      (words keyword = [] ∨ ∃ t, words keyword = [t] ∧ t.length = 5) := by
  rcases h with rfl | ⟨t, s, rfl, ht, hs⟩
  · exact ⟨rfl, .inl rfl⟩
  · have hsolid := ht.solid (by decide) (by decide)
    have hwords : Text.words (t ++ s) = [t] := by
      rw [words_append_blank hs.2, words_solid hsolid]
    refine ⟨?_, .inr ⟨t, hwords, ht.length⟩⟩
    rw [hwords, List.append_assoc, words_append_gap hs, words_solid hsolid]

namespace Cut

variable {c c' : Cut}

/-- The words before the table. -/
def front (c : Cut) : List (List Char) := c.grant :: (words c.privileges ++ c.on :: words c.keyword)

theorem Ok.words_target (h : c.Ok) : words (c.target ++ c.rest) = c.table :: c.to_ :: words c.rest := by
  rw [target]
  simp only [List.append_assoc]
  rw [words_append_gap h.gap₄, words_solid h.table, words_append_gap h.gap₅,
    words_solid (h.to_.solid (by decide) (by decide))]
  rfl

theorem Ok.words_middle (h : c.Ok) (b : List Char) :
    words (c.middle ++ b) = c.on :: (words c.keyword ++ words b) := by
  rw [middle]
  simp only [List.append_assoc]
  rw [words_append_gap h.gap₃, words_solid (h.on.solid (by decide) (by decide)),
    (h.keyword.words b).1]
  rfl

theorem Ok.words_text (h : c.Ok) : words c.text = c.front ++ c.table :: c.to_ :: words c.rest := by
  rw [text, head]
  simp only [List.append_assoc]
  rw [words_append_gap h.gap₁, words_solid (h.grant.solid (by decide) (by decide)),
    words_append_gap h.gap₂, h.words_middle, h.words_target, front]
  simp

end Cut

/-- The words from the role on, when the semicolon is not apart. -/
inductive Close : List (List Char) → Prop where
  | role (x : List Char) : Close [x]
  | option (x w g p : List Char) (hg : g.length = 5) (hp : 6 ≤ p.length) : Close [x, w, g, p]

theorem Close.length_pos {ws : List (List Char)} (h : Close ws) : 0 < ws.length := by
  cases h with
  | role x => exact Nat.zero_lt_one
  | option x w g p hg hp => exact Nat.zero_lt_succ 3

/-- The same with any semicolon. -/
inductive Ending : List (List Char) → Prop where
  | close {ws : List (List Char)} (h : Close ws) : Ending ws
  | roleApart (x : List Char) (hx : ¬ Letters "TO" x) : Ending [x, [';']]
  | optionApart (x w g p : List Char) (hp : p.length = 6) : Ending [x, w, g, p, [';']]

/-- The number of words from the role on does not depend on the cut. -/
theorem ending_length {pre pre' : List (List Char)} {tb tb' to_ to' : List Char}
    {ws ws' : List (List Char)} (heq : pre ++ tb :: to_ :: ws = pre' ++ tb' :: to' :: ws')
    (hto : Letters "TO" to_) (hto' : Letters "TO" to') (hclose : Close ws) (hend : Ending ws') :
    ws.length = ws'.length := by
  have htwo : ∀ {a b : List (List Char)} {x y x' y' : List Char},
      a ++ [x, y] = b ++ [x', y'] → x = x' ∧ y = y' := by
    intro a b x y x' y' h
    have hinj := (List.append_inj' h rfl).2
    simpa using hinj
  have hlen : to_.length = 2 := hto.length
  have hlen' : to'.length = 2 := hto'.length
  cases hclose with
  | role x =>
      cases hend with
      | close h =>
          cases h with
          | role x' => rfl
          | option x' w g p hg hp =>
              have h := htwo (a := pre ++ [tb]) (b := pre' ++ [tb', to', x', w]) (by simpa using heq)
              rw [h.1] at hlen
              omega
      | roleApart x' hx =>
          have h := htwo (a := pre ++ [tb]) (b := pre' ++ [tb', to']) (by simpa using heq)
          exact absurd (h.1 ▸ hto) hx
      | optionApart x' w g p hp =>
          have h := htwo (a := pre ++ [tb]) (b := pre' ++ [tb', to', x', w, g]) (by simpa using heq)
          rw [h.1] at hlen
          omega
  | option x w g p hg hp =>
      cases hend with
      | close h =>
          cases h with
          | role x' =>
              have h := htwo (a := pre ++ [tb, to_, x, w]) (b := pre' ++ [tb']) (by simpa using heq)
              rw [h.1] at hg
              omega
          | option x' w' g' p' hg' hp' => rfl
      | roleApart x' hx =>
          have h := htwo (a := pre ++ [tb, to_, x, w]) (b := pre' ++ [tb', to']) (by simpa using heq)
          rw [h.2] at hp
          simp at hp
      | optionApart x' w' g' p' hp' =>
          have h := htwo (a := pre ++ [tb, to_, x, w]) (b := pre' ++ [tb', to', x', w', g'])
            (by simpa using heq)
          rw [h.2] at hp
          simp at hp

/-! ## One cut -/

namespace Cut

variable {c c' : Cut}

theorem Ok.endsBlank_middle (h : c.Ok) (a : List Char) : EndsBlank (a ++ c.middle) := by
  rw [middle]
  rcases h.keyword with hnil | ⟨t, s, hkey, -, hs⟩
  · rw [hnil, List.append_nil, ← List.append_assoc]
    exact h.gap₃.endsBlank _
  · rw [hkey, ← List.append_assoc, ← List.append_assoc, ← List.append_assoc]
    exact hs.endsBlank _

theorem Ok.endsBlank_target (h : c.Ok) : EndsBlank c.target := by
  rw [target, ← List.append_assoc, ← List.append_assoc]
  exact h.gap₅.endsBlank _

theorem Ok.endsBlank_head (h : c.Ok) : EndsBlank c.head := by
  rw [head, ← List.append_assoc, ← List.append_assoc]
  exact h.gap₂.endsBlank _

theorem Ok.starts_target (h : c.Ok) (b : List Char) : Starts (c.target ++ b) := by
  rw [target]
  simp only [List.append_assoc]
  exact h.table.starts _

theorem Ok.starts_middle (h : c.Ok) : Starts c.middle :=
  (h.on.solid (by decide) (by decide)).starts _

/-- The optional keyword is in both cuts or in none. -/
theorem Ok.keyword_length (h : c.Ok) (h' : c'.Ok) (heq : c.front = c'.front) :
    (words c.keyword).length = (words c'.keyword).length := by
  have hon := h.on.length
  have hon' := h'.on.length
  obtain ⟨-, heq⟩ := List.cons.inj heq
  rcases (h.keyword.words []).2 with hk | ⟨t, hk, ht⟩
  · rcases (h'.keyword.words []).2 with hk' | ⟨t', hk', ht'⟩
    · rw [hk, hk']
    · rw [hk, hk', List.append_cons (words c'.privileges)] at heq
      have hlast := (List.append_inj' heq rfl).2
      rw [(List.cons.inj hlast).1, ht'] at hon
      simp at hon
  · rcases (h'.keyword.words []).2 with hk' | ⟨t', hk', ht'⟩
    · rw [hk, hk', List.append_cons (words c.privileges)] at heq
      have hlast := (List.append_inj' heq rfl).2
      rw [← (List.cons.inj hlast).1, ht] at hon'
      simp at hon'
    · rw [hk, hk']
      rfl

/-- Two cuts of one line have the same table, the same text from the role on, and the same
privileges up to white space around them. -/
theorem unique (h : c.Ok) (h' : c'.Ok) (heq : c.text = c'.text) (hclose : Close (words c.rest))
    (hend : Ending (words c'.rest)) : c.table = c'.table ∧ c.rest = c'.rest ∧
      c.s₁ ++ (c.privileges ++ c.s₂) = c'.s₁ ++ (c'.privileges ++ c'.s₂) := by
  have hwords : c.front ++ c.table :: c.to_ :: words c.rest =
      c'.front ++ c'.table :: c'.to_ :: words c'.rest := by
    rw [← h.words_text, ← h'.words_text, heq]
  have hlen := ending_length hwords h.to_ h'.to_ hclose hend
  obtain ⟨hfront, hback⟩ := List.append_inj' hwords (by simp [hlen])
  obtain ⟨htable, -⟩ := List.cons.inj hback
  -- before the table
  rw [text, text, ← List.append_assoc, ← List.append_assoc (c'.head)] at heq
  obtain ⟨hleft, hright⟩ := align heq (h.endsBlank_middle _) (h'.endsBlank_middle _)
    (h.starts_target _) (h'.starts_target _) (by rw [h.words_target, h'.words_target]; simp [hlen])
  -- before the role
  obtain ⟨-, hrest⟩ := align hright h.endsBlank_target h'.endsBlank_target h.rest h'.rest hlen
  -- before `ON`
  have hmiddle : (words c.middle).length = (words c'.middle).length := by
    have hm := h.words_middle []
    have hm' := h'.words_middle []
    rw [List.append_nil] at hm hm'
    rw [hm, hm']
    simp [h.keyword_length h' hfront]
  obtain ⟨hhead, -⟩ := align hleft h.endsBlank_head h'.endsBlank_head h.starts_middle
    h'.starts_middle hmiddle
  rw [head, head] at hhead
  have hgrant : c.grant.length = c'.grant.length := h.grant.length.trans h'.grant.length.symm
  exact ⟨htable, hrest, (List.append_inj hhead hgrant).2⟩

end Cut

/-! ## The two endings -/

theorem GrantOption.words {option : List Char} (h : GrantOption option) :
    ∃ w g p, Letters "GRANT" g ∧ Letters "OPTION" p ∧
      ∀ a b, Solid b ∨ b = [] → Text.words (a ++ (option ++ b)) = Text.words a ++ [w, g, p ++ b] := by
  obtain ⟨s₁, w, s₂, g, s₃, p, rfl, hs₁, hw, hs₂, hg, hs₃, hp⟩ := h
  refine ⟨w, g, p, hg, hp, fun a b hb => ?_⟩
  have hsolid : Solid (p ++ b) := by
    obtain ⟨hne, hall⟩ := hp.solid (by decide) (by decide)
    refine ⟨by simp [hne], fun c hc => ?_⟩
    rcases List.mem_append.mp hc with hc | hc
    · exact hall c hc
    · rcases hb with hb | rfl
      · exact hb.2 c hc
      · cases hc
  simp only [List.append_assoc]
  rw [words_append_gap hs₁, words_append_gap hs₂, words_solid (hw.solid (by decide) (by decide)),
    words_append_gap hs₃, words_solid (hg.solid (by decide) (by decide)), words_solid hsolid]
  rfl

theorem solid_semicolon : Solid [';'] := ⟨by simp, by decide⟩

theorem solid_append_finish {role finish : List Char} (hrole : Solid role)
    (hfinish : finish = [] ∨ finish = [';']) : Solid (role ++ finish) := by
  rcases hfinish with rfl | rfl
  · rwa [List.append_nil]
  · refine ⟨by simp, fun c hc => ?_⟩
    rcases List.mem_append.mp hc with hc | hc
    · exact hrole.2 c hc
    · exact solid_semicolon.2 c hc

theorem finish_solid {finish : List Char} (h : finish = [] ∨ finish = [';']) :
    Solid finish ∨ finish = [] := by
  rcases h with rfl | rfl
  · exact .inr rfl
  · exact .inl solid_semicolon

/-- The words of the two endings: one, or more after the role. -/
theorem Grantee.words {rest role : List Char} {option : Bool} (h : Grantee rest role option) :
    Close (Text.words rest) ∧
      ((option = false ∧ Text.words rest = [rest] ∧ ∃ finish, rest = role ++ finish ∧
          (finish = [] ∨ finish = [';']) ∧ ∀ r, r ≠ [] → role ++ finish = r ++ [';'] → role = r) ∨
        (option = true ∧ ∃ ws, Text.words rest = role :: ws ∧ ws ≠ [])) := by
  cases h with
  | plain finish hrest hrole hfinish hlazy =>
      have hsolid := solid_append_finish hrole hfinish
      rw [← hrest] at hsolid
      have hone := words_solid hsolid
      refine ⟨?_, .inl ⟨rfl, hone, finish, hrest, hfinish, hlazy⟩⟩
      rw [hone]
      exact .role rest
  | option option finish hrest hrole hoption hfinish =>
      obtain ⟨w, g, p, hg, hp, hwords⟩ := hoption.words
      have hall : Text.words rest = [role, w, g, p ++ finish] := by
        rw [hrest, hwords role finish (finish_solid hfinish), words_solid hrole]
        rfl
      refine ⟨?_, .inr ⟨rfl, _, hall, by simp⟩⟩
      rw [hall]
      refine .option role w g (p ++ finish) hg.length ?_
      have hlen : p.length = 6 := hp.length
      rw [List.length_append]
      omega

/-- A role without semicolon that ends the line is the role. -/
theorem Grantee.of_solid {rest role r finish : List Char} {option : Bool}
    (h : Grantee rest r option) (hrest : rest = role ++ finish) (hrole : Solid role)
    (hsemi : ';' ∉ role) (hfinish : finish = [] ∨ finish = [';']) : r = role ∧ option = false := by
  obtain ⟨-, ⟨rfl, -, finish', hcut, hfinish', hlazy⟩ | ⟨rfl, ws, hwords, hws⟩⟩ := h.words
  · refine ⟨?_, rfl⟩
    rcases hfinish with rfl | rfl
    · rw [List.append_nil] at hrest
      rcases hfinish' with rfl | rfl
      · rw [← hrest, hcut, List.append_nil]
      · exfalso
        rw [← hrest, hcut] at hsemi
        simp at hsemi
    · exact hlazy role hrole.1 (hcut.symm.trans hrest)
  · exfalso
    have hsolid := solid_append_finish hrole hfinish
    rw [← hrest] at hsolid
    rw [words_solid hsolid] at hwords
    exact hws (List.cons.inj hwords).2.symm

/-! ## What is understood -/

/-- A cut with a role at its end is a match. -/
theorem Cut.Ok.parses {c : Cut} (h : c.Ok) (hne : c.privileges ≠ [])
    (hdot : ∀ x ∈ c.privileges, dot x = true) {role finish : List Char} (hrole : Solid role)
    (hfinish : finish = [] ∨ finish = [';']) (hrest : c.rest = role ++ finish) :
    ∃ m, GRANT_LINE_RE.exec c.text = some m := by
  have hsolid : ∀ {w : List Char}, Solid w → ∀ x ∈ w, nonspace x = true :=
    fun hw x hx => by simp [nonspace, hw.2 x hx]
  have hkeyword : ∃ b, (b, c.target ++ c.rest) ∈
      opt (do word "TABLE"; gap) (c.keyword ++ (c.target ++ c.rest)) := by
    rcases h.keyword with hnil | ⟨table, s, hkey, ht, hs⟩
    · exact ⟨false, mem_opt.mpr (.inr ⟨rfl, by rw [hnil, List.nil_append]⟩)⟩
    · refine ⟨true, mem_opt.mpr (.inl ⟨rfl, mem_seq.mpr ⟨s ++ (c.target ++ c.rest), ?_, ?_⟩⟩)⟩
      · exact mem_word.mpr ⟨table, by rw [hkey, List.append_assoc], ht⟩
      · exact mem_gap.mpr ⟨s, rfl, hs⟩
  have hsemi : ∃ b, (b, []) ∈ opt (word ";") finish := by
    rcases hfinish with rfl | rfl
    · exact ⟨false, mem_opt.mpr (.inr ⟨rfl, rfl⟩)⟩
    · exact ⟨true, mem_opt.mpr (.inl ⟨rfl, mem_word.mpr ⟨[';'], rfl, rfl⟩⟩)⟩
  obtain ⟨b, hb⟩ := hkeyword
  obtain ⟨b', hb'⟩ := hsemi
  have hgrantee : ((role, false), []) ∈ GRANTEE_RE c.rest := by
    refine mem_bind.mpr ⟨role, finish, mem_plusLazy.mpr ⟨hrest, hrole.1, hsolid hrole⟩, ?_⟩
    refine mem_bind.mpr ⟨false, finish, mem_opt.mpr (.inr ⟨rfl, rfl⟩), ?_⟩
    exact mem_bind.mpr ⟨b', [], hb', mem_pure.mpr ⟨rfl, rfl⟩⟩
  refine exec_isSome (a := ⟨c.privileges, c.table, role, false⟩) ?_
  simp only [Cut.text, Cut.head, Cut.middle, List.append_assoc]
  refine mem_seq.mpr ⟨_, mem_word.mpr ⟨c.grant, rfl, h.grant⟩, ?_⟩
  refine mem_seq.mpr ⟨_, mem_gap.mpr ⟨c.s₁, rfl, h.gap₁⟩, ?_⟩
  refine mem_bind.mpr ⟨c.privileges, _, mem_plusLazy.mpr ⟨rfl, hne, hdot⟩, ?_⟩
  refine mem_seq.mpr ⟨_, mem_gap.mpr ⟨c.s₂, rfl, h.gap₂⟩, ?_⟩
  refine mem_seq.mpr ⟨_, mem_word.mpr ⟨c.on, rfl, h.on⟩, ?_⟩
  refine mem_seq.mpr ⟨_, mem_gap.mpr ⟨c.s₃, rfl, h.gap₃⟩, ?_⟩
  refine mem_bind.mpr ⟨b, _, hb, ?_⟩
  simp only [Cut.target, List.append_assoc]
  refine mem_bind.mpr ⟨c.table, _, mem_plus.mpr ⟨rfl, h.table.1, hsolid h.table⟩, ?_⟩
  refine mem_seq.mpr ⟨_, mem_gap.mpr ⟨c.s₄, rfl, h.gap₄⟩, ?_⟩
  refine mem_seq.mpr ⟨_, mem_word.mpr ⟨c.to_, rfl, h.to_⟩, ?_⟩
  refine mem_seq.mpr ⟨_, mem_gap.mpr ⟨c.s₅, rfl, h.gap₅⟩, ?_⟩
  exact mem_bind.mpr ⟨(role, false), [], hgrantee, mem_pure.mpr ⟨rfl, rfl⟩⟩

section Lines

variable {toUpperCase : String → String} {line : String}

theorem parseGrantLine_eq_some {g : ParsedGrant} (h : parseGrantLine toUpperCase line = some g) :
    ∃ m, GRANT_LINE_RE.exec (trim line.toList) = some m ∧ g = grantOf toUpperCase m := by
  obtain ⟨m, hexec, hg⟩ := Option.map_eq_some_iff.mp h
  exact ⟨m, hexec, hg.symm⟩

/-- The words of a line that is understood. -/
theorem parse_words {g : ParsedGrant} (h : parseGrantLine toUpperCase line = some g) :
    ∃ c : Cut, c.Ok ∧ words line.toList = c.front ++ c.table :: c.to_ :: words c.rest ∧
      Close (words c.rest) := by
  obtain ⟨m, hexec, -⟩ := parseGrantLine_eq_some h
  obtain ⟨c, hc, htext, -, -, -, -, hgrantee⟩ := exec_grantLine hexec
  refine ⟨c, hc, ?_, hgrantee.words.1⟩
  rw [← hc.words_text, ← htext, words_trim]

/-- A grant begins with a word of five letters. -/
theorem not_parsed_of_head {w : List Char} {ws : List (List Char)}
    (h : words line.toList = w :: ws) (hw : w.length ≠ 5) :
    parseGrantLine toUpperCase line = none := by
  by_contra hne
  obtain ⟨g, hg⟩ := Option.ne_none_iff_exists'.mp hne
  obtain ⟨c, hc, hwords, -⟩ := parse_words hg
  rw [h, Cut.front, List.cons_append] at hwords
  exact hw ((List.cons.inj hwords).1 ▸ hc.grant.length)

/-- A grant has five words or more. -/
theorem not_parsed_of_short (h : (words line.toList).length < 5) :
    parseGrantLine toUpperCase line = none := by
  by_contra hne
  obtain ⟨g, hg⟩ := Option.ne_none_iff_exists'.mp hne
  obtain ⟨c, -, hwords, hclose⟩ := parse_words hg
  have hlen := congrArg List.length hwords
  have hrest : 0 < (words c.rest).length := hclose.length_pos
  simp only [Cut.front, List.length_append, List.length_cons] at hlen
  omega

/-- Before the table stands `ON` or `TABLE`. -/
theorem not_parsed_of_kind {pre : List (List Char)} {kind name to_ role : List Char}
    (h : words line.toList = pre ++ [kind, name, to_, role]) (hon : kind.length ≠ 2)
    (htable : kind.length ≠ 5) (hto : to_.length = 2) :
    parseGrantLine toUpperCase line = none := by
  by_contra hne
  obtain ⟨g, hg⟩ := Option.ne_none_iff_exists'.mp hne
  obtain ⟨c, hc, hwords, hclose⟩ := parse_words hg
  rw [h] at hwords
  cases hrest : words c.rest with
  | nil =>
      rw [hrest] at hclose
      cases hclose
  | cons x xs =>
      rw [hrest] at hclose hwords
      cases hclose with
      | role x =>
          have hsplit : (pre ++ [kind]) ++ [name, to_, role] = c.front ++ [c.table, c.to_, x] := by
            simpa using hwords
          have hfront := (List.append_inj' hsplit rfl).1
          rcases (hc.keyword.words []).2 with hk | ⟨t, hk, ht⟩
          · rw [Cut.front, hk, ← List.cons_append] at hfront
            exact hon ((List.cons.inj (List.append_inj' hfront rfl).2).1 ▸ hc.on.length)
          · have htwo : pre ++ [kind] = (c.grant :: (words c.privileges ++ [c.on])) ++ [t] := by
              simpa [Cut.front, hk] using hfront
            exact htable ((List.cons.inj (List.append_inj' htwo rfl).2).1 ▸ ht)
      | option x w g p hg hp =>
          have hsplit : pre ++ [kind, name, to_, role] =
              (c.front ++ [c.table, c.to_]) ++ [x, w, g, p] := by
            simpa using hwords
          have hlast := (List.append_inj' hsplit rfl).2
          simp only [List.cons.injEq] at hlast
          rw [← hlast.2.2.1, hto] at hg
          omega

end Lines

end Policy
