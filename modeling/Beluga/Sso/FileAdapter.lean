import Beluga.Sso.EditRules
import Mathlib.Data.Rat.Defs

/-! # The SSO configuration from a file

`FileSsoAdapter` of `ssoAdapter.ts`. What a file says is kept with the modification time that was
read before the file was, and the file may be edited at any moment, also between the two.

* `Kept.answer`: what is kept was in the file when it had the time that is kept;
* `config_current`: every answer of a run describes the file at a moment of the call.
-/

namespace Sso.FileSsoAdapter

/-- The file at one moment; no text where it cannot be read. -/
structure FileVersion where
  mtimeMs : ℚ
  text : Option String

/-- The file at every moment, where there is one. -/
abbrev Disk := ℕ → Option FileVersion

def DEFAULT_BASE_DOMAIN : String := "local.beluga.internal"

structure SsoAdapterConfig where
  filePath : Option String
  isProduction : Bool
  baseDomain : Option String

/-- `filePath`, which an empty text does not give. -/
def SsoAdapterConfig.path (config : SsoAdapterConfig) : Option String :=
  config.filePath.filter (· ≠ "")

/-- `yaml.parse`, which gives nothing where it throws, and the checks of addresses. -/
structure Library where
  parse : String → Option Json
  web : Web

inductive SsoResponse where
  | notConfigured (message : String)
  | configured (path : String) (loadedAt : ℚ) (config : SsoConfig)

structure State where
  cachedMtimeMs : Option ℚ := none
  cachedResult : Option SsoResponse := none

/-- The moments of `existsSync`, `statSync` and `readFileSync`, and the clock at the end. -/
structure Call where
  existsAt : ℕ
  statAt : ℕ
  readAt : ℕ
  now : ℚ

def Call.Ordered (call : Call) : Prop := call.existsAt ≤ call.statAt ∧ call.statAt ≤ call.readAt

instance (call : Call) : Decidable call.Ordered := inferInstanceAs (Decidable (_ ∧ _))

section Adapter

variable (lib : Library) (config : SsoAdapterConfig)

/-- `typeof value === "object"`, without `null`. -/
def isObject : Json → Bool
  | .arr _ | .obj _ => true
  | _ => false

def readConfig (filePath : String) (content : Option String) (now : ℚ) :
    Except String SsoResponse :=
  match content with
  | none => .error ("Failed to read SSO configuration file: " ++ filePath)
  | some fileContent =>
      match lib.parse fileContent with
      | none => .error ("Malformed YAML in SSO configuration file: " ++ filePath)
      | some rawParsed =>
          if !isObject rawParsed then
            .error ("SSO configuration file must contain a YAML object: " ++ filePath)
          else
            match resolveSsoFile lib.web rawParsed (config.baseDomain.getD DEFAULT_BASE_DOMAIN) with
            | .error summary =>
                .error ("Invalid SSO configuration in " ++ filePath ++ ": " ++ summary)
            | .ok validatedConfig => .ok (.configured filePath now validatedConfig)

def State.cached (s : State) (mtimeMs : ℚ) : Option SsoResponse :=
  if s.cachedMtimeMs = some mtimeMs then s.cachedResult else none

def getSsoConfig (disk : Disk) (s : State) (call : Call) : Except String SsoResponse × State :=
  match config.path with
  | none =>
      (.ok (.notConfigured (if config.isProduction then
        "SSO configuration file is not configured (SSO_CONFIG_FILE unset in production)"
        else "SSO configuration file not configured")), s)
  | some filePath =>
      if (disk call.existsAt).isNone then
        (.ok (.notConfigured ("SSO configuration file not found: " ++ filePath)), s)
      else
        match disk call.statAt with
        | none => (.error ("Failed to stat SSO configuration file: " ++ filePath), s)
        | some stat =>
            match s.cached stat.mtimeMs with
            | some result => (.ok result, s)
            | none =>
                match readConfig lib config filePath ((disk call.readAt).bind (·.text)) call.now with
                | .error message => (.error message, s)
                | .ok response =>
                    (.ok response,
                      { cachedMtimeMs := some stat.mtimeMs, cachedResult := some response })

/-- The answers of successive calls. -/
def answers (disk : Disk) : State → List Call → List (Except String SsoResponse)
  | _, [] => []
  | s, call :: calls =>
      (getSsoConfig lib config disk s call).1 ::
        answers disk (getSsoConfig lib config disk s call).2 calls

/-! ## What an answer says -/

/-- The file holds this configuration. -/
def Holds (version : Option FileVersion) (validatedConfig : SsoConfig) : Prop :=
  ∃ text raw, version.bind (·.text) = some text ∧ lib.parse text = some raw ∧
    isObject raw = true ∧
    resolveSsoFile lib.web raw (config.baseDomain.getD DEFAULT_BASE_DOMAIN) = .ok validatedConfig

/-- The answer is right about the file. -/
def Describes (version : Option FileVersion) : Except String SsoResponse → Prop
  | .ok (.configured path _ validatedConfig) =>
      config.path = some path ∧ Holds lib config version validatedConfig
  | .ok (.notConfigured _) => config.path = none ∨ version = none
  | .error _ => ∀ validatedConfig, ¬ Holds lib config version validatedConfig

/-- No two edits give the file one modification time. -/
def Stamped (disk : Disk) : Prop :=
  ∀ t t' v v', t ≤ t' → disk t = some v → disk t' = some v' → v.mtimeMs = v'.mtimeMs →
    ∀ s, t ≤ s → s ≤ t' → disk s = disk t

/-- What is kept was read at some moment before `now`, after the time that is kept. -/
def Kept (disk : Disk) (now : ℕ) (s : State) : Prop :=
  ∀ mtimeMs result, s.cachedMtimeMs = some mtimeMs → s.cachedResult = some result →
    ∃ statAt readAt version, statAt ≤ readAt ∧ readAt ≤ now ∧ disk statAt = some version ∧
      version.mtimeMs = mtimeMs ∧ Describes lib config (disk readAt) (.ok result) ∧
        ∃ path loadedAt validatedConfig, result = .configured path loadedAt validatedConfig

variable {lib config} {disk : Disk} {s : State} {call : Call}

theorem readConfig_describes {filePath : String} (hpath : config.path = some filePath)
    (version : Option FileVersion) (now : ℚ) :
    Describes lib config version (readConfig lib config filePath (version.bind (·.text)) now) ∧
      ∀ response, readConfig lib config filePath (version.bind (·.text)) now = .ok response →
        ∃ path loadedAt validatedConfig, response = .configured path loadedAt validatedConfig := by
  have hnone : ∀ {message : String}, (∀ validatedConfig, ¬ Holds lib config version validatedConfig) →
      Describes lib config version (.error message) := fun h => h
  unfold readConfig
  cases htext : version.bind (·.text) with
  | none =>
      refine ⟨hnone fun _ h => ?_, fun _ h => by cases h⟩
      rcases h with ⟨text, raw, htext', -⟩
      cases htext.symm.trans htext'
  | some text =>
      simp only
      cases hraw : lib.parse text with
      | none =>
          refine ⟨hnone fun _ h => ?_, fun _ h => by cases h⟩
          rcases h with ⟨text', raw, htext', hraw', -⟩
          cases htext.symm.trans htext'
          cases hraw.symm.trans hraw'
      | some raw =>
          have hsame : ∀ {validatedConfig}, Holds lib config version validatedConfig →
              isObject raw = true ∧ resolveSsoFile lib.web raw
                (config.baseDomain.getD DEFAULT_BASE_DOMAIN) = .ok validatedConfig := by
            intro validatedConfig h
            rcases h with ⟨text', raw', htext', hraw', hobject, hresolve⟩
            cases htext.symm.trans htext'
            cases hraw.symm.trans hraw'
            exact ⟨hobject, hresolve⟩
          simp only
          split_ifs with hobject
          · refine ⟨hnone fun _ h => ?_, fun _ h => by cases h⟩
            simp [(hsame h).1] at hobject
          · cases hresolve : resolveSsoFile lib.web raw
                (config.baseDomain.getD DEFAULT_BASE_DOMAIN) with
            | error summary =>
                refine ⟨hnone fun _ h => ?_, fun _ h => by cases h⟩
                cases hresolve.symm.trans (hsame h).2
            | ok validatedConfig =>
                refine ⟨⟨hpath, text, raw, htext, hraw, ?_, hresolve⟩, fun _ h => ?_⟩
                · simpa using hobject
                · cases h
                  exact ⟨_, _, _, rfl⟩

/-- One call: its answer is right about some moment of it, and what is kept stays so. -/
theorem Kept.answer (hstamped : Stamped disk) (hordered : call.Ordered)
    (h : Kept lib config disk call.existsAt s) :
    (∃ t, call.existsAt ≤ t ∧ t ≤ call.readAt ∧
      Describes lib config (disk t) (getSsoConfig lib config disk s call).1) ∧
    Kept lib config disk call.readAt (getSsoConfig lib config disk s call).2 := by
  have hkeep : Kept lib config disk call.readAt s := by
    intro mtimeMs result hmtime hresult
    rcases h mtimeMs result hmtime hresult with ⟨statAt, readAt, version, hle, hread, hrest⟩
    exact ⟨statAt, readAt, version, hle, hread.trans (hordered.1.trans hordered.2), hrest⟩
  have hfirst : call.existsAt ≤ call.existsAt ∧ call.existsAt ≤ call.readAt :=
    ⟨le_rfl, hordered.1.trans hordered.2⟩
  unfold getSsoConfig
  cases hpath : config.path with
  | none => exact ⟨⟨_, hfirst.1, hfirst.2, .inl hpath⟩, hkeep⟩
  | some filePath =>
      simp only
      split_ifs with hexists
      · exact ⟨⟨_, hfirst.1, hfirst.2, .inr (Option.isNone_iff_eq_none.mp hexists)⟩, hkeep⟩
      · cases hstat : disk call.statAt with
        | none =>
            refine ⟨⟨call.statAt, hordered.1, hordered.2, ?_⟩, hkeep⟩
            intro validatedConfig hholds
            rcases hholds with ⟨text, raw, htext, -⟩
            rw [hstat] at htext
            cases htext
        | some stat =>
            simp only
            cases hcached : s.cached stat.mtimeMs with
            | some result =>
                -- the file has not changed since what is kept was read
                unfold State.cached at hcached
                split_ifs at hcached with hmtime
                rcases h _ _ hmtime hcached with
                  ⟨statAt, readAt, version, hle, hread, hversion, heq, hdescribes, -⟩
                have hbefore : readAt ≤ call.statAt := hread.trans hordered.1
                have hunchanged := hstamped statAt call.statAt version stat (hle.trans hbefore)
                  hversion hstat heq
                refine ⟨⟨call.statAt, hordered.1, hordered.2, ?_⟩, hkeep⟩
                rwa [hunchanged call.statAt (hle.trans hbefore) le_rfl,
                  ← hunchanged readAt hle hbefore]
            | none =>
                rcases readConfig_describes hpath (disk call.readAt) call.now with
                  ⟨hdescribes, hconfigured⟩
                simp only
                cases hread : readConfig lib config filePath ((disk call.readAt).bind (·.text))
                    call.now with
                | error message =>
                    rw [hread] at hdescribes
                    exact ⟨⟨call.readAt, hfirst.2, le_rfl, hdescribes⟩, hkeep⟩
                | ok response =>
                    rw [hread] at hdescribes
                    refine ⟨⟨call.readAt, hfirst.2, le_rfl, hdescribes⟩, ?_⟩
                    intro mtimeMs result hmtime hresult
                    cases hmtime
                    cases hresult
                    exact ⟨call.statAt, call.readAt, stat, hordered.2, le_rfl, hstat, rfl,
                      hdescribes, hconfigured _ hread⟩

theorem Kept.later {now later : ℕ} (h : Kept lib config disk now s) (hle : now ≤ later) :
    Kept lib config disk later s := by
  intro mtimeMs result hmtime hresult
  rcases h mtimeMs result hmtime hresult with ⟨statAt, readAt, version, hread, hnow, hrest⟩
  exact ⟨statAt, readAt, version, hread, hnow.trans hle, hrest⟩

/-- In every run over a file that gets a new modification time with every edit, each answer is
right about the file at a moment of the call: what is kept is never served for a later text. -/
theorem config_current (hstamped : Stamped disk) {calls : List Call}
    (hcalls : ∀ call ∈ calls, call.Ordered)
    (hordered : calls.Pairwise fun call next => call.readAt ≤ next.existsAt) :
    List.Forall₂ (fun call answer => ∃ t, call.existsAt ≤ t ∧ t ≤ call.readAt ∧
      Describes lib config (disk t) answer) calls (answers lib config disk {} calls) := by
  have hrun : ∀ (calls : List Call) (s : State), (∀ call ∈ calls, call.Ordered) →
      calls.Pairwise (fun call next => call.readAt ≤ next.existsAt) →
      (∀ call ∈ calls, Kept lib config disk call.existsAt s) →
      List.Forall₂ (fun call answer => ∃ t, call.existsAt ≤ t ∧ t ≤ call.readAt ∧
        Describes lib config (disk t) answer) calls (answers lib config disk s calls) := by
    intro calls
    induction calls with
    | nil =>
        intro _ _ _ _
        exact .nil
    | cons call calls ih =>
        intro s hcalls hordered hkept
        rcases List.pairwise_cons.mp hordered with ⟨hnext, hordered⟩
        rcases (hkept call List.mem_cons_self).answer hstamped (hcalls call List.mem_cons_self) with
          ⟨hanswer, hkept'⟩
        refine .cons hanswer (ih _ (fun c hc => hcalls c (List.mem_cons_of_mem _ hc)) hordered ?_)
        intro next hmem
        exact hkept'.later (hnext next hmem)
  refine hrun calls {} hcalls hordered fun call _ mtimeMs result hmtime => ?_
  cases hmtime

end Adapter

/-- A file that is edited at moment 5. -/
def sampleDisk : Disk := fun t =>
  if t < 5 then some ⟨1, some (sampleFileText "[ \"admins\" ]")⟩
  else some ⟨2, some (sampleFileText "[ \"admins\", \"engineers\" ]")⟩

theorem sampleDisk_stamped : Stamped sampleDisk := by
  intro t t' v v' hle hv hv' hmtime s hs hs'
  simp only [sampleDisk] at hv hv' ⊢
  split_ifs at hv hv' ⊢
  any_goals rfl
  all_goals first | omega | (cases hv; cases hv'; exact absurd hmtime (by norm_num))

def sampleLibrary : Library where
  parse text := (sampleYaml.parse text).toOption
  web := sampleEngine.web

def sampleConfig : SsoAdapterConfig where
  filePath := some "sso.yaml"
  isProduction := false
  baseDomain := none

/-- The second call reads the time before the edit and the text after it. -/
def sampleCalls : List Call := [⟨0, 0, 1, 0⟩, ⟨3, 4, 5, 1⟩, ⟨6, 7, 8, 2⟩]

theorem config_current_sample :
    List.Forall₂ (fun call answer => ∃ t, call.existsAt ≤ t ∧ t ≤ call.readAt ∧
      Describes sampleLibrary sampleConfig (sampleDisk t) answer)
      sampleCalls
      (answers sampleLibrary sampleConfig sampleDisk {} sampleCalls) :=
  config_current sampleDisk_stamped (by decide) (by decide)

end Sso.FileSsoAdapter
