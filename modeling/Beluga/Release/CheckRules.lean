import Beluga.Py.JsonText
import Beluga.Release.RequiredChecks
import Mathlib.Data.List.DropRight
import Mathlib.Data.List.Perm.Basic

/-! # What the required checks of a release let pass

* `parse_paged`: a stream gives its values, whatever its pages;
* `evaluate_nil_iff`: the newest run and the last job of each name decide;
* `checks_sound_iff`: when these speak for all runs and jobs;
* `failed_job_overwritten`: a job that failed, before one of its name that succeeded.
-/

namespace Release

open Py

/-! ## Pages -/

/-- A text of a value, without white space around it. -/
def Prints (t : List Char) (v : Value) : Prop :=
  (∃ c cs, t = c :: cs ∧ isSpace c = false) ∧ (∃ cs c, t = cs ++ [c] ∧ isSpace c = false) ∧
    ∀ rest, Json.rawDecode (t ++ rest) = some (v, rest)

def Blank (ws : List Char) : Prop := ∀ c ∈ ws, isSpace c = true

/-- A text of values, one by one or in lists, with white space between them. -/
inductive Paged : List Value → List Char → Prop where
  | done {ws : List Char} (hws : Blank ws) : Paged [] ws
  | one {ws t text : List Char} {d : Entries} {vs : List Value} (hws : Blank ws)
      (ht : Prints t (.dict d)) (hrest : Paged vs text) : Paged (.dict d :: vs) (ws ++ (t ++ text))
  | page {ws t text : List Char} {items vs : List Value} (hws : Blank ws)
      (ht : Prints t (.list items)) (hrest : Paged vs text) : Paged (items ++ vs) (ws ++ (t ++ text))

variable {vs : List Value} {text t ws : List Char} {v : Value}

theorem dropWhile_blank (hws : Blank ws) (cs : List Char) :
    (ws ++ cs).dropWhile isSpace = cs.dropWhile isSpace := List.dropWhile_append_of_pos hws

theorem Prints.dropWhile (h : Prints t v) (cs : List Char) :
    (t ++ cs).dropWhile isSpace = t ++ cs := by
  rcases h.1 with ⟨c, rest, rfl, hc⟩
  rw [List.cons_append, List.dropWhile_cons_of_neg (by simp [hc])]

theorem rdropWhile_append {a : List Char} (h : ∃ cs c, a = cs ++ [c] ∧ isSpace c = false)
    (b : List Char) : (a ++ b).rdropWhile isSpace = a ++ b.rdropWhile isSpace := by
  rcases h with ⟨cs, c, rfl, hc⟩
  induction b using List.reverseRecOn with
  | nil =>
      rw [List.append_nil, List.rdropWhile_nil, List.append_nil,
        List.rdropWhile_concat_neg isSpace cs c (by simp [hc])]
  | append_singleton b d ih =>
      rw [← List.append_assoc]
      by_cases hd : isSpace d = true
      · rw [List.rdropWhile_concat_pos isSpace _ d hd, List.rdropWhile_concat_pos isSpace _ d hd, ih]
      · rw [List.rdropWhile_concat_neg isSpace _ d hd, List.rdropWhile_concat_neg isSpace _ d hd,
          List.append_assoc]

theorem Paged.lstrip (h : Paged vs text) : Paged vs (text.dropWhile isSpace) := by
  have hnil : Blank [] := fun c hc => by cases hc
  cases h with
  | done hws =>
      rw [List.dropWhile_eq_nil_iff.mpr hws]
      exact .done hnil
  | one hws ht hrest =>
      rw [dropWhile_blank hws, ht.dropWhile]
      exact .one hnil ht hrest
  | page hws ht hrest =>
      rw [dropWhile_blank hws, ht.dropWhile]
      exact .page hnil ht hrest

theorem Paged.rstrip (h : Paged vs text) : Paged vs (text.rdropWhile isSpace) := by
  have hnil : Blank [] := fun c hc => by cases hc
  have hends : ∀ {ws t : List Char} {v : Value}, Prints t v →
      ∃ cs c, ws ++ t = cs ++ [c] ∧ isSpace c = false := by
    intro ws t v ht
    rcases ht.2.1 with ⟨cs, c, rfl, hc⟩
    exact ⟨ws ++ cs, c, by rw [List.append_assoc], hc⟩
  induction h with
  | done hws =>
      rw [List.rdropWhile_eq_nil_iff.mpr hws]
      exact .done hnil
  | one hws ht _ ih =>
      rw [← List.append_assoc, rdropWhile_append (hends ht), List.append_assoc]
      exact .one hws ht ih
  | page hws ht _ ih =>
      rw [← List.append_assoc, rdropWhile_append (hends ht), List.append_assoc]
      exact .page hws ht ih

theorem stream_prints (ht : Prints t v) (n : ℕ) (rest : List Char) :
    streamFrom (n + 1) (t ++ rest) =
      (do let more ← streamFrom n (rest.dropWhile isSpace); .ok (itemsOf v ++ more)) := by
  have hdecode := ht.2.2 rest
  rcases ht.1 with ⟨c, cs, rfl, -⟩
  rw [List.cons_append] at hdecode ⊢
  rw [streamFrom, hdecode]

theorem stream_paged (h : Paged vs text) {n : ℕ} (hn : text.length ≤ n) :
    streamFrom n (text.dropWhile isSpace) = .ok vs := by
  have hlength : ∀ {ws t text : List Char} {v : Value} {n : ℕ}, Prints t v →
      (ws ++ (t ++ text)).length ≤ n → ∃ m, n = m + 1 ∧ text.length ≤ m := by
    intro ws t text v n ht hn
    rcases ht.1 with ⟨c, cs, rfl, -⟩
    rw [List.length_append, List.length_append, List.length_cons] at hn
    exact ⟨n - 1, by omega, by omega⟩
  induction h generalizing n with
  | done hws =>
      rw [List.dropWhile_eq_nil_iff.mpr hws]
      cases n with
      | zero => rfl
      | succ n => rfl
  | one hws ht _ ih =>
      rcases hlength ht hn with ⟨m, rfl, hm⟩
      rw [dropWhile_blank hws, ht.dropWhile, stream_prints ht, ih hm]
      rfl
  | page hws ht _ ih =>
      rcases hlength ht hn with ⟨m, rfl, hm⟩
      rw [dropWhile_blank hws, ht.dropWhile, stream_prints ht, ih hm]
      rfl

theorem strip_toList (s : String) :
    (strip s).toList = (s.toList.dropWhile isSpace).rdropWhile isSpace := by
  rw [strip, String.toList_ofList]
  rfl

theorem parse_paged {s : String} (h : Paged vs s.toList) : parse_stream s = .ok vs := by
  have hstripped := h.lstrip.rstrip
  have hstart : (strip s).toList.dropWhile isSpace = (strip s).toList := by
    rw [strip_toList]
    cases hdrop : s.toList.dropWhile isSpace with
    | nil => rfl
    | cons c cs =>
        have hc : isSpace c = false := by
          have hnot := List.head_dropWhile_not isSpace (l := s.toList) (by simp [hdrop])
          simpa [hdrop] using hnot
        have hends : ∃ front d, [c] = front ++ [d] ∧ isSpace d = false := ⟨[], c, rfl, hc⟩
        rw [← List.singleton_append, rdropWhile_append hends, List.singleton_append,
          List.dropWhile_cons_of_neg (by simp [hc])]
  rw [← strip_toList] at hstripped
  have hstream := stream_paged hstripped (le_refl _)
  rw [hstart] at hstream
  exact hstream

/-- Values that have texts have one in any order. -/
theorem exists_paged {ds : List Entries} (h : ∀ d ∈ ds, ∃ t, Prints t (.dict d)) :
    ∃ s : String, Paged (ds.map .dict) s.toList := by
  have hnil : Blank [] := fun c hc => by cases hc
  have hlist : ∃ text, Paged (ds.map .dict) text := by
    induction ds with
    | nil => exact ⟨[], .done hnil⟩
    | cons d ds ih =>
        rcases h d List.mem_cons_self with ⟨t, ht⟩
        rcases ih fun d' hd' => h d' (List.mem_cons_of_mem d hd') with ⟨text, htext⟩
        exact ⟨_, .one hnil ht htext⟩
  rcases hlist with ⟨text, htext⟩
  exact ⟨String.ofList text, by rwa [String.toList_ofList]⟩

theorem writeMembers_end (py : Py.Text) (level : ℕ) (es : Entries) :
    ∃ cs, Json.writeMembers py level es = cs ++ ['\x7d'] := by
  induction es with
  | nil => exact ⟨Json.newline level, Json.writeMembers_nil py level⟩
  | cons e es ih =>
      rcases ih with ⟨cs, hcs⟩
      rcases e with ⟨key, v⟩
      refine ⟨',' :: (Json.newline (level + 1) ++ ('"' :: (Json.quotedEnd key.toList ++
        (':' :: ' ' :: (Json.write py (level + 1) v ++ cs))))), ?_⟩
      rw [Json.writeMembers_cons, hcs]
      simp [List.append_assoc]

/-- What `json.dumps` writes of an object is a text of it. -/
theorem prints_write {py : Py.Text} {d : Entries} (h : Json.Writable py (.dict d)) :
    Prints (Json.write py 0 (.dict d)) (.dict d) := by
  have hends : ∃ cs, Json.write py 0 (.dict d) = '\x7b' :: (cs ++ ['\x7d']) := by
    cases d with
    | nil => exact ⟨[], by rw [Json.write]; rfl⟩
    | cons e d =>
        rcases e with ⟨key, v⟩
        rcases writeMembers_end py 0 d with ⟨cs, hcs⟩
        refine ⟨Json.newline (0 + 1) ++ ('"' :: (Json.quotedEnd key.toList ++ (':' :: ' ' ::
          (Json.write py (0 + 1) v ++ cs)))), ?_⟩
        rw [Json.write, hcs]
        simp [List.append_assoc]
  rcases hends with ⟨cs, hcs⟩
  exact ⟨⟨'\x7b', cs ++ ['\x7d'], hcs, rfl⟩, ⟨'\x7b' :: cs, '\x7d', hcs, rfl⟩,
    Json.rawDecode_dict h 0⟩

/-! ## Runs and jobs -/

/-- A run, with the fields that are read of it. -/
structure RunObject where
  fields : Entries
  id : ℤ
  has_id : fields.lookup "id" = some (.int id)
  complete : ∀ key ∈ ["path", "event", "head_branch", "head_sha", "status", "conclusion"],
    (fields.lookup key).isSome = true
  printed : ∃ t, Prints t (.dict fields)

/-- A job, with the fields that are read of it. -/
structure JobObject where
  fields : Entries
  name : String
  has_name : fields.lookup "name" = some (.str name)
  complete : ∀ key ∈ ["run_id", "status", "conclusion"], (fields.lookup key).isSome = true
  printed : ∃ t, Prints t (.dict fields)

def RunObject.value (r : RunObject) : Value := .dict r.fields

def JobObject.value (j : JobObject) : Value := .dict j.fields

def RunObject.get (r : RunObject) (key : String) : Value := Py.get r.fields key

def JobObject.get (j : JobObject) (key : String) : Value := Py.get j.fields key

theorem item_dict {d : Entries} {key : String} (h : (d.lookup key).isSome = true) :
    item (.dict d) key = .ok (Py.get d key) := by
  unfold item Py.get Py.getD
  cases hkey : d.lookup key with
  | none =>
      rw [hkey] at h
      cases h
  | some x => simp [hkey]

section Rules

variable {rt : Runtime} {sha : String} {r run best : RunObject} {rs runs : List RunObject}
  {j : JobObject} {js jobs : List JobObject} {name : String} {required : List String}

theorem RunObject.item_id (r : RunObject) : item r.value "id" = .ok (.int r.id) := by
  rw [RunObject.value, item_dict (by rw [r.has_id]; rfl), Py.get, Py.getD, r.has_id]
  rfl

/-- Whether a run is a push run of the workflow on main for the commit. -/
def candidate (rt : Runtime) (sha : String) (r : RunObject) : Bool :=
  beforeAt ((r.get "path").text rt.py) = WORKFLOW_PATH && (r.get "event").eq (.str "push") &&
    (r.get "head_branch").eq (.str "main") && (r.get "head_sha").eq (.str sha)

/-- A push run of the workflow on main for the commit. -/
def Candidate (rt : Runtime) (sha : String) (r : RunObject) : Prop :=
  beforeAt ((r.get "path").text rt.py) = WORKFLOW_PATH ∧ r.get "event" = .str "push" ∧
    r.get "head_branch" = .str "main" ∧ r.get "head_sha" = .str sha

/-- Such a run with the highest id. -/
def Newest (rt : Runtime) (sha : String) (runs : List RunObject) (r : RunObject) : Prop :=
  r ∈ runs ∧ Candidate rt sha r ∧ ∀ q ∈ runs, Candidate rt sha q → q.id ≤ r.id

def Succeeded (r : RunObject) : Prop :=
  r.get "status" = .str "completed" ∧ r.get "conclusion" = .str "success"

def Passed (j : JobObject) : Prop := j.get "conclusion" = .str "success"

/-- Whether a job belongs to the run. -/
def JobObject.ofRun (j : JobObject) (id : ℤ) : Bool := (j.get "run_id").eq (.int id)

/-- A job of the run with the name. -/
def Named (jobs : List JobObject) (r : RunObject) (name : String) (j : JobObject) : Prop :=
  j ∈ jobs ∧ j.ofRun r.id = true ∧ j.name = name

theorem candidate_iff {r : RunObject} : candidate rt sha r = true ↔ Candidate rt sha r := by
  unfold candidate Candidate
  rw [Bool.and_eq_true, Bool.and_eq_true, Bool.and_eq_true, decide_eq_true_eq, eq_str, eq_str,
    eq_str, and_assoc, and_assoc]

theorem isCandidate_run (r : RunObject) :
    isCandidate rt sha r.value = .ok (candidate rt sha r) := by
  have hitem : ∀ key ∈ ["path", "event", "head_branch", "head_sha", "status", "conclusion"],
      item r.value key = .ok (r.get key) := fun key hkey => item_dict (r.complete key hkey)
  have hpath := hitem "path" (by simp)
  have hevent := hitem "event" (by simp)
  have hbranch := hitem "head_branch" (by simp)
  have hsha := hitem "head_sha" (by simp)
  simp only [isCandidate, hpath, hevent, hbranch, hsha, candidate, bind, Except.bind]
  by_cases h₁ : beforeAt ((r.get "path").text rt.py) = WORKFLOW_PATH
  · rw [if_neg (by simpa using h₁), decide_eq_true h₁, Bool.true_and]
    cases h₂ : (r.get "event").eq (.str "push") with
    | false => rfl
    | true =>
        rw [if_neg (by simp), Bool.true_and]
        cases h₃ : (r.get "head_branch").eq (.str "main") with
        | false => rfl
        | true => rfl
  · rw [if_pos h₁, decide_eq_false h₁]
    rfl

theorem candidatesOf_runs (runs : List RunObject) :
    candidatesOf rt sha (runs.map RunObject.value) =
      .ok ((runs.filter (candidate rt sha)).map RunObject.value) := by
  have hflags : (runs.map RunObject.value).mapM (isCandidate rt sha) =
      .ok (runs.map (candidate rt sha)) := by
    induction runs with
    | nil => rfl
    | cons r runs ih =>
        rw [List.map_cons, List.mapM_cons, isCandidate_run, ih]
        rfl
  have hzip : ∀ runs : List RunObject,
      (((runs.map RunObject.value).zip (runs.map (candidate rt sha))).filter
        fun entry => entry.2).map (fun entry => entry.1) =
      (runs.filter (candidate rt sha)).map RunObject.value := by
    intro runs
    induction runs with
    | nil => rfl
    | cons r runs ih =>
        rw [List.map_cons, List.map_cons, List.zip_cons_cons]
        cases hr : candidate rt sha r with
        | false =>
            rw [List.filter_cons_of_neg (by simp), List.filter_cons_of_neg (by simp [hr]), ih]
        | true =>
            rw [List.filter_cons_of_pos rfl, List.filter_cons_of_pos hr, List.map_cons, ih,
              List.map_cons]
  rw [candidatesOf, hflags, ← hzip runs]
  rfl

/-! ## The newest run -/

theorem greater_ids (a b : ℤ) : greater (.int a) (.int b) = .ok (decide (b < a)) := by
  simp [greater, Value.number, Js.Num.lt]

def firstMax (best : RunObject) : List RunObject → RunObject
  | [] => best
  | r :: rest => if best.id < r.id then firstMax r rest else firstMax best rest

/-- The run that is looked at. -/
def newestRun (rt : Runtime) (sha : String) (runs : List RunObject) : Option RunObject :=
  match runs.filter (candidate rt sha) with
  | [] => none
  | r :: rest => some (firstMax r rest)

theorem maxFrom_runs (best : RunObject) (rs : List RunObject) :
    maxFrom best.value (.int best.id) (rs.map RunObject.value) = .ok (firstMax best rs).value := by
  induction rs generalizing best with
  | nil => rfl
  | cons r rs ih =>
      rw [List.map_cons, maxFrom, r.item_id, firstMax]
      by_cases hr : best.id < r.id
      · rw [if_pos hr, ← ih r]
        simp [bind, Except.bind, greater_ids, hr]
      · rw [if_neg hr, ← ih best]
        simp [bind, Except.bind, greater_ids, hr]

theorem newest_runs (r : RunObject) (rs : List RunObject) :
    newest ((r :: rs).map RunObject.value) = .ok (firstMax r rs).value := by
  rw [List.map_cons, newest, r.item_id, ← maxFrom_runs r rs]
  rfl

theorem firstMax_mem (best : RunObject) (rs : List RunObject) : firstMax best rs ∈ best :: rs := by
  induction rs generalizing best with
  | nil => exact List.mem_cons_self
  | cons r rs ih =>
      rw [firstMax]
      by_cases hr : best.id < r.id
      · rw [if_pos hr]
        exact List.mem_cons_of_mem best (ih r)
      · rw [if_neg hr]
        rcases List.mem_cons.mp (ih best) with h | h
        · exact List.mem_cons.mpr (.inl h)
        · exact List.mem_cons_of_mem best (List.mem_cons_of_mem r h)

theorem le_firstMax (best : RunObject) (rs : List RunObject) :
    ∀ q ∈ best :: rs, q.id ≤ (firstMax best rs).id := by
  induction rs generalizing best with
  | nil =>
      intro q hq
      rw [List.mem_singleton.mp hq, firstMax]
  | cons r rs ih =>
      intro q hq
      rw [firstMax]
      by_cases hr : best.id < r.id
      · rw [if_pos hr]
        rcases List.mem_cons.mp hq with rfl | hq
        · have hle := ih r r List.mem_cons_self
          omega
        · exact ih r q hq
      · rw [if_neg hr]
        have hbest := ih best best List.mem_cons_self
        rcases List.mem_cons.mp hq with rfl | hq
        · exact hbest
        · rcases List.mem_cons.mp hq with rfl | hq
          · omega
          · exact ih best q (List.mem_cons_of_mem best hq)

/-- The first of the runs with the highest id. -/
theorem firstMax_of_max (hbest : ∀ q ∈ rs, q.id ≤ best.id) : firstMax best rs = best := by
  induction rs with
  | nil => rfl
  | cons r rs ih =>
      have hr := hbest r List.mem_cons_self
      rw [firstMax, if_neg (by omega)]
      exact ih fun q hq => hbest q (List.mem_cons_of_mem r hq)

theorem newestRun_newest (h : newestRun rt sha runs = some run) : Newest rt sha runs run := by
  unfold newestRun at h
  have hmem : ∀ q, q ∈ runs.filter (candidate rt sha) ↔ q ∈ runs ∧ Candidate rt sha q := by
    intro q
    rw [List.mem_filter, candidate_iff]
  cases hcandidates : runs.filter (candidate rt sha) with
  | nil =>
      rw [hcandidates] at h
      cases h
  | cons r rest =>
      rw [hcandidates] at h hmem
      cases h
      have hfound := (hmem _).mp (firstMax_mem r rest)
      exact ⟨hfound.1, hfound.2, fun q hq hc => le_firstMax r rest q ((hmem q).mpr ⟨hq, hc⟩)⟩

theorem exists_newestRun (h : ∃ r, Newest rt sha runs r) :
    ∃ run, newestRun rt sha runs = some run := by
  rcases h with ⟨r, hr, hc, -⟩
  have hmem : r ∈ runs.filter (candidate rt sha) := List.mem_filter.mpr ⟨hr, candidate_iff.mpr hc⟩
  unfold newestRun
  cases hcandidates : runs.filter (candidate rt sha) with
  | nil =>
      rw [hcandidates] at hmem
      cases hmem
  | cons r rest => exact ⟨_, rfl⟩

/-- Of the newest runs, the first is looked at. -/
theorem newestRun_head (h : Newest rt sha (run :: rs) run) :
    newestRun rt sha (run :: rs) = some run := by
  unfold newestRun
  rw [List.filter_cons_of_pos (candidate_iff.mpr h.2.1)]
  refine congrArg some (firstMax_of_max fun q hq => ?_)
  rcases List.mem_filter.mp hq with ⟨hmem, hc⟩
  exact h.2.2 q (List.mem_cons_of_mem run hmem) (candidate_iff.mp hc)

/-! ## The jobs of the run -/

/-- The last job of the run with the name. -/
def lastJob (jobs : List JobObject) (id : ℤ) (name : String) : Option JobObject :=
  jobs.reverse.find? fun j => j.ofRun id && j.name = name

theorem item_job (j : JobObject) {key : String} (h : key ∈ ["run_id", "status", "conclusion"]) :
    item j.value key = .ok (j.get key) := item_dict (j.complete key h)

theorem item_name (j : JobObject) : item j.value "name" = .ok (.str j.name) := by
  rw [JobObject.value, item_dict (by rw [j.has_name]; rfl), Py.get, Py.getD, j.has_name]
  rfl

theorem ownEntry_job (id : ℤ) (j : JobObject) :
    ownEntry (.int id) j.value =
      .ok (if j.ofRun id then [(.str j.name, j.value)] else []) := by
  rw [ownEntry, item_job j (by simp)]
  cases hmine : j.ofRun id with
  | false => simp [bind, Except.bind, show (j.get "run_id").eq (.int id) = false from hmine]
  | true =>
      simp [bind, Except.bind, show (j.get "run_id").eq (.int id) = true from hmine, item_name,
        hashed, hashable]

theorem ownEntries_jobs (id : ℤ) (jobs : List JobObject) :
    (jobs.map JobObject.value).mapM (ownEntry (.int id)) =
      .ok (jobs.map fun j => if j.ofRun id then [(.str j.name, j.value)] else []) := by
  induction jobs with
  | nil => rfl
  | cons j jobs ih =>
      rw [List.map_cons, List.mapM_cons, ownEntry_job, ih]
      rfl

theorem mineGet_jobs (id : ℤ) (jobs : List JobObject) (name : String) :
    mineGet (jobs.map fun j =>
      if j.ofRun id then [((.str j.name : Value), j.value)] else []).flatten name =
      (lastJob jobs id name).map JobObject.value := by
  unfold mineGet lastJob
  induction jobs using List.reverseRecOn with
  | nil => rfl
  | append_singleton jobs j ih =>
      rw [List.map_append, List.flatten_append, List.reverse_append, List.reverse_append,
        List.find?_append, List.reverse_singleton, List.singleton_append]
      cases hmine : j.ofRun id with
      | false =>
          rw [List.find?_cons_of_neg (by simp [hmine]), ← ih]
          simp [hmine]
      | true =>
          by_cases hname : j.name = name
          · rw [List.find?_cons_of_pos (by simp [hmine, hname])]
            simp [hmine, hname]
          · rw [List.find?_cons_of_neg (by simp [hname]), ← ih]
            simp [hmine, hname]

theorem jobErrors_nil_iff (run : RunObject) (jobs : List JobObject) (required : List String) :
    ∃ errors, jobErrors rt required run.value (jobs.map JobObject.value) = .ok errors ∧
      (errors = [] ↔ ∀ name ∈ required, ∃ j, lastJob jobs run.id name = some j ∧ Passed j) := by
  have hjob : ∀ name, ∃ es, jobError rt (.int run.id) (jobs.map fun j =>
      if j.ofRun run.id then [((.str j.name : Value), j.value)] else []).flatten name = .ok es ∧
        (es = [] ↔ ∃ j, lastJob jobs run.id name = some j ∧ Passed j) := by
    intro name
    unfold jobError
    rw [mineGet_jobs]
    cases hlast : lastJob jobs run.id name with
    | none => exact ⟨_, rfl, by simp⟩
    | some j =>
        have hconclusion : item j.value "conclusion" = .ok (j.get "conclusion") :=
          item_job j (by simp)
        have hstatus : item j.value "status" = .ok (j.get "status") := item_job j (by simp)
        simp only [Option.map_some, hconclusion, hstatus, bind, Except.bind]
        by_cases hpassed : Passed j
        · refine ⟨[], by rw [if_pos (eq_str.mpr hpassed)], ?_⟩
          exact ⟨fun _ => ⟨j, rfl, hpassed⟩, fun _ => rfl⟩
        · refine ⟨_, by rw [if_neg (mt eq_str.mp hpassed)], ?_⟩
          refine ⟨fun h => (by cases h), fun h => ?_⟩
          rcases h with ⟨j', hj', hp⟩
          cases hj'
          exact absurd hp hpassed
  have hall : ∃ ess : List (List String), required.mapM (jobError rt (.int run.id) (jobs.map fun j =>
      if j.ofRun run.id then [((.str j.name : Value), j.value)] else []).flatten) = .ok ess ∧
        (ess.flatten = [] ↔
          ∀ name ∈ required, ∃ j, lastJob jobs run.id name = some j ∧ Passed j) := by
    induction required with
    | nil => exact ⟨[], rfl, by simp⟩
    | cons name names ih =>
        rcases hjob name with ⟨es, hes, hiff⟩
        rcases ih with ⟨ess, hess, hall⟩
        refine ⟨es :: ess, by rw [List.mapM_cons, hes, hess]; rfl, ?_⟩
        rw [List.flatten_cons, List.append_eq_nil_iff, hiff, hall, List.forall_mem_cons]
  rcases hall with ⟨ess, hess, hiff⟩
  refine ⟨ess.flatten, ?_, hiff⟩
  rw [jobErrors, run.item_id]
  simp only [bind, Except.bind]
  rw [ownEntries_jobs]
  simp only [hess]

/-! ## The answer -/

theorem runError_run (r : RunObject) :
    ∃ failed, runError rt r.value = .ok failed ∧ (failed = none ↔ Succeeded r) := by
  have hstatus : item r.value "status" = .ok (r.get "status") := item_dict (r.complete _ (by simp))
  have hconclusion : item r.value "conclusion" = .ok (r.get "conclusion") :=
    item_dict (r.complete _ (by simp))
  simp only [runError, hstatus, hconclusion, r.item_id, bind, Except.bind, Succeeded]
  by_cases h : (r.get "status").eq (.str "completed") && (r.get "conclusion").eq (.str "success")
  · refine ⟨none, by rw [if_pos h], ?_⟩
    rw [Bool.and_eq_true, eq_str, eq_str] at h
    exact ⟨fun _ => h, fun _ => rfl⟩
  · refine ⟨_, by rw [if_neg h], ?_⟩
    rw [Bool.and_eq_true, eq_str, eq_str] at h
    exact ⟨fun hfailed => (by cases hfailed), fun hs => absurd hs h⟩

theorem evaluate_nil_iff {runs_text jobs_text : String}
    (hruns : Paged (runs.map RunObject.value) runs_text.toList)
    (hjobs : Paged (jobs.map JobObject.value) jobs_text.toList) :
    evaluate rt runs_text jobs_text sha required = [] ↔
      ∃ run, newestRun rt sha runs = some run ∧ Succeeded run ∧
        ∀ name ∈ required, ∃ j, lastJob jobs run.id name = some j ∧ Passed j := by
  unfold evaluate evaluateStreams newestRun
  rw [parse_paged hruns, parse_paged hjobs]
  simp only [bind, Except.bind]
  rw [candidatesOf_runs]
  cases runs.filter (candidate rt sha) with
  | nil => simp
  | cons r rest =>
      rcases @runError_run rt (firstMax r rest) with ⟨failed, hfailed, hsucceeded⟩
      rcases @jobErrors_nil_iff rt (firstMax r rest) jobs required with ⟨errors, herrors, hnil⟩
      simp only [List.map_cons, List.isEmpty_cons, Bool.false_eq_true, if_false]
      rw [← List.map_cons, newest_runs]
      dsimp only
      rw [hfailed]
      dsimp only
      cases failed with
      | some error =>
          have hnot : ¬Succeeded (firstMax r rest) := by
            intro hs
            cases hsucceeded.mpr hs
          simp [hnot]
      | none =>
          have hdone := hsucceeded.mp rfl
          dsimp only
          rw [herrors]
          simp [hdone, hnil]

/-- What the gate is for: the newest run succeeded, with all its jobs of the required names. -/
def Released (rt : Runtime) (sha : String) (required : List String) (runs : List RunObject)
    (jobs : List JobObject) : Prop :=
  (∃ r, Newest rt sha runs r) ∧ (∀ r, Newest rt sha runs r → Succeeded r) ∧
    ∀ r, Newest rt sha runs r → ∀ name ∈ required,
      (∃ j, Named jobs r name j) ∧ ∀ j, Named jobs r name j → Passed j

/-- With a successful run and a successful job for each required name, none of them failed. -/
def Unmixed (rt : Runtime) (sha : String) (required : List String) (runs : List RunObject)
    (jobs : List JobObject) : Prop :=
  (∃ r, Newest rt sha runs r ∧ Succeeded r ∧
    ∀ name ∈ required, ∃ j, Named jobs r name j ∧ Passed j) →
  ∀ r, Newest rt sha runs r → Succeeded r ∧
    ∀ name ∈ required, ∀ j, Named jobs r name j → Passed j

theorem Newest.perm {runs' : List RunObject} (h : Newest rt sha runs r) (hperm : runs'.Perm runs) :
    Newest rt sha runs' r :=
  ⟨hperm.mem_iff.mpr h.1, h.2.1, fun q hq => h.2.2 q (hperm.mem_iff.mp hq)⟩

theorem Newest.id_eq {r' : RunObject} (h : Newest rt sha runs r) (h' : Newest rt sha runs r') :
    r.id = r'.id := by
  have hle := h.2.2 r' h'.1 h'.2.1
  have hge := h'.2.2 r h.1 h.2.1
  omega

theorem lastJob_named (h : lastJob jobs run.id name = some j) : Named jobs run name j := by
  have hmem := List.mem_of_find?_eq_some h
  have hfound := List.find?_some h
  rw [Bool.and_eq_true, decide_eq_true_eq] at hfound
  exact ⟨List.mem_reverse.mp hmem, hfound.1, hfound.2⟩

theorem exists_lastJob (h : Named jobs run name j) : ∃ j', lastJob jobs run.id name = some j' := by
  have hsome : (lastJob jobs run.id name).isSome = true := by
    unfold lastJob
    rw [List.find?_isSome]
    exact ⟨j, List.mem_reverse.mpr h.1, by simp [h.2.1, h.2.2]⟩
  exact Option.isSome_iff_exists.mp hsome

/-- Where the jobs that failed come first, one that passed is last. -/
theorem lastJob_passed (h : Named jobs run name j) (hj : Passed j) :
    ∃ j', lastJob (jobs.filter (fun j => !(j.get "conclusion").eq (.str "success")) ++
      jobs.filter fun j => (j.get "conclusion").eq (.str "success")) run.id name = some j' ∧
        Passed j' := by
  have hin : Named (jobs.filter fun j => (j.get "conclusion").eq (.str "success")) run name j :=
    ⟨List.mem_filter.mpr ⟨h.1, eq_str.mpr hj⟩, h.2⟩
  rcases exists_lastJob hin with ⟨j', hj'⟩
  refine ⟨j', ?_, eq_str.mp (List.mem_filter.mp (lastJob_named hj').1).2⟩
  unfold lastJob at hj' ⊢
  rw [List.reverse_append, List.find?_append, hj']
  rfl

/-- A text of the runs, in some order. -/
def RunsText (runs : List RunObject) (text : String) : Prop :=
  ∃ runs' : List RunObject, runs'.Perm runs ∧ Paged (runs'.map RunObject.value) text.toList

/-- A text of the jobs, in some order. -/
def JobsText (jobs : List JobObject) (text : String) : Prop :=
  ∃ jobs' : List JobObject, jobs'.Perm jobs ∧ Paged (jobs'.map JobObject.value) text.toList

theorem exists_runsText {runs' : List RunObject} (hperm : runs'.Perm runs) :
    ∃ text : String, RunsText runs text ∧ Paged (runs'.map RunObject.value) text.toList := by
  have hprinted : ∀ d ∈ runs'.map RunObject.fields, ∃ t, Prints t (.dict d) := by
    intro d hd
    rcases List.mem_map.mp hd with ⟨r, -, rfl⟩
    exact r.printed
  rcases exists_paged hprinted with ⟨text, htext⟩
  rw [List.map_map] at htext
  exact ⟨text, ⟨runs', hperm, htext⟩, htext⟩

theorem exists_jobsText {jobs' : List JobObject} (hperm : jobs'.Perm jobs) :
    ∃ text : String, JobsText jobs text ∧ Paged (jobs'.map JobObject.value) text.toList := by
  have hprinted : ∀ d ∈ jobs'.map JobObject.fields, ∃ t, Prints t (.dict d) := by
    intro d hd
    rcases List.mem_map.mp hd with ⟨j, -, rfl⟩
    exact j.printed
  rcases exists_paged hprinted with ⟨text, htext⟩
  rw [List.map_map] at htext
  exact ⟨text, ⟨jobs', hperm, htext⟩, htext⟩

theorem Named.perm {jobs' : List JobObject} (h : Named jobs run name j)
    (hperm : jobs'.Perm jobs) : Named jobs' run name j := ⟨hperm.mem_iff.mpr h.1, h.2⟩

theorem Named.of_id (h : Named jobs r name j) (hid : r.id = run.id) : Named jobs run name j :=
  ⟨h.1, by rw [← hid]; exact h.2.1, h.2.2⟩

/-- With the successful run first and the failed jobs before the others, nothing is reported. -/
theorem exists_silent (hrun : Newest rt sha runs run) (hsucceeded : Succeeded run)
    (hnamed : ∀ name ∈ required, ∃ j, Named jobs run name j ∧ Passed j) :
    ∃ runs_text jobs_text, RunsText runs runs_text ∧ JobsText jobs jobs_text ∧
      evaluate rt runs_text jobs_text sha required = [] := by
  rcases List.append_of_mem hrun.1 with ⟨front, back, rfl⟩
  have hfirst : (run :: (front ++ back)).Perm (front ++ run :: back) := List.perm_middle.symm
  have hsplit := List.filter_append_perm
    (fun j : JobObject => !(j.get "conclusion").eq (.str "success")) jobs
  simp only [Bool.not_not] at hsplit
  rcases exists_runsText hfirst with ⟨runs_text, hruns, hrunsPaged⟩
  rcases exists_jobsText hsplit with ⟨jobs_text, hjobs, hjobsPaged⟩
  refine ⟨runs_text, jobs_text, hruns, hjobs, ?_⟩
  rw [evaluate_nil_iff hrunsPaged hjobsPaged]
  refine ⟨run, newestRun_head (hrun.perm hfirst), hsucceeded, fun name hname => ?_⟩
  rcases hnamed name hname with ⟨j, hj, hpassed⟩
  exact lastJob_passed hj hpassed

/-- Exactly for lists that do not mix success and failure under a required name, or in runs of one
id, the answer is the one of all their objects, in any order and however they are printed. -/
theorem checks_sound_iff (rt : Runtime) (sha : String) (required : List String)
    (runs : List RunObject) (jobs : List JobObject) :
    (∀ runs_text jobs_text, RunsText runs runs_text → JobsText jobs jobs_text →
      (evaluate rt runs_text jobs_text sha required = [] ↔ Released rt sha required runs jobs)) ↔
    Unmixed rt sha required runs jobs := by
  constructor
  · intro h hmixed r hr
    rcases hmixed with ⟨run, hrun, hsucceeded, hnamed⟩
    rcases exists_silent hrun hsucceeded hnamed with
      ⟨runs_text, jobs_text, hruns, hjobs, hsilent⟩
    rcases (h runs_text jobs_text hruns hjobs).mp hsilent with ⟨-, hall, hpassed⟩
    exact ⟨hall r hr, fun name hname => (hpassed r hr name hname).2⟩
  · intro hunmixed runs_text jobs_text hruns hjobs
    rcases hruns with ⟨runs', hperm, hrunsPaged⟩
    rcases hjobs with ⟨jobs', hjobsPerm, hjobsPaged⟩
    rw [evaluate_nil_iff hrunsPaged hjobsPaged]
    constructor
    · intro h
      rcases h with ⟨run, hrun, hsucceeded, hlast⟩
      have hnewest := (newestRun_newest hrun).perm hperm.symm
      have hnamed : ∀ name ∈ required, ∃ j, Named jobs run name j ∧ Passed j := by
        intro name hname
        rcases hlast name hname with ⟨j, hj, hpassed⟩
        exact ⟨j, (lastJob_named hj).perm hjobsPerm.symm, hpassed⟩
      have hall := hunmixed ⟨run, hnewest, hsucceeded, hnamed⟩
      refine ⟨⟨run, hnewest⟩, fun r hr => (hall r hr).1, fun r hr name hname => ?_⟩
      rcases hnamed name hname with ⟨j, hj, -⟩
      exact ⟨⟨j, hj.of_id (hnewest.id_eq hr)⟩, (hall r hr).2 name hname⟩
    · intro h
      rcases h with ⟨hexists, hsucceeded, hnamed⟩
      rcases hexists with ⟨r, hr⟩
      rcases exists_newestRun ⟨r, hr.perm hperm⟩ with ⟨run, hrun⟩
      have hnewest := (newestRun_newest hrun).perm hperm.symm
      refine ⟨run, hrun, hsucceeded run hnewest, fun name hname => ?_⟩
      rcases hnamed run hnewest name hname with ⟨hsome, hpassed⟩
      rcases hsome with ⟨j, hj⟩
      rcases exists_lastJob (hj.perm hjobsPerm) with ⟨j', hj'⟩
      exact ⟨j', hj', hpassed j' ((lastJob_named hj').perm hjobsPerm.symm)⟩

end Rules

/-! A job that failed, and one of its name that succeeded later. -/

section Sample

def sampleText : Py.Text where
  quote s := "'" ++ s ++ "'"
  float _ := "0"
  float_head _ := ⟨'0', rfl, .inl rfl⟩

def sampleRuntime : Runtime := ⟨sampleText, fun _ => "KeyError"⟩

def runFields : Entries :=
  [("id", .int 7), ("path", .str ".github/workflows/sast.yml"), ("event", .str "push"),
    ("head_branch", .str "main"), ("head_sha", .str "abc"), ("status", .str "completed"),
    ("conclusion", .str "success")]

def jobFields (name conclusion : String) : Entries :=
  [("run_id", .int 7), ("name", .str name), ("status", .str "completed"),
    ("conclusion", .str conclusion)]

theorem writable_runFields : Json.Writable sampleText (.dict runFields) := by
  refine .dict (by decide) fun e he => ?_
  rcases List.mem_cons.mp he with rfl | he
  · exact .int 7
  · have hstr : ∀ e ∈ runFields.tail, ∃ s, e.2 = .str s := by
      simp [runFields]
    rcases hstr e he with ⟨s, hs⟩
    rw [hs]
    exact .str s

theorem writable_jobFields (name conclusion : String) :
    Json.Writable sampleText (.dict (jobFields name conclusion)) := by
  refine .dict (by simp [jobFields]) fun e he => ?_
  rcases List.mem_cons.mp he with rfl | he
  · exact .int 7
  · have hstr : ∀ e ∈ (jobFields name conclusion).tail, ∃ s, e.2 = .str s := by
      simp [jobFields]
    rcases hstr e he with ⟨s, hs⟩
    rw [hs]
    exact .str s

theorem complete_runFields :
    ∀ key ∈ ["path", "event", "head_branch", "head_sha", "status", "conclusion"],
      (runFields.lookup key).isSome = true := by decide

theorem complete_jobFields (name conclusion : String) :
    ∀ key ∈ ["run_id", "status", "conclusion"],
      ((jobFields name conclusion).lookup key).isSome = true := by
  intro key hkey
  rcases List.mem_cons.mp hkey with rfl | hkey
  · rfl
  · rcases List.mem_cons.mp hkey with rfl | hkey
    · rfl
    · rw [List.mem_singleton.mp hkey]
      rfl

def sampleRun : RunObject where
  fields := runFields
  id := 7
  has_id := rfl
  complete := complete_runFields
  printed := ⟨_, prints_write writable_runFields⟩

def sampleJob (name conclusion : String) : JobObject where
  fields := jobFields name conclusion
  name := name
  has_name := rfl
  complete := complete_jobFields name conclusion
  printed := ⟨_, prints_write (writable_jobFields name conclusion)⟩

def sampleJobs : List JobObject :=
  [sampleJob "trivy-config" "failure", sampleJob "trivy-config" "success",
    sampleJob "trivy-secrets" "success"]

/-- The texts of objects, one after the other. -/
def textOf (ds : List Entries) : String :=
  String.ofList (ds.flatMap fun d => Json.write sampleText 0 (.dict d))

theorem paged_textOf {ds : List Entries}
    (h : ∀ d ∈ ds, Json.Writable sampleText (.dict d)) : Paged (ds.map .dict) (textOf ds).toList := by
  have hnil : Blank [] := fun c hc => by cases hc
  rw [textOf, String.toList_ofList]
  induction ds with
  | nil => exact .done hnil
  | cons d ds ih =>
      exact .one hnil (prints_write (h d List.mem_cons_self))
        (ih fun d' hd' => h d' (List.mem_cons_of_mem d hd'))

theorem writable_sampleJobs :
    ∀ d ∈ sampleJobs.map JobObject.fields, Json.Writable sampleText (.dict d) := by
  intro d hd
  rcases List.mem_map.mp hd with ⟨j, hj, rfl⟩
  have hjob : ∃ name conclusion, j = sampleJob name conclusion := by
    simp only [sampleJobs, List.mem_cons, List.not_mem_nil, or_false] at hj
    rcases hj with rfl | rfl | rfl
    · exact ⟨_, _, rfl⟩
    · exact ⟨_, _, rfl⟩
    · exact ⟨_, _, rfl⟩
  rcases hjob with ⟨name, conclusion, rfl⟩
  exact writable_jobFields name conclusion

theorem paged_sampleRun : Paged ([sampleRun].map RunObject.value) (textOf [runFields]).toList := by
  refine @paged_textOf [runFields] fun d hd => ?_
  rw [List.mem_singleton.mp hd]
  exact writable_runFields

theorem paged_sampleJobs : Paged (sampleJobs.map JobObject.value)
    (textOf (sampleJobs.map JobObject.fields)).toList := by
  have hpaged := paged_textOf writable_sampleJobs
  rw [List.map_map] at hpaged
  exact hpaged

theorem newestRun_sample : newestRun sampleRuntime "abc" [sampleRun] = some sampleRun :=
  newestRun_head ⟨List.mem_cons_self, candidate_iff.mp (by decide +kernel), fun q hq _ => by
    rw [List.mem_singleton.mp hq]⟩

theorem lastJob_sample {name : String} (h : name ∈ REQUIRED_JOBS) :
    lastJob sampleJobs 7 name = some (sampleJob name "success") := by
  rcases List.mem_cons.mp h with rfl | h
  · rfl
  · rw [List.mem_singleton.mp h]
    rfl

/-- The job that failed is replaced by the one after it. -/
theorem failed_job_overwritten :
    ∃ runs_text jobs_text : String, RunsText [sampleRun] runs_text ∧
      JobsText sampleJobs jobs_text ∧
      evaluate sampleRuntime runs_text jobs_text "abc" REQUIRED_JOBS = [] ∧
      ¬Released sampleRuntime "abc" REQUIRED_JOBS [sampleRun] sampleJobs := by
  refine ⟨textOf [runFields], textOf (sampleJobs.map JobObject.fields),
    ⟨[sampleRun], .refl _, paged_sampleRun⟩, ⟨sampleJobs, .refl _, paged_sampleJobs⟩, ?_,
    fun h => ?_⟩
  · rw [evaluate_nil_iff paged_sampleRun paged_sampleJobs]
    exact ⟨sampleRun, newestRun_sample, ⟨rfl, rfl⟩, fun name hname =>
      ⟨sampleJob name "success", lastJob_sample hname, rfl⟩⟩
  · have hfailed := (h.2.2 sampleRun (newestRun_newest newestRun_sample) "trivy-config"
      List.mem_cons_self).2 (sampleJob "trivy-config" "failure")
      ⟨List.mem_cons_self, by decide +kernel, rfl⟩
    have hconclusion : (.str "failure" : Value) = .str "success" := hfailed
    exact absurd (Value.str.inj hconclusion) (by decide)

end Sample

end Release
