import Beluga.Ops.SizingReport
import Mathlib.Algebra.BigOperators.Group.List.Basic
import Mathlib.Algebra.Order.BigOperators.Group.List
import Mathlib.Data.List.Forall2
import Mathlib.Data.List.TakeWhile
import Mathlib.Tactic.Linarith
import Mathlib.Tactic.Positivity

/-! # When the sizing report is right

The report against what Kubernetes runs: pods with their effective requests.

* `memory_units`, `cpu_cores`, `cpu_milli`: what the quantities stand for;
* `pod_ok`: the loops over the containers compute what a pod needs;
* `lt_rounded`: what rounding hides;
* `holds_iff`: when the report comes, and when it marks a profile;
* `sizing_exact`: when its marks are right.
-/

namespace Sizing

open Py

/-! ## Supported quantities -/

/-- Numerals with the suffixes that the script knows. -/
def Supported (f : Field) (text : String) : Prop :=
  ∃ cs, isNumeral cs = true ∧ match f with
    | .cpu => text.toList = cs ∨ text.toList = cs ++ ['m']
    | .memory => ∃ suffix ∈ SUFFIXES, text.toList = cs ++ suffix.toList

section Quantities

variable {py : Numbers} {cs : List Char} {text : String}

theorem numeric_of_isNumeral (h : isNumeral cs = true) : ∀ c ∈ cs, numeric c = true := by
  have hdigits : ∀ w : List Char, (∀ c ∈ w, c.isDigit = true) → ∀ c ∈ w, numeric c = true := by
    intro w hw c hc
    rw [numeric, hw c hc]
    rfl
  have hwhole := hdigits (cs.takeWhile Char.isDigit) fun c hc => List.mem_takeWhile_imp hc
  have hpart : ∀ c ∈ cs.dropWhile Char.isDigit, numeric c = true := by
    intro c hc
    rw [isNumeral] at h
    cases hrest : cs.dropWhile Char.isDigit with
    | nil =>
        rw [hrest] at hc
        exact absurd hc List.not_mem_nil
    | cons d part =>
        rw [hrest] at h hc
        simp only [Bool.and_eq_true, decide_eq_true_eq] at h
        rcases List.mem_cons.mp hc with rfl | hc
        · rw [numeric, h.1.1]
          rfl
        · exact hdigits part (List.all_eq_true.mp h.1.2) c hc
  intro c hc
  rw [← List.takeWhile_append_dropWhile (p := Char.isDigit) (l := cs), List.mem_append] at hc
  exact hc.elim (hwhole c) (hpart c)

theorem decimal_nonneg (cs : List Char) : 0 ≤ decimal cs := by
  unfold decimal
  positivity

theorem float_ok (h : isNumeral cs = true) : float py cs = .ok (decimal cs) := by
  rw [float, py.float_numeral cs h]

/-- Cores are a thousand each. -/
theorem cpu_cores (h : isNumeral cs = true) (htext : text.toList = cs) :
    cpu_millicores py text = .ok (decimal cs * 1000) := by
  have hlast : ¬ text.toList.getLast? = some 'm' := by
    intro hlast
    rw [htext] at hlast
    exact absurd (numeric_of_isNumeral h 'm' (List.mem_of_getLast? hlast)) (by decide)
  rw [cpu_millicores, if_neg hlast, htext, float_ok h]
  rfl

theorem cpu_milli (h : isNumeral cs = true) (htext : text.toList = cs ++ ['m']) :
    cpu_millicores py text = .ok (decimal cs) := by
  have hlast : text.toList.getLast? = some 'm' := by rw [htext, List.getLast?_concat]
  rw [cpu_millicores, if_pos hlast, htext, List.dropLast_concat, float_ok h]

/-- The bytes of a unit. -/
def unitOf (flink : Bool) (suffix : String) : ℚ :=
  if suffix = "m" then if flink then 1024 ^ 2 else 1 / 1000
  else ((BIN.lookup suffix).or (DEC.lookup suffix)).getD 1

theorem unitOf_nonneg {flink : Bool} {suffix : String} (h : suffix ∈ SUFFIXES) :
    0 ≤ unitOf flink suffix := by
  simp only [SUFFIXES, BIN, DEC, List.map_cons, List.map_nil, List.mem_cons,
    List.cons_append, List.nil_append, List.not_mem_nil, or_false] at h
  rcases h with rfl | rfl | rfl | rfl | rfl | rfl | rfl | rfl | rfl | rfl | rfl | rfl | rfl | rfl <;>
    cases flink <;> decide +kernel

theorem suffix_head {suffix : String} (h : suffix ∈ SUFFIXES) :
    suffix.toList.takeWhile numeric = [] ∧ suffix.toList.dropWhile numeric = suffix.toList := by
  simp only [SUFFIXES, BIN, DEC, List.map_cons, List.map_nil, List.mem_cons,
    List.cons_append, List.nil_append, List.not_mem_nil, or_false] at h
  rcases h with rfl | rfl | rfl | rfl | rfl | rfl | rfl | rfl | rfl | rfl | rfl | rfl | rfl | rfl <;>
    decide +kernel

theorem memory_units (flink : Bool) {suffix : String} (h : isNumeral cs = true)
    (hsuffix : suffix ∈ SUFFIXES) (htext : text.toList = cs ++ suffix.toList) :
    memory_mib py text flink = .ok (decimal cs * unitOf flink suffix / 1024 ^ 2) := by
  have hnumeric := numeric_of_isNumeral h
  have hquantity : quantity text = some (cs, suffix) := by
    rw [quantity, htext, List.takeWhile_append_of_pos hnumeric,
      List.dropWhile_append_of_pos hnumeric, (suffix_head hsuffix).1, (suffix_head hsuffix).2,
      List.append_nil, String.ofList_toList, h]
    exact if_pos (by simpa using hsuffix)
  rw [memory_mib, hquantity]
  dsimp only
  rw [float_ok h, unitOf]
  by_cases hm : suffix = "m"
  · simp only [bind, Except.bind, if_pos hm]
    cases flink with
    | true =>
        rw [if_pos rfl, if_pos rfl, mul_div_assoc, div_self (by norm_num), mul_one]
    | false =>
        rw [if_neg Bool.false_ne_true, if_neg Bool.false_ne_true, mul_one_div]
  · simp only [bind, Except.bind, if_neg hm]

variable (py) in
theorem amount_supported (flink : Bool) {f : Field} (h : Supported f text) :
    ∃ q, 0 ≤ q ∧ amount py flink f text = .ok q := by
  rcases h with ⟨cs, hcs, h⟩
  cases f with
  | cpu =>
      rcases h with h | h
      · exact ⟨_, mul_nonneg (decimal_nonneg cs) (by norm_num), cpu_cores hcs h⟩
      · exact ⟨_, decimal_nonneg cs, cpu_milli hcs h⟩
  | memory =>
      rcases h with ⟨suffix, hsuffix, h⟩
      refine ⟨_, ?_, memory_units flink hcs hsuffix h⟩
      exact div_nonneg (mul_nonneg (decimal_nonneg cs) (unitOf_nonneg hsuffix)) (by norm_num)

end Quantities

/-! ## Effective requests -/

def Resources.Supported (resources : Option Resources) : Prop :=
  ∀ s f text, declared resources s f = some text → Sizing.Supported f text

def PodSpec.Supported (spec : PodSpec) : Prop :=
  ∀ c ∈ spec.initContainers ++ spec.containers, Resources.Supported c.resources

def FlinkPart.Supported (part : FlinkPart) : Prop :=
  ∀ resource, part.resource = some resource → ∀ f text, resource.get f = some text →
    Sizing.Supported f text

section

variable (py : Numbers)

/-- The number that is declared. -/
def worth (flink : Bool) (f : Field) (raw : Option String) : Option ℚ :=
  raw.bind fun text => (amount py flink f text).toOption

/-- The limit is taken where no request is given. -/
def effective (resources : Option Resources) (f : Field) : ℚ :=
  ((worth py false f (declared resources .requests f)).or
    (worth py false f (declared resources .limits f))).getD 0

/-- The containers run together, the init containers one after the other before them. -/
def PodSpec.need (spec : PodSpec) (f : Field) : ℚ :=
  max (spec.containers.map fun c => effective py c.resources f).sum
    ((spec.initContainers.map fun c => effective py c.resources f).foldl max 0)

def FlinkPart.need (part : FlinkPart) (f : Field) : ℚ :=
  (worth py true f (part.resource.bind (·.get f))).getD 0

end

section Effective

variable {py : Numbers} {resources : Option Resources} {f : Field}

theorem worth_nonneg {flink : Bool} {raw : Option String}
    (h : ∀ text, raw = some text → Supported f text) : 0 ≤ (worth py flink f raw).getD 0 := by
  cases raw with
  | none => exact le_refl 0
  | some text =>
      rcases amount_supported py flink (h text rfl) with ⟨q, hq, hamount⟩
      rw [worth, Option.bind_some, hamount]
      exact hq

theorem res_ok (flink : Bool) {s : Section}
    (h : ∀ text, declared resources s f = some text → Supported f text) :
    res py resources flink s f = .ok (worth py flink f (declared resources s f)) := by
  rw [res]
  cases hraw : declared resources s f with
  | none => rfl
  | some text =>
      rcases amount_supported py flink (h text hraw) with ⟨q, -, hamount⟩
      rw [worth, Option.bind_some]
      dsimp only
      rw [hamount]
      rfl

theorem both_ok {α : Type} {g : Field → Try α} {h : Field → α} (hg : ∀ f, g f = .ok (h f)) :
    both g = .ok h := by
  rw [both, hg, hg]
  have hpick : Field.pick (h .cpu) (h .memory) = h := by
    funext f
    cases f <;> rfl
  exact congrArg Except.ok hpick

theorem both_res (h : Resources.Supported resources) (s : Section) :
    both (res py resources false s) =
      .ok fun f => worth py false f (declared resources s f) :=
  both_ok fun f => res_ok false (h s f)

variable (py) in
theorem missing_ok (h : Resources.Supported resources) :
    ∃ slots, missing py resources = .ok slots := by
  have hvalues : ∃ values, (SLOTS.mapM fun slot => res py resources false slot.1 slot.2) =
      .ok values :=
    exists_mapM fun slot _ => ⟨_, res_ok false (h slot.1 slot.2)⟩
  rcases hvalues with ⟨values, hvalues⟩
  rw [missing, hvalues]
  exact ⟨_, rfl⟩

variable (py) in
theorem add_main {c : Container} (h : Resources.Supported c.resources) (pod : Pod) :
    ∃ next, Pod.add py .main pod c = .ok next ∧ next.initMax = pod.initMax ∧
      ∀ f, next.requests f = pod.requests f + effective py c.resources f := by
  rcases missing_ok py h with ⟨slots, hslots⟩
  rw [Pod.add, hslots, both_res h, both_res h]
  exact ⟨_, rfl, rfl, fun _ => rfl⟩

variable (py) in
theorem add_init {c : Container} (h : Resources.Supported c.resources) (pod : Pod) :
    ∃ next, Pod.add py .init pod c = .ok next ∧ next.requests = pod.requests ∧
      ∀ f, next.initMax f = max (pod.initMax f) (effective py c.resources f) := by
  rcases missing_ok py h with ⟨slots, hslots⟩
  rw [Pod.add, hslots, both_res h, both_res h]
  exact ⟨_, rfl, rfl, fun _ => rfl⟩

variable (py) in
theorem foldlM_main (cs : List Container) (h : ∀ c ∈ cs, Resources.Supported c.resources)
    (pod : Pod) : ∃ last, cs.foldlM (Pod.add py .main) pod = .ok last ∧
      last.initMax = pod.initMax ∧ ∀ f, last.requests f =
        pod.requests f + (cs.map fun c => effective py c.resources f).sum := by
  induction cs generalizing pod with
  | nil => exact ⟨pod, rfl, rfl, fun f => by rw [List.map_nil, List.sum_nil, add_zero]⟩
  | cons c cs ih =>
      rcases add_main py (h c List.mem_cons_self) pod with ⟨next, hnext, hinit, hreq⟩
      rcases ih (fun d hd => h d (List.mem_cons_of_mem c hd)) next with ⟨last, hlast, hinit', hreq'⟩
      refine ⟨last, ?_, hinit'.trans hinit, fun f => ?_⟩
      · rw [List.foldlM_cons, hnext]
        exact hlast
      · rw [hreq', hreq, List.map_cons, List.sum_cons, add_assoc]

variable (py) in
theorem foldlM_init (cs : List Container) (h : ∀ c ∈ cs, Resources.Supported c.resources)
    (pod : Pod) : ∃ last, cs.foldlM (Pod.add py .init) pod = .ok last ∧
      last.requests = pod.requests ∧ ∀ f, last.initMax f =
        (cs.map fun c => effective py c.resources f).foldl max (pod.initMax f) := by
  induction cs generalizing pod with
  | nil => exact ⟨pod, rfl, rfl, fun f => rfl⟩
  | cons c cs ih =>
      rcases add_init py (h c List.mem_cons_self) pod with ⟨next, hnext, hreq, hinit⟩
      rcases ih (fun d hd => h d (List.mem_cons_of_mem c hd)) next with ⟨last, hlast, hreq', hinit'⟩
      refine ⟨last, ?_, hreq'.trans hreq, fun f => ?_⟩
      · rw [List.foldlM_cons, hnext]
        exact hlast
      · rw [hinit', hinit, List.map_cons, List.foldl_cons]

variable (py) in
/-- The loops compute what the pod needs. -/
theorem pod_ok {spec : PodSpec} (h : spec.Supported) :
    ∃ p, pod py spec = .ok p ∧ p.requests = spec.need py := by
  rcases foldlM_init py spec.initContainers
    (fun c hc => h c (List.mem_append_left _ hc)) {} with ⟨first, hfirst, hreq, hinit⟩
  rcases foldlM_main py spec.containers
    (fun c hc => h c (List.mem_append_right _ hc)) first with ⟨all, hall, hinit', hreq'⟩
  rw [pod, hfirst]
  simp only [bind, Except.bind]
  rw [hall]
  refine ⟨_, rfl, funext fun f => ?_⟩
  show max (all.requests f) (all.initMax f) = _
  rw [hreq', hreq, hinit', hinit, zero_add]
  rfl

variable (py) in
theorem block_ok (h : Resources.Supported resources) (count : ℕ) :
    ∃ b, block py resources count = .ok b ∧ ∀ f, b.requests f = effective py resources f * count := by
  rw [block, both_res h, both_res h]
  exact ⟨_, rfl, fun _ => rfl⟩

variable (py) in
theorem flinkPart_ok {part : FlinkPart} (h : part.Supported) (label : String) :
    ∃ gaps, ∃ total : Field → ℚ, flinkPart py label part = .ok (gaps, total) ∧
      ∀ f, total f = part.need py f * (part.replicas.getD 1 : ℕ) := by
  rw [flinkPart]
  cases hpart : part.resource with
  | none =>
      refine ⟨_, _, rfl, fun f => ?_⟩
      rw [FlinkPart.need, hpart]
      exact (zero_mul _).symm
  | some resource =>
      have hboth : both (flinkAmount py resource (part.replicas.getD 1)) =
          .ok fun f => (worth py true f (resource.get f)).map (· * (part.replicas.getD 1 : ℕ)) := by
        refine both_ok fun f => ?_
        rw [flinkAmount]
        cases hraw : resource.get f with
        | none => rfl
        | some text =>
            rcases amount_supported py true (h resource hpart f text hraw) with
              ⟨q, -, hamount⟩
            rw [worth, Option.bind_some]
            dsimp only
            rw [hamount]
            rfl
      dsimp only
      rw [hboth]
      refine ⟨_, _, rfl, fun f => ?_⟩
      rw [FlinkPart.need, hpart, Option.bind_some]
      dsimp only
      cases worth py true f (resource.get f) with
      | none => exact (zero_mul (_ : ℚ)).symm
      | some q => rfl

end Effective

/-! ## Pods -/

/-- A number of pods of one size. -/
structure Pods where
  count : ℕ
  need : Field → ℚ

/-- A workload that does not end. -/
def Doc.steady (doc : Doc) : Bool :=
  match doc.kind with
  | .Job | .CronJob => false
  | _ => true

def Doc.Supported (doc : Doc) : Prop :=
  match doc.kind with
  | .Deployment | .StatefulSet | .Job => doc.spec.template.Supported
  | .CronJob => doc.spec.jobTemplate.Supported
  | .Cluster | .KafkaNodePool => Resources.Supported doc.spec.resources
  | .FlinkDeployment => doc.spec.jobManager.Supported ∧ doc.spec.taskManager.Supported
  | .Kafka | .other _ => False

/-- The pods of a clustered workload are at least one. -/
def Doc.Counted (doc : Doc) : Prop :=
  match doc.kind with
  | .Cluster => doc.spec.instances ≠ some 0
  | .KafkaNodePool => doc.spec.replicas ≠ some 0
  | _ => True

section

variable (py : Numbers)

/-- The pods that run. A Flink deployment has one JobManager. -/
def Doc.pods (doc : Doc) : List Pods :=
  match doc.kind with
  | .Deployment | .StatefulSet => [⟨doc.spec.replicas.getD 1, doc.spec.template.need py⟩]
  | .Job => [⟨1, doc.spec.template.need py⟩]
  | .CronJob => [⟨1, doc.spec.jobTemplate.need py⟩]
  | .Cluster => [⟨doc.spec.instances.getD 1, effective py doc.spec.resources⟩]
  | .KafkaNodePool => [⟨doc.spec.replicas.getD 1, effective py doc.spec.resources⟩]
  | .FlinkDeployment =>
      [⟨1, doc.spec.jobManager.need py⟩,
        ⟨doc.spec.taskManager.replicas.getD 1, doc.spec.taskManager.need py⟩]
  | .Kafka | .other _ => []

def Doc.needed (doc : Doc) (f : Field) : ℚ := ((doc.pods py).map fun p => p.need f * (p.count : ℚ)).sum

/-- What the script sums up: a JobManager counts as often as declared. -/
def Doc.charged (doc : Doc) (f : Field) : ℚ :=
  match doc.kind with
  | .FlinkDeployment =>
      doc.spec.jobManager.need py f * (doc.spec.jobManager.replicas.getD 1 : ℕ) +
        doc.spec.taskManager.need py f * (doc.spec.taskManager.replicas.getD 1 : ℕ)
  | _ => doc.needed py f

/-- What the script compares with a worker. -/
def Doc.largest (doc : Doc) (f : Field) : ℚ :=
  match doc.kind with
  | .Deployment | .StatefulSet | .Job => doc.spec.template.need py f
  | .CronJob => doc.spec.jobTemplate.need py f
  | .Cluster | .KafkaNodePool => effective py doc.spec.resources f
  | .FlinkDeployment => doc.charged py f
  | .Kafka | .other _ => 0

/-- The record says of the workload what the report needs. -/
structure Records (doc : Doc) (r : Record) : Prop where
  id_eq : r.id = doc.id
  transient_eq : r.isTransient = !doc.steady
  requests_eq : ∀ f, r.requests f = doc.charged py f
  pod_eq : ∀ f, r.podRequests f = doc.largest py f

end

section Workloads

variable {py : Numbers} {doc : Doc}

variable (py doc) in
theorem podRecord_ok {spec : PodSpec} (h : spec.Supported) (replicas : ℕ) (isTransient : Bool) :
    ∃ r, podRecord py doc spec replicas isTransient = .ok r ∧ r.id = doc.id ∧
      r.isTransient = isTransient ∧ (∀ f, r.requests f = spec.need py f * replicas) ∧
      ∀ f, r.podRequests f = spec.need py f := by
  rcases pod_ok py h with ⟨p, hp, hreq⟩
  rw [podRecord, hp, ← hreq]
  exact ⟨_, rfl, rfl, rfl, fun _ => rfl, fun _ => rfl⟩

variable (py) in
theorem blockRecord_ok (h : Resources.Supported doc.spec.resources) {count : ℕ} (hcount : count ≠ 0) :
    ∃ r, blockRecord py doc count = .ok r ∧ r.id = doc.id ∧ r.isTransient = false ∧
      (∀ f, r.requests f = effective py doc.spec.resources f * count) ∧
      ∀ f, r.podRequests f = effective py doc.spec.resources f := by
  rcases block_ok py h count with ⟨b, hb, hreq⟩
  rcases missing_ok py h with ⟨slots, hslots⟩
  rw [blockRecord, hb, hslots]
  simp only [bind, Except.bind, if_neg hcount]
  refine ⟨_, rfl, rfl, rfl, hreq, fun f => ?_⟩
  have hne : (count : ℚ) ≠ 0 := Nat.cast_ne_zero.mpr hcount
  show b.requests f / (count : ℚ) = _
  rw [hreq, mul_div_assoc, div_self hne, mul_one]

/-- A workload of no pods is divided by their number. -/
theorem blockRecord_zero (h : Resources.Supported doc.spec.resources) :
    blockRecord py doc 0 = .error .raised := by
  rcases block_ok py h 0 with ⟨b, hb, -⟩
  rcases missing_ok py h with ⟨slots, hslots⟩
  rw [blockRecord, hb, hslots]
  rfl

variable (py) in
theorem flinkRecord_ok (hjob : doc.spec.jobManager.Supported)
    (htask : doc.spec.taskManager.Supported) :
    ∃ r, flinkRecord py doc = .ok r ∧ r.id = doc.id ∧ r.isTransient = false ∧
      r.requests = r.podRequests ∧ ∀ f, r.requests f =
        doc.spec.jobManager.need py f * (doc.spec.jobManager.replicas.getD 1 : ℕ) +
          doc.spec.taskManager.need py f * (doc.spec.taskManager.replicas.getD 1 : ℕ) := by
  rcases flinkPart_ok py hjob "jobManager" with ⟨gaps, total, hpart, htotal⟩
  rcases flinkPart_ok py htask "taskManager" with ⟨gaps', total', hpart', htotal'⟩
  rw [flinkRecord, hpart, hpart']
  refine ⟨_, rfl, rfl, rfl, rfl, fun f => ?_⟩
  show total f + total' f = _
  rw [htotal, htotal']

theorem needed_single {p : Pods} (h : doc.pods py = [p]) (f : Field) :
    doc.needed py f = p.need f * p.count := by
  rw [Doc.needed, h, List.map_cons, List.map_nil, List.sum_cons, List.sum_nil, add_zero]

theorem count_ne_zero {count : Option ℕ} (h : count ≠ some 0) : count.getD 1 ≠ 0 := by
  cases count with
  | none => exact Nat.one_ne_zero
  | some n => exact fun hn => h (congrArg some hn)

variable (py) in
theorem bareRecord_ok (hs : doc.Supported) (hc : doc.Counted) :
    ∃ r, bareRecord py doc = .ok (some r) ∧ Records py doc r := by
  have hpods : ∀ (spec : PodSpec) (replicas : ℕ) (isTransient : Bool), spec.Supported →
      bareRecord py doc = some <$> podRecord py doc spec replicas isTransient →
      doc.pods py = [⟨replicas, spec.need py⟩] → (∀ f, doc.charged py f = doc.needed py f) →
      (∀ f, doc.largest py f = spec.need py f) → isTransient = !doc.steady →
      ∃ r, bareRecord py doc = .ok (some r) ∧ Records py doc r := by
    intro spec replicas isTransient hspec hbare hpods hcharged hlargest hsteady
    rcases podRecord_ok py doc hspec replicas isTransient with
      ⟨r, hr, hid, htrans, hreq, hpod⟩
    rw [hbare, hr]
    refine ⟨r, rfl, hid, htrans.trans hsteady, fun f => ?_, fun f => ?_⟩
    · rw [hreq, hcharged, needed_single hpods]
    · rw [hpod, hlargest]
  have hblock : ∀ count : ℕ, Resources.Supported doc.spec.resources → count ≠ 0 →
      bareRecord py doc = some <$> blockRecord py doc count →
      doc.pods py = [⟨count, effective py doc.spec.resources⟩] →
      (∀ f, doc.charged py f = doc.needed py f) →
      (∀ f, doc.largest py f = effective py doc.spec.resources f) → doc.steady = true →
      ∃ r, bareRecord py doc = .ok (some r) ∧ Records py doc r := by
    intro count hres hcount hbare hpods hcharged hlargest hsteady
    rcases blockRecord_ok py hres hcount with ⟨r, hr, hid, htrans, hreq, hpod⟩
    rw [hbare, hr]
    refine ⟨r, rfl, hid, ?_, fun f => ?_, fun f => ?_⟩
    · rw [htrans, hsteady]
      rfl
    · rw [hreq, hcharged, needed_single hpods]
    · rw [hpod, hlargest]
  cases hkind : doc.kind <;> simp only [Doc.Supported, Doc.Counted, hkind] at hs hc
  case Deployment =>
    apply hpods _ (doc.spec.replicas.getD 1) false hs <;>
      simp [bareRecord, Doc.pods, Doc.charged, Doc.largest, Doc.steady, hkind]
  case StatefulSet =>
    apply hpods _ (doc.spec.replicas.getD 1) false hs <;>
      simp [bareRecord, Doc.pods, Doc.charged, Doc.largest, Doc.steady, hkind]
  case Job =>
    apply hpods _ 1 true hs <;>
      simp [bareRecord, Doc.pods, Doc.charged, Doc.largest, Doc.steady, hkind]
  case CronJob =>
    apply hpods _ 1 true hs <;>
      simp [bareRecord, Doc.pods, Doc.charged, Doc.largest, Doc.steady, hkind]
  case Cluster =>
    apply hblock _ hs (count_ne_zero hc) <;>
      simp [bareRecord, Doc.pods, Doc.charged, Doc.largest, Doc.steady, hkind]
  case KafkaNodePool =>
    apply hblock _ hs (count_ne_zero hc) <;>
      simp [bareRecord, Doc.pods, Doc.charged, Doc.largest, Doc.steady, hkind]
  case FlinkDeployment =>
    rcases flinkRecord_ok py hs.1 hs.2 with ⟨r, hr, hid, htrans, hpod, hreq⟩
    have hcharged : ∀ f, r.requests f = doc.charged py f := by
      intro f
      rw [hreq, Doc.charged, hkind]
    refine ⟨r, ?_, hid, ?_, hcharged, fun f => ?_⟩
    · rw [bareRecord, hkind]
      dsimp only
      rw [hr]
      rfl
    · rw [htrans, Doc.steady, hkind]
      rfl
    · rw [← hpod, hcharged, Doc.largest, hkind]

theorem bareRecord_zero (hs : doc.Supported) (hc : ¬ doc.Counted) :
    bareRecord py doc = .error .raised := by
  cases hkind : doc.kind <;> simp only [Doc.Supported, Doc.Counted, hkind, not_true_eq_false,
    not_not] at hs hc
  case Cluster =>
    rw [bareRecord, hkind]
    dsimp only
    rw [hc, Option.getD_some, blockRecord_zero hs]
    rfl
  case KafkaNodePool =>
    rw [bareRecord, hkind]
    dsimp only
    rw [hc, Option.getD_some, blockRecord_zero hs]
    rfl

variable (py) in
theorem workload_record_ok (hs : doc.Supported) (hc : doc.Counted) :
    ∃ r, workload_record py doc = .ok (some r) ∧ Records py doc r := by
  rcases bareRecord_ok py hs hc with ⟨r, hr, hrecords⟩
  rw [workload_record, hr]
  exact ⟨r, rfl, hrecords⟩

theorem workload_record_zero (hs : doc.Supported) (hc : ¬ doc.Counted) :
    workload_record py doc = .error .raised := by
  rw [workload_record, bareRecord_zero hs hc]

end Workloads

/-! ## Rounding -/

theorem lt_roundHalfEven {n : ℤ} (hn : n % 2 = 0) (q : ℚ) :
    n < Js.roundHalfEven q ↔ (n : ℚ) + 1 / 2 < q := by
  have hle : ((⌊q⌋ : ℤ) : ℚ) ≤ q := Int.floor_le q
  have hlt : q < (⌊q⌋ : ℤ) + 1 := Int.lt_floor_add_one q
  rw [Js.roundHalfEven]
  generalize ⌊q⌋ = m at hle hlt ⊢
  -- a whole number above another is above it by one at least
  have hstep : ∀ a b : ℤ, a < b → (a : ℚ) + 1 ≤ b := by
    intro a b hab
    exact_mod_cast hab
  split
  · next hdown =>
      constructor
      · intro h
        have hnm := hstep n m h
        linarith
      · intro h
        by_contra hnot
        have hmn : (m : ℚ) ≤ n := by exact_mod_cast not_lt.mp hnot
        linarith
  · split
    · next hup =>
        constructor
        · intro h
          have hmn : (n : ℚ) ≤ m := by exact_mod_cast Int.lt_add_one_iff.mp h
          linarith
        · intro h
          by_contra hnot
          have hnm := hstep m n (by omega)
          linarith
    · next hdown hup =>
        have htie : q = m + 1 / 2 := by linarith
        rw [htie]
        split
        · constructor
          · intro h
            have hnm := hstep n m h
            linarith
          · intro h
            by_contra hnot
            have hmn : (m : ℚ) ≤ n := by exact_mod_cast not_lt.mp hnot
            linarith
        · next hodd =>
            -- of the two the odd one is not the bound
            have hne : n ≠ m := fun heq => hodd (heq ▸ hn)
            constructor
            · intro h
              have hnm := hstep n m (by omega)
              linarith
            · intro h
              by_contra hnot
              have hmn : (m : ℚ) ≤ n := by exact_mod_cast (by omega : m ≤ n)
              linarith

/-- A rounded total is above a whole capacity if the total is above it by more than half a
digit. -/
theorem lt_rounded (cap : ℕ) (v : ℚ) : (cap : ℚ) < rounded v ↔ (cap : ℚ) + 1 / 20 < v := by
  rw [rounded]
  split
  · have heven : ((10 * cap : ℕ) : ℤ) % 2 = 0 := by omega
    have hround := lt_roundHalfEven heven (10 * v)
    have hcast : (((10 * cap : ℕ) : ℤ) : ℚ) = 10 * cap := by push_cast; rfl
    rw [hcast] at hround
    rw [round1, lt_div_iff₀ (by norm_num : (0 : ℚ) < 10)]
    constructor
    · intro h
      have hlt : ((10 * cap : ℕ) : ℤ) < Js.roundHalfEven (10 * v) := by
        have hlt : (((10 * cap : ℕ) : ℤ) : ℚ) < Js.roundHalfEven (10 * v) := by
          rw [hcast]
          linarith
        exact_mod_cast hlt
      have hbound := hround.mp hlt
      linarith
    · intro h
      have hlt := hround.mpr (by linarith)
      have hlt : (((10 * cap : ℕ) : ℤ) : ℚ) < Js.roundHalfEven (10 * v) := by exact_mod_cast hlt
      rw [hcast] at hlt
      linarith
  · next hint =>
      rw [ne_eq, not_not] at hint
      rw [← hint]
      constructor
      · intro h
        rw [hint] at h ⊢
        have hstep : ((cap : ℤ) : ℚ) + 1 ≤ truncated v := by
          have hlt : (cap : ℤ) < truncated v := by exact_mod_cast h
          exact_mod_cast hlt
        rw [Int.cast_natCast] at hstep
        linarith
      · intro h
        linarith

/-! ## All workloads of a render -/

section Render

variable {py : Numbers} {docs : List Doc} {rs records : List Record}

variable (py) in
theorem mapM_records (hs : ∀ d ∈ docs, d.Supported) (hc : ∀ d ∈ docs, d.Counted) :
    ∃ rs, docs.mapM (workload_record py) = .ok (rs.map some) ∧
      List.Forall₂ (Records py) docs rs := by
  induction docs with
  | nil => exact ⟨[], rfl, .nil⟩
  | cons d docs ih =>
      rcases workload_record_ok py (hs d List.mem_cons_self) (hc d List.mem_cons_self) with
        ⟨r, hr, hrecords⟩
      rcases ih (fun e he => hs e (List.mem_cons_of_mem d he))
        (fun e he => hc e (List.mem_cons_of_mem d he)) with ⟨rs, hrs, hall⟩
      refine ⟨r :: rs, ?_, .cons hrecords hall⟩
      rw [List.mapM_cons, hr, hrs]
      rfl

theorem foldl_mergeRecord (acc : List Record) (h : ((acc ++ rs).map (·.id)).Nodup) :
    rs.foldl mergeRecord acc = acc ++ rs := by
  induction rs generalizing acc with
  | nil => rw [List.foldl_nil, List.append_nil]
  | cons r rs ih =>
      have hnot : r.id ∉ acc.map (·.id) := by
        rw [List.map_append, List.map_cons] at h
        intro hmem
        exact (List.nodup_append.mp h).2.2 _ hmem _ List.mem_cons_self rfl
      rw [List.foldl_cons, mergeRecord, if_neg hnot]
      rw [List.append_cons] at h
      rw [ih (acc ++ [r]) h, ← List.append_cons]

theorem ids_eq (h : List.Forall₂ (Records py) docs rs) : rs.map (·.id) = docs.map Doc.id := by
  induction h with
  | nil => rfl
  | cons hr _ ih => rw [List.map_cons, List.map_cons, hr.id_eq, ih]

variable (py) in
theorem collect_ok (hs : ∀ d ∈ docs, d.Supported) (hc : ∀ d ∈ docs, d.Counted)
    (hdistinct : (docs.map Doc.id).Nodup) : ∃ records rs, collect_render py docs = .ok records ∧
      records.Perm rs ∧ List.Forall₂ (Records py) docs rs := by
  rcases mapM_records py hs hc with ⟨rs, hrs, hall⟩
  have hmerge : rs.foldl mergeRecord [] = rs := by
    have hnodup : (([] ++ rs : List Record).map (·.id)).Nodup := by
      rw [List.nil_append, ids_eq hall]
      exact hdistinct
    exact foldl_mergeRecord [] hnodup
  have hsome : (rs.map some).filterMap id = rs := by
    rw [List.filterMap_map]
    exact List.filterMap_some
  refine ⟨rs.mergeSort Record.le, rs, ?_, List.mergeSort_perm _ _, hall⟩
  rw [collect_render, hrs]
  simp only [bind, Except.bind]
  rw [hsome, hmerge]

variable (py) in
theorem collect_zero (hs : ∀ d ∈ docs, d.Supported) {d : Doc} (hd : d ∈ docs) (hc : ¬ d.Counted) :
    ∀ records, collect_render py docs ≠ .ok records := by
  intro records h
  rw [collect_render] at h
  rcases bind_ok_iff.mp h with ⟨found, hfound, -⟩
  rcases ok_of_mapM hfound hd with ⟨r, -, hr⟩
  rw [workload_record_zero (hs d hd) hc] at hr
  cases hr

/-! ## Totals -/

def steadyOf (docs : List Doc) : List Doc := docs.filter (·.steady)

theorem foldl_add (ws : List Record) (s : NamespaceSummary) (f : Field) :
    (ws.foldl NamespaceSummary.add s).requests f = s.requests f + (ws.map (·.requests f)).sum := by
  induction ws generalizing s with
  | nil => rw [List.foldl_nil, List.map_nil, List.sum_nil, add_zero]
  | cons w ws ih =>
      rw [List.foldl_cons, ih, List.map_cons, List.sum_cons, ← add_assoc]
      rfl

theorem steady_sum (h : List.Forall₂ (Records py) docs rs) (f : Field) :
    ((rs.filter fun w => !w.isTransient).map (·.requests f)).sum =
      ((steadyOf docs).map (·.charged py f)).sum := by
  induction h with
  | nil => rfl
  | cons hr _ ih =>
      rw [steadyOf] at ih ⊢
      rw [List.filter_cons, List.filter_cons, hr.transient_eq, Bool.not_not]
      split
      · rw [List.map_cons, List.sum_cons, List.map_cons, List.sum_cons, ih, hr.requests_eq]
      · exact ih

theorem total_eq (hperm : records.Perm rs) (h : List.Forall₂ (Records py) docs rs) (f : Field) :
    (summarize records).total.requests f =
      rounded ((steadyOf docs).map (·.charged py f)).sum := by
  have hsum := ((hperm.filter fun w => !w.isTransient).map (·.requests f)).sum_eq
  show rounded (((records.filter fun w => !w.isTransient).foldl NamespaceSummary.add {}).requests f)
    = _
  rw [foldl_add, hsum, steady_sum h]
  exact congrArg rounded (zero_add _)

end Render

/-! ## Oversubscription -/

def Capacity.Positive (c : Capacity) : Prop := (∀ f, 0 < c.total f) ∧ ∀ f, 0 < c.worker f

section

variable (py : Numbers) (docs : List Doc) (cap : Capacity)

/-- The steady workloads need more than the machines have, or some pod of theirs more than a
worker has. -/
def Over : Prop :=
  (∃ f, (cap.total f : ℚ) < ((steadyOf docs).map (·.needed py f)).sum) ∨
    ∃ d ∈ steadyOf docs, ∃ p ∈ d.pods py, 0 < p.count ∧ ∃ f, (cap.worker f : ℚ) < p.need f

/-- What the script reacts to: sums above the capacity by more than it rounds away, and
workloads above a worker. -/
def Loud : Prop :=
  (∃ f, (cap.total f : ℚ) + 1 / 20 < ((steadyOf docs).map (·.charged py f)).sum) ∨
    ∃ d ∈ steadyOf docs, ∃ f, (cap.worker f : ℚ) < d.largest py f

end

/-- A field is one of two. -/
instance {p : Field → Prop} [Decidable (p .cpu)] [Decidable (p .memory)] : Decidable (∃ f, p f) :=
  decidable_of_iff (p .cpu ∨ p .memory) ⟨fun h => h.elim (fun h => ⟨_, h⟩) fun h => ⟨_, h⟩, by
    intro h
    rcases h with ⟨f, h⟩
    cases f with
    | cpu => exact .inl h
    | memory => exact .inr h⟩

instance (py : Numbers) (docs : List Doc) (cap : Capacity) : Decidable (Over py docs cap) :=
  inferInstanceAs (Decidable ((∃ f, (cap.total f : ℚ) < ((steadyOf docs).map (·.needed py f)).sum) ∨
    ∃ d ∈ steadyOf docs, ∃ p ∈ d.pods py, 0 < p.count ∧ ∃ f, (cap.worker f : ℚ) < p.need f))

instance (py : Numbers) (docs : List Doc) (cap : Capacity) : Decidable (Loud py docs cap) :=
  inferInstanceAs (Decidable
    ((∃ f, (cap.total f : ℚ) + 1 / 20 < ((steadyOf docs).map (·.charged py f)).sum) ∨
      ∃ d ∈ steadyOf docs, ∃ f, (cap.worker f : ℚ) < d.largest py f))

section Evaluate

variable {py : Numbers} {docs : List Doc} {rs records : List Record} {cap : Capacity}

theorem totalViolation_eq_nil {req : Field → ℚ} {f : Field} :
    totalViolation py req cap f = [] ↔ ¬ (cap.total f : ℚ) < req f := by
  rw [totalViolation]
  split
  · next h => exact iff_of_false (List.cons_ne_nil _ _) (not_not.mpr h)
  · next h => exact iff_of_true rfl h

theorem podViolation_eq_nil {w : Record} : podViolation cap w = [] ↔
    ¬ (w.isTransient = false ∧ ∃ f, (cap.worker f : ℚ) < w.podRequests f) := by
  have hor : ((cap.worker .memory : ℚ) < w.podRequests .memory ∨
      (cap.worker .cpu : ℚ) < w.podRequests .cpu) ↔
      ∃ f, (cap.worker f : ℚ) < w.podRequests f := by
    constructor
    · intro h
      exact h.elim (fun h => ⟨_, h⟩) fun h => ⟨_, h⟩
    · intro h
      rcases h with ⟨f, h⟩
      cases f with
      | cpu => exact .inr h
      | memory => exact .inl h
  rw [podViolation, ← hor]
  cases w.isTransient with
  | true => exact iff_of_true rfl fun h => absurd h.1.symm Bool.false_ne_true
  | false =>
      rw [if_neg Bool.false_ne_true]
      split
      · next h => exact iff_of_false (List.cons_ne_nil _ _) (not_not.mpr ⟨rfl, h⟩)
      · next h => exact iff_of_true rfl fun hand => h hand.2

theorem mem_of_records (h : List.Forall₂ (Records py) docs rs) :
    (∃ r ∈ rs, r.isTransient = false ∧ ∃ f, (cap.worker f : ℚ) < r.podRequests f) ↔
      ∃ d ∈ steadyOf docs, ∃ f, (cap.worker f : ℚ) < d.largest py f := by
  rw [steadyOf]
  induction h with
  | nil => simp
  | @cons d r docs rs hr _ ih =>
      have hhead : (r.isTransient = false ∧ ∃ f, (cap.worker f : ℚ) < r.podRequests f) ↔
          d.steady = true ∧ ∃ f, (cap.worker f : ℚ) < d.largest py f := by
        rw [hr.transient_eq, Bool.not_eq_false']
        refine and_congr_right fun _ => exists_congr fun f => ?_
        rw [hr.pod_eq]
      simp only [List.mem_filter] at ih ⊢
      rw [List.exists_mem_cons_iff, hhead, ih]
      constructor
      · intro h
        rcases h with ⟨hsteady, hf⟩ | ⟨e, he, hf⟩
        · exact ⟨d, ⟨List.mem_cons_self, hsteady⟩, hf⟩
        · exact ⟨e, ⟨List.mem_cons_of_mem d he.1, he.2⟩, hf⟩
      · intro h
        rcases h with ⟨e, ⟨he, hsteady⟩, hf⟩
        rcases List.mem_cons.mp he with rfl | he
        · exact .inl ⟨hsteady, hf⟩
        · exact .inr ⟨e, ⟨he, hsteady⟩, hf⟩

theorem evaluate_ok (hpos : cap.Positive) (hperm : records.Perm rs)
    (h : List.Forall₂ (Records py) docs rs) :
    ∃ e, evaluate py cap (summarize records) records = .ok e ∧
      (e.oversubscribed = true ↔ Loud py docs cap) := by
  have hzero : ¬ (cap.total .cpu = 0 ∨ cap.total .memory = 0) := by
    intro hzero
    rcases hzero with hzero | hzero
    · exact absurd hzero (hpos.1 .cpu).ne'
    · exact absurd hzero (hpos.1 .memory).ne'
  rw [evaluate]
  dsimp only
  rw [if_neg hzero]
  refine ⟨_, rfl, ?_⟩
  dsimp only
  rw [Bool.not_eq_true', List.isEmpty_eq_false_iff, ne_eq, List.append_eq_nil_iff,
    List.append_eq_nil_iff, totalViolation_eq_nil, totalViolation_eq_nil, total_eq hperm h,
    total_eq hperm h, lt_rounded, lt_rounded, List.flatMap_eq_nil_iff]
  simp only [podViolation_eq_nil]
  have hpods : (∃ r ∈ records, r.isTransient = false ∧
      ∃ f, (cap.worker f : ℚ) < r.podRequests f) ↔
        ∃ d ∈ steadyOf docs, ∃ f, (cap.worker f : ℚ) < d.largest py f := by
    rw [← mem_of_records h]
    exact exists_congr fun r => and_congr_left fun _ => hperm.mem_iff
  rw [Loud, ← hpods, not_and_or, not_and_or, not_not, not_not]
  constructor
  · intro hflag
    rcases hflag with (hcpu | hmem) | hpod
    · exact .inl ⟨.cpu, hcpu⟩
    · exact .inl ⟨.memory, hmem⟩
    · right
      by_contra hnone
      exact hpod fun r hr hbad => hnone ⟨r, hr, hbad⟩
  · intro hloud
    rcases hloud with ⟨f, hf⟩ | ⟨r, hr, hbad⟩
    · cases f with
      | cpu => exact .inl (.inl hf)
      | memory => exact .inl (.inr hf)
    · exact .inr fun hall => hall r hr hbad

end Evaluate

/-! ## The report -/

/-- Rendered documents of the kinds with declared sizes, with quantities that the script
reads. -/
structure Documents where
  docs : List Doc
  supported : ∀ d ∈ docs, d.Supported
  distinct : (docs.map Doc.id).Nodup

/-- The report comes, and marks the right profiles. -/
def Holds (py : Numbers) (rendered : Render → Documents) (profiles : List Profile) : Prop :=
  ∃ report, build_report py (fun r => (rendered r).docs) profiles = .ok report ∧
    List.Forall₂ (fun p out => out.name = p.name ∧
      (out.evaluation.oversubscribed = true ↔ Over py (rendered p.render).docs p.capacity))
      (sortedProfiles profiles) report.profiles

section Report

variable {py : Numbers} {rendered : Render → Documents} {profiles : List Profile}

/-- The flags say `q` as well as `p` where the two agree. -/
theorem flags_iff {p q : Profile → Prop} {ps : List Profile} {outs : List ProfileReport}
    (h : List.Forall₂ (fun x out => out.name = x.name ∧
      (out.evaluation.oversubscribed = true ↔ p x)) ps outs) :
    List.Forall₂ (fun x out => out.name = x.name ∧
      (out.evaluation.oversubscribed = true ↔ q x)) ps outs ↔ ∀ x ∈ ps, (p x ↔ q x) := by
  induction h with
  | nil => simp
  | cons hx _ ih =>
      rw [List.forall₂_cons, List.forall_mem_cons, ih]
      refine and_congr_left fun _ => ?_
      constructor
      · intro hq
        exact hx.2.symm.trans hq.2
      · intro hpq
        exact ⟨hx.1, hx.2.trans hpq⟩

theorem mapM_reportOf {workloads : Render → List Record} {ps : List Profile}
    (h : ∀ p ∈ ps, ∃ e, evaluate py p.capacity (summarize (workloads p.render))
      (workloads p.render) = .ok e ∧
        (e.oversubscribed = true ↔ Loud py (rendered p.render).docs p.capacity)) :
    ∃ outs, ps.mapM (reportOf py workloads) = .ok outs ∧ List.Forall₂ (fun p out =>
      out.name = p.name ∧ (out.evaluation.oversubscribed = true ↔
        Loud py (rendered p.render).docs p.capacity)) ps outs := by
  induction ps with
  | nil => exact ⟨[], rfl, .nil⟩
  | cons p ps ih =>
      rcases h p List.mem_cons_self with ⟨e, he, hflag⟩
      rcases ih (fun q hq => h q (List.mem_cons_of_mem p hq)) with ⟨outs, houts, hall⟩
      have hout : ∃ out, reportOf py workloads p = .ok out ∧ out.name = p.name ∧
          out.evaluation = e := by
        rw [reportOf, he]
        exact ⟨_, rfl, rfl, rfl⟩
      rcases hout with ⟨out, hout, hname, hev⟩
      refine ⟨out :: outs, ?_, .cons ⟨hname, by rw [hev]; exact hflag⟩ hall⟩
      rw [List.mapM_cons, hout, houts]
      rfl

/-- The report comes exactly if no pods are divided by zero; then the flags are those of
`Loud`. -/
theorem holds_iff (hpos : ∀ p ∈ profiles, p.capacity.Positive) : Holds py rendered profiles ↔
    (∀ r, ∀ d ∈ (rendered r).docs, d.Counted) ∧ ∀ p ∈ profiles,
      (Loud py (rendered p.render).docs p.capacity ↔
        Over py (rendered p.render).docs p.capacity) := by
  have hsorted : ∀ p, p ∈ sortedProfiles profiles ↔ p ∈ profiles :=
    fun p => (List.mergeSort_perm _ _).mem_iff
  have hbuilt : (∀ r, ∀ d ∈ (rendered r).docs, d.Counted) → ∃ report,
      build_report py (fun r => (rendered r).docs) profiles = .ok report ∧
        List.Forall₂ (fun p out => out.name = p.name ∧ (out.evaluation.oversubscribed = true ↔
          Loud py (rendered p.render).docs p.capacity)) (sortedProfiles profiles)
            report.profiles := by
    intro hc
    have hcollect := fun r => collect_ok py (rendered r).supported (hc r)
      (rendered r).distinct
    rcases hcollect .base with ⟨base, rs, hbase, hperm, hall⟩
    rcases hcollect .optionalServices with ⟨optional, rs', hoptional, hperm', hall'⟩
    have houts : ∃ outs, (sortedProfiles profiles).mapM
        (reportOf py (Render.pick base optional)) = .ok outs ∧ List.Forall₂ (fun p out =>
          out.name = p.name ∧ (out.evaluation.oversubscribed = true ↔
            Loud py (rendered p.render).docs p.capacity)) (sortedProfiles profiles) outs := by
      refine mapM_reportOf fun p hp => ?_
      have hcap := hpos p ((hsorted p).mp hp)
      cases p.render with
      | base => exact evaluate_ok hcap hperm hall
      | optionalServices => exact evaluate_ok hcap hperm' hall'
    rcases houts with ⟨outs, houts, hflags⟩
    have hreport : ∃ report, build_report py (fun r => (rendered r).docs) profiles = .ok report ∧
        report.profiles = outs := by
      rw [build_report, hbase, hoptional]
      simp only [bind, Except.bind]
      rw [houts]
      exact ⟨_, rfl, rfl⟩
    rcases hreport with ⟨report, hreport, rfl⟩
    exact ⟨report, hreport, hflags⟩
  constructor
  · intro h
    rcases h with ⟨report, hreport, hflags⟩
    have hc : ∀ r, ∀ d ∈ (rendered r).docs, d.Counted := by
      intro r d hd
      by_contra hnot
      have hfail := collect_zero py (rendered r).supported hd hnot
      rw [build_report] at hreport
      rcases bind_ok_iff.mp hreport with ⟨base, hbase, hrest⟩
      rcases bind_ok_iff.mp hrest with ⟨optional, hoptional, -⟩
      cases r with
      | base => exact hfail base hbase
      | optionalServices => exact hfail optional hoptional
    refine ⟨hc, fun p hp => ?_⟩
    rcases hbuilt hc with ⟨report', hreport', hflags'⟩
    rw [hreport] at hreport'
    cases hreport'
    exact (flags_iff hflags').mp hflags p ((hsorted p).mpr hp)
  · intro h
    rcases hbuilt h.1 with ⟨report, hreport, hflags⟩
    exact ⟨report, hreport, (flags_iff hflags).mpr fun p hp => h.2 p ((hsorted p).mp hp)⟩

end Report

/-! ## When the report is right -/

/-- The cases in which the script can go wrong, and what has to come with them. -/
structure Settled (py : Numbers) (docs : List Doc) (cap : Capacity) : Prop where
  /-- Sums above the capacity are so by more than is rounded away. -/
  margin : ∀ f, (cap.total f : ℚ) < ((steadyOf docs).map (·.needed py f)).sum → Loud py docs cap
  /-- Sums with all declared JobManagers are above the capacity only with reason. -/
  copies : ∀ f, (cap.total f : ℚ) + 1 / 20 < ((steadyOf docs).map (·.charged py f)).sum →
    Over py docs cap
  /-- A pod that does not run is too big only with reason. -/
  idle : ∀ d ∈ docs, d.kind = .Deployment ∨ d.kind = .StatefulSet → d.spec.replicas = some 0 →
    ∀ f, (cap.worker f : ℚ) < d.spec.template.need py f → Over py docs cap
  /-- So are the pods of a Flink deployment together. -/
  together : ∀ d ∈ docs, d.kind = .FlinkDeployment → ∀ f, (cap.worker f : ℚ) < d.charged py f →
    Over py docs cap
  /-- A JobManager that is declared away is not too big for a worker. -/
  master : ∀ d ∈ docs, d.kind = .FlinkDeployment → d.spec.jobManager.replicas = some 0 →
    ∀ f, (cap.worker f : ℚ) < d.spec.jobManager.need py f → Loud py docs cap

section Settled

variable {py : Numbers} {docs : List Doc} {cap : Capacity} {d : Doc}

theorem mem_steadyOf : d ∈ steadyOf docs ↔ d ∈ docs ∧ d.steady = true := List.mem_filter

variable (py) in
theorem need_nonneg {part : FlinkPart} (h : part.Supported) (f : Field) : 0 ≤ part.need py f := by
  refine worth_nonneg fun text htext => ?_
  rcases Option.bind_eq_some_iff.mp htext with ⟨resource, hresource, hget⟩
  exact h resource hresource f text hget

theorem le_mul_count {x : ℚ} (hx : 0 ≤ x) {n : ℕ} (hn : 0 < n) : x ≤ x * n := by
  have hone : (1 : ℚ) ≤ n := by exact_mod_cast hn
  exact le_mul_of_one_le_right hx hone

/-- A pod that runs and is too big is noticed, unless it is a JobManager that is declared
away. -/
theorem largest_of_pod (hs : d.Supported) (hsteady : d.steady = true) {p : Pods}
    (hp : p ∈ d.pods py) (hcount : 0 < p.count) {f : Field} {x : ℚ} (hx : x < p.need f) :
    x < d.largest py f ∨ (d.kind = .FlinkDeployment ∧ d.spec.jobManager.replicas = some 0 ∧
      x < d.spec.jobManager.need py f) := by
  have hsingle : ∀ q : Pods, d.pods py = [q] → q.need f = d.largest py f → x < d.largest py f := by
    intro q hq hneed
    rw [hq, List.mem_singleton] at hp
    rw [hp, hneed] at hx
    exact hx
  cases hkind : d.kind <;> simp only [Doc.Supported, Doc.steady, hkind,
    Bool.false_eq_true] at hs hsteady
  case Deployment =>
    exact .inl (hsingle _ (by rw [Doc.pods, hkind]) (by rw [Doc.largest, hkind]))
  case StatefulSet =>
    exact .inl (hsingle _ (by rw [Doc.pods, hkind]) (by rw [Doc.largest, hkind]))
  case Cluster =>
    exact .inl (hsingle _ (by rw [Doc.pods, hkind]) (by rw [Doc.largest, hkind]))
  case KafkaNodePool =>
    exact .inl (hsingle _ (by rw [Doc.pods, hkind]) (by rw [Doc.largest, hkind]))
  case FlinkDeployment =>
    have hjob := need_nonneg py hs.1 f
    have htask := need_nonneg py hs.2 f
    have hlargest : d.largest py f =
        d.spec.jobManager.need py f * (d.spec.jobManager.replicas.getD 1 : ℕ) +
          d.spec.taskManager.need py f * (d.spec.taskManager.replicas.getD 1 : ℕ) := by
      rw [Doc.largest, hkind]
      dsimp only
      rw [Doc.charged, hkind]
    have hjobs := mul_nonneg hjob (Nat.cast_nonneg (α := ℚ) (d.spec.jobManager.replicas.getD 1))
    have htasks := mul_nonneg htask (Nat.cast_nonneg (α := ℚ) (d.spec.taskManager.replicas.getD 1))
    rw [Doc.pods, hkind, List.mem_cons, List.mem_singleton] at hp
    rcases hp with rfl | rfl
    · by_cases hzero : d.spec.jobManager.replicas.getD 1 = 0
      · right
        refine ⟨rfl, ?_, hx⟩
        by_contra hne
        exact count_ne_zero hne hzero
      · have hle := le_mul_count hjob (Nat.pos_of_ne_zero hzero)
        left
        rw [hlargest]
        exact lt_of_lt_of_le hx (by linarith)
    · have hle := le_mul_count htask hcount
      left
      rw [hlargest]
      exact lt_of_lt_of_le hx (by linarith)

/-- What is noticed of a workload is a pod that runs and is too big, a pod that does not run, or
all pods of a Flink deployment. -/
theorem pod_of_largest (hc : d.Counted) (hs : d.Supported) (hsteady : d.steady = true)
    {f : Field} {x : ℚ} (hx : x < d.largest py f) :
    (∃ p ∈ d.pods py, 0 < p.count ∧ x < p.need f) ∨
      ((d.kind = .Deployment ∨ d.kind = .StatefulSet) ∧ d.spec.replicas = some 0 ∧
        x < d.spec.template.need py f) ∨
      (d.kind = .FlinkDeployment ∧ x < d.charged py f) := by
  have hpods : ∀ q : Pods, d.pods py = [q] → q.need f = d.largest py f → 0 < q.count →
      ∃ p ∈ d.pods py, 0 < p.count ∧ x < p.need f := by
    intro q hq hneed hcount
    rw [hq]
    exact ⟨q, List.mem_cons_self, hcount, by rwa [hneed]⟩
  cases hkind : d.kind <;> simp only [Doc.Supported, Doc.Counted, Doc.steady, hkind,
    Bool.false_eq_true] at hc hs hsteady
  case Deployment =>
    by_cases hzero : d.spec.replicas = some 0
    · rw [Doc.largest, hkind] at hx
      exact .inr (.inl ⟨.inl rfl, hzero, hx⟩)
    · exact .inl (hpods _ (by rw [Doc.pods, hkind]) (by rw [Doc.largest, hkind])
        (Nat.pos_of_ne_zero (count_ne_zero hzero)))
  case StatefulSet =>
    by_cases hzero : d.spec.replicas = some 0
    · rw [Doc.largest, hkind] at hx
      exact .inr (.inl ⟨.inr rfl, hzero, hx⟩)
    · exact .inl (hpods _ (by rw [Doc.pods, hkind]) (by rw [Doc.largest, hkind])
        (Nat.pos_of_ne_zero (count_ne_zero hzero)))
  case Cluster =>
    exact .inl (hpods _ (by rw [Doc.pods, hkind]) (by rw [Doc.largest, hkind])
      (Nat.pos_of_ne_zero (count_ne_zero hc)))
  case KafkaNodePool =>
    exact .inl (hpods _ (by rw [Doc.pods, hkind]) (by rw [Doc.largest, hkind])
      (Nat.pos_of_ne_zero (count_ne_zero hc)))
  case FlinkDeployment =>
    rw [Doc.largest, hkind] at hx
    exact .inr (.inr ⟨rfl, hx⟩)

theorem settled_iff (hs : ∀ d ∈ docs, d.Supported) (hc : ∀ d ∈ docs, d.Counted) :
    Settled py docs cap ↔ (Loud py docs cap ↔ Over py docs cap) := by
  constructor
  · intro h
    constructor
    · intro hloud
      rcases hloud with ⟨f, hf⟩ | ⟨d, hd, f, hf⟩
      · exact h.copies f hf
      · have hd' := mem_steadyOf.mp hd
        rcases pod_of_largest (hc d hd'.1) (hs d hd'.1) hd'.2 hf with
          ⟨p, hp, hcount, hneed⟩ | ⟨hkind, hzero, hneed⟩ | ⟨hkind, hneed⟩
        · exact .inr ⟨d, hd, p, hp, hcount, f, hneed⟩
        · exact h.idle d hd'.1 hkind hzero f hneed
        · exact h.together d hd'.1 hkind f hneed
    · intro hover
      rcases hover with ⟨f, hf⟩ | ⟨d, hd, p, hp, hcount, f, hneed⟩
      · exact h.margin f hf
      · have hd' := mem_steadyOf.mp hd
        rcases largest_of_pod (hs d hd'.1) hd'.2 hp hcount hneed with hf | ⟨hkind, hzero, hneed⟩
        · exact .inr ⟨d, hd, f, hf⟩
        · exact h.master d hd'.1 hkind hzero f hneed
  · intro h
    refine ⟨fun f hf => h.mpr (.inl ⟨f, hf⟩), fun f hf => h.mp (.inl ⟨f, hf⟩), ?_, ?_, ?_⟩
    · intro d hd hkind _ f hneed
      have hsteady : d.steady = true := by rcases hkind with hk | hk <;> rw [Doc.steady, hk]
      have hlargest : d.largest py f = d.spec.template.need py f := by
        rcases hkind with hk | hk <;> rw [Doc.largest, hk]
      exact h.mp (.inr ⟨d, mem_steadyOf.mpr ⟨hd, hsteady⟩, f, by rwa [hlargest]⟩)
    · intro d hd hkind f hneed
      have hsteady : d.steady = true := by rw [Doc.steady, hkind]
      have hlargest : d.largest py f = d.charged py f := by rw [Doc.largest, hkind]
      exact h.mp (.inr ⟨d, mem_steadyOf.mpr ⟨hd, hsteady⟩, f, by rwa [hlargest]⟩)
    · intro d hd hkind _ f hneed
      have hsteady : d.steady = true := by rw [Doc.steady, hkind]
      have hpod : ⟨1, d.spec.jobManager.need py⟩ ∈ d.pods py := by
        rw [Doc.pods, hkind]
        exact List.mem_cons_self
      exact h.mpr (.inr ⟨d, mem_steadyOf.mpr ⟨hd, hsteady⟩, _, hpod, Nat.one_pos, f, hneed⟩)

/-- The report comes if each cluster and node pool has an instance, and the profiles are marked
rightly in the cases of `Settled`. -/
theorem sizing_exact {rendered : Render → Documents} {profiles : List Profile}
    (hpos : ∀ p ∈ profiles, p.capacity.Positive) : Holds py rendered profiles ↔
      (∀ r, ∀ d ∈ (rendered r).docs, d.Counted) ∧
        ∀ p ∈ profiles, Settled py (rendered p.render).docs p.capacity := by
  rw [holds_iff hpos]
  refine and_congr_right fun hc => forall₂_congr fun p _ => ?_
  exact (settled_iff (rendered p.render).supported (hc p.render)).symm

end Settled

/-! ## Reports that are wrong -/

/-- Numerals are all that `float` takes. -/
def exact : Numbers where
  float cs := if isNumeral cs then .ok (decimal cs) else
    .error ("could not convert string to float: '" ++ String.ofList cs ++ "'")
  repr text := "'" ++ text ++ "'"
  str number := toString number
  float_numeral _ h := if_pos h

/-- The profile of 32 GB. -/
def standard : Profile where
  name := 32
  optionalServices := false
  workerNodes := 3
  capacity := ⟨14000, 28672, 4000, 8192⟩

theorem standard_positive : ∀ p ∈ [standard], p.capacity.Positive := by
  intro p hp
  rw [List.mem_singleton.mp hp]
  exact ⟨fun f => by cases f <;> decide, fun f => by cases f <;> decide⟩

/-- A container that declares its requests. -/
def asking (cpu memory : String) : PodSpec where
  containers := [{ name := "main", resources := some { requests := some ⟨some cpu, some memory⟩ } }]

theorem asking_supported {cpu memory : String} (hcpu : Supported .cpu cpu)
    (hmemory : Supported .memory memory) : (asking cpu memory).Supported := by
  intro c hc s f text htext
  rw [List.mem_singleton.mp hc] at htext
  cases s with
  | limits => cases htext
  | requests =>
      cases f with
      | cpu =>
          cases htext
          exact hcpu
      | memory =>
          cases htext
          exact hmemory

/-- `Deployment/default/web`. -/
def web (replicas : ℕ) (cpu : String) : Doc where
  kind := .Deployment
  name := some "web"
  spec := { replicas := some replicas, template := asking cpu "1Gi" }

def part (cpu : String) : FlinkPart where
  resource := some ⟨some cpu, some "1024m"⟩

/-- `FlinkDeployment/default/orders`. -/
def orders : Doc where
  kind := .FlinkDeployment
  name := some "orders"
  spec := { jobManager := part "2", taskManager := part "3" }

/-- `Cluster/default/db`. -/
def db : Doc where
  kind := .Cluster
  name := some "db"
  spec := { instances := some 0 }

theorem gi_supported : Supported .memory "1Gi" :=
  ⟨['1'], rfl, "Gi", by decide, by decide⟩

theorem web_supported (replicas : ℕ) {cpu : String} (h : Supported .cpu cpu) :
    (web replicas cpu).Supported := asking_supported h gi_supported

theorem part_supported {cpu : String} (h : Supported .cpu cpu) : (part cpu).Supported := by
  intro resource hresource f text htext
  cases hresource
  cases f with
  | cpu =>
      cases htext
      exact h
  | memory =>
      cases htext
      exact ⟨['1', '0', '2', '4'], rfl, "m", by decide, by decide⟩

theorem db_supported : db.Supported := by
  intro s f text htext
  cases htext

/-- Both renders consist of one document. -/
def only (doc : Doc) (h : doc.Supported) : Render → Documents := fun _ => {
  docs := [doc]
  supported := fun _ hd => List.mem_singleton.mp hd ▸ h
  distinct := List.nodup_singleton _ }

theorem eight_supported : Supported .cpu "8" := ⟨['8'], rfl, .inl (by decide)⟩

theorem two_supported : Supported .cpu "2" := ⟨['2'], rfl, .inl (by decide)⟩

theorem three_supported : Supported .cpu "3" := ⟨['3'], rfl, .inl (by decide)⟩

theorem milli_supported : Supported .cpu "3500.01m" :=
  ⟨['3', '5', '0', '0', '.', '0', '1'], rfl, .inr (by decide)⟩

theorem sizing_exact_web : Holds exact (only (web 2 "2") (web_supported 2 two_supported))
    [standard] := by
  refine (sizing_exact standard_positive).mpr ⟨fun r d hd => ?_, fun p hp => ?_⟩
  · rw [List.mem_singleton.mp hd]
    trivial
  · rw [List.mem_singleton.mp hp]
    refine (settled_iff (only (web 2 "2") (web_supported 2 two_supported) .base).supported ?_).mpr ?_
    · intro d hd
      rw [List.mem_singleton.mp hd]
      trivial
    · exact iff_of_false (by decide +kernel) (by decide +kernel)

/-- No instances; no replicas of a pod that is too big; a Flink deployment of two pods that fit;
and a sum that is above the capacity by a twenty-fifth of a millicore. -/
theorem sizing_wrong : ¬ Holds exact (only db db_supported) [standard] ∧
    ¬ Holds exact (only (web 0 "8") (web_supported 0 eight_supported)) [standard] ∧
    ¬ Holds exact (only orders ⟨part_supported two_supported, part_supported three_supported⟩)
      [standard] ∧
    ¬ Holds exact (only (web 4 "3500.01m") (web_supported 4 milli_supported)) [standard] := by
  refine ⟨fun h => ?_, fun h => ?_, fun h => ?_, fun h => ?_⟩
  · exact ((holds_iff standard_positive).mp h).1 .base db List.mem_cons_self rfl
  · have hflag := ((holds_iff standard_positive).mp h).2 standard List.mem_cons_self
    exact absurd (hflag.mp (by decide +kernel)) (by decide +kernel)
  · have hflag := ((holds_iff standard_positive).mp h).2 standard List.mem_cons_self
    exact absurd (hflag.mp (by decide +kernel)) (by decide +kernel)
  · have hflag := ((holds_iff standard_positive).mp h).2 standard List.mem_cons_self
    exact absurd (hflag.mpr (by decide +kernel)) (by decide +kernel)

end Sizing
