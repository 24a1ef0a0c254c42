import Beluga.Correlation.Links
import Beluga.Flink.Mapping

/-! # The links of a pipeline

A pipeline has one job, so its links are those from the job to the tables with its key
(`links_perm`). The id of a table is made of a slug, and tables with one slug are taken
for each other.

* `pipelines_sound`: a pipeline is right about its tables, when their slugs are distinct.
-/

namespace Flink

open Js Correlation

section Entities

variable {lower : String → String} {options : Options} {input : FlinkJobInput}

/-- The tables whose key is that of the job. -/
def Matches (lower : String → String) (options : Options) (input : FlinkJobInput)
    (table : String) : Prop :=
  firstSignificantToken lower (jobEntity options input).name ≠ "" ∧
    lastSegmentKey lower table = firstSignificantToken lower (jobEntity options input).name

instance (table : String) : Decidable (Matches lower options input table) :=
  inferInstanceAs (Decidable (_ ∧ _))

def matched (lower : String → String) (options : Options) (input : FlinkJobInput) : List String :=
  input.sinkTables.filter (Matches lower options input)

theorem sinkTables_nodup : input.sinkTables.Nodup := by
  unfold FlinkJobInput.sinkTables extractSinkTables
  split
  · exact List.nodup_nil
  · exact (sortOn_perm id _).nodup_iff.mpr (nodup_eraseDups _)

theorem ofKind_job :
    ofKind (entities lower options input) .flinkJob = [jobEntity options input] := by
  have hperm := (sortOn_perm (·.id) (entities lower options input)).filter (·.kind = .flinkJob)
  have hjob : (entities lower options input).filter (·.kind = .flinkJob) =
      [jobEntity options input] := by
    rw [entities, List.filter_cons_of_pos (by simp [jobEntity]), List.filter_eq_nil_iff.mpr]
    intro e he
    obtain ⟨table, -, rfl⟩ := List.mem_map.mp he
    simp [tableEntity]
  rw [hjob] at hperm
  exact List.perm_singleton.mp hperm

theorem ofKind_tables : (ofKind (entities lower options input) .icebergTable).Perm
    (input.sinkTables.map (tableEntity lower)) := by
  have hperm := (sortOn_perm (·.id) (entities lower options input)).filter (·.kind = .icebergTable)
  have htables : (entities lower options input).filter (·.kind = .icebergTable) =
      input.sinkTables.map (tableEntity lower) := by
    rw [entities, List.filter_cons_of_neg (by simp [jobEntity]), List.filter_eq_self]
    intro e he
    obtain ⟨table, -, rfl⟩ := List.mem_map.mp he
    simp [tableEntity]
  rwa [htables] at hperm

theorem ofKind_other {kind : CorrelationEntityKind} (hjob : kind ≠ .flinkJob)
    (htable : kind ≠ .icebergTable) : ofKind (entities lower options input) kind = [] := by
  rw [List.eq_nil_iff_forall_not_mem]
  intro e he
  obtain ⟨hmem, hkind⟩ := mem_ofKind.mp he
  rcases List.mem_cons.mp hmem with rfl | hmem
  · exact hjob hkind.symm
  · obtain ⟨table, -, rfl⟩ := List.mem_map.mp hmem
    exact htable hkind.symm

theorem labels_nil {kind : CorrelationEntityKind} :
    ∀ e ∈ ofKind (entities lower options input) kind, e.labels = [] := by
  intro e he
  rcases List.mem_cons.mp (mem_ofKind.mp he).1 with rfl | hmem
  · rfl
  · obtain ⟨table, -, rfl⟩ := List.mem_map.mp hmem
    rfl

end Entities

/-! ## Rules without labels -/

section Unlabelled

variable {rule : Rule} {lower : String → String} {sources targets : List CorrelationEntity}

theorem declaring_labels (hs : ∀ e ∈ sources, e.labels = []) (ht : ∀ e ∈ targets, e.labels = []) :
    ∀ owner ∈ rule.declaring sources targets, owner.labels = [] := by
  intro owner howner
  rw [Rule.declaring] at howner
  split at howner
  · exact hs owner howner
  · exact ht owner howner

theorem declaredLinks_nil (hs : ∀ e ∈ sources, e.labels = []) (ht : ∀ e ∈ targets, e.labels = []) :
    rule.declaredLinks lower sources targets = [] := by
  rw [Rule.declaredLinks, List.filterMap_eq_nil_iff]
  intro owner howner
  rw [declaring_labels hs ht owner howner]
  rfl

theorem declaredIds_nil (hs : ∀ e ∈ sources, e.labels = []) (ht : ∀ e ∈ targets, e.labels = []) :
    rule.declaredIds sources targets = [] := by
  rw [Rule.declaredIds, List.map_eq_nil_iff, List.filter_eq_nil_iff]
  intro owner howner
  rw [declaring_labels hs ht owner howner]
  simp

theorem conventionLinks_nil (h : sources = [] ∨ targets = []) :
    rule.conventionLinks sources targets = [] := by
  have hpairs : rule.pairs sources targets = [] := by
    rw [List.eq_nil_iff_forall_not_mem]
    rintro ⟨s, t⟩ hpair
    obtain ⟨hs, ht, -⟩ := mem_pairs.mp hpair
    rcases h with rfl | rfl
    · cases hs
    · cases ht
  rw [Rule.conventionLinks, hpairs]
  rfl

end Unlabelled

/-! ## The links of a job -/

section Links

variable {lower : String → String} {options : Options} {input : FlinkJobInput}

/-- The rule from jobs to tables. -/
def writesTable (lower : String → String) : Rule where
  relation := .jobWritesTable
  sourceKind := .flinkJob
  targetKind := .icebergTable
  declaredOn := .source
  labelKey := "beluga.io/sink-table"
  key := fun entity =>
    if entity.kind = .icebergTable then lastSegmentKey lower entity.name
    else firstSignificantToken lower entity.name

/-- The link by name from the job to a table. -/
def jobLink (lower : String → String) (options : Options) (input : FlinkJobInput)
    (table : String) : CorrelationLink :=
  (writesTable lower).conventionLink (1 < (matched lower options input).length)
    (jobEntity options input) (tableEntity lower table)

theorem key_job : (writesTable lower).key (jobEntity options input) =
    firstSignificantToken lower (jobEntity options input).name := rfl

theorem key_table (table : String) :
    (writesTable lower).key (tableEntity lower table) = lastSegmentKey lower table := rfl

/-- The pairs of the rule: the job and each table with its key. -/
theorem pairsOf_job : ((writesTable lower).pairsOf (entities lower options input)).Perm
    ((matched lower options input).map fun table =>
      (jobEntity options input, tableEntity lower table)) := by
  have hids : (writesTable lower).declaredIds (ofKind (entities lower options input) .flinkJob)
      (ofKind (entities lower options input) .icebergTable) = [] :=
    declaredIds_nil labels_nil labels_nil
  have hpairs : (writesTable lower).pairsOf (entities lower options input) =
      if (writesTable lower).key (jobEntity options input) = "" then []
      else ((ofKind (entities lower options input) .icebergTable).filter fun e =>
        (writesTable lower).key e = (writesTable lower).key (jobEntity options input)).map
          (jobEntity options input, ·) := by
    show (writesTable lower).pairs (ofKind (entities lower options input) .flinkJob)
      (ofKind (entities lower options input) .icebergTable) = _
    rw [Rule.pairs, hids, ofKind_job]
    simp only [List.not_mem_nil, decide_false, Bool.and_false, Bool.not_false, List.filter_true,
      List.flatMap_singleton]
  rw [hpairs, key_job, matched]
  by_cases hkey : firstSignificantToken lower (jobEntity options input).name = ""
  · -- a job without a key has no links
    have hnone : input.sinkTables.filter (Matches lower options input) = [] :=
      List.filter_eq_nil_iff.mpr fun table _ => by simp [Matches, hkey]
    rw [if_pos hkey, hnone]
    rfl
  · rw [if_neg hkey]
    have hfilter : (input.sinkTables.map (tableEntity lower)).filter (fun e =>
        (writesTable lower).key e = firstSignificantToken lower (jobEntity options input).name) =
        (input.sinkTables.filter (Matches lower options input)).map (tableEntity lower) := by
      rw [List.filter_map]
      congr 1
      refine List.filter_congr fun table _ => decide_eq_decide.mpr ?_
      rw [key_table]
      exact ⟨fun hsame => ⟨hkey, hsame⟩, fun hmatches => hmatches.2⟩
    have hperm := (@ofKind_tables lower options input).filter
      fun e => (writesTable lower).key e = firstSignificantToken lower (jobEntity options input).name
    rw [hfilter] at hperm
    have hmap := hperm.map (jobEntity options input, ·)
    rwa [List.map_map] at hmap

/-- All pairs have the same source, so a link is ambiguous when there is a second one. -/
theorem crowded_job {pair : CorrelationEntity × CorrelationEntity}
    (hpair : pair ∈ (writesTable lower).pairsOf (entities lower options input)) :
    (writesTable lower).crowded (entities lower options input) pair =
      decide (1 < (matched lower options input).length) := by
  have hsource : ∀ pair ∈ (writesTable lower).pairsOf (entities lower options input),
      pair.1 = jobEntity options input := by
    intro pair hpair
    obtain ⟨table, -, rfl⟩ := List.mem_map.mp (pairsOf_job.subset hpair)
    rfl
  have hlen := (@pairsOf_job lower options input).length_eq
  rw [List.length_map] at hlen
  have hall : ((writesTable lower).pairsOf (entities lower options input)).countP
      (·.1.id = pair.1.id) = (matched lower options input).length := by
    rw [← hlen, List.countP_eq_length]
    intro other hother
    rw [hsource other hother, hsource pair hpair, decide_eq_true_eq]
  have hle : ((writesTable lower).pairsOf (entities lower options input)).countP
      (·.2.id = pair.2.id) ≤ (matched lower options input).length := by
    rw [← hlen]
    exact List.countP_le_length
  rw [Rule.crowded, hall, ← Bool.decide_or]
  exact decide_eq_decide.mpr (by omega)

/-- The correlation of a job and its tables. -/
theorem correlate_job : (correlate lower (entities lower options input)).Perm
    ((matched lower options input).map (jobLink lower options input)) := by
  have hother : ∀ rule : Rule,
      (rule.sourceKind ≠ .flinkJob ∧ rule.sourceKind ≠ .icebergTable) ∨
        (rule.targetKind ≠ .flinkJob ∧ rule.targetKind ≠ .icebergTable) →
      rule.linksOf lower (entities lower options input) = [] := by
    intro rule hkinds
    rw [Rule.linksOf, Rule.links, declaredLinks_nil labels_nil labels_nil, conventionLinks_nil]
    · rfl
    · exact hkinds.imp (fun h => ofKind_other h.1 h.2) fun h => ofKind_other h.1 h.2
  have hown : ((writesTable lower).linksOf lower (entities lower options input)).Perm
      ((matched lower options input).map (jobLink lower options input)) := by
    rw [Rule.linksOf, Rule.links, declaredLinks_nil labels_nil labels_nil, List.nil_append]
    have hmap : (writesTable lower).conventionLinks
        (ofKind (entities lower options input) (writesTable lower).sourceKind)
        (ofKind (entities lower options input) (writesTable lower).targetKind) =
        ((writesTable lower).pairsOf (entities lower options input)).map fun pair =>
          (writesTable lower).conventionLink (1 < (matched lower options input).length)
            pair.1 pair.2 :=
      List.map_congr_left fun pair hpair => by
        show (writesTable lower).conventionLink
          ((writesTable lower).crowded (entities lower options input) pair) pair.1 pair.2 = _
        rw [crowded_job hpair]
    rw [hmap]
    have hperm := (@pairsOf_job lower options input).map
      fun pair => (writesTable lower).conventionLink (1 < (matched lower options input).length)
        pair.1 pair.2
    rwa [List.map_map] at hperm
  -- the other rules have no sources or no targets
  have hall : (RULES lower).flatMap (fun rule => rule.linksOf lower (entities lower options input)) =
      (writesTable lower).linksOf lower (entities lower options input) := by
    obtain ⟨feeds, served, triggers, hrules, hfeeds, hserved, htriggers⟩ :
        ∃ feeds served triggers : Rule,
          RULES lower = [feeds, writesTable lower, served, triggers] ∧
            feeds.sourceKind = .kafkaTopic ∧ served.targetKind = .trinoCatalog ∧
            triggers.sourceKind = .airflowDag := ⟨_, _, _, rfl, rfl, rfl, rfl⟩
    rw [hrules, List.flatMap_cons, List.flatMap_cons, List.flatMap_cons, List.flatMap_cons,
      List.flatMap_nil, hother feeds (.inl (by rw [hfeeds]; decide)),
      hother served (.inr (by rw [hserved]; decide)),
      hother triggers (.inl (by rw [htriggers]; decide)), List.nil_append, List.nil_append,
      List.nil_append, List.append_nil]
  have hsort := sortOn_perm (·.id)
    ((RULES lower).flatMap fun rule => rule.linksOf lower (entities lower options input))
  rw [hall] at hsort
  have hcorrelate : correlate lower (entities lower options input) = sortOn (·.id)
      ((RULES lower).flatMap fun rule => rule.linksOf lower (entities lower options input)) := rfl
  rw [hcorrelate, hall]
  exact hsort.trans hown

/-- A link as the pipeline has it: the evidence of the graph names the table that the id stands
for. -/
def shownLink (lower : String → String) (options : Options) (input : FlinkJobInput)
    (table : String) : CorrelationLink :=
  { jobLink lower options input table with
    evidence := (jobLink lower options input table).evidence ++
      [graphEvidence input (tableByEntityId lower input (tableId lower table))] }

theorem links_perm : (links lower options input).Perm
    ((matched lower options input).map (shownLink lower options input)) := by
  have hperm := (@correlate_job lower options input).map
    fun link =>
      if link.relation = .jobWritesTable then
        { link with evidence :=
            link.evidence ++ [graphEvidence input (tableByEntityId lower input link.target.id)] }
      else link
  rw [List.map_map] at hperm
  exact hperm

theorem mem_links {l : CorrelationLink} : l ∈ links lower options input ↔
    ∃ table ∈ matched lower options input, shownLink lower options input table = l := by
  rw [links_perm.mem_iff, List.mem_map]

/-! ## What a pipeline should say -/

/-- A pipeline that keeps the tables of its job apart. -/
structure Sound (lower : String → String) (options : Options) (input : FlinkJobInput)
    (p : Pipeline) : Prop where
  entities : ∀ table ∈ input.sinkTables, ∀ table' ∈ input.sinkTables,
    tableId lower table = tableId lower table' → table = table'
  links : (p.correlationLinks.map (·.id)).Nodup
  evidence : ∀ l ∈ p.correlationLinks, l.relation = .jobWritesTable →
    ∃ table ∈ matched lower options input, l.target = (tableEntity lower table).ref ∧
      l.evidence = (jobLink lower options input table).evidence ++ [graphEvidence input table]
  ambiguous : ∀ l ∈ p.correlationLinks,
    l.confidence = 3 / 10 ↔ 1 < (matched lower options input).length

/-- No two tables have the same slug. -/
def SlugsDistinct (lower : String → String) (input : FlinkJobInput) : Prop :=
  ∀ table ∈ input.sinkTables, ∀ table' ∈ input.sinkTables,
    slug lower table = slug lower table' → table = table'

instance : Decidable (SlugsDistinct lower input) :=
  inferInstanceAs (Decidable (∀ table ∈ input.sinkTables, ∀ table' ∈ input.sinkTables, _ → _))

theorem tableId_inj {table table' : String} :
    tableId lower table = tableId lower table' ↔ slug lower table = slug lower table' := by
  rw [tableId, tableId]
  exact String.append_right_inj _

/-- The links have distinct ids, when the tables with the key of the job have distinct slugs. -/
theorem links_nodup (h : SlugsDistinct lower input) :
    ((links lower options input).map (·.id)).Nodup := by
  rw [(links_perm.map _).nodup_iff, List.map_map]
  refine (List.nodup_map_iff_inj_on (sinkTables_nodup.filter _)).mpr ?_
  intro table htable table' htable' heq
  refine h table (List.mem_of_mem_filter htable) table' (List.mem_of_mem_filter htable') ?_
  have hid : (shownLink lower options input table).id =
      (shownLink lower options input table').id := heq
  exact tableId_inj.mp ((String.append_right_inj _).mp hid)

/-- The id of a table stands for it. -/
theorem tableByEntityId_self (h : SlugsDistinct lower input) {table : String}
    (htable : table ∈ input.sinkTables) :
    tableByEntityId lower input (tableId lower table) = table := by
  rw [tableByEntityId]
  cases hfind : input.sinkTables.reverse.find? (tableId lower · = tableId lower table) with
  | none =>
      have hnone := List.find?_eq_none.mp hfind table (List.mem_reverse.mpr htable)
      simp at hnone
  | some found =>
      have hfound := List.mem_reverse.mp (List.mem_of_find?_eq_some hfind)
      have hid : tableId lower found = tableId lower table := by simpa using List.find?_some hfind
      exact h found hfound table htable (tableId_inj.mp hid)

theorem ambiguous_iff {l : CorrelationLink} (hl : l ∈ links lower options input) :
    l.confidence = 3 / 10 ↔ 1 < (matched lower options input).length := by
  obtain ⟨table, -, rfl⟩ := mem_links.mp hl
  show (if decide (1 < (matched lower options input).length) = true then AMBIGUOUS_CONFIDENCE
    else NAME_CONVENTION_CONFIDENCE) = 3 / 10 ↔ _
  by_cases hmany : 1 < (matched lower options input).length
  · rw [if_pos (decide_eq_true hmany)]
    exact iff_of_true rfl hmany
  · rw [if_neg (by simpa using hmany)]
    refine iff_of_false ?_ hmany
    rw [NAME_CONVENTION_CONFIDENCE]
    norm_num

/-- The candidate of a job is sound, if and only if the slugs of its tables are distinct. -/
theorem candidate_sound :
    Sound lower options input (candidate lower options input) ↔ SlugsDistinct lower input := by
  constructor
  · intro hsound table htable table' htable' hslug
    exact hsound.entities table htable table' htable' (tableId_inj.mpr hslug)
  · intro h
    refine ⟨fun table htable table' htable' hid => ?_, links_nodup h, fun l hl _ => ?_,
      fun l hl => ambiguous_iff hl⟩
    · exact h table htable table' htable' (tableId_inj.mp hid)
    · obtain ⟨table, htable, rfl⟩ := mem_links.mp hl
      refine ⟨table, htable, rfl, ?_⟩
      show _ ++ [graphEvidence input (tableByEntityId lower input (tableId lower table))] = _
      rw [tableByEntityId_self h (List.mem_of_mem_filter htable)]

end Links

/-- Each pipeline is that of a job, and it is sound, if and only if the slugs of the tables of the
job are distinct. -/
theorem pipelines_sound (lower : String → String) (inputs : List FlinkJobInput) (options : Options)
    (p : Pipeline) (h : p ∈ (buildPipelines lower inputs options).pipelines) :
    ∃ input ∈ inputs, p = candidate lower options input ∧
      (Sound lower options input p ↔ SlugsDistinct lower input) := by
  obtain ⟨hmem, -⟩ := List.mem_filter.mp (mem_sortOn.mp h)
  obtain ⟨input, hinput, rfl⟩ := List.mem_map.mp hmem
  exact ⟨input, hinput, rfl, candidate_sound⟩

/-- `toLowerCase` on ASCII. -/
def lowerAscii (s : String) : String := String.ofList (s.toList.map Char.toLower)

def ordersJob (vertices : List String) : FlinkJobInput where
  summary := ⟨"0123456789abcdef0123456789abcdef", "orders-sync", "RUNNING", 1000, 0, 2000, []⟩
  detail := some ⟨vertices⟩

theorem mem_ordersJob {vertices : List String}
    (h : (candidate lowerAscii ⟨"", 3000⟩ (ordersJob vertices)).valid = true) :
    candidate lowerAscii ⟨"", 3000⟩ (ordersJob vertices) ∈
      (buildPipelines lowerAscii [ordersJob vertices] ⟨"", 3000⟩).pipelines :=
  mem_sortOn.mpr (List.mem_filter.mpr ⟨List.mem_singleton_self _, h⟩)

/-- The link to one table with the evidence of another; two links with one id. -/
theorem tables_confused :
    (∃ p ∈ (buildPipelines lowerAscii
        [ordersJob ["IcebergSink lake.orders", "IcebergSink lake_orders"]] ⟨"", 3000⟩).pipelines,
      p.correlationLinks.map (·.evidence) =
        [["name key 'orders' shared by orders-sync and lake.orders",
          "Flink job graph of 'orders-sync' reports an IcebergSink on 'lake_orders'"]] ∧
      ¬ Sound lowerAscii ⟨"", 3000⟩
        (ordersJob ["IcebergSink lake.orders", "IcebergSink lake_orders"]) p) ∧
    ∃ p ∈ (buildPipelines lowerAscii
        [ordersJob ["IcebergSink a.orders", "IcebergSink a-.orders"]] ⟨"", 3000⟩).pipelines,
      ¬ (p.correlationLinks.map (·.id)).Nodup := by
  constructor
  · refine ⟨_, mem_ordersJob (by decide +kernel), by decide +kernel, fun hsound => ?_⟩
    have heq := hsound.entities "lake.orders" (by decide +kernel) "lake_orders" (by decide +kernel)
      (by decide +kernel)
    revert heq
    decide
  · exact ⟨_, mem_ordersJob (by decide +kernel), by decide +kernel⟩

/-- `pipelines_sound` on a job with two tables. -/
theorem pipelines_sound_orders :
    Sound lowerAscii ⟨"", 3000⟩ (ordersJob ["IcebergSink lake.orders", "IcebergSink lake.items"])
      (candidate lowerAscii ⟨"", 3000⟩
        (ordersJob ["IcebergSink lake.orders", "IcebergSink lake.items"])) := by
  obtain ⟨input, hinput, -, hsound⟩ := pipelines_sound lowerAscii
    [ordersJob ["IcebergSink lake.orders", "IcebergSink lake.items"]] ⟨"", 3000⟩ _
    (mem_ordersJob (by decide +kernel))
  cases List.mem_singleton.mp hinput
  exact hsound.mpr (by decide +kernel)

end Flink
