import Mathlib.Logic.Function.Basic
import ArmaraOS.Learning.Procedures

/-!
Fingerprints of trajectories and of bundles of experience (`ainl-trajectory/src/lib.rs` and
`ainl-procedure-learning/src/lib.rs`), and the clusters that are made by them.

The fields are joined with separators that may stand in them, and a missing field is written as a
text that the field may have. So with any step a trajectory shares its text with another one, whose
source hash spells the steps; fields without the separators are told apart.
-/

namespace ArmaraOS.Learning

open ArmaraOS.Lib ArmaraOS.Text
open ArmaraOS.Memory (TrajectoryOutcome)

/-! ### Trajectories and clusters -/

/-- `TrajectoryDraft`, as far as it is read. -/
structure TrajectoryDraft where
  projectId : Option String
  ainlSourceHash : Option String
  outcome : TrajectoryOutcome
  steps : List TrajectoryStep
  durationMs : Nat

/-- The text that a trajectory is hashed by. -/
def canonicalTrajectory (record : TrajectoryDraft) : String :=
  record.projectId.getD "global" ++ ":" ++ record.ainlSourceHash.getD "" ++
    String.join (record.steps.map fun step => "|" ++ step.adapter ++ "." ++ step.operation)

/-- `ExperienceCluster`. -/
structure ExperienceCluster where
  fingerprint : String
  intent : String
  outcome : TrajectoryOutcome
  trajectories : List TrajectoryDraft
  successRatio : ℚ := 0
  avgDurationMs : Nat := 0
  avgVitalsTrust : Option ℚ := none

/-- `ClusterPolicy`. -/
structure ClusterPolicy where
  minSuccessRatio : ℚ
  minSteps : Nat
  maxAvgDurationMs : Option Nat
  minAvgVitalsTrust : Option ℚ

/-- `clusters.entry(fingerprint).or_insert_with(..).trajectories.push(record)`, on the clusters in
the order of their fingerprints. -/
def pushRecord (fingerprint : String) (record : TrajectoryDraft) :
    List ExperienceCluster → List ExperienceCluster
  | [] => [opened]
  | cluster :: clusters =>
      if cluster.fingerprint = fingerprint then
        { cluster with trajectories := cluster.trajectories ++ [record] } :: clusters
      else if fingerprint < cluster.fingerprint then opened :: cluster :: clusters
      else cluster :: pushRecord fingerprint record clusters
where
  opened : ExperienceCluster :=
    { fingerprint := fingerprint
      intent := record.projectId.getD "repeated agent workflow"
      outcome := record.outcome
      trajectories := [record] }

/-- `enrich_cluster_stats`, in exact rationals. -/
def enrichClusterStats (cluster : ExperienceCluster) : ExperienceCluster :=
  let count := max cluster.trajectories.length 1
  let success := cluster.trajectories.countP fun t =>
    t.outcome = .success ∧ t.steps.all (·.success)
  let trusts := cluster.trajectories.flatMap fun t =>
    t.steps.filterMap fun step => step.vitals.map (·.trust)
  { cluster with
    successRatio := success / count
    avgDurationMs := (cluster.trajectories.map (·.durationMs)).sum / count
    avgVitalsTrust :=
      if trusts.isEmpty then cluster.avgVitalsTrust else some (trusts.sum / trusts.length) }

/-- The cluster is handed on. -/
def ClusterPolicy.admits (policy : ClusterPolicy) (cluster : ExperienceCluster) : Bool :=
  policy.minSuccessRatio ≤ cluster.successRatio &&
    policy.maxAvgDurationMs.all (fun most => cluster.avgDurationMs ≤ most) &&
    policy.minAvgVitalsTrust.all fun least =>
      cluster.avgVitalsTrust.all fun trust => least ≤ trust

section Clusters

variable (uuidV5 : String → String)

/-- `trajectory_fingerprint`; `uuidV5` stands for the text of the UUID of a name. -/
def trajectoryFingerprint (record : TrajectoryDraft) : String :=
  uuidV5 (canonicalTrajectory record)

/-- The clusters before they are judged. -/
def groupRecords (records : List TrajectoryDraft) : List ExperienceCluster :=
  records.foldl (fun clusters record =>
    pushRecord (trajectoryFingerprint uuidV5 record) record clusters) []

/-- `cluster_experiences_with_policy`. -/
def clusterExperiencesWithPolicy (records : List TrajectoryDraft) (policy : ClusterPolicy) :
    List ExperienceCluster :=
  ((groupRecords uuidV5 (records.filter fun record => policy.minSteps ≤ record.steps.length)).map
    enrichClusterStats).filter policy.admits

end Clusters

/-! ### What the fingerprints are made of -/

/-- The fields of a trajectory that go into its fingerprint. -/
def TrajectoryDraft.fields (record : TrajectoryDraft) :
    Option String × Option String × List (String × String) :=
  (record.projectId, record.ainlSourceHash,
    record.steps.map fun step => (step.adapter, step.operation))

/-- The fields of a bundle that go into its fingerprint. -/
def ExperienceBundle.fields (bundle : ExperienceBundle) :
    String × List (String × String × Bool) :=
  (trim bundle.intent,
    bundle.events.map fun event => (event.toolOrAdapter, event.operation, event.success))

/-- No trajectory with other fields has the fingerprint. -/
def ToldApart (uuidV5 : String → String) (record : TrajectoryDraft) : Prop :=
  ∀ other, trajectoryFingerprint uuidV5 other = trajectoryFingerprint uuidV5 record →
    other.fields = record.fields

/-- In whatever is clustered, nothing with other fields comes into a cluster with it. -/
def NeverMerged (uuidV5 : String → String) (record : TrajectoryDraft) : Prop :=
  ∀ records policy, ∀ cluster ∈ clusterExperiencesWithPolicy uuidV5 records policy,
    record ∈ cluster.trajectories → ∀ t ∈ cluster.trajectories, t.fields = record.fields

/-- No bundle with other fields has the fingerprint. -/
def BundleToldApart (pkgs : ProcedurePackages) (bundle : ExperienceBundle) : Prop :=
  ∀ other, procedureFingerprint pkgs other = procedureFingerprint pkgs bundle →
    other.fields = bundle.fields

/-- The fingerprint of a trajectory tells its fields: there is no step, neither field is missing or
what a missing one is written as, no colon stands in them, and no steps are spelled in the hash. -/
def TrajectoryDraft.Unmistakable (record : TrajectoryDraft) : Prop :=
  record.steps = [] ∧ ∃ project hash, record.projectId = some project ∧
    record.ainlSourceHash = some hash ∧ project ≠ "global" ∧ hash ≠ "" ∧
    ':' ∉ project.toList ∧ ':' ∉ hash.toList ∧
    ∀ front adapter operation, hash.toList ≠ front ++ '|' :: (adapter ++ '.' :: operation)

/-- No separator stands in the fields, and none of them is what a missing one is written as. -/
structure TrajectoryDraft.Plain (record : TrajectoryDraft) : Prop where
  scope : ∀ project ∈ record.projectId, project ≠ "global" ∧ ':' ∉ project.toList
  source : ∀ hash ∈ record.ainlSourceHash, hash ≠ "" ∧ '|' ∉ hash.toList
  adapters : ∀ step ∈ record.steps, '.' ∉ step.adapter.toList ∧ '|' ∉ step.adapter.toList
  operations : ∀ step ∈ record.steps, '|' ∉ step.operation.toList

/-- The word for how an event ends. -/
def outcomeWord (success : Bool) : List Char := if success then ['o', 'k'] else ['e', 'r', 'r']

/-- The text of an event, without the newline. -/
def eventText (event : String × String × Bool) : List Char :=
  event.1.toList ++ ':' :: (event.2.1.toList ++ ':' :: outcomeWord event.2.2)

/-- The fingerprint of a bundle tells its fields: without an intent there is at most one event, and
no colon in it; with an intent there is no event, and none is spelled in the intent. -/
def ExperienceBundle.Unmistakable (bundle : ExperienceBundle) : Prop :=
  (trim bundle.intent = "" ∧ (bundle.events = [] ∨ ∃ event, bundle.events = [event] ∧
    ':' ∉ event.toolOrAdapter.toList ∧ ':' ∉ event.operation.toList)) ∨
  (trim bundle.intent ≠ "" ∧ bundle.events = [] ∧ ∀ front event,
    trimmed front = front → (trim bundle.intent).toList ≠ front ++ '\n' :: eventText event)

/-! ### Fields of trajectories -/

/-- The text of a step. -/
def stepText (step : String × String) : List Char :=
  '|' :: (step.1.toList ++ '.' :: step.2.toList)

/-- The text of the fields of a trajectory. -/
def fieldsText (fields : Option String × Option String × List (String × String)) : List Char :=
  (fields.1.getD "global").toList ++
    ':' :: ((fields.2.1.getD "").toList ++ fields.2.2.flatMap stepText)

theorem toList_canonicalTrajectory (record : TrajectoryDraft) :
    (canonicalTrajectory record).toList = fieldsText record.fields := by
  have hsteps : (record.steps.map fun step => "|" ++ step.adapter ++ "." ++ step.operation).flatMap
      String.toList =
      (record.steps.map fun step => (step.adapter, step.operation)).flatMap stepText := by
    rw [List.flatMap_map, List.flatMap_map]
    refine List.flatMap_congr fun step _ => ?_
    rw [String.toList_append, String.toList_append, String.toList_append, List.append_assoc,
      List.append_assoc]
    rfl
  rw [canonicalTrajectory, fieldsText, TrajectoryDraft.fields, String.toList_append,
    String.toList_append, String.toList_append, String.toList_join, hsteps, List.append_assoc,
    List.append_assoc]
  rfl

/-- A trajectory with the fields. -/
def recordOf (fields : Option String × Option String × List (String × String)) :
    TrajectoryDraft where
  projectId := fields.1
  ainlSourceHash := fields.2.1
  outcome := .success
  steps := fields.2.2.map fun step =>
    { stepId := "", timestampMs := 0, adapter := step.1, operation := step.2 }
  durationMs := 0

theorem fields_recordOf (fields : Option String × Option String × List (String × String)) :
    (recordOf fields).fields = fields := by
  rw [TrajectoryDraft.fields, recordOf, List.map_map]
  exact congrArg (fun steps => (fields.1, fields.2.1, steps)) (List.map_id _)

section ToldApart

variable {uuidV5 : String → String}

theorem fingerprint_eq_iff (huuid : Function.Injective uuidV5) {record other : TrajectoryDraft} :
    trajectoryFingerprint uuidV5 other = trajectoryFingerprint uuidV5 record ↔
      fieldsText other.fields = fieldsText record.fields := by
  rw [trajectoryFingerprint, trajectoryFingerprint, huuid.eq_iff, ← String.toList_inj,
    toList_canonicalTrajectory, toList_canonicalTrajectory]

theorem toldApart_iff (huuid : Function.Injective uuidV5) (record : TrajectoryDraft) :
    ToldApart uuidV5 record ↔
      ∀ fields, fieldsText fields = fieldsText record.fields → fields = record.fields := by
  constructor
  · intro h fields htext
    have hfields := h (recordOf fields) ((fingerprint_eq_iff huuid).mpr (by rwa [fields_recordOf]))
    rwa [fields_recordOf] at hfields
  · exact fun h other heq => h other.fields ((fingerprint_eq_iff huuid).mp heq)

end ToldApart

/-- A text with a colon is cut in another way than in front of it and behind it. -/
theorem exists_colon {s : String} (h : ':' ∈ s.toList) :
    ∃ front back : String, s = front ++ ":" ++ back ∧ front ≠ s := by
  obtain ⟨front, back, hs, -⟩ := exists_field h
  refine ⟨String.ofList front, String.ofList back, ?_, ?_⟩
  · rw [← String.toList_inj, hs]
    simp
  · intro hsame
    have hlength := congrArg (fun t => t.toList.length) hsame
    simp [hs] at hlength

/-- What other fields have the text of these. -/
theorem unmistakable_of_fields {record : TrajectoryDraft}
    (h : ∀ fields, fieldsText fields = fieldsText record.fields → fields = record.fields) :
    record.Unmistakable := by
  have hsteps : record.steps = [] := by
    -- the source hash spells the steps
    have hfields := h (record.projectId,
      some (record.ainlSourceHash.getD "" ++
        String.ofList (record.fields.2.2.flatMap stepText)), [])
      (by simp [fieldsText, TrajectoryDraft.fields])
    exact List.map_eq_nil_iff.mp (congrArg (fun fields => fields.2.2) hfields).symm
  have hnil : record.fields.2.2 = [] := by rw [TrajectoryDraft.fields, hsteps]; rfl
  refine ⟨hsteps, ?_⟩
  cases hproject : record.projectId with
  | none =>
      have hfields := h (some "global", record.fields.2)
        (by simp [fieldsText, TrajectoryDraft.fields, hproject])
      simp [TrajectoryDraft.fields, hproject] at hfields
  | some project =>
      cases hhash : record.ainlSourceHash with
      | none =>
          have hfields := h (record.projectId, some "", record.fields.2.2)
            (by simp [fieldsText, TrajectoryDraft.fields, hhash])
          simp [TrajectoryDraft.fields, hhash] at hfields
      | some hash =>
          refine ⟨project, hash, rfl, rfl, ?_, ?_, ?_, ?_, ?_⟩
          · rintro rfl
            have hfields := h (none, record.fields.2)
              (by simp [fieldsText, TrajectoryDraft.fields, hproject])
            simp [TrajectoryDraft.fields, hproject] at hfields
          · rintro rfl
            have hfields := h (record.projectId, none, record.fields.2.2)
              (by simp [fieldsText, TrajectoryDraft.fields, hhash])
            simp [TrajectoryDraft.fields, hhash] at hfields
          · intro hcolon
            obtain ⟨front, back, hcut, hne⟩ := exists_colon hcolon
            have hfields := h (some front, some (back ++ ":" ++ hash), [])
              (by simp [fieldsText, TrajectoryDraft.fields, hproject, hhash, hsteps, hcut])
            simp [TrajectoryDraft.fields, hproject, hne] at hfields
          · intro hcolon
            obtain ⟨front, back, hcut, -⟩ := exists_colon hcolon
            have hfields := h (some (project ++ ":" ++ front), some back, [])
              (by simp [fieldsText, TrajectoryDraft.fields, hproject, hhash, hsteps, hcut])
            have hlength := congrArg (fun fields => (fields.1.getD "").toList.length) hfields
            simp [TrajectoryDraft.fields, hproject] at hlength
          · intro front adapter operation hspelled
            have hfields := h (some project, some (String.ofList front),
              [(String.ofList adapter, String.ofList operation)])
              (by simp [fieldsText, stepText, TrajectoryDraft.fields, hproject, hhash, hsteps,
                hspelled])
            simp [TrajectoryDraft.fields, hsteps] at hfields

theorem fields_of_unmistakable {record : TrajectoryDraft} (h : record.Unmistakable)
    {fields : Option String × Option String × List (String × String)}
    (htext : fieldsText fields = fieldsText record.fields) : fields = record.fields := by
  obtain ⟨hsteps, project, hash, hproject, hhash, hglobal, hempty, hcolon, hcolon', hspelled⟩ := h
  have hfields : record.fields = (some project, some hash, []) := by
    rw [TrajectoryDraft.fields, hsteps, hproject, hhash]
    rfl
  obtain ⟨scope, source, steps⟩ := fields
  rw [hfields] at htext ⊢
  obtain ⟨hscope, hrest⟩ := onlyField_inj hcolon (by simpa using hcolon') htext
  have hsource : (source.getD "").toList ++ steps.flatMap stepText = hash.toList := by
    simpa using hrest
  have hnone : steps = [] := by
    cases steps with
    | nil => rfl
    | cons step steps =>
        refine absurd hsource.symm ?_
        have hne := hspelled (source.getD "").toList step.1.toList
          (step.2.toList ++ steps.flatMap stepText)
        simpa [stepText] using hne
  have hscope' : scope = some project := by
    cases scope with
    | none => exact absurd (String.toList_inj.mp hscope).symm hglobal
    | some other => exact congrArg some (String.toList_inj.mp hscope)
  have hsource' : source = some hash := by
    rw [hnone, List.flatMap_nil, List.append_nil, String.toList_inj] at hsource
    cases source with
    | none => exact absurd hsource.symm hempty
    | some other => exact congrArg some hsource
  rw [hnone, hscope', hsource']

theorem stepsText_inj {steps steps' : List (String × String)}
    (hsteps : ∀ step ∈ steps, '.' ∉ step.1.toList ∧ '|' ∉ step.1.toList ∧ '|' ∉ step.2.toList)
    (hsteps' : ∀ step ∈ steps', '.' ∉ step.1.toList ∧ '|' ∉ step.1.toList ∧ '|' ∉ step.2.toList)
    (h : steps.flatMap stepText = steps'.flatMap stepText) : steps = steps' := by
  induction steps generalizing steps' with
  | nil =>
      cases steps' with
      | nil => rfl
      | cons step' steps' => simp [stepText] at h
  | cons step steps ih =>
      cases steps' with
      | nil => simp [stepText] at h
      | cons step' steps' =>
          obtain ⟨⟨hdot, hbar, hbar₂⟩, hrest⟩ := List.forall_mem_cons.mp hsteps
          obtain ⟨⟨hdot', hbar', hbar₂'⟩, hrest'⟩ := List.forall_mem_cons.mp hsteps'
          rw [List.flatMap_cons, List.flatMap_cons, stepText, stepText, List.cons_append,
            List.cons_append] at h
          obtain ⟨hfirst, htail⟩ := firstField_inj (by simp [hbar, hbar₂])
            (by simp [hbar', hbar₂']) (head?_stepsText steps) (head?_stepsText steps')
            (List.cons.inj h).2
          obtain ⟨hadapter, hoperation⟩ := firstField_inj hdot hdot' (by simp) (by simp) hfirst
          rw [ih hrest hrest' htail, Prod.ext (String.toList_inj.mp hadapter)
            (String.toList_inj.mp (List.cons.inj hoperation).2)]
where
  head?_stepsText (steps : List (String × String)) :
      ∀ c ∈ (steps.flatMap stepText).head?, c = '|' := by
    cases steps with
    | nil => simp
    | cons step steps => simp [stepText]

/-- A missing field is told from one that is there. -/
theorem getD_inj {a b : Option String} {none' : String} (ha : ∀ s ∈ a, s ≠ none')
    (hb : ∀ s ∈ b, s ≠ none') (h : (a.getD none').toList = (b.getD none').toList) : a = b := by
  rw [String.toList_inj] at h
  cases a with
  | none =>
      cases b with
      | none => rfl
      | some t => exact absurd h.symm (hb t rfl)
  | some s =>
      cases b with
      | none => exact absurd h (ha s rfl)
      | some t => exact congrArg some h

theorem TrajectoryDraft.Plain.notMem_scope {record : TrajectoryDraft} (h : record.Plain) :
    ':' ∉ (record.projectId.getD "global").toList := by
  cases hproject : record.projectId with
  | none => decide
  | some project => exact (h.scope project hproject).2

theorem TrajectoryDraft.Plain.notMem_source {record : TrajectoryDraft} (h : record.Plain) :
    '|' ∉ (record.ainlSourceHash.getD "").toList := by
  cases hhash : record.ainlSourceHash with
  | none => exact List.not_mem_nil
  | some hash => exact (h.source hash hhash).2

theorem TrajectoryDraft.Plain.steps_fields {record : TrajectoryDraft} (h : record.Plain) :
    ∀ step ∈ record.fields.2.2,
      '.' ∉ step.1.toList ∧ '|' ∉ step.1.toList ∧ '|' ∉ step.2.toList := by
  intro step hstep
  obtain ⟨step', hstep', rfl⟩ := List.mem_map.mp hstep
  exact ⟨(h.adapters step' hstep').1, (h.adapters step' hstep').2, h.operations step' hstep'⟩

theorem fields_of_plain {record other : TrajectoryDraft} (h : record.Plain) (h' : other.Plain)
    (htext : fieldsText record.fields = fieldsText other.fields) :
    record.fields = other.fields := by
  obtain ⟨hscope, hrest⟩ := firstField_inj h.notMem_scope h'.notMem_scope (by simp) (by simp) htext
  obtain ⟨hsource, hsteps⟩ := firstField_inj h.notMem_source h'.notMem_source
    (stepsText_inj.head?_stepsText _) (stepsText_inj.head?_stepsText _) (List.cons.inj hrest).2
  refine Prod.ext ?_ (Prod.ext ?_ (stepsText_inj h.steps_fields h'.steps_fields hsteps))
  · exact getD_inj (fun s hs => (h.scope s hs).1) (fun s hs => (h'.scope s hs).1) hscope
  · exact getD_inj (fun s hs => (h.source s hs).1) (fun s hs => (h'.source s hs).1) hsource

/-! ### Clusters -/

section Clusters

variable {uuidV5 : String → String}

theorem mem_pushRecord {fingerprint : String} {record t : TrajectoryDraft}
    {clusters : List ExperienceCluster} {cluster : ExperienceCluster}
    (h : cluster ∈ pushRecord fingerprint record clusters) (ht : t ∈ cluster.trajectories) :
    (∃ old ∈ clusters, old.fingerprint = cluster.fingerprint ∧ t ∈ old.trajectories) ∨
      (cluster.fingerprint = fingerprint ∧ t = record) := by
  induction clusters with
  | nil =>
      obtain rfl := List.mem_singleton.mp h
      exact .inr ⟨rfl, List.mem_singleton.mp ht⟩
  | cons first clusters ih =>
      rw [pushRecord] at h
      split_ifs at h with hsame hless
      · rcases List.mem_cons.mp h with rfl | hold
        · rcases List.mem_append.mp ht with hold | hnew
          · exact .inl ⟨first, List.mem_cons_self, rfl, hold⟩
          · exact .inr ⟨hsame, List.mem_singleton.mp hnew⟩
        · exact .inl ⟨cluster, List.mem_cons_of_mem _ hold, rfl, ht⟩
      · rcases List.mem_cons.mp h with rfl | hold
        · exact .inr ⟨rfl, List.mem_singleton.mp ht⟩
        · exact .inl ⟨cluster, hold, rfl, ht⟩
      · rcases List.mem_cons.mp h with rfl | hold
        · exact .inl ⟨cluster, List.mem_cons_self, rfl, ht⟩
        · rcases ih hold with ⟨old, hmem, hfacts⟩ | hnew
          · exact .inl ⟨old, List.mem_cons_of_mem _ hmem, hfacts⟩
          · exact .inr hnew

/-- What is in a cluster was recorded, and has the fingerprint of the cluster. -/
def Grouped (uuidV5 : String → String) (records : List TrajectoryDraft)
    (clusters : List ExperienceCluster) : Prop :=
  ∀ cluster ∈ clusters, ∀ t ∈ cluster.trajectories,
    t ∈ records ∧ trajectoryFingerprint uuidV5 t = cluster.fingerprint

theorem grouped_pushRecord {records : List TrajectoryDraft} {clusters : List ExperienceCluster}
    (h : Grouped uuidV5 records clusters) {record : TrajectoryDraft} (hrecord : record ∈ records) :
    Grouped uuidV5 records
      (pushRecord (trajectoryFingerprint uuidV5 record) record clusters) := by
  intro cluster hcluster t ht
  rcases mem_pushRecord hcluster ht with ⟨old, hold, hsame, ht'⟩ | ⟨hsame, rfl⟩
  · exact hsame ▸ h old hold t ht'
  · exact ⟨hrecord, hsame.symm⟩

theorem grouped_groupRecords (records : List TrajectoryDraft) :
    Grouped uuidV5 records (groupRecords uuidV5 records) := by
  have hrun : ∀ (front : List TrajectoryDraft) (clusters : List ExperienceCluster),
      (∀ record ∈ front, record ∈ records) → Grouped uuidV5 records clusters →
      Grouped uuidV5 records (front.foldl (fun clusters record =>
        pushRecord (trajectoryFingerprint uuidV5 record) record clusters) clusters) := by
    intro front
    induction front with
    | nil => exact fun clusters _ h => h
    | cons record front ih =>
        intro clusters hfront h
        obtain ⟨hrecord, hrest⟩ := List.forall_mem_cons.mp hfront
        exact ih _ hrest (grouped_pushRecord h hrecord)
  exact hrun records [] (fun _ h => h) fun cluster h => absurd h List.not_mem_nil

theorem fingerprint_of_mem_cluster {records : List TrajectoryDraft} {policy : ClusterPolicy}
    {cluster : ExperienceCluster}
    (h : cluster ∈ clusterExperiencesWithPolicy uuidV5 records policy) {t : TrajectoryDraft}
    (ht : t ∈ cluster.trajectories) :
    t ∈ records ∧ trajectoryFingerprint uuidV5 t = cluster.fingerprint := by
  obtain ⟨cluster, hcluster, rfl⟩ := List.mem_map.mp (List.mem_filter.mp h).1
  obtain ⟨hmem, hsame⟩ := grouped_groupRecords _ cluster hcluster t ht
  exact ⟨(List.mem_filter.mp hmem).1, hsame⟩

/-- Every cluster is handed on. -/
def openPolicy : ClusterPolicy where
  minSuccessRatio := 0
  minSteps := 0
  maxAvgDurationMs := none
  minAvgVitalsTrust := none

theorem clusters_of_same {record other : TrajectoryDraft}
    (h : trajectoryFingerprint uuidV5 other = trajectoryFingerprint uuidV5 record) :
    ∃ cluster ∈ clusterExperiencesWithPolicy uuidV5 [record, other] openPolicy,
      record ∈ cluster.trajectories ∧ other ∈ cluster.trajectories := by
  have hgroup : groupRecords uuidV5 [record, other] =
      [{ pushRecord.opened (trajectoryFingerprint uuidV5 record) record with
        trajectories := [record] ++ [other] }] := by
    rw [groupRecords, List.foldl_cons, List.foldl_cons, List.foldl_nil, h, pushRecord, pushRecord,
      if_pos (show (pushRecord.opened (trajectoryFingerprint uuidV5 record) record).fingerprint =
        trajectoryFingerprint uuidV5 record from rfl)]
    rfl
  have hfilter : [record, other].filter (fun t => openPolicy.minSteps ≤ t.steps.length) =
      [record, other] := by simp [openPolicy]
  have hmem : { pushRecord.opened (trajectoryFingerprint uuidV5 record) record with
      trajectories := [record] ++ [other] } ∈ groupRecords uuidV5 ([record, other].filter
        fun t => openPolicy.minSteps ≤ t.steps.length) := by
    rw [hfilter, hgroup]
    exact List.mem_singleton_self _
  refine ⟨_, List.mem_filter.mpr ⟨List.mem_map_of_mem hmem, ?_⟩, List.mem_cons_self,
    List.mem_cons_of_mem _ List.mem_cons_self⟩
  simp only [ClusterPolicy.admits, openPolicy, enrichClusterStats, Option.all_none, Bool.and_true,
    decide_eq_true_eq]
  exact div_nonneg (Nat.cast_nonneg _) (Nat.cast_nonneg _)

theorem neverMerged_iff (record : TrajectoryDraft) :
    NeverMerged uuidV5 record ↔ ToldApart uuidV5 record := by
  constructor
  · intro h other hsame
    obtain ⟨cluster, hcluster, hrecord, hother⟩ := clusters_of_same hsame
    exact h [record, other] openPolicy cluster hcluster hrecord other hother
  · intro h records policy cluster hcluster hrecord t ht
    refine h t ?_
    rw [(fingerprint_of_mem_cluster hcluster ht).2,
      (fingerprint_of_mem_cluster hcluster hrecord).2]

end Clusters

/-! ### Fields of bundles -/

/-- The text of the fields of a bundle. -/
def bundleText (fields : String × List (String × String × Bool)) : List Char :=
  fields.1.toList ++ '\n' :: fields.2.flatMap fun event => eventText event ++ ['\n']

theorem toList_canonicalExperience (bundle : ExperienceBundle) :
    (canonicalExperience bundle).toList = bundleText bundle.fields := by
  have hevents : (bundle.events.map fun event =>
      event.toolOrAdapter ++ ":" ++ event.operation ++ ":" ++
        (if event.success then "ok" else "err") ++ "\n").flatMap String.toList =
      (bundle.events.map fun event =>
        (event.toolOrAdapter, event.operation, event.success)).flatMap
          fun event => eventText event ++ ['\n'] := by
    rw [List.flatMap_map, List.flatMap_map]
    refine List.flatMap_congr fun event _ => ?_
    cases hsuccess : event.success <;> simp [eventText, outcomeWord]
  rw [canonicalExperience, bundleText, ExperienceBundle.fields, String.toList_append,
    String.toList_append, String.toList_join, hevents, List.append_assoc]
  rfl

/-- A bundle with the fields. -/
def bundleOf (fields : String × List (String × String × Bool)) : ExperienceBundle where
  intent := fields.1
  outcome := .success
  observationCount := 0
  fitness := 0
  events := fields.2.map fun event =>
    { eventId := "", timestampMs := 0, toolOrAdapter := event.1, operation := event.2.1
      success := event.2.2 }

theorem fields_bundleOf {fields : String × List (String × String × Bool)}
    (h : trim fields.1 = fields.1) : (bundleOf fields).fields = fields := by
  rw [ExperienceBundle.fields, bundleOf, List.map_map]
  exact Prod.ext h (List.map_id _)

theorem bundleToldApart_iff {pkgs : ProcedurePackages}
    (hsha : Function.Injective pkgs.sha256HexLower) (bundle : ExperienceBundle) :
    BundleToldApart pkgs bundle ↔ ∀ fields : String × List (String × String × Bool),
      trim fields.1 = fields.1 → bundleText fields = bundleText bundle.fields →
        fields = bundle.fields := by
  have hsame : ∀ other : ExperienceBundle,
      procedureFingerprint pkgs other = procedureFingerprint pkgs bundle ↔
        bundleText other.fields = bundleText bundle.fields := by
    intro other
    rw [procedureFingerprint, procedureFingerprint, hsha.eq_iff, ← String.toList_inj,
      toList_canonicalExperience, toList_canonicalExperience]
  constructor
  · intro h fields htrim htext
    have hfields := h (bundleOf fields) ((hsame _).mpr (by rwa [fields_bundleOf htrim]))
    rwa [fields_bundleOf htrim] at hfields
  · exact fun h other heq => h other.fields (trim_trim other.intent) ((hsame other).mp heq)

/-- The texts of events are the text of one event, whose operation spells the others. -/
theorem exists_event {events : List (String × String × Bool)} (h : events ≠ []) :
    ∃ event, (events.flatMap fun event => eventText event ++ ['\n']) =
      eventText event ++ ['\n'] := by
  induction events with
  | nil => exact absurd rfl h
  | cons event events ih =>
      by_cases hrest : events = []
      · exact ⟨event, by rw [hrest]; simp⟩
      · obtain ⟨last, hlast⟩ := ih hrest
        refine ⟨(event.1, String.ofList (event.2.1.toList ++ ':' :: (outcomeWord event.2.2 ++
          '\n' :: (last.1.toList ++ ':' :: last.2.1.toList))), last.2.2), ?_⟩
        rw [List.flatMap_cons, hlast]
        simp [eventText]

theorem outcomeWord_inj {a b : Bool} (h : outcomeWord a = outcomeWord b) : a = b := by
  revert a b
  decide

theorem notMem_outcomeWord (success : Bool) : ':' ∉ outcomeWord success := by
  revert success
  decide

theorem count_eventText (event : String × String × Bool) :
    (eventText event).count ':' =
      event.1.toList.count ':' + event.2.1.toList.count ':' + 2 := by
  have hword := List.count_eq_zero.mpr (notMem_outcomeWord event.2.2)
  simp only [eventText, List.count_append, List.count_cons_self, hword]
  omega

theorem two_le_count_eventText (event : String × String × Bool) :
    2 ≤ (eventText event).count ':' := by
  rw [count_eventText]
  omega

/-- An event without a colon in its fields shares its text with no other one. -/
theorem eventText_inj {event event' : String × String × Bool} (htool : ':' ∉ event.1.toList)
    (hoperation : ':' ∉ event.2.1.toList) (h : eventText event' = eventText event) :
    event' = event := by
  have hcount := congrArg (List.count ':') h
  rw [count_eventText, count_eventText, List.count_eq_zero.mpr htool,
    List.count_eq_zero.mpr hoperation] at hcount
  have hoperation' : ':' ∉ event'.2.1.toList := List.count_eq_zero.mp (by omega)
  have hsplit : ∀ e : String × String × Bool,
      eventText e = (e.1.toList ++ ':' :: e.2.1.toList) ++ ':' :: outcomeWord e.2.2 :=
    fun e => by simp [eventText]
  rw [hsplit, hsplit] at h
  obtain ⟨hfront, hword⟩ := lastField_inj (notMem_outcomeWord _) (notMem_outcomeWord _) h
  obtain ⟨htools, hoperations⟩ := lastField_inj hoperation' hoperation hfront
  exact Prod.ext (String.toList_inj.mp htools)
    (Prod.ext (String.toList_inj.mp hoperations) (outcomeWord_inj hword))

theorem trim_eq_iff {s : String} : trim s = s ↔ trimmed s.toList = s.toList := by
  rw [trim, ← String.toList_inj, String.toList_ofList, trimmed]

/-- An intent with events behind it is trimmed. -/
theorem trimmed_eventText {front : List Char} (htrim : trimmed front = front) (hne : front ≠ [])
    (event : String × String × Bool) :
    trimmed (front ++ '\n' :: eventText event) = front ++ '\n' :: eventText event := by
  obtain ⟨c, rest, rfl, hc⟩ := exists_of_trimmed htrim hne
  have hword : trimmed (outcomeWord event.2.2) = outcomeWord event.2.2 := by
    cases event.2.2 <;> decide
  have hwordne : outcomeWord event.2.2 ≠ [] := by
    cases event.2.2 <;> decide
  have h := trimmed_append hc
    (rest ++ '\n' :: (event.1.toList ++ ':' :: (event.2.1.toList ++ [':']))) hwordne hword
  simpa [eventText] using h

section Bundles

variable {bundle : ExperienceBundle}

theorem unmistakable_of_intent (hintent : trim bundle.intent ≠ "")
    (h : ∀ fields : String × List (String × String × Bool), trim fields.1 = fields.1 →
      bundleText fields = bundleText bundle.fields → fields = bundle.fields) :
    bundle.Unmistakable := by
  have htrim := trim_eq_iff.mp (trim_trim bundle.intent)
  have hne : (trim bundle.intent).toList ≠ [] := fun hnil =>
    hintent (String.toList_inj.mp hnil)
  have hevents : bundle.fields.2 = [] := by
    by_contra hsome
    -- the intent spells the events
    obtain ⟨event, hevent⟩ := exists_event hsome
    have hfields := h (String.ofList ((trim bundle.intent).toList ++ '\n' :: eventText event), [])
      (trim_eq_iff.mpr (by simpa using trimmed_eventText htrim hne event))
      (by rw [bundleText, bundleText, hevent]; simp [ExperienceBundle.fields])
    exact hsome (congrArg Prod.snd hfields).symm
  refine .inr ⟨hintent, List.map_eq_nil_iff.mp hevents, ?_⟩
  intro front event hfront hspelled
  have hfields := h (String.ofList front, [event]) (trim_eq_iff.mpr (by simpa using hfront))
    (by rw [bundleText, bundleText, hevents]; simp [ExperienceBundle.fields, hspelled])
  rw [← hfields] at hevents
  cases hevents

theorem unmistakable_of_noIntent (hintent : trim bundle.intent = "")
    (h : ∀ fields : String × List (String × String × Bool), trim fields.1 = fields.1 →
      bundleText fields = bundleText bundle.fields → fields = bundle.fields) :
    bundle.Unmistakable := by
  refine .inl ⟨hintent, ?_⟩
  have hother : ∀ events : List (String × String × Bool),
      (events.flatMap fun event => eventText event ++ ['\n']) =
        (bundle.fields.2.flatMap fun event => eventText event ++ ['\n']) →
      events = bundle.fields.2 := by
    intro events heq
    refine congrArg Prod.snd (h ("", events) rfl ?_)
    rw [bundleText, bundleText, heq]
    simp [ExperienceBundle.fields, hintent]
  match hevents : bundle.events with
  | [] => exact .inl rfl
  | [event] =>
      refine .inr ⟨event, rfl, ?_, ?_⟩
      · intro hcolon
        obtain ⟨front, back, hcut, hne⟩ := exists_colon hcolon
        have hsame := hother [(front, back ++ ":" ++ event.operation, event.success)]
          (by simp [ExperienceBundle.fields, hevents, eventText, hcut])
        simp [ExperienceBundle.fields, hevents, hne] at hsame
      · intro hcolon
        obtain ⟨front, back, hcut, -⟩ := exists_colon hcolon
        have hsame := hother [(event.toolOrAdapter ++ ":" ++ front, back, event.success)]
          (by simp [ExperienceBundle.fields, hevents, eventText, hcut])
        have hlength := congrArg
          (fun events => (events.map fun e => e.1.toList.length).sum) hsame
        simp [ExperienceBundle.fields, hevents] at hlength
  | first :: second :: events =>
      obtain ⟨event, hevent⟩ := @exists_event bundle.fields.2
        (by simp [ExperienceBundle.fields, hevents])
      have hsame := congrArg List.length (hother [event] (by rw [hevent]; simp))
      simp [ExperienceBundle.fields, hevents] at hsame

theorem fields_of_bundle_unmistakable (h : bundle.Unmistakable)
    {fields : String × List (String × String × Bool)} (htrim : trim fields.1 = fields.1)
    (htext : bundleText fields = bundleText bundle.fields) : fields = bundle.fields := by
  obtain ⟨intent, events⟩ := fields
  rw [bundleText, bundleText] at htext
  rcases h with ⟨hintent, hevents⟩ | ⟨-, hevents, hspelled⟩
  · have hnone : intent = "" := by
      by_contra hne
      obtain ⟨c, rest, hcut, hc⟩ := exists_of_trimmed (trim_eq_iff.mp htrim)
        fun hnil => hne (String.toList_inj.mp hnil)
      simp only [ExperienceBundle.fields, hintent, hcut] at htext
      obtain ⟨rfl, -⟩ := List.cons.inj htext
      exact absurd hc (by decide)
    have hrest : (events.flatMap fun event => eventText event ++ ['\n']) =
        (bundle.fields.2.flatMap fun event => eventText event ++ ['\n']) := by
      simpa [ExperienceBundle.fields, hintent, hnone] using htext
    refine Prod.ext (by rw [hnone, ExperienceBundle.fields, hintent]) ?_
    rcases hevents with hnil | ⟨event, hone, htool, hoperation⟩
    · have hfields : bundle.fields.2 = [] := List.map_eq_nil_iff.mpr hnil
      rw [hfields] at hrest ⊢
      by_contra hsome
      obtain ⟨event, hevent⟩ := exists_event hsome
      simp [hevent] at hrest
    · have hfields : bundle.fields.2 = [(event.toolOrAdapter, event.operation, event.success)] := by
        rw [ExperienceBundle.fields, hone]
        rfl
      rw [hfields] at hrest ⊢
      match events with
      | [] => simp at hrest
      | [other] =>
          refine congrArg (fun e => [e]) (eventText_inj htool hoperation ?_)
          simpa using hrest
      | first :: second :: others =>
          have hcount := congrArg (List.count ':') hrest
          have hfirst := two_le_count_eventText first
          have hsecond := two_le_count_eventText second
          have hevent : (eventText (event.toolOrAdapter, event.operation,
              event.success)).count ':' = 2 := by
            rw [count_eventText, List.count_eq_zero.mpr htool, List.count_eq_zero.mpr hoperation]
          simp [hevent] at hcount
          omega
  · have hfields : bundle.fields = (trim bundle.intent, []) := by
      rw [ExperienceBundle.fields, hevents]
      rfl
    rw [hfields] at htext ⊢
    by_cases hnone : events = []
    · rw [hnone] at htext ⊢
      have hsame : intent.toList = (trim bundle.intent).toList := by simpa using htext
      rw [String.toList_inj.mp hsame]
    · obtain ⟨event, hevent⟩ := exists_event hnone
      refine absurd ?_ (hspelled intent.toList event (trim_eq_iff.mp htrim))
      have hsame : (intent.toList ++ '\n' :: eventText event) ++ ['\n'] =
          (trim bundle.intent).toList ++ ['\n'] := by
        simpa [hevent] using htext
      exact (List.append_cancel_right hsame).symm

end Bundles

/-! ### When fingerprints tell the fields -/

/-- For injective hashes. A trajectory shares its fingerprint with none that has other fields, and
is never clustered with one, exactly when it is unmistakable; a bundle likewise. Trajectories
without separators in their fields are never clustered with ones that have other fields. -/
theorem fingerprint_tells_fields_iff {uuidV5 : String → String}
    (huuid : Function.Injective uuidV5) {pkgs : ProcedurePackages}
    (hsha : Function.Injective pkgs.sha256HexLower) :
    (∀ record, (ToldApart uuidV5 record ∧ NeverMerged uuidV5 record) ↔ record.Unmistakable) ∧
    (∀ bundle, BundleToldApart pkgs bundle ↔ bundle.Unmistakable) ∧
    ∀ records policy, (∀ record ∈ records, record.Plain) →
      ∀ cluster ∈ clusterExperiencesWithPolicy uuidV5 records policy,
        ∀ t ∈ cluster.trajectories, ∀ u ∈ cluster.trajectories, t.fields = u.fields := by
  refine ⟨fun record => ?_, fun bundle => ?_, ?_⟩
  · rw [neverMerged_iff, and_self, toldApart_iff huuid]
    exact ⟨unmistakable_of_fields, fun h fields => fields_of_unmistakable h⟩
  · rw [bundleToldApart_iff hsha]
    constructor
    · intro h
      by_cases hintent : trim bundle.intent = ""
      · exact unmistakable_of_noIntent hintent h
      · exact unmistakable_of_intent hintent h
    · exact fun h fields => fields_of_bundle_unmistakable h
  · intro records policy hplain cluster hcluster t ht u hu
    obtain ⟨htmem, htprint⟩ := fingerprint_of_mem_cluster hcluster ht
    obtain ⟨humem, huprint⟩ := fingerprint_of_mem_cluster hcluster hu
    exact fields_of_plain (hplain t htmem) (hplain u humem)
      ((fingerprint_eq_iff huuid).mp (htprint.trans huprint.symm))

/-- The texts themselves for the hashes. -/
theorem fingerprint_tells_fields_iff_texts :
    (∀ record, (ToldApart id record ∧ NeverMerged id record) ↔ record.Unmistakable) ∧
    (∀ bundle, BundleToldApart plainPackages bundle ↔ bundle.Unmistakable) ∧
    ∀ records policy, (∀ record ∈ records, record.Plain) →
      ∀ cluster ∈ clusterExperiencesWithPolicy id records policy,
        ∀ t ∈ cluster.trajectories, ∀ u ∈ cluster.trajectories, t.fields = u.fields :=
  fingerprint_tells_fields_iff Function.injective_id Function.injective_id

/-- `fs.read` of the adapter `mcp`, and `read` of the adapter `mcp.fs`. -/
theorem dotted_adapter_same_fingerprint : ¬ ∀ (uuidV5 : String → String),
    Function.Injective uuidV5 → ∀ record other : TrajectoryDraft,
      trajectoryFingerprint uuidV5 other = trajectoryFingerprint uuidV5 record →
        other.fields = record.fields := by
  intro h
  have hfields := h id Function.injective_id
    (recordOf (none, none, [("mcp", "fs.read")])) (recordOf (none, none, [("mcp.fs", "read")]))
    (by decide)
  rw [fields_recordOf, fields_recordOf] at hfields
  exact absurd hfields (by decide)

end ArmaraOS.Learning
