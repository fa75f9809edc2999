import FeatureStore.BackfillFrame

/-!
# Resuming a backfill

When a backfill succeeds, every day of its range has one checkpoint, the view holds what the
attempt that committed it found for the day, and the result adds up these findings, whatever the
attempts before have left behind.
-/

namespace FeatureStore

open Relational

/-- The cursor that a checkpoint stands for. -/
def Checkpoint.cursor? : Checkpoint → Option Instant
  | .cursor time | .backfill time _ => some time
  | .materialized _ | .appended _ | .duplicates _ | .quality _ => none

namespace ChunkPass

variable (d : BackfillDeployment) (pass : ChunkPass)

/-- Whether a row of the output meets the contracts of the view. -/
def isValid (row : OfflineRow) : Bool :=
  isValidRow d.compare pass.plan.view.features pass.chunkEnd pass.rows row

/-- The rows of a table in the range of the chunk. -/
def inChunk (row : OfflineRow) : Bool :=
  decide (pass.cursor ≤ row.eventTimestamp) && decide (row.eventTimestamp < pass.chunkEnd)

/-- The rows that a policy keeps. -/
def policyRows : QualityPolicy → List OfflineRow
  | .quarantine => pass.rows.filter (pass.isValid d)
  | .report | .reject => pass.rows

def violationCount (constraint : QualityConstraintType) : Nat :=
  (pass.validation d).violations.countP fun violation => decide (violation.constraint = constraint)

variable {d pass}

theorem kept_eq : pass.kept d = pass.policyRows d pass.plan.policy := by
  rw [kept, validation, takeRows_valid]
  cases pass.plan.policy with
  | quarantine => rfl
  | report | reject => rfl

theorem inChunk_eq : pass.inChunk = fun row => !(pass.chunk d).outsideRange row := by
  funext row
  rw [inChunk, BackfillChunk.outsideRange, Bool.not_or, ← decide_not, ← decide_not]
  simp only [not_lt, not_le]
  rfl

theorem validation_eq_nil : (pass.validation d).invalidRowIndexes = [] ↔
    ∀ row ∈ pass.rows, pass.isValid d row = true :=
  invalidRowIndexes_eq_nil

end ChunkPass

section Counts

/-- Adding counts to a dictionary of counts adds them for each key. -/
theorem lookup_addCounts (items base : List (QualityConstraintType × Nat))
    (constraint : QualityConstraintType) :
    ((items.foldl (fun counts item => Dictionaries.setItem counts item.1
      ((counts.lookup item.1).getD 0 + item.2)) base).lookup constraint).getD 0 =
        (base.lookup constraint).getD 0 +
          (items.map fun item => if item.1 = constraint then item.2 else 0).sum := by
  induction items generalizing base with
  | nil => rfl
  | cons item rest ih =>
      rw [List.foldl_cons, ih, Dictionaries.lookup_setItem, List.map_cons, List.sum_cons,
        ← Nat.add_assoc]
      by_cases hkey : constraint = item.1
      · rw [if_pos hkey, if_pos hkey.symm, hkey, Option.getD_some]
      · rw [if_neg hkey, if_neg (Ne.symm hkey), Nat.add_zero]

/-- The dictionary of counts leaves out the constraints that are not violated. -/
theorem sum_countsByConstraint (validation : QualityValidation)
    (constraint : QualityConstraintType) :
    (validation.countsByConstraint.map fun item => if item.1 = constraint then item.2 else 0).sum =
      validation.violations.countP fun violation => decide (violation.constraint = constraint) := by
  have hfilter : ∀ constraints : List QualityConstraintType,
      (((constraints.filter fun c => validation.violations.any fun violation =>
          decide (violation.constraint = c)).map fun c => (c, validation.violations.countP
            fun violation => decide (violation.constraint = c))).map
              fun item => if item.1 = constraint then item.2 else 0).sum =
        (constraints.map fun c => if c = constraint then validation.violations.countP
          fun violation => decide (violation.constraint = c) else 0).sum := by
    intro constraints
    induction constraints with
    | nil => rfl
    | cons c rest ih =>
        rw [List.filter_cons, List.map_cons, List.sum_cons, ← ih]
        split
        · rw [List.map_cons, List.map_cons, List.sum_cons]
        · rename_i hnone
          have hzero : (validation.violations.countP fun violation =>
              decide (violation.constraint = c)) = 0 := by
            rw [List.countP_eq_zero]
            intro violation hviolation hc
            exact hnone (List.any_eq_true.mpr ⟨violation, hviolation, hc⟩)
          rw [hzero, ite_self, Nat.zero_add]
  rw [QualityValidation.countsByConstraint, violatedConstraints, hfilter]
  cases constraint <;> simp

variable {d : BackfillDeployment} {policy : QualityPolicy}

/-- The summary adds up the evaluations of the committed chunks. -/
theorem summaryOf_totals (committed : List ChunkPass) :
    (summaryOf d policy committed).policy = policy ∧
      (summaryOf d policy committed).evaluatedRows =
        (committed.map fun pass => pass.rows.length).sum ∧
      (summaryOf d policy committed).validRows =
        (committed.map fun pass => (pass.rows.filter (pass.isValid d)).length).sum ∧
      (summaryOf d policy committed).invalidRows =
        (committed.map fun pass =>
          (pass.rows.filter fun row => !pass.isValid d row).length).sum ∧
      (summaryOf d policy committed).quarantinedRows =
        (if policy = .quarantine then (summaryOf d policy committed).invalidRows else 0) ∧
      ∀ constraint, ((summaryOf d policy committed).countsByConstraint.lookup constraint).getD 0 =
        (committed.map fun pass => pass.violationCount d constraint).sum := by
  induction committed using List.reverseRecOn with
  | nil => exact ⟨rfl, rfl, rfl, rfl, by split <;> rfl, fun _ => rfl⟩
  | append_singleton earlier pass ih =>
      obtain ⟨-, hevaluated, hvalid, hinvalid, hquarantined, hcounts⟩ := ih
      simp only [summaryOf_append, DataQualitySummary.add, List.map_append, List.sum_append,
        List.map_singleton, List.sum_singleton]
      refine ⟨trivial, by rw [hevaluated]; rfl, ?_, ?_, ?_, fun constraint => ?_⟩
      · rw [hvalid, ChunkPass.validation, validRowIndexes_length]
        rfl
      · rw [hinvalid, ChunkPass.validation, invalidRowIndexes_length]
        rfl
      · rw [hquarantined]
        split
        · rfl
        · rfl
      · rw [lookup_addCounts, hcounts, sum_countsByConstraint, ChunkPass.violationCount]

end Counts

section Completion

variable {d : BackfillDeployment} {policy : QualityPolicy}

theorem checkpointsOf_cursors (committed : List ChunkPass) :
    (checkpointsOf d policy committed).map Checkpoint.cursor? =
      committed.map fun pass => some pass.cursor := by
  induction committed using List.reverseRecOn with
  | nil => rfl
  | append_singleton earlier pass ih =>
      rw [checkpointsOf_append, List.map_append, ih, List.map_append]
      rfl

/-- A chain that has reached the end of the range has its chunks. -/
theorem BackfillJob.Chained.complete {s : BackfillJob} {committed : List ChunkPass}
    (h : s.Chained committed) (hreached : s.plan.endAt ≤ s.reached committed) :
    committed.map (·.cursor) = dayChunks s.plan.start s.plan.endAt := by
  have hpast : ¬committed.length < dayCount s.plan.start s.plan.endAt := by
    rw [← boundary_lt_iff BackfillJob.start_lt]
    exact not_lt.mpr hreached
  have hwithin : ∀ i < committed.length, i < dayCount s.plan.start s.plan.endAt :=
    fun i hi => (boundary_lt_iff BackfillJob.start_lt i).mp (h.before hi)
  have hlength : committed.length = dayCount s.plan.start s.plan.endAt := by
    have hlast := hwithin (committed.length - 1)
    omega
  rw [h.cursors, hlength, dayChunks]

end Completion

/-- When a backfill has succeeded, whatever its attempts found and wherever those before the last
one ended, each day of the range has one checkpoint; the view holds in each day the rows that the
policy keeps of the output that was committed for it; and the result adds up these outputs. -/
theorem resumed_backfill_settles (s : BackfillJob) (actions : List BackfillAction)
    (job : JobRecord) (hjob : (s.run actions).db.jobs.find? s.job.id = some job)
    (hsucceeded : job.status = .succeeded) :
    job.checkpoints.map Checkpoint.cursor? =
        (dayChunks s.request.start s.request.endAt).map some ∧
      (s.run actions).committed.map (·.cursor) = dayChunks s.request.start s.request.endAt ∧
      (∀ pass ∈ (s.run actions).committed,
        ((OfflineStore.load (s.run actions).view).filter pass.inChunk).Perm
          (pass.policyRows s.deployment s.plan.policy) ∧
        (s.plan.policy = .reject → ∀ row ∈ pass.rows, pass.isValid s.deployment row = true)) ∧
      ∃ summary, job.resultMetadata = some (.quality summary) ∧
        summary.policy = s.plan.policy ∧
        summary.evaluatedRows =
          ((s.run actions).committed.map fun pass => pass.rows.length).sum ∧
        summary.validRows = ((s.run actions).committed.map fun pass =>
          (pass.rows.filter (pass.isValid s.deployment)).length).sum ∧
        summary.invalidRows = ((s.run actions).committed.map fun pass =>
          (pass.rows.filter fun row => !pass.isValid s.deployment row).length).sum ∧
        summary.quarantinedRows =
          (if s.plan.policy = .quarantine then summary.invalidRows else 0) ∧
        ∀ constraint, (summary.countsByConstraint.lookup constraint).getD 0 =
          ((s.run actions).committed.map fun pass =>
            pass.violationCount s.deployment constraint).sum := by
  have hsound := s.run_sound actions
  obtain ⟨row, hrow, hrowSound⟩ := hsound.row
  obtain rfl := Option.some.inj (hrow.symm.trans hjob)
  obtain ⟨hreached, hmetadata⟩ := hrowSound.succeeded hsucceeded
  have hcursors := hsound.chained.complete hreached
  rw [BackfillJob.plan_range.1, BackfillJob.plan_range.2] at hcursors
  refine ⟨?_, hcursors, ?_, s.summary _, hmetadata, summaryOf_totals _⟩
  · rw [hrowSound.checkpoints, checkpointsOf_cursors, ← hcursors, List.map_map]
    rfl
  · intro pass hpass
    have hpassSound := hsound.chained.passes pass hpass
    have hrows := hsound.view.chunks pass hpass
    rw [ChunkPass.kept_eq, hpassSound.plan] at hrows
    refine ⟨?_, fun hpolicy => ChunkPass.validation_eq_nil.mp (hpassSound.accepted hpolicy)⟩
    rw [ChunkPass.inChunk_eq]
    exact hrows

section Sample

def sensorEntity : Manifest.Entity := ⟨"sensor", [("sensor_id", .string)], by decide⟩

/-- A view whose rows without a level go to quarantine. -/
def sensorView : Manifest.FeatureView :=
  ⟨"sensor_stats", "1.0.0", "sensor",
    [⟨"level", .int64, "",
      some ⟨false, none, none, none, false, none, Manifest.no_accepted_scalar⟩⟩], "readings",
    "SELECT * FROM source", none, none, "", some .quarantine, List.nodup_singleton "level"⟩

def sensorStore : RegistryStore :=
  ⟨⟨[⟨.entity sensorEntity, "", 0⟩, ⟨.batchSource ⟨"readings", "readings", "at"⟩, "", 0⟩,
      ⟨.featureView sensorView, "", 0⟩], by decide, by decide⟩, .empty⟩

/-- The cast that takes the values that a column can hold. -/
def heldCast : ArrowCast where
  cast dtype value := if dtype.holds value then some value else none
  typed dtype value result h := by
    split at h
    · rename_i hholds
      cases h
      exact hholds
    · cases h
  same dtype value h := if_pos h
  valid dtype value h := by
    split at h
    · exact Option.some.inj h
    · cases h

def sensorDeployment : BackfillDeployment :=
  ⟨{}, sensorStore, heldCast, ⟨fun _ _ => false, fun _ _ => false, fun _ => ""⟩⟩

def sensorRequest : JobRequest := ⟨"sensor_stats@1.0.0", 0, 3600000000, by decide⟩

/-- A backfill of an hour. -/
def sensorJob : JobRecord :=
  newJobRecord {} 1 .backfill (.range "sensor_stats@1.0.0" 0 3600000000) none 0

def sensorJobs : Database := { Database.empty with jobs := ⟨[sensorJob], by simp, by simp⟩ }

def sensorBackfill : BackfillJob where
  deployment := sensorDeployment
  request := sensorRequest
  job := sensorJob
  db := sensorJobs
  initial := none
  plan := ⟨sensorView, sensorEntity, 0, 3600000000⟩
  stored := by simp [sensorJobs, Table.find?]
  kind := rfl
  payload := rfl
  untouched := ⟨rfl, nofun⟩
  planned := rfl

/-- What the batch SQL gives: one reading, of an event and with a level. -/
def reading (eventId level : Value) : Except PyException ArrowTable :=
  .ok ⟨["sensor_id", "event_timestamp", "event_id", "level"],
    [[.str "s1", .timestamp (.utc 60000000), eventId, level]]⟩

/-- A claim, and so many statements of the attempt that it begins. -/
def sensorAttempt (db : Database) (now : Instant) (token : Uuid) (count : Nat)
    (loaded : Except PyException ArrowTable) : List BackfillAction :=
  [.interfere (claimPass {} db "worker" now [] token).1, .begin token] ++
    List.replicate count (.statement now loaded)

/-- An attempt that dies after its write, and one that finds another reading. -/
def sensorActions (first second : Except PyException ArrowTable) : List BackfillAction :=
  sensorAttempt sensorJobs 0 11 9 first ++
    sensorAttempt (claimPass {} sensorJobs "worker" 0 [] 11).1 60000000 12 12 second

/-- The reading of the last attempt stands. -/
theorem resumed_reading_settles : ∃ job,
    (sensorBackfill.run (sensorActions (reading (.str "e1") (.int 3))
      (reading (.str "e2") (.int 5)))).db.jobs.find? 1 = some job ∧
    job.status = .succeeded ∧
    job.checkpoints.map Checkpoint.cursor? = (dayChunks 0 3600000000).map some := by
  have hsucceeded : ((sensorBackfill.run (sensorActions (reading (.str "e1") (.int 3))
      (reading (.str "e2") (.int 5)))).db.jobs.find? 1).any
        (fun job => decide (job.status = .succeeded)) = true := by
    decide +kernel
  obtain ⟨job, hjob, hstatus⟩ := (Option.any_eq_true _ _).mp hsucceeded
  rw [decide_eq_true_eq] at hstatus
  exact ⟨job, hjob, hstatus,
    (resumed_backfill_settles sensorBackfill _ job hjob hstatus).1⟩

end Sample

end FeatureStore
