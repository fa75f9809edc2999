import FeatureStore.BatchOutput
import FeatureStore.JobSystem
import FeatureStore.OfflineAppend
import FeatureStore.RegistryQueries
import FeatureStore.Library.Execution

/-!
# Runs of a backfill

An attempt runs `JobExecutor._execute` on a `BACKFILL` job. As for offline appends, each
ownership check, each access to a store and each database transaction is one statement. Attempts
of the job follow each other: a new one begins with the stored row and abandons the last one
wherever it stands. What the batch SQL gives is found anew by every statement that runs it.
-/

namespace FeatureStore

open Relational

/-- `Registry.batch_source`. -/
def RegistryStore.batchSource (store : RegistryStore) (name : String) :
    Except PyException Manifest.BatchSource := do
  let record ← store.get .batchSource name ""
  match record.object with
  | .batchSource source => return source
  | _ => throw ⟨.validation, "validation error for BatchSource"⟩

/-- The registry, and what the casts and the comparisons of values give. -/
structure BackfillDeployment where
  settings : Settings
  store : RegistryStore
  arrow : ArrowCast
  compare : ValueComparison

/-- What `_backfill` reads before its loop. -/
structure BackfillPlan where
  view : Manifest.FeatureView
  entity : Manifest.Entity
  start : Instant
  endAt : Instant

def backfillPlan (store : RegistryStore) : JobPayload → Except PyException BackfillPlan
  | .range featureView start endAt => do
      let view ← store.featureView featureView
      let _ ← store.batchSource view.batchSource
      let entity ← store.entity view.entity
      return ⟨view, entity, start, endAt⟩
  | .incremental _ _ _ | .offlineAppend _ _ => .error (keyError "'start'")
  | .historicalQuery _ _ _ => .error (keyError "'feature_view'")

namespace BackfillPlan

variable (plan : BackfillPlan)

def policy : QualityPolicy := plan.view.effectiveQualityPolicy

/-- Whether the column that `append_column` adds has the name of another one. Such a table
cannot be written. -/
def hasDateColumn : Bool :=
  ((declaredColumns plan.entity plan.view).map (·.1)).contains "event_date"

end BackfillPlan

/-- `_has_backfill_checkpoint` -/
def hasBackfillCheckpoint (checkpoints : List Checkpoint) (cursor : Instant) : Bool :=
  checkpoints.any fun
    | .cursor time | .backfill time _ => decide (time = cursor)
    | .materialized _ | .appended _ | .duplicates _ | .quality _ => false

/-- `_quality_summary` -/
def qualitySummary (checkpoints : List Checkpoint) (policy : QualityPolicy) :
    DataQualitySummary :=
  (checkpoints.reverse.findSome? fun
    | .quality summary | .backfill _ summary => some summary
    | .materialized _ | .appended _ | .duplicates _ | .cursor _ => none).getD
      (emptySummary policy)

/-- The local variables of an iteration of the loop. -/
structure ChunkSlot where
  plan : BackfillPlan
  cursor : Instant
  summary : DataQualitySummary
  cursor_lt : cursor < plan.endAt

def ChunkSlot.chunkEnd (slot : ChunkSlot) : Instant :=
  FeatureStore.chunkEnd slot.cursor slot.plan.endAt

/-- An iteration with the validated output in the range of its chunk. -/
structure ChunkPass extends ChunkSlot where
  rows : List OfflineRow
  inRange : ∀ row ∈ rows, cursor ≤ row.eventTimestamp ∧
    row.eventTimestamp < FeatureStore.chunkEnd cursor plan.endAt

/-- The rows of the output under the mask. -/
def ChunkSlot.pass (slot : ChunkSlot) (records : List Dict) : ChunkPass where
  toChunkSlot := slot
  rows := chunkRows slot.plan.entity slot.plan.view slot.cursor slot.chunkEnd records
  inRange := by
    intro row hrow
    have hmask := (List.mem_filter.mp hrow).2
    rw [Bool.and_eq_true] at hmask
    exact ⟨of_decide_eq_true hmask.1, of_decide_eq_true hmask.2⟩

namespace ChunkPass

variable (d : BackfillDeployment) (pass : ChunkPass)

def validation : QualityValidation :=
  validateQualityTable d.compare pass.plan.view.features pass.chunkEnd pass.rows

def nextSummary : DataQualitySummary :=
  pass.summary.add pass.plan.policy (pass.validation d)

/-- The rows that are written to the view. -/
def kept : List OfflineRow :=
  if pass.plan.policy = .quarantine then takeRows pass.rows (pass.validation d).validRowIndexes
  else pass.rows

theorem kept_subset : pass.kept d ⊆ pass.rows := by
  rw [kept]
  split
  · rw [validation, takeRows_valid]
    exact List.filter_sublist.subset
  · exact List.Subset.refl _

def chunk : BackfillChunk where
  cursor := pass.cursor
  endAt := pass.plan.endAt
  output := pass.kept d
  cursor_lt := pass.cursor_lt
  output_range row hrow := pass.inRange row (pass.kept_subset d hrow)

/-- `DataQualityError` -/
def qualityError : PyException := ⟨.dataQuality, boundedMessage (pass.validation d).violations⟩

end ChunkPass

/-- The statement that an attempt takes next. -/
inductive BackfillStage
  | starting
  | reading
  | looping (plan : BackfillPlan) (cursor : Instant) (summary : DataQualitySummary)
  | requiringOwnership (slot : ChunkSlot)
  | evaluating (slot : ChunkSlot)
  | confirmingOwnership (pass : ChunkPass)
  | quarantining (pass : ChunkPass)
  | accessing (pass : ChunkPass) (access : BackfillChunk.Stage)
  | checkpointing (pass : ChunkPass)
  | finalizing (summary : DataQualitySummary)
  | failing (exc : PyException) (summary : Option DataQualitySummary)
  | ended

structure BackfillAttempt where
  job : JobRecord
  token : Uuid
  stage : BackfillStage

/-- The control plane, the table of the view, and the quarantine table of the job. -/
structure BackfillStores where
  db : Database
  view : Option DeltaTable
  quarantine : Option (List QuarantinedRow)

/-- The refusal of a table that has a column twice. -/
def duplicateColumn : PyException := ⟨.arrow, "Schema contains duplicate field names"⟩

/-- Whether a write of the chunk would have `event_date` twice. -/
def ChunkPass.refused (d : BackfillDeployment) (pass : ChunkPass) : BackfillChunk.Stage → Bool
  | .loading | .written => false
  | .overwriting _ => pass.plan.hasDateColumn
  | .creating => pass.plan.hasDateColumn && !(pass.kept d).isEmpty

namespace BackfillAttempt

def goto (a : BackfillAttempt) (stage : BackfillStage) : BackfillAttempt :=
  { a with stage := stage }

/-- An exception in the body of `_execute`. -/
def handle (a : BackfillAttempt) (exc : PyException) : BackfillAttempt :=
  if exc.cls = .leaseLost then a.goto .ended else a.goto (.failing exc none)

/-- An exception at the next statement; the first check and the handler are outside the `try`. -/
def raise (a : BackfillAttempt) (exc : PyException) : BackfillAttempt :=
  match a.stage with
  | .starting | .failing _ _ | .ended => a.goto .ended
  | _ => a.handle exc

/-- The body of an iteration up to its first write: `loaded` is what the batch SQL gives. -/
def evaluate (d : BackfillDeployment) (a : BackfillAttempt) (slot : ChunkSlot)
    (loaded : Except PyException ArrowTable) : BackfillAttempt :=
  match loaded with
  | .error exc => a.handle exc
  | .ok table =>
      match d.arrow.validateTable slot.plan.entity slot.plan.view table with
      | .error exc => a.handle exc
      | .ok records =>
          let pass := slot.pass records
          if (pass.validation d).invalidRowIndexes ≠ [] ∧ slot.plan.policy = .reject then
            a.goto (.failing (pass.qualityError d) (some (pass.nextSummary d)))
          else a.goto (.confirmingOwnership pass)

/-- The next statement of the attempt, at the worker's clock. -/
def advance (d : BackfillDeployment) (w : BackfillStores) (a : BackfillAttempt) (now : Instant)
    (loaded : Except PyException ArrowTable) : BackfillStores × BackfillAttempt :=
  match a.stage with
  | .starting => (w, a.goto (if owns w.db a.job.id a.token now then .reading else .ended))
  | .reading =>
      match backfillPlan d.store a.job.payload with
      | .error exc => (w, a.handle exc)
      | .ok plan =>
          (w, a.goto (.looping plan plan.start (qualitySummary a.job.checkpoints plan.policy)))
  | .looping plan cursor summary =>
      if hcursor : cursor < plan.endAt then
        if owns w.db a.job.id a.token now then
          if hasBackfillCheckpoint a.job.checkpoints cursor then
            (w, a.goto (.looping plan (chunkEnd cursor plan.endAt) summary))
          else (w, a.goto (.requiringOwnership ⟨plan, cursor, summary, hcursor⟩))
        else (w, a.goto .ended)
      else (w, a.goto (.finalizing summary))
  | .requiringOwnership slot =>
      (w, a.goto (if owns w.db a.job.id a.token now then .evaluating slot else .ended))
  | .evaluating slot => (w, a.evaluate d slot loaded)
  | .confirmingOwnership pass =>
      (w, a.goto (if owns w.db a.job.id a.token now then
          if pass.plan.policy = .quarantine then .quarantining pass
          else .accessing pass .loading
        else .ended))
  | .quarantining pass =>
      if pass.plan.hasDateColumn ∧ (pass.validation d).invalidRowIndexes ≠ [] then
        (w, a.handle duplicateColumn)
      else
        ({ w with
            quarantine :=
              quarantineBatch w.quarantine pass.rows (pass.validation d) (pass.chunk d).date },
          a.goto (.accessing pass .loading))
  | .accessing pass access =>
      if pass.refused d access then (w, a.handle duplicateColumn)
      else
        let (view, next) := (pass.chunk d).advance w.view access
        ({ w with view := view },
          a.goto (match next with
            | .written => .checkpointing pass
            | .loading | .overwriting _ | .creating => .accessing pass next))
  | .checkpointing pass =>
      match commitCheckpoints w.db a.job a.token now
          (a.job.checkpoints ++ [.backfill pass.cursor (pass.nextSummary d)]) with
      | (db, .ok job) =>
          ({ w with db := db },
            ⟨job, a.token, .looping pass.plan pass.chunkEnd (pass.nextSummary d)⟩)
      | (db, .error exc) => ({ w with db := db }, a.handle exc)
  | .finalizing summary =>
      match finalizeSuccess d.settings w.db a.job a.token now none (some (.quality summary)) with
      | (db, .ok job) => ({ w with db := db }, ⟨job, a.token, .ended⟩)
      | (db, .error exc) => ({ w with db := db }, a.handle exc)
  | .failing exc summary =>
      ({ w with
          db := finalizeFailure d.settings w.db a.job a.token now exc exc.message
            (summary.map .quality) },
        a.goto .ended)
  | .ended => (w, a)

end BackfillAttempt

/-- A registered job that no attempt has taken up, and the table of its view. -/
structure BackfillJob where
  deployment : BackfillDeployment
  request : JobRequest
  job : JobRecord
  db : Database
  initial : Option DeltaTable
  plan : BackfillPlan
  stored : db.jobs.find? job.id = some job
  kind : job.kind = .backfill
  payload : job.payload = .range request.featureView request.start request.endAt
  untouched : job.checkpoints = [] ∧ job.status ≠ .succeeded
  planned : backfillPlan deployment.store job.payload = .ok plan

/-- The stores with the attempt under way; `committed` records what each checkpoint stands
for. -/
structure BackfillWorld extends BackfillStores where
  attempt : Option BackfillAttempt
  committed : List ChunkPass

/-- A checkpoint goes on with the loop when it has been committed. -/
def commits : BackfillStage → BackfillStage → List ChunkPass → List ChunkPass
  | .checkpointing pass, .looping _ _ _, committed => committed ++ [pass]
  | _, _, committed => committed

/-- Another transaction leaves what attempts rely on: the job, and its checkpoints and result
as attempts have left them. -/
def keepsJob (jobId : Uuid) (db db' : Database) : Bool :=
  (db.jobs.find? jobId).all fun row => (db'.jobs.find? jobId).any fun row' =>
    decide (row'.kind = row.kind) && decide (row'.payload = row.payload) &&
      decide (row'.checkpoints = row.checkpoints) &&
      decide (row'.status = .succeeded →
        row.status = .succeeded ∧ row'.resultMetadata = row.resultMetadata)

inductive BackfillAction
  | interfere (db : Database)
  | begin (token : Uuid)
  | statement (now : Instant) (loaded : Except PyException ArrowTable)
  | raise (exc : PyException)

namespace BackfillJob

variable (s : BackfillJob)

def step (w : BackfillWorld) : BackfillAction → BackfillWorld
  | .interfere db => if keepsJob s.job.id w.db db then { w with db := db } else w
  | .begin token =>
      { w with attempt := (w.db.jobs.find? s.job.id).map fun job => ⟨job, token, .starting⟩ }
  | .statement now loaded =>
      match w.attempt with
      | none => w
      | some a =>
          let (stores, next) := a.advance s.deployment w.toBackfillStores now loaded
          { toBackfillStores := stores
            attempt := some next
            committed := commits a.stage next.stage w.committed }
  | .raise exc => { w with attempt := w.attempt.map fun a => a.raise exc }

def beginning : BackfillWorld := ⟨⟨s.db, s.initial, none⟩, none, []⟩

def run (actions : List BackfillAction) : BackfillWorld :=
  Execution.run s.step s.beginning actions

end BackfillJob

/-- The stage that follows an access to the view. -/
def ChunkPass.afterAccess (pass : ChunkPass) : BackfillChunk.Stage → BackfillStage
  | .written => .checkpointing pass
  | access => .accessing pass access

/-- The effect of one statement: its stage, what it found, and what it leaves. -/
inductive BackfillStatement (d : BackfillDeployment) (w : BackfillStores) (a : BackfillAttempt)
    (now : Instant) (loaded : Except PyException ArrowTable) :
    BackfillStores → BackfillAttempt → Prop
  | stopped (stage : BackfillStage)
      (stopped : stage = .ended ∨ ∃ exc summary, stage = .failing exc summary) :
      BackfillStatement d w a now loaded w (a.goto stage)
  | checked (stage : a.stage = .starting) :
      BackfillStatement d w a now loaded w (a.goto .reading)
  | read {plan : BackfillPlan} (stage : a.stage = .reading)
      (planned : backfillPlan d.store a.job.payload = .ok plan) :
      BackfillStatement d w a now loaded w
        (a.goto (.looping plan plan.start (qualitySummary a.job.checkpoints plan.policy)))
  | skipped {plan : BackfillPlan} {cursor : Instant} {summary : DataQualitySummary}
      (stage : a.stage = .looping plan cursor summary) (before : cursor < plan.endAt)
      (known : hasBackfillCheckpoint a.job.checkpoints cursor = true) :
      BackfillStatement d w a now loaded w
        (a.goto (.looping plan (chunkEnd cursor plan.endAt) summary))
  | entered (slot : ChunkSlot) (stage : a.stage = .looping slot.plan slot.cursor slot.summary)
      (unknown : hasBackfillCheckpoint a.job.checkpoints slot.cursor = false) :
      BackfillStatement d w a now loaded w (a.goto (.requiringOwnership slot))
  | finished {plan : BackfillPlan} {cursor : Instant} {summary : DataQualitySummary}
      (stage : a.stage = .looping plan cursor summary) (ended : plan.endAt ≤ cursor) :
      BackfillStatement d w a now loaded w (a.goto (.finalizing summary))
  | required {slot : ChunkSlot} (stage : a.stage = .requiringOwnership slot) :
      BackfillStatement d w a now loaded w (a.goto (.evaluating slot))
  | evaluated {slot : ChunkSlot} {table : ArrowTable} {records : List Dict}
      (stage : a.stage = .evaluating slot) (found : loaded = .ok table)
      (validated : d.arrow.validateTable slot.plan.entity slot.plan.view table = .ok records)
      (accepted : slot.plan.policy = .reject →
        ((slot.pass records).validation d).invalidRowIndexes = []) :
      BackfillStatement d w a now loaded w (a.goto (.confirmingOwnership (slot.pass records)))
  | confirmed {pass : ChunkPass} (stage : a.stage = .confirmingOwnership pass) :
      BackfillStatement d w a now loaded w
        (a.goto (if pass.plan.policy = .quarantine then .quarantining pass
          else .accessing pass .loading))
  | quarantined {pass : ChunkPass} (stage : a.stage = .quarantining pass) :
      BackfillStatement d w a now loaded
        { w with
          quarantine :=
            quarantineBatch w.quarantine pass.rows (pass.validation d) (pass.chunk d).date }
        (a.goto (.accessing pass .loading))
  | accessed {pass : ChunkPass} {access next : BackfillChunk.Stage} {view : Option DeltaTable}
      (stage : a.stage = .accessing pass access)
      (made : (pass.chunk d).advance w.view access = (view, next)) :
      BackfillStatement d w a now loaded { w with view := view } (a.goto (pass.afterAccess next))
  | checkpointed {pass : ChunkPass} {db : Database} {job : JobRecord}
      (stage : a.stage = .checkpointing pass)
      (commit : commitCheckpoints w.db a.job a.token now
        (a.job.checkpoints ++ [.backfill pass.cursor (pass.nextSummary d)]) = (db, .ok job)) :
      BackfillStatement d w a now loaded { w with db := db }
        ⟨job, a.token, .looping pass.plan pass.chunkEnd (pass.nextSummary d)⟩
  | succeeded {summary : DataQualitySummary} {db : Database} {job : JobRecord}
      (stage : a.stage = .finalizing summary)
      (commit : finalizeSuccess d.settings w.db a.job a.token now none
        (some (.quality summary)) = (db, .ok job)) :
      BackfillStatement d w a now loaded { w with db := db } ⟨job, a.token, .ended⟩
  | failed {exc : PyException} {summary : Option DataQualitySummary}
      (stage : a.stage = .failing exc summary) :
      BackfillStatement d w a now loaded
        { w with
          db := finalizeFailure d.settings w.db a.job a.token now exc exc.message
            (summary.map .quality) }
        (a.goto .ended)

section Inversion

variable {d : BackfillDeployment} {w : BackfillStores} {a : BackfillAttempt} {now : Instant}
variable {loaded : Except PyException ArrowTable}

theorem BackfillAttempt.handle_goto (a : BackfillAttempt) (exc : PyException) :
    ∃ stage, a.handle exc = a.goto stage ∧
      (stage = .ended ∨ ∃ exc summary, stage = .failing exc summary) := by
  unfold BackfillAttempt.handle
  split
  · exact ⟨_, rfl, Or.inl rfl⟩
  · exact ⟨_, rfl, Or.inr ⟨exc, none, rfl⟩⟩

theorem BackfillAttempt.raise_goto (a : BackfillAttempt) (exc : PyException) :
    ∃ stage, a.raise exc = a.goto stage ∧
      (stage = .ended ∨ ∃ exc summary, stage = .failing exc summary) := by
  unfold BackfillAttempt.raise
  split <;> first
    | exact ⟨_, rfl, Or.inl rfl⟩
    | exact a.handle_goto exc

theorem BackfillStatement.handled (exc : PyException) :
    BackfillStatement d w a now loaded w (a.handle exc) := by
  obtain ⟨stage, hgoto, hstopped⟩ := a.handle_goto exc
  rw [hgoto]
  exact .stopped stage hstopped

/-- A check that fails ends the attempt. -/
theorem BackfillStatement.owned {stage : BackfillStage} (owned : Bool)
    (h : owned = true → BackfillStatement d w a now loaded w (a.goto stage)) :
    BackfillStatement d w a now loaded w (a.goto (if owned then stage else .ended)) := by
  cases owned with
  | true => exact h rfl
  | false => exact .stopped .ended (Or.inl rfl)

theorem BackfillAttempt.evaluate_statement {slot : ChunkSlot}
    (hstage : a.stage = .evaluating slot) :
    BackfillStatement d w a now loaded w (a.evaluate d slot loaded) := by
  unfold BackfillAttempt.evaluate
  cases hloaded : loaded with
  | error exc => exact .handled exc
  | ok table =>
      dsimp only
      cases hrecords : d.arrow.validateTable slot.plan.entity slot.plan.view table with
      | error exc => exact .handled exc
      | ok records =>
          dsimp only
          split
          · exact .stopped _ (Or.inr ⟨_, _, rfl⟩)
          · rename_i haccepted
            refine .evaluated hstage rfl hrecords fun hpolicy => ?_
            by_contra hinvalid
            exact haccepted ⟨hinvalid, hpolicy⟩

/-- Every statement has one of the listed effects. -/
theorem BackfillAttempt.advance_statement :
    BackfillStatement d w a now loaded (a.advance d w now loaded).1
      (a.advance d w now loaded).2 := by
  cases hstage : a.stage with
  | starting =>
      simp only [BackfillAttempt.advance, hstage]
      exact .owned _ fun _ => .checked hstage
  | reading =>
      simp only [BackfillAttempt.advance, hstage]
      cases hplan : backfillPlan d.store a.job.payload with
      | error exc => exact .handled exc
      | ok plan => exact .read hstage hplan
  | looping plan cursor summary =>
      simp only [BackfillAttempt.advance, hstage]
      split
      · rename_i hcursor
        split
        · split
          · rename_i hknown
            exact .skipped hstage hcursor hknown
          · rename_i hunknown
            exact .entered ⟨plan, cursor, summary, hcursor⟩ hstage (Bool.not_eq_true _ ▸ hunknown)
        · exact .stopped .ended (Or.inl rfl)
      · rename_i hcursor
        exact .finished hstage (Int.not_lt.mp hcursor)
  | requiringOwnership slot =>
      simp only [BackfillAttempt.advance, hstage]
      exact .owned _ fun _ => .required hstage
  | evaluating slot =>
      simp only [BackfillAttempt.advance, hstage]
      exact a.evaluate_statement hstage
  | confirmingOwnership pass =>
      simp only [BackfillAttempt.advance, hstage]
      exact .owned _ fun _ => .confirmed hstage
  | quarantining pass =>
      simp only [BackfillAttempt.advance, hstage]
      split
      · exact .handled duplicateColumn
      · exact .quarantined hstage
  | accessing pass access =>
      simp only [BackfillAttempt.advance, hstage]
      split
      · exact .handled duplicateColumn
      · cases hmade : (pass.chunk d).advance w.view access with
        | mk view next =>
            have heffect : BackfillStatement d w a now loaded { w with view := view }
                (a.goto (pass.afterAccess next)) := .accessed hstage hmade
            cases next <;> exact heffect
  | checkpointing pass =>
      simp only [BackfillAttempt.advance, hstage]
      cases hcommit : commitCheckpoints w.db a.job a.token now
          (a.job.checkpoints ++ [.backfill pass.cursor (pass.nextSummary d)]) with
      | mk db result =>
          cases result with
          | error exc =>
              obtain rfl := commitCheckpoints_error hcommit
              exact .handled exc
          | ok job => exact .checkpointed hstage hcommit
  | finalizing summary =>
      simp only [BackfillAttempt.advance, hstage]
      cases hcommit : finalizeSuccess d.settings w.db a.job a.token now none
          (some (.quality summary)) with
      | mk db result =>
          cases result with
          | error exc =>
              obtain rfl := finalizeSuccess_error hcommit
              exact .handled exc
          | ok job => exact .succeeded hstage hcommit
  | failing exc summary =>
      simp only [BackfillAttempt.advance, hstage]
      exact .failed hstage
  | ended =>
      simp only [BackfillAttempt.advance, hstage]
      have hsame : a = a.goto .ended := by
        cases a
        cases hstage
        rfl
      rw [hsame]
      exact .stopped .ended (Or.inl rfl)

end Inversion

end FeatureStore
