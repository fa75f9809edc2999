import FeatureStore.Database

/-!
# Job submission, cancellation and retry

The methods of `JobService`, each one database transaction. A method returns the
committed tables together with its result or the exception it raises; a rollback
returns the tables it started from. `now` is the caller's clock, and a UUID that
a method draws is an argument.
-/

namespace FeatureStore

open Relational

/-- The exception of a violated primary key or unique constraint. -/
def integrityError : PyException := ⟨.integrity, "IntegrityError"⟩

/-- `session.refresh(job)` after a commit. -/
def refreshJob (db : Database) (jobId : Uuid) : Except PyException JobRecord :=
  match db.jobs.find? jobId with
  | some job => .ok job
  | none => .error ⟨.runtime, s!"could not refresh job {jobId}"⟩

/-- Insert one new job and commit: `create`, and the insertions of the other
creating methods. -/
def insertJob (settings : Settings) (db : Database) (id : Uuid) (kind : JobKind)
    (payload : JobPayload) (artifactUri : Option String) (now : Instant) :
    Database × Except PyException JobRecord :=
  match db.jobs.insert? (newJobRecord settings id kind payload artifactUri now) with
  | some jobs =>
      let committed := { db with jobs := jobs }
      (committed, refreshJob committed id)
  | none => (db, .error integrityError)

/-- `JobService.create`, which the API calls with `BACKFILL` and `MATERIALIZE`. -/
def create (settings : Settings) (db : Database) (kind : JobKind) (request : JobRequest)
    (id : Uuid) (now : Instant) : Database × Except PyException JobRecord :=
  insertJob settings db id kind (.range request.featureView request.start request.endAt)
    none now

/-- The row that `JobService.create_historical_query` inserts once the input
artifact has been written. -/
def createHistoricalQuery (settings : Settings) (db : Database) (observationCount : Nat)
    (resolvedFeatures : List String) (warnings : List RegistryWarning)
    (artifactUri : String) (id : Uuid) (now : Instant) :
    Database × Except PyException JobRecord :=
  insertJob settings db id .historicalQuery
    (.historicalQuery observationCount resolvedFeatures warnings) (some artifactUri) now

/-- The job under a view's `active_job_id`, when that job is still active. -/
def activeReservation? (db : Database) (featureView : String) : Option JobRecord :=
  match db.materializationStates.find? featureView with
  | none => none
  | some state =>
      match state.activeJobId with
      | none => none
      | some activeJobId =>
          match db.jobs.find? activeJobId with
          | none => none
          | some active => if active.status.isActive then some active else none

/-- Write a view's reservation, inserting its state row when there is none. -/
def reserve? (states : MaterializationStateTable) (featureView : String) (jobId : Uuid)
    (now : Instant) : Option MaterializationStateTable :=
  match states.find? featureView with
  | some _ =>
      some (states.modify featureView
        (setState fun state => { state with activeJobId := some jobId, updatedAt := now }))
  | none =>
      states.insert? { newMaterializationState featureView now with activeJobId := some jobId }

/-- The tables after a new incremental job has been inserted and reserved, or
`none` when a constraint fails at the commit. -/
def insertReserved? (settings : Settings) (db : Database) (featureView : String)
    (cutoff : Instant) (lookback : Nat) (id : Uuid) (now : Instant) : Option Database :=
  match db.jobs.insert? (newJobRecord settings id .materialize
      (.incremental featureView cutoff lookback) none now) with
  | none => none
  | some jobs =>
      match reserve? db.materializationStates featureView id now with
      | none => none
      | some states => some { db with jobs := jobs, materializationStates := states }

/-- The passes of the loop in `create_incremental_materialization`, one for each
UUID drawn: an integrity error is rolled back and tried again once. -/
def createIncrementalPasses (settings : Settings) (db : Database) (featureView : String)
    (cutoff : Instant) (lookback : Nat) (now : Instant) :
    List Uuid → Database × Except PyException JobRecord
  | [] => (db, .error ⟨.runtime, "could not reserve incremental materialization"⟩)
  | id :: rest =>
      match activeReservation? db featureView with
      | some active => (db, .ok active)
      | none =>
          if ((db.materializationStates.find? featureView).bind
              (·.watermark)).any (fun watermark => decide (cutoff < watermark)) then
            (db, .error (valueError
              "end cannot precede the successful materialization watermark"))
          else
            match insertReserved? settings db featureView cutoff lookback id now with
            | some committed => (committed, refreshJob committed id)
            | none =>
                match rest with
                | [] => (db, .error integrityError)
                | _ :: _ =>
                    createIncrementalPasses settings db featureView cutoff lookback now rest

/-- `JobService.create_incremental_materialization`. -/
def createIncrementalMaterialization (settings : Settings) (db : Database)
    (request : IncrementalMaterializationRequest) (firstId secondId : Uuid) (now : Instant) :
    Database × Except PyException JobRecord :=
  createIncrementalPasses settings db request.featureView (request.endAt.getD now)
    (request.lookbackSeconds.getD settings.materializationLookbackSeconds) now
    [firstId, secondId]

/-- `JobService._release_incremental_reservation`. -/
def releaseIncrementalReservation (db : Database) (job : JobRecord) (now : Instant) :
    Database :=
  match job.incremental? with
  | none => db
  | some (featureView, _) =>
      { db with
        materializationStates := db.materializationStates.update
          (fun state => decide (state.featureView = featureView) &&
            decide (state.activeJobId = some job.id))
          (setState fun state => { state with activeJobId := none, updatedAt := now }) }

/-- The retention that terminal historical queries receive. -/
def retainUntil (settings : Settings) (now : Instant) : Instant :=
  now + seconds settings.historicalResultTtlSeconds

/-- Clear the columns that only a lease sets. -/
def JobRecord.unleased (job : JobRecord) : JobRecord :=
  { job with
    workerId := none, leaseToken := none, leaseExpiresAt := none, lastHeartbeatAt := none }

def notCancellable : PyException :=
  valueError "only pending, retrying, or running jobs can be cancelled"

/-- The SET clause of `cancel`; `job` is the row as loaded. -/
def setCancelled (settings : Settings) (job : JobRecord) (now : Instant) :
    Assignment JobRecord.id JobRecord.id :=
  setJob fun row =>
    { row.unleased with
      status := .cancelled
      finishedAt := some now
      artifactExpiresAt :=
        if job.kind = .historicalQuery then some (retainUntil settings now)
        else job.artifactExpiresAt
      nextAttemptAt := none }

/-- `JobService.cancel`. -/
def cancel (settings : Settings) (db : Database) (jobId : Uuid) (now : Instant) :
    Database × Except PyException JobRecord :=
  match db.jobs.find? jobId with
  | none => (db, .error (keyError s!"unknown job: {jobId}"))
  | some job =>
      if job.status.isActive then
        let guard := fun row : JobRecord => decide (row.id = jobId) && row.status.isActive
        if db.jobs.rowcount guard = 0 then (db, .error notCancellable)
        else
          let updated := { db with jobs := db.jobs.update guard (setCancelled settings job now) }
          let committed := releaseIncrementalReservation updated job now
          (committed, refreshJob committed jobId)
      else (db, .error notCancellable)

def notRetryable : PyException :=
  valueError "only failed or exhausted jobs can be retried"

/-- The status test of `retry`: cancelled jobs qualify only when they are
historical queries or incremental materializations. -/
def JobRecord.isRetryable (job : JobRecord) : Bool :=
  match job.status with
  | .failed | .exhausted => true
  | .cancelled => decide (job.kind = .historicalQuery) || job.isIncremental
  | .pending | .running | .retrying | .succeeded => false

/-- The artifact test of `retry`. -/
def JobRecord.artifactsExpired (job : JobRecord) (now : Instant) : Bool :=
  job.artifactsCleanedAt.isSome ||
    job.artifactExpiresAt.any fun expiresAt => decide (expiresAt ≤ now)

/-- The reads and checks of `retry`, up to the reservation. -/
def retryCheck (job : JobRecord) (now : Instant) : Except PyException Unit :=
  if job.isRetryable then
    if job.artifactsExpired now then
      .error (valueError "job artifacts have expired and the job cannot be retried")
    else .ok ()
  else .error notRetryable

/-- `retry` reacquires the reservation of an incremental job, unless another
active job holds it. -/
def reacquire (db : Database) (job : JobRecord) (now : Instant) :
    Except PyException Database :=
  match job.incremental? with
  | none => .ok db
  | some (featureView, _) =>
      match (activeReservation? db featureView).filter fun active =>
          decide (active.id ≠ job.id) with
      | some active =>
          .error (valueError s!"another incremental materialization is active: {active.id}")
      | none =>
          match reserve? db.materializationStates featureView job.id now with
          | none => .error integrityError
          | some states => .ok { db with materializationStates := states }

/-- The statuses that the UPDATE of `retry` accepts. -/
def JobStatus.isResettable : JobStatus → Bool
  | .failed | .exhausted | .cancelled => true
  | .pending | .running | .retrying | .succeeded => false

/-- The SET clause of `retry`. -/
def setRetried (settings : Settings) : Assignment JobRecord.id JobRecord.id :=
  setJob fun row =>
    { row.unleased with
      status := .pending
      error := none
      failureKind := none
      attemptCount := 0
      maxAttempts := settings.jobMaxAttempts
      nextAttemptAt := none
      startedAt := none
      finishedAt := none
      artifactExpiresAt := none
      artifactsCleanedAt := none
      resultUri := none
      resultMetadata := none }

/-- The UPDATE and the commit of `retry`; no affected row means a rollback to
`db`, the tables before the reservation was written. -/
def retryUpdate (settings : Settings) (db reserved : Database) (jobId : Uuid) :
    Database × Except PyException JobRecord :=
  let guard := fun row : JobRecord => decide (row.id = jobId) && row.status.isResettable
  if reserved.jobs.rowcount guard = 0 then (db, .error notRetryable)
  else
    let committed := { reserved with jobs := reserved.jobs.update guard (setRetried settings) }
    (committed, refreshJob committed jobId)

/-- The transaction of `retry` after its checks, on the row that it has loaded. -/
def updateRetry (settings : Settings) (db : Database) (job : JobRecord) (now : Instant) :
    Database × Except PyException JobRecord :=
  match reacquire db job now with
  | .error exc => (db, .error exc)
  | .ok reserved => retryUpdate settings db reserved job.id

/-- `JobService.retry`. -/
def retry (settings : Settings) (db : Database) (jobId : Uuid) (now : Instant) :
    Database × Except PyException JobRecord :=
  match db.jobs.find? jobId with
  | none => (db, .error (keyError s!"unknown job: {jobId}"))
  | some job =>
      match retryCheck job now with
      | .error exc => (db, .error exc)
      | .ok () =>
          match reacquire db job now with
          | .error exc => (db, .error exc)
          | .ok reserved => retryUpdate settings db reserved jobId

end FeatureStore
