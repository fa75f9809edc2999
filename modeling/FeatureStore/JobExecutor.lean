import FeatureStore.JobService

/-!
# Claiming, heartbeats, checkpoints and finalization

The methods of `JobExecutor` that touch the control-plane tables, each one
database transaction. The worker's in-memory `job` is an argument, distinct from
the stored row: only the stored row decides whether a guarded update applies.
-/

namespace FeatureStore

open Relational

/-- `column IS NULL OR column <= now`. -/
def isDue (column : Option Instant) (now : Instant) : Bool :=
  match column with
  | none => true
  | some time => decide (time ≤ now)

/-- The `eligible` predicate of `claim_next`. -/
def JobRecord.eligible (job : JobRecord) (now : Instant) : Bool :=
  match job.status with
  | .pending => true
  | .retrying => isDue job.nextAttemptAt now
  | .running => isDue job.leaseExpiresAt now
  | .succeeded | .failed | .exhausted | .cancelled => false

/-- `ORDER BY created_at, id`. -/
def JobRecord.queueOrder (a b : JobRecord) : Prop :=
  a.createdAt < b.createdAt ∨ (a.createdAt = b.createdAt ∧ a.id ≤ b.id)

instance : DecidableRel JobRecord.queueOrder := fun a b => by
  unfold JobRecord.queueOrder
  infer_instance

/-- The row that `claim_next` selects `FOR UPDATE SKIP LOCKED`; `locked` are the
rows that concurrent transactions hold. -/
def claimCandidate (db : Database) (locked : List Uuid) (now : Instant) : Option JobRecord :=
  db.jobs.selectFirst (fun row => row.eligible now && !locked.contains row.id)
    JobRecord.queueOrder

/-- The SET clause of the exhaustion branch; `candidate` is the selected row. -/
def setExhausted (settings : Settings) (candidate : JobRecord) (now : Instant) :
    Assignment JobRecord.id JobRecord.id :=
  let expired := decide (candidate.status = .running)
  setJob fun row =>
    { row.unleased with
      status := .exhausted
      failureKind :=
        if expired then some .leaseExpired
        else some (candidate.failureKind.getD .retryable)
      error :=
        some ((candidate.error.filter fun text => !text.isEmpty).getD
          (if expired then "job lease expired after the final attempt"
            else "job attempt budget was exhausted"))
      finishedAt := some now
      artifactExpiresAt :=
        if candidate.kind = .historicalQuery then some (retainUntil settings now)
        else candidate.artifactExpiresAt
      nextAttemptAt := none }

/-- The SET clause of a claim. -/
def setClaimed (settings : Settings) (candidate : JobRecord) (owner : String)
    (token : Uuid) (now : Instant) : Assignment JobRecord.id JobRecord.id :=
  setJob fun row =>
    { row with
      status := .running
      attemptCount := row.attemptCount + 1
      startedAt := some now
      finishedAt := none
      nextAttemptAt := none
      workerId := some owner
      leaseToken := some token
      leaseExpiresAt := some (now + seconds settings.jobLeaseSeconds)
      lastHeartbeatAt := some now
      failureKind :=
        if candidate.status = .running then some .leaseExpired else candidate.failureKind }

/-- What one pass of the loop in `claim_next` does next. -/
inductive ClaimOutcome
  | nothing
  | next
  | claimed (job : JobRecord)
deriving DecidableEq, Repr

/-- One pass of `claim_next`: it ends with `return None`, with `continue`, or by
returning the claimed row. `token` is the UUID drawn for the lease. -/
def claimPass (settings : Settings) (db : Database) (owner : String) (now : Instant)
    (locked : List Uuid) (token : Uuid) : Database × ClaimOutcome :=
  match claimCandidate db locked now with
  | none => (db, .nothing)
  | some candidate =>
      if candidate.maxAttempts ≤ candidate.attemptCount then
        let guard := fun row : JobRecord => decide (row.id = candidate.id) &&
          (row.eligible now && decide (row.maxAttempts ≤ row.attemptCount))
        let updated :=
          { db with jobs := db.jobs.update guard (setExhausted settings candidate now) }
        if db.jobs.rowcount guard = 0 then (updated, .next)
        else (releaseIncrementalReservation updated candidate now, .next)
      else
        let guard := fun row : JobRecord => decide (row.id = candidate.id) &&
          (row.eligible now && decide ((row.attemptCount : Int) < row.maxAttempts))
        let committed :=
          { db with jobs := db.jobs.update guard (setClaimed settings candidate owner token now) }
        if db.jobs.rowcount guard = 0 then (committed, .next)
        else
          match committed.jobs.find? candidate.id with
          | none => (committed, .nothing)
          | some job => (committed, .claimed job)

/-- The lease test that every update of a worker repeats: the row is `RUNNING`
under this token and its lease has not expired at the worker's clock. -/
def JobRecord.ownedBy (row : JobRecord) (token : Uuid) (now : Instant) : Bool :=
  decide (row.status = .running) && decide (row.leaseToken = some token) &&
    row.leaseExpiresAt.any fun expiresAt => decide (now < expiresAt)

/-- `WHERE id = job_id AND status = RUNNING AND lease_token = token AND lease_expires_at > now`. -/
def leaseGuard (jobId token : Uuid) (now : Instant) (row : JobRecord) : Bool :=
  decide (row.id = jobId) && row.ownedBy token now

/-- `JobExecutor._owns`. -/
def owns (db : Database) (jobId token : Uuid) (now : Instant) : Bool :=
  (db.jobs.find? jobId).any fun row => row.ownedBy token now

/-- The SET clause of `heartbeat`. -/
def setRenewed (settings : Settings) (now : Instant) : Assignment JobRecord.id JobRecord.id :=
  setJob fun row =>
    { row with
      leaseExpiresAt := some (now + seconds settings.jobLeaseSeconds)
      lastHeartbeatAt := some now }

/-- `JobExecutor.heartbeat`. -/
def heartbeat (settings : Settings) (db : Database) (jobId token : Uuid) (now : Instant) :
    Database × Bool :=
  ({ db with
      jobs := db.jobs.update (leaseGuard jobId token now) (setRenewed settings now) },
    decide (db.jobs.rowcount (leaseGuard jobId token now) ≠ 0))

def leaseLost (message : String) : PyException := ⟨.leaseLost, message⟩

/-- The SET clause of `_commit_checkpoints`. -/
def setCheckpoints (checkpoints : List Checkpoint) : Assignment JobRecord.id JobRecord.id :=
  setJob fun row => { row with checkpoints := checkpoints }

/-- `JobExecutor._commit_checkpoints`. -/
def commitCheckpoints (db : Database) (job : JobRecord) (token : Uuid) (now : Instant)
    (checkpoints : List Checkpoint) : Database × Except PyException JobRecord :=
  if db.jobs.rowcount (leaseGuard job.id token now) = 0 then
    (db, .error (leaseLost s!"job lease was lost before checkpoint: {job.id}"))
  else
    let committed :=
      { db with
        jobs := db.jobs.update (leaseGuard job.id token now) (setCheckpoints checkpoints) }
    (committed, refreshJob committed job.id)

/-- The SET clause of `_finalize_success`; `job` is the worker's copy. -/
def setSucceeded (settings : Settings) (job : JobRecord) (now : Instant)
    (resultUri : Option String) (resultMetadata : Option ResultMetadata) :
    Assignment JobRecord.id JobRecord.id :=
  setJob fun row =>
    { row.unleased with
      status := .succeeded
      error := none
      failureKind := none
      finishedAt := some now
      nextAttemptAt := none
      resultUri := resultUri
      resultMetadata := resultMetadata
      artifactExpiresAt :=
        if job.kind = .historicalQuery then some (retainUntil settings now)
        else job.artifactExpiresAt }

/-- The records that `_mark_stream_events_applied` selects. -/
def appliedGuard (jobId : Uuid) (record : StreamEventRecord) : Bool :=
  decide (record.jobId = some jobId) && decide (record.state = .staged)

def setApplied (now : Instant) : Assignment StreamEventRecord.id StreamEventRecord.identity :=
  setEvent fun record =>
    { record with state := .applied, appliedAt := some now, updatedAt := now }

/-- `JobExecutor._mark_stream_events_applied`. -/
def markStreamEventsApplied (db : Database) (job : JobRecord) (now : Instant) : Database :=
  { db with streamEvents := db.streamEvents.update (appliedGuard job.id) (setApplied now) }

/-- The reservation test of `_finalize_success`. -/
def reservationGuard (featureView : String) (jobId : Uuid) (state : MaterializationState) :
    Bool :=
  decide (state.featureView = featureView) && decide (state.activeJobId = some jobId)

/-- Publish the watermark of an incremental job and release its reservation. -/
def setWatermark (jobId : Uuid) (cutoff : Instant) (freshness : Option Instant)
    (now : Instant) :
    Assignment MaterializationState.featureView MaterializationState.featureView :=
  setState fun state =>
    { state with
      watermark := some cutoff
      sourceFreshnessAt := freshness
      activeJobId := none
      lastSuccessfulJobId := some jobId
      updatedAt := now }

/-- `JobExecutor._finalize_success`. Both lease errors roll the transaction back. -/
def finalizeSuccess (settings : Settings) (db : Database) (job : JobRecord) (token : Uuid)
    (now : Instant) (resultUri : Option String) (resultMetadata : Option ResultMetadata) :
    Database × Except PyException JobRecord :=
  if db.jobs.rowcount (leaseGuard job.id token now) = 0 then
    (db, .error (leaseLost s!"job lease was lost before success: {job.id}"))
  else
    let succeeded :=
      { db with
        jobs := db.jobs.update (leaseGuard job.id token now)
          (setSucceeded settings job now resultUri resultMetadata) }
    match job.incremental? with
    | some (featureView, cutoff) =>
        if succeeded.materializationStates.rowcount (reservationGuard featureView job.id) = 0 then
          (db, .error (leaseLost
            s!"incremental materialization reservation was lost: {job.id}"))
        else
          let committed :=
            { succeeded with
              materializationStates := succeeded.materializationStates.update
                (reservationGuard featureView job.id)
                (setWatermark job.id cutoff
                  (resultMetadata.bind ResultMetadata.sourceFreshnessAt) now) }
          (committed, refreshJob committed job.id)
    | none =>
        let committed :=
          if job.kind = .offlineAppend then markStreamEventsApplied succeeded job now
          else succeeded
        (committed, refreshJob committed job.id)

/-- `JobExecutor._is_terminal_failure`. -/
def PyException.isTerminalFailure (exc : PyException) : Bool :=
  match exc.cls with
  | .registryNotFound | .registryConflict | .validation | .value | .key | .type
  | .arrow | .duckdb | .schemaMismatch | .dataQuality => true
  | .integrity | .leaseLost | .runtime => false

/-- The backoff of the `attempt`-th attempt, in seconds. -/
def retryDelay (settings : Settings) (attempt : Nat) : Int :=
  min (settings.jobRetryBaseSeconds * 2 ^ (attempt - 1)) settings.jobRetryMaxSeconds

/-- The status that `_finalize_failure` decides from the worker's copy of the row. -/
def failureStatus (job : JobRecord) (exc : PyException) : JobStatus :=
  if exc.isTerminalFailure then .failed
  else if job.maxAttempts ≤ job.attemptCount then .exhausted
  else .retrying

/-- The SET clause of `_finalize_failure`. -/
def setFailed (settings : Settings) (job : JobRecord) (exc : PyException) (now : Instant)
    (error : String) (resultMetadata : Option ResultMetadata) :
    Assignment JobRecord.id JobRecord.id :=
  let status := failureStatus job exc
  setJob fun row =>
    { row.unleased with
      status := status
      error := some error
      failureKind := if status = .failed then some .terminal else some .retryable
      nextAttemptAt :=
        if status = .retrying then some (now + seconds (retryDelay settings job.attemptCount))
        else none
      finishedAt := if status = .retrying then none else some now
      artifactExpiresAt :=
        if job.kind = .historicalQuery ∧ status ≠ .retrying then
          some (retainUntil settings now)
        else none
      resultMetadata := resultMetadata }

/-- `JobExecutor._finalize_failure`; it returns normally whether or not the
lease still held. -/
def finalizeFailure (settings : Settings) (db : Database) (job : JobRecord) (token : Uuid)
    (now : Instant) (exc : PyException) (error : String)
    (resultMetadata : Option ResultMetadata) : Database :=
  if db.jobs.rowcount (leaseGuard job.id token now) = 0 then db
  else
    let failed :=
      { db with
        jobs := db.jobs.update (leaseGuard job.id token now)
          (setFailed settings job exc now error resultMetadata) }
    if failureStatus job exc = .retrying then failed
    else releaseIncrementalReservation failed job now

/-- The statuses whose artifacts `cleanup_expired_artifacts` may delete. -/
def JobStatus.isTerminal : JobStatus → Bool
  | .succeeded | .failed | .exhausted | .cancelled => true
  | .pending | .retrying | .running => false

/-- The rows that `cleanup_expired_artifacts` selects `FOR UPDATE SKIP LOCKED`. -/
def cleanupGuard (locked : List Uuid) (now : Instant) (row : JobRecord) : Bool :=
  decide (row.kind = .historicalQuery) && row.status.isTerminal &&
    row.artifactExpiresAt.any (fun expiresAt => decide (expiresAt ≤ now)) &&
    row.artifactsCleanedAt.isNone && !locked.contains row.id

def setCleaned (now : Instant) : Assignment JobRecord.id JobRecord.id :=
  setJob fun row => { row with artifactsCleanedAt := some now }

/-- `JobExecutor.cleanup_expired_artifacts`, with the jobs whose objects it deletes. The
selected rows stay locked until the commit, so that its statements are one step for them. -/
def cleanupExpiredArtifacts (db : Database) (locked : List Uuid) (now : Instant) :
    Database × List Uuid :=
  ({ db with jobs := db.jobs.update (cleanupGuard locked now) (setCleaned now) },
    (db.jobs.select (cleanupGuard locked now)).map (·.id))

end FeatureStore
