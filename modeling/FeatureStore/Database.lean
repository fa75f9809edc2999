import FeatureStore.Library.Table
import FeatureStore.Models

/-!
# The control-plane tables

`jobs`, `materialization_states` and `stream_events` as keyed tables. Every
stored `datetime` is its UTC instant. The records carry the columns of `db.py`;
insertion defaults are in `newJobRecord` and `newStreamEventRecord`.
-/

namespace FeatureStore

open Relational

/-- A row of `jobs`. -/
structure JobRecord where
  id : Uuid
  kind : JobKind
  status : JobStatus
  payload : JobPayload
  checkpoints : List Checkpoint
  error : Option String
  failureKind : Option JobFailureKind
  attemptCount : Nat
  maxAttempts : Int
  nextAttemptAt : Option Instant
  workerId : Option String
  leaseToken : Option Uuid
  leaseExpiresAt : Option Instant
  lastHeartbeatAt : Option Instant
  createdAt : Instant
  startedAt : Option Instant
  finishedAt : Option Instant
  artifactUri : Option String
  resultUri : Option String
  resultMetadata : Option ResultMetadata
  artifactExpiresAt : Option Instant
  artifactsCleanedAt : Option Instant
deriving DecidableEq, Repr

/-- The row inserted for a new job: pending, unleased, with no attempt made. -/
def newJobRecord (settings : Settings) (id : Uuid) (kind : JobKind) (payload : JobPayload)
    (artifactUri : Option String) (createdAt : Instant) : JobRecord where
  id := id
  kind := kind
  status := .pending
  payload := payload
  checkpoints := []
  error := none
  failureKind := none
  attemptCount := 0
  maxAttempts := settings.jobMaxAttempts
  nextAttemptAt := none
  workerId := none
  leaseToken := none
  leaseExpiresAt := none
  lastHeartbeatAt := none
  createdAt := createdAt
  startedAt := none
  finishedAt := none
  artifactUri := artifactUri
  resultUri := none
  resultMetadata := none
  artifactExpiresAt := none
  artifactsCleanedAt := none

/-- A row of `materialization_states`. -/
structure MaterializationState where
  featureView : String
  watermark : Option Instant
  sourceFreshnessAt : Option Instant
  activeJobId : Option Uuid
  lastSuccessfulJobId : Option Uuid
  updatedAt : Instant
deriving DecidableEq, Repr

def newMaterializationState (featureView : String) (updatedAt : Instant) :
    MaterializationState :=
  ⟨featureView, none, none, none, none, updatedAt⟩

/-- A row of `stream_events`. The payload column holds the canonical event. -/
structure StreamEventRecord where
  id : Uuid
  featureView : String
  eventId : String
  fingerprint : String
  payload : StreamFeatureEvent
  state : StreamEventState
  sourceTopic : String
  sourcePartition : Nat
  sourceOffset : Nat
  jobId : Option Uuid
  createdAt : Instant
  updatedAt : Instant
  stagedAt : Option Instant
  appliedAt : Option Instant
deriving Repr

/-- The unique constraint `("feature_view", "event_id")`. -/
def StreamEventRecord.identity (record : StreamEventRecord) : String × String :=
  (record.featureView, record.eventId)

abbrev JobTable := Table JobRecord.id JobRecord.id

abbrev MaterializationStateTable :=
  Table MaterializationState.featureView MaterializationState.featureView

abbrev StreamEventTable := Table StreamEventRecord.id StreamEventRecord.identity

/-- The committed contents of the database. -/
structure Database where
  jobs : JobTable
  materializationStates : MaterializationStateTable
  streamEvents : StreamEventTable

def Database.empty : Database := ⟨.empty, .empty, .empty⟩

/-- The SET clauses of the job updates leave the primary key alone. -/
def setJob (set : JobRecord → JobRecord) (h : ∀ r, (set r).id = r.id := by intro _; rfl) :
    Assignment JobRecord.id JobRecord.id :=
  ⟨set, h, h⟩

def setState (set : MaterializationState → MaterializationState)
    (h : ∀ r, (set r).featureView = r.featureView := by intro _; rfl) :
    Assignment MaterializationState.featureView MaterializationState.featureView :=
  ⟨set, h, h⟩

def setEvent (set : StreamEventRecord → StreamEventRecord)
    (hid : ∀ r, (set r).id = r.id := by intro _; rfl)
    (hidentity : ∀ r, (set r).identity = r.identity := by intro _; rfl) :
    Assignment StreamEventRecord.id StreamEventRecord.identity :=
  ⟨set, hid, hidentity⟩

/-- The statuses that hold an incremental reservation and can be cancelled. -/
def JobStatus.isActive : JobStatus → Bool
  | .pending | .retrying | .running => true
  | .succeeded | .failed | .exhausted | .cancelled => false

/-- `payload.get("mode") == "incremental"`, with the view and the cutoff that
every such payload carries. -/
def JobPayload.incremental? : JobPayload → Option (String × Instant)
  | .incremental featureView endAt _ => some (featureView, endAt)
  | .range _ _ _ | .offlineAppend _ _ | .historicalQuery _ _ _ => none

/-- `JobService._is_incremental`, returning the view and the cutoff of the payload. -/
def JobRecord.incremental? (job : JobRecord) : Option (String × Instant) :=
  if job.kind = .materialize then job.payload.incremental? else none

/-- `JobService._is_incremental`. -/
def JobRecord.isIncremental (job : JobRecord) : Bool := job.incremental?.isSome

end FeatureStore
