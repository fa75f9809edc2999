import FeatureStore.FiniteFloats
import FeatureStore.JobService

/-!
# The stream-event ledger

`StreamEventLedger` and the staging transaction of `_flush_view`. The fingerprint
of a canonical payload is a parameter: only its equality is tested here.
-/

namespace FeatureStore

open Relational

/-- `canonical_event_payload`: the dump of the event with its timestamp in UTC. -/
def canonicalEventPayload (event : StreamFeatureEvent) : StreamFeatureEvent :=
  { event with
    entityValues := membersJsonMode event.entityValues
    eventTimestamp := .utc event.eventTimestamp.asUtc
    values := membersJsonMode event.values
    timezone_required := rfl }

/-- No float of the event is an infinity or NaN. -/
def StreamFeatureEvent.isFinite (event : StreamFeatureEvent) : Bool :=
  (Value.dict event.entityValues).isFinite && (Value.dict event.values).isFinite

inductive RegistrationResult
  | new | duplicate | conflict
deriving DecidableEq, Repr

structure Registration where
  result : RegistrationResult
  record : StreamEventRecord
deriving Repr

/-- The row inserted for an event that the ledger has not seen. -/
def newStreamEventRecord (fingerprint : StreamFeatureEvent → String) (id : Uuid)
    (event : StreamFeatureEvent) (topic : String) (partition offset : Nat) (now : Instant) :
    StreamEventRecord where
  id := id
  featureView := event.featureView
  eventId := event.eventId
  fingerprint := fingerprint (canonicalEventPayload event)
  payload := canonicalEventPayload event
  state := .pending
  sourceTopic := topic
  sourcePartition := partition
  sourceOffset := offset
  jobId := none
  createdAt := now
  updatedAt := now
  stagedAt := none
  appliedAt := none

/-- `StreamEventLedger.register`. -/
def register (fingerprint : StreamFeatureEvent → String) (db : Database)
    (event : StreamFeatureEvent) (topic : String) (partition offset : Nat) (id : Uuid)
    (now : Instant) : Database × Except PyException Registration :=
  match db.streamEvents.findUnique? event.identity with
  | some existing =>
      let result :=
        if existing.fingerprint = fingerprint (canonicalEventPayload event) then .duplicate
        else .conflict
      (db, .ok ⟨result, existing⟩)
  | none =>
      let record := newStreamEventRecord fingerprint id event topic partition offset now
      match db.streamEvents.insert? record with
      | some streamEvents => ({ db with streamEvents := streamEvents }, .ok ⟨.new, record⟩)
      | none => (db, .error integrityError)

/-- `ORDER BY created_at, id`. -/
def StreamEventRecord.ledgerOrder (a b : StreamEventRecord) : Prop :=
  a.createdAt < b.createdAt ∨ (a.createdAt = b.createdAt ∧ a.id ≤ b.id)

instance : DecidableRel StreamEventRecord.ledgerOrder := fun a b => by
  unfold StreamEventRecord.ledgerOrder
  infer_instance

/-- `StreamEventLedger.pending`. -/
def pendingRecords (db : Database) : List StreamEventRecord :=
  (db.streamEvents.select fun record => decide (record.state = .pending)).insertionSort
    StreamEventRecord.ledgerOrder

@[simp] theorem mem_pendingRecords {db : Database} {record : StreamEventRecord} :
    record ∈ pendingRecords db ↔
      record ∈ db.streamEvents.rows ∧ record.state = .pending := by
  simp [pendingRecords]

/-- The records that a flush stages: the buffered ids that are still pending. -/
def stagingGuard (recordIds : List Uuid) (record : StreamEventRecord) : Bool :=
  recordIds.contains record.id && decide (record.state = .pending)

/-- `StreamEventLedger.mark_staged`. -/
def setStaged (jobId : Uuid) (now : Instant) :
    Assignment StreamEventRecord.id StreamEventRecord.identity :=
  setEvent fun record =>
    { record with
      state := .staged, jobId := some jobId, stagedAt := some now, updatedAt := now }

/-- The transaction of `_flush_view` after the staging table has been written:
every buffered record must still be pending; the append job is inserted and the
records are linked to it in one commit. -/
def stageBatch (settings : Settings) (db : Database) (viewRef : String)
    (stagingUri : StagingUri) (recordIds : List Uuid) (jobId : Uuid) (now : Instant) :
    Database × Except PyException Unit :=
  if db.streamEvents.rowcount (stagingGuard recordIds) ≠ recordIds.length then
    (db, .error ⟨.runtime, "stream event state changed before staging"⟩)
  else
    match db.jobs.insert? (newJobRecord settings jobId .offlineAppend
        (.offlineAppend viewRef stagingUri) none now) with
    | none => (db, .error integrityError)
    | some jobs =>
        ({ db with
            jobs := jobs
            streamEvents := db.streamEvents.update (stagingGuard recordIds)
              (setStaged jobId now) }, .ok ())

end FeatureStore
