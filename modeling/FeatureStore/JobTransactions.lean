import FeatureStore.JobExecutor
import FeatureStore.Ledger

/-!
# Transactions on the control plane

Every database transaction of the service, its workers and its stream consumer
is one `Call`. `Commit` lists what a call can commit, one constructor for each
kind of effect with the conditions under which it happens; the invariants of the
later modules are case analyses over it.
-/

namespace FeatureStore

open Relational

/-- The deployment's settings and its event fingerprint. -/
structure Config where
  settings : Settings
  fingerprint : StreamFeatureEvent → String

/-- The default settings, with the id of an event in place of its digest. -/
def defaultConfig : Config := ⟨{}, fun event => event.eventId⟩

inductive Call
  | createBackfill (request : JobRequest) (id : Uuid) (now : Instant)
  | createMaterialization (request : JobRequest) (id : Uuid) (now : Instant)
  | createHistoricalQuery (observationCount : Nat) (resolvedFeatures : List String)
      (warnings : List RegistryWarning) (artifactUri : String) (id : Uuid) (now : Instant)
  | createIncrementalMaterialization (request : IncrementalMaterializationRequest)
      (firstId secondId : Uuid) (now : Instant)
  | cancel (jobId : Uuid) (now : Instant)
  | retry (jobId : Uuid) (now : Instant)
  | claimPass (owner : String) (now : Instant) (locked : List Uuid) (token : Uuid)
  | heartbeat (jobId token : Uuid) (now : Instant)
  | commitCheckpoints (job : JobRecord) (token : Uuid) (now : Instant)
      (checkpoints : List Checkpoint)
  | finalizeSuccess (job : JobRecord) (token : Uuid) (now : Instant)
      (resultUri : Option String) (resultMetadata : Option ResultMetadata)
  | finalizeFailure (job : JobRecord) (token : Uuid) (now : Instant) (exc : PyException)
      (error : String) (resultMetadata : Option ResultMetadata)
  | register (event : StreamFeatureEvent) (topic : String) (partition offset : Nat)
      (id : Uuid) (now : Instant)
  | stageBatch (viewRef : String) (stagingUri : StagingUri) (recordIds : List Uuid)
      (jobId : Uuid) (now : Instant)

/-- The tables that a call leaves behind. -/
def Call.apply (config : Config) (db : Database) : Call → Database
  | .createBackfill request id now =>
      (FeatureStore.create config.settings db .backfill request id now).1
  | .createMaterialization request id now =>
      (FeatureStore.create config.settings db .materialize request id now).1
  | .createHistoricalQuery observationCount resolvedFeatures warnings artifactUri id now =>
      (FeatureStore.createHistoricalQuery config.settings db observationCount resolvedFeatures
        warnings artifactUri id now).1
  | .createIncrementalMaterialization request firstId secondId now =>
      (FeatureStore.createIncrementalMaterialization config.settings db request firstId
        secondId now).1
  | .cancel jobId now => (FeatureStore.cancel config.settings db jobId now).1
  | .retry jobId now => (FeatureStore.retry config.settings db jobId now).1
  | .claimPass owner now locked token =>
      (FeatureStore.claimPass config.settings db owner now locked token).1
  | .heartbeat jobId token now =>
      (FeatureStore.heartbeat config.settings db jobId token now).1
  | .commitCheckpoints job token now checkpoints =>
      (FeatureStore.commitCheckpoints db job token now checkpoints).1
  | .finalizeSuccess job token now resultUri resultMetadata =>
      (FeatureStore.finalizeSuccess config.settings db job token now resultUri
        resultMetadata).1
  | .finalizeFailure job token now exc error resultMetadata =>
      FeatureStore.finalizeFailure config.settings db job token now exc error resultMetadata
  | .register event topic partition offset id now =>
      (FeatureStore.register config.fingerprint db event topic partition offset id now).1
  | .stageBatch viewRef stagingUri recordIds jobId now =>
      (FeatureStore.stageBatch config.settings db viewRef stagingUri recordIds jobId now).1

/-- The calls that insert a job outside the incremental and the streaming paths. -/
def Call.isSubmission : Call → Bool
  | .createBackfill .. | .createMaterialization .. | .createHistoricalQuery .. => true
  | .createIncrementalMaterialization .. | .cancel .. | .retry .. | .claimPass ..
  | .heartbeat .. | .commitCheckpoints .. | .finalizeSuccess .. | .finalizeFailure ..
  | .register .. | .stageBatch .. => false

/-- The lease token that a worker presents, with the job it names and its clock. -/
def Call.fenced? : Call → Option (Uuid × Uuid × Instant)
  | .heartbeat jobId token now => some (jobId, token, now)
  | .commitCheckpoints job token now _ => some (job.id, token, now)
  | .finalizeSuccess job token now _ _ => some (job.id, token, now)
  | .finalizeFailure job token now _ _ _ => some (job.id, token, now)
  | .createBackfill .. | .createMaterialization .. | .createHistoricalQuery ..
  | .createIncrementalMaterialization .. | .cancel .. | .retry .. | .claimPass ..
  | .register .. | .stageBatch .. => none

/-- The cutoff that an incremental request asks for. -/
def IncrementalMaterializationRequest.cutoff (request : IncrementalMaterializationRequest)
    (now : Instant) : Instant :=
  request.endAt.getD now

def IncrementalMaterializationRequest.lookback
    (request : IncrementalMaterializationRequest) (settings : Settings) : Nat :=
  request.lookbackSeconds.getD settings.materializationLookbackSeconds

/-- What a call can commit. -/
inductive Commit (config : Config) (db : Database) : Call → Database → Prop
  | unchanged (call : Call) : Commit config db call db
  | submitted (call : Call) {id : Uuid} {kind : JobKind} {payload : JobPayload}
      {artifactUri : Option String} {now : Instant} {jobs : JobTable}
      (submission : call.isSubmission = true) (plain : payload.incremental? = none)
      (notAppend : kind ≠ .offlineAppend)
      (inserted : db.jobs.insert?
        (newJobRecord config.settings id kind payload artifactUri now) = some jobs) :
      Commit config db call { db with jobs := jobs }
  | reserved (request : IncrementalMaterializationRequest) (firstId secondId : Uuid)
      (now : Instant) {id : Uuid} {jobs : JobTable} {states : MaterializationStateTable}
      (inactive : activeReservation? db request.featureView = none)
      (ahead : ∀ {state watermark},
        db.materializationStates.find? request.featureView = some state →
        state.watermark = some watermark → watermark ≤ request.cutoff now)
      (inserted : db.jobs.insert? (newJobRecord config.settings id .materialize
        (.incremental request.featureView (request.cutoff now)
          (request.lookback config.settings)) none now) = some jobs)
      (acquired : reserve? db.materializationStates request.featureView id now = some states) :
      Commit config db (.createIncrementalMaterialization request firstId secondId now)
        { db with jobs := jobs, materializationStates := states }
  | cancelled (jobId : Uuid) (now : Instant) {job : JobRecord}
      (stored : db.jobs.find? jobId = some job) (active : job.status.isActive = true) :
      Commit config db (.cancel jobId now)
        (releaseIncrementalReservation
          { db with jobs := db.jobs.modify jobId (setCancelled config.settings job now) }
          job now)
  | retried (jobId : Uuid) (now : Instant) {job : JobRecord} {reserved : Database}
      (stored : db.jobs.find? jobId = some job) (checked : retryCheck job now = .ok ())
      (acquired : reacquire db job now = .ok reserved) :
      Commit config db (.retry jobId now)
        { reserved with jobs := db.jobs.modify jobId (setRetried config.settings) }
  | exhausted (owner : String) (now : Instant) (locked : List Uuid) (token : Uuid)
      {candidate : JobRecord} (stored : db.jobs.find? candidate.id = some candidate)
      (eligible : candidate.eligible now = true)
      (spent : candidate.maxAttempts ≤ candidate.attemptCount) :
      Commit config db (.claimPass owner now locked token)
        (releaseIncrementalReservation
          { db with
            jobs := db.jobs.modify candidate.id
              (setExhausted config.settings candidate now) }
          candidate now)
  | claimed (owner : String) (now : Instant) (locked : List Uuid) (token : Uuid)
      {candidate : JobRecord} (stored : db.jobs.find? candidate.id = some candidate)
      (eligible : candidate.eligible now = true)
      (budget : (candidate.attemptCount : Int) < candidate.maxAttempts) :
      Commit config db (.claimPass owner now locked token)
        { db with
          jobs := db.jobs.modify candidate.id
            (setClaimed config.settings candidate owner token now) }
  | renewed (jobId token : Uuid) (now : Instant) {row : JobRecord}
      (stored : db.jobs.find? jobId = some row) (owned : row.ownedBy token now = true) :
      Commit config db (.heartbeat jobId token now)
        { db with jobs := db.jobs.modify jobId (setRenewed config.settings now) }
  | checkpointed (job : JobRecord) (token : Uuid) (now : Instant)
      (checkpoints : List Checkpoint) {row : JobRecord}
      (stored : db.jobs.find? job.id = some row) (owned : row.ownedBy token now = true) :
      Commit config db (.commitCheckpoints job token now checkpoints)
        { db with jobs := db.jobs.modify job.id (setCheckpoints checkpoints) }
  | published (job : JobRecord) (token : Uuid) (now : Instant) (resultUri : Option String)
      (resultMetadata : Option ResultMetadata) {row : JobRecord} {featureView : String}
      {cutoff : Instant} {state : MaterializationState}
      (stored : db.jobs.find? job.id = some row) (owned : row.ownedBy token now = true)
      (incremental : job.incremental? = some (featureView, cutoff))
      (reservation : db.materializationStates.find? featureView = some state)
      (held : state.activeJobId = some job.id) :
      Commit config db (.finalizeSuccess job token now resultUri resultMetadata)
        { db with
          jobs := db.jobs.modify job.id
            (setSucceeded config.settings job now resultUri resultMetadata)
          materializationStates := db.materializationStates.modify featureView
            (setWatermark job.id cutoff
              (resultMetadata.bind ResultMetadata.sourceFreshnessAt) now) }
  | applied (job : JobRecord) (token : Uuid) (now : Instant) (resultUri : Option String)
      (resultMetadata : Option ResultMetadata) {row : JobRecord}
      (stored : db.jobs.find? job.id = some row) (owned : row.ownedBy token now = true)
      (append : job.kind = .offlineAppend) :
      Commit config db (.finalizeSuccess job token now resultUri resultMetadata)
        (markStreamEventsApplied
          { db with
            jobs := db.jobs.modify job.id
              (setSucceeded config.settings job now resultUri resultMetadata) }
          job now)
  | succeeded (job : JobRecord) (token : Uuid) (now : Instant) (resultUri : Option String)
      (resultMetadata : Option ResultMetadata) {row : JobRecord}
      (stored : db.jobs.find? job.id = some row) (owned : row.ownedBy token now = true)
      (plain : job.incremental? = none) (notAppend : job.kind ≠ .offlineAppend) :
      Commit config db (.finalizeSuccess job token now resultUri resultMetadata)
        { db with
          jobs := db.jobs.modify job.id
            (setSucceeded config.settings job now resultUri resultMetadata) }
  | rescheduled (job : JobRecord) (token : Uuid) (now : Instant) (exc : PyException)
      (error : String) (resultMetadata : Option ResultMetadata) {row : JobRecord}
      (stored : db.jobs.find? job.id = some row) (owned : row.ownedBy token now = true)
      (status : failureStatus job exc = .retrying) :
      Commit config db (.finalizeFailure job token now exc error resultMetadata)
        { db with
          jobs := db.jobs.modify job.id
            (setFailed config.settings job exc now error resultMetadata) }
  | failed (job : JobRecord) (token : Uuid) (now : Instant) (exc : PyException)
      (error : String) (resultMetadata : Option ResultMetadata) {row : JobRecord}
      (stored : db.jobs.find? job.id = some row) (owned : row.ownedBy token now = true)
      (status : failureStatus job exc ≠ .retrying) :
      Commit config db (.finalizeFailure job token now exc error resultMetadata)
        (releaseIncrementalReservation
          { db with
            jobs := db.jobs.modify job.id
              (setFailed config.settings job exc now error resultMetadata) }
          job now)
  | registered (event : StreamFeatureEvent) (topic : String) (partition offset : Nat)
      (id : Uuid) (now : Instant) {streamEvents : StreamEventTable}
      (unknown : db.streamEvents.findUnique? event.identity = none)
      (inserted : db.streamEvents.insert? (newStreamEventRecord config.fingerprint id event
        topic partition offset now) = some streamEvents) :
      Commit config db (.register event topic partition offset id now)
        { db with streamEvents := streamEvents }
  | staged (viewRef : String) (stagingUri : StagingUri) (recordIds : List Uuid)
      (jobId : Uuid) (now : Instant) {jobs : JobTable}
      (pending : db.streamEvents.rowcount (stagingGuard recordIds) = recordIds.length)
      (inserted : db.jobs.insert? (newJobRecord config.settings jobId .offlineAppend
        (.offlineAppend viewRef stagingUri) none now) = some jobs) :
      Commit config db (.stageBatch viewRef stagingUri recordIds jobId now)
        { db with
          jobs := jobs
          streamEvents := db.streamEvents.update (stagingGuard recordIds)
            (setStaged jobId now) }

section Inversion

variable {config : Config} {db : Database}

/-- A statement under a lease either finds its row, owned, or affects nothing. -/
theorem lease_cases (jobs : JobTable) (jobId token : Uuid) (now : Instant) :
    (∃ row, jobs.find? jobId = some row ∧ row.ownedBy token now = true ∧
        jobs.rowcount (leaseGuard jobId token now) ≠ 0 ∧
        ∀ a, jobs.update (leaseGuard jobId token now) a = jobs.modify jobId a) ∨
      jobs.rowcount (leaseGuard jobId token now) = 0 ∧
        ∀ a, jobs.update (leaseGuard jobId token now) a = jobs := by
  by_cases howned : ∃ row, jobs.find? jobId = some row ∧ row.ownedBy token now = true
  · obtain ⟨row, hrow, hown⟩ := howned
    exact Or.inl ⟨row, hrow, hown,
      Table.update_hit (fun row : JobRecord => row.ownedBy token now) hrow hown⟩
  · refine Or.inr (Table.update_miss (fun row : JobRecord => row.ownedBy token now)
      fun row hrow => ?_)
    exact Bool.eq_false_iff.mpr fun hown => howned ⟨row, hrow, hown⟩

/-- Likewise for the statement that publishes a watermark. -/
theorem reservation_cases (states : MaterializationStateTable) (featureView : String)
    (jobId : Uuid) :
    (∃ state, states.find? featureView = some state ∧ state.activeJobId = some jobId ∧
        states.rowcount (reservationGuard featureView jobId) ≠ 0 ∧
        ∀ a, states.update (reservationGuard featureView jobId) a =
          states.modify featureView a) ∨
      states.rowcount (reservationGuard featureView jobId) = 0 ∧
        ∀ a, states.update (reservationGuard featureView jobId) a = states := by
  by_cases hheld : ∃ state, states.find? featureView = some state ∧
      state.activeJobId = some jobId
  · obtain ⟨state, hstate, hactive⟩ := hheld
    exact Or.inl ⟨state, hstate, hactive,
      Table.update_hit
        (fun state : MaterializationState => decide (state.activeJobId = some jobId)) hstate
        (by simp [hactive])⟩
  · refine Or.inr (Table.update_miss (fun state : MaterializationState =>
      decide (state.activeJobId = some jobId)) fun state hstate => ?_)
    exact decide_eq_false fun hactive => hheld ⟨state, hstate, hactive⟩

theorem insertJob_commit (call : Call) (hcall : call.isSubmission = true) {kind : JobKind}
    {payload : JobPayload} (hplain : payload.incremental? = none)
    (hkind : kind ≠ .offlineAppend) (id : Uuid) (artifactUri : Option String) (now : Instant) :
    Commit config db call
      (insertJob config.settings db id kind payload artifactUri now).1 := by
  unfold insertJob
  split
  · rename_i jobs hjobs
    exact .submitted call hcall hplain hkind hjobs
  · exact .unchanged call

theorem createIncrementalPasses_commit (request : IncrementalMaterializationRequest)
    (firstId secondId : Uuid) (now : Instant) (ids : List Uuid) :
    Commit config db (.createIncrementalMaterialization request firstId secondId now)
      (createIncrementalPasses config.settings db request.featureView (request.cutoff now)
        (request.lookback config.settings) now ids).1 := by
  induction ids with
  | nil => exact .unchanged _
  | cons id rest ih =>
      unfold createIncrementalPasses
      cases hactive : activeReservation? db request.featureView with
      | some active => exact .unchanged _
      | none =>
          dsimp only
          split
          · exact .unchanged _
          · rename_i hbehind
            cases hinsert : insertReserved? config.settings db request.featureView
                (request.cutoff now) (request.lookback config.settings) id now with
            | none =>
                cases rest with
                | nil => exact .unchanged _
                | cons _ _ => exact ih
            | some committed =>
                unfold insertReserved? at hinsert
                split at hinsert
                · cases hinsert
                · rename_i jobs hjobs
                  split at hinsert
                  · cases hinsert
                  · rename_i states hstates
                    cases hinsert
                    refine .reserved request firstId secondId now hactive ?_ hjobs hstates
                    intro state watermark hstate hwatermark
                    have hle := hbehind
                    simpa [hstate, hwatermark] using hle

theorem cancel_commit (jobId : Uuid) (now : Instant) :
    Commit config db (.cancel jobId now) (cancel config.settings db jobId now).1 := by
  unfold cancel
  cases hjob : db.jobs.find? jobId with
  | none => exact .unchanged _
  | some job =>
      dsimp only
      split
      · rename_i hactive
        obtain ⟨hcount, hupdate⟩ :=
          Table.update_hit (fun row : JobRecord => row.status.isActive) hjob hactive
        rw [if_neg hcount, hupdate]
        exact .cancelled jobId now hjob hactive
      · exact .unchanged _

/-- `retry` reserves a view without touching the other tables. -/
theorem reacquire_kept {job : JobRecord} {now : Instant} {reserved : Database}
    (h : reacquire db job now = .ok reserved) :
    reserved.jobs = db.jobs ∧ reserved.streamEvents = db.streamEvents := by
  unfold reacquire at h
  split at h
  · cases h
    exact ⟨rfl, rfl⟩
  · split at h
    · cases h
    · split at h <;> cases h
      exact ⟨rfl, rfl⟩

theorem reacquire_jobs {job : JobRecord} {now : Instant} {reserved : Database}
    (h : reacquire db job now = .ok reserved) : reserved.jobs = db.jobs :=
  (reacquire_kept h).1

theorem retryCheck_resettable {job : JobRecord} {now : Instant}
    (h : retryCheck job now = .ok ()) : job.status.isResettable = true := by
  unfold retryCheck at h
  split at h
  · rename_i hretryable
    cases hstatus : job.status <;> simp_all [JobRecord.isRetryable, JobStatus.isResettable]
  · cases h

theorem retry_commit (jobId : Uuid) (now : Instant) :
    Commit config db (.retry jobId now) (retry config.settings db jobId now).1 := by
  unfold retry
  cases hjob : db.jobs.find? jobId with
  | none => exact .unchanged _
  | some job =>
      dsimp only
      cases hcheck : retryCheck job now with
      | error exc => exact .unchanged _
      | ok _ =>
          dsimp only
          cases hacquire : reacquire db job now with
          | error exc => exact .unchanged _
          | ok reserved =>
              obtain ⟨hcount, hupdate⟩ := Table.update_hit
                (fun row : JobRecord => row.status.isResettable) hjob
                (retryCheck_resettable hcheck)
              unfold retryUpdate
              dsimp only
              rw [reacquire_jobs hacquire, if_neg hcount, hupdate]
              exact .retried jobId now hjob hcheck hacquire

theorem claimCandidate_stored {locked : List Uuid} {now : Instant} {candidate : JobRecord}
    (h : claimCandidate db locked now = some candidate) :
    db.jobs.find? candidate.id = some candidate ∧ candidate.eligible now = true := by
  obtain ⟨hmem, hguard⟩ := Table.mem_of_selectFirst h
  exact ⟨Table.find?_of_mem hmem, (Bool.and_eq_true_iff.mp hguard).1⟩

theorem claimPass_commit (owner : String) (now : Instant) (locked : List Uuid)
    (token : Uuid) :
    Commit config db (.claimPass owner now locked token)
      (claimPass config.settings db owner now locked token).1 := by
  unfold claimPass
  cases hcandidate : claimCandidate db locked now with
  | none => exact .unchanged _
  | some candidate =>
      obtain ⟨hstored, heligible⟩ := claimCandidate_stored hcandidate
      dsimp only
      split
      · rename_i hspent
        obtain ⟨hcount, hupdate⟩ := Table.update_hit
          (fun row : JobRecord => row.eligible now && decide (row.maxAttempts ≤ row.attemptCount))
          hstored (by simp [heligible, hspent])
        rw [if_neg hcount, hupdate]
        exact .exhausted owner now locked token hstored heligible hspent
      · rename_i hbudget
        have hlt : (candidate.attemptCount : Int) < candidate.maxAttempts := by omega
        obtain ⟨hcount, hupdate⟩ := Table.update_hit
          (fun row : JobRecord =>
            row.eligible now && decide ((row.attemptCount : Int) < row.maxAttempts))
          hstored (by simp [heligible, hlt])
        rw [if_neg hcount, hupdate]
        split <;> exact .claimed owner now locked token hstored heligible hlt

/-- A claim leaves the claimed row in the table, running under its token. -/
theorem claimPass_claimed {settings : Settings} {owner : String} {now : Instant}
    {locked : List Uuid} {token : Uuid} {job : JobRecord}
    (h : (claimPass settings db owner now locked token).2 = .claimed job) :
    (claimPass settings db owner now locked token).1.jobs.find? job.id = some job ∧
      job.leaseToken = some token ∧ job.status = .running := by
  unfold claimPass at h ⊢
  cases hcandidate : claimCandidate db locked now with
  | none => simp [hcandidate] at h
  | some candidate =>
      obtain ⟨hstored, heligible⟩ := claimCandidate_stored hcandidate
      rw [hcandidate] at h
      dsimp only at h ⊢
      split at h
      · split at h <;> cases h
      · rename_i hbudget
        have hlt : (candidate.attemptCount : Int) < candidate.maxAttempts := by omega
        obtain ⟨hcount, hupdate⟩ := Table.update_hit
          (fun row : JobRecord =>
            row.eligible now && decide ((row.attemptCount : Int) < row.maxAttempts))
          hstored (by simp [heligible, hlt])
        rw [if_neg hcount, hupdate, Table.find?_modify_self, hstored] at h
        rw [if_neg hbudget, if_neg hcount, hupdate, Table.find?_modify_self, hstored]
        cases h
        exact ⟨(Table.find?_modify_self _ _ _).trans (by rw [hstored, Option.map_some]),
          rfl, rfl⟩

theorem heartbeat_commit (jobId token : Uuid) (now : Instant) :
    Commit config db (.heartbeat jobId token now)
      (heartbeat config.settings db jobId token now).1 := by
  unfold heartbeat
  dsimp only
  rcases lease_cases db.jobs jobId token now with
    ⟨row, hrow, howned, _, hupdate⟩ | ⟨_, hupdate⟩
  · rw [hupdate]
    exact .renewed jobId token now hrow howned
  · rw [hupdate]
    exact .unchanged _

theorem commitCheckpoints_commit (job : JobRecord) (token : Uuid) (now : Instant)
    (checkpoints : List Checkpoint) :
    Commit config db (.commitCheckpoints job token now checkpoints)
      (commitCheckpoints db job token now checkpoints).1 := by
  unfold commitCheckpoints
  rcases lease_cases db.jobs job.id token now with
    ⟨row, hrow, howned, hcount, hupdate⟩ | ⟨hcount, _⟩
  · rw [if_neg hcount, hupdate]
    exact .checkpointed job token now checkpoints hrow howned
  · rw [if_pos hcount]
    exact .unchanged _

theorem finalizeSuccess_commit (job : JobRecord) (token : Uuid) (now : Instant)
    (resultUri : Option String) (resultMetadata : Option ResultMetadata) :
    Commit config db (.finalizeSuccess job token now resultUri resultMetadata)
      (finalizeSuccess config.settings db job token now resultUri resultMetadata).1 := by
  unfold finalizeSuccess
  rcases lease_cases db.jobs job.id token now with
    ⟨row, hrow, howned, hcount, hupdate⟩ | ⟨hcount, _⟩
  · rw [if_neg hcount, hupdate]
    dsimp only
    split
    · rename_i featureView cutoff hincremental
      rcases reservation_cases db.materializationStates featureView job.id with
        ⟨state, hstate, hheld, hcount, hupdate⟩ | ⟨hcount, _⟩
      · rw [if_neg hcount, hupdate]
        exact .published job token now resultUri resultMetadata hrow howned hincremental
          hstate hheld
      · rw [if_pos hcount]
        exact .unchanged _
    · rename_i hplain
      split
      · rename_i happend
        exact .applied job token now resultUri resultMetadata hrow howned happend
      · rename_i happend
        exact .succeeded job token now resultUri resultMetadata hrow howned hplain happend
  · rw [if_pos hcount]
    exact .unchanged _

theorem finalizeFailure_commit (job : JobRecord) (token : Uuid) (now : Instant)
    (exc : PyException) (error : String) (resultMetadata : Option ResultMetadata) :
    Commit config db (.finalizeFailure job token now exc error resultMetadata)
      (finalizeFailure config.settings db job token now exc error resultMetadata) := by
  unfold finalizeFailure
  rcases lease_cases db.jobs job.id token now with
    ⟨row, hrow, howned, hcount, hupdate⟩ | ⟨hcount, _⟩
  · rw [if_neg hcount, hupdate]
    dsimp only
    split
    · rename_i hstatus
      exact .rescheduled job token now exc error resultMetadata hrow howned hstatus
    · rename_i hstatus
      exact .failed job token now exc error resultMetadata hrow howned hstatus
  · rw [if_pos hcount]
    exact .unchanged _

theorem register_commit (event : StreamFeatureEvent) (topic : String)
    (partition offset : Nat) (id : Uuid) (now : Instant) :
    Commit config db (.register event topic partition offset id now)
      (register config.fingerprint db event topic partition offset id now).1 := by
  unfold register
  cases hknown : db.streamEvents.findUnique? event.identity with
  | some existing => exact .unchanged _
  | none =>
      dsimp only
      split
      · rename_i streamEvents hinsert
        exact .registered event topic partition offset id now hknown hinsert
      · exact .unchanged _

theorem stageBatch_commit (viewRef : String) (stagingUri : StagingUri)
    (recordIds : List Uuid) (jobId : Uuid) (now : Instant) :
    Commit config db (.stageBatch viewRef stagingUri recordIds jobId now)
      (stageBatch config.settings db viewRef stagingUri recordIds jobId now).1 := by
  unfold stageBatch
  split
  · exact .unchanged _
  · rename_i hpending
    split
    · exact .unchanged _
    · rename_i jobs hinsert
      exact .staged viewRef stagingUri recordIds jobId now (not_not.mp hpending) hinsert

/-- Every call commits one of the listed effects. -/
theorem Call.commit (config : Config) (db : Database) (call : Call) :
    Commit config db call (call.apply config db) := by
  cases call with
  | createBackfill request id now => exact insertJob_commit _ rfl rfl (by decide) id none now
  | createMaterialization request id now =>
      exact insertJob_commit _ rfl rfl (by decide) id none now
  | createHistoricalQuery observationCount resolvedFeatures warnings artifactUri id now =>
      exact insertJob_commit _ rfl rfl (by decide) id (some artifactUri) now
  | createIncrementalMaterialization request firstId secondId now =>
      exact createIncrementalPasses_commit request firstId secondId now _
  | cancel jobId now => exact cancel_commit jobId now
  | retry jobId now => exact retry_commit jobId now
  | claimPass owner now locked token => exact claimPass_commit owner now locked token
  | heartbeat jobId token now => exact heartbeat_commit jobId token now
  | commitCheckpoints job token now checkpoints =>
      exact commitCheckpoints_commit job token now checkpoints
  | finalizeSuccess job token now resultUri resultMetadata =>
      exact finalizeSuccess_commit job token now resultUri resultMetadata
  | finalizeFailure job token now exc error resultMetadata =>
      exact finalizeFailure_commit job token now exc error resultMetadata
  | register event topic partition offset id now =>
      exact register_commit event topic partition offset id now
  | stageBatch viewRef stagingUri recordIds jobId now =>
      exact stageBatch_commit viewRef stagingUri recordIds jobId now

end Inversion

end FeatureStore
