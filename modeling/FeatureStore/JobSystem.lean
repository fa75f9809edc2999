import FeatureStore.ControlPlane

/-!
# Jobs between transactions

The database together with what its clients hold between their transactions: workers
have copies of the jobs that they execute, and a retry has checked the row that it loaded
before it updates the stored one. `RowStep` lists what an action can do to one row of
`jobs`; the invariants of jobs are case analyses over it.
-/

namespace FeatureStore

open Relational

/-- The database, the lease tokens drawn so far, the copies of jobs that workers have read
since they claimed them, the retries that have passed their checks, and the jobs whose
input is in storage. -/
structure JobSystem where
  db : Database
  drawn : List Uuid
  copies : List (Uuid × JobRecord)
  retries : Nat → Option (JobRecord × Instant)
  inputs : List Uuid

/-- The calls are transactions; a worker refreshes its copy; `retry` is two steps of a
client; a cleanup deletes artifacts. -/
inductive JobAction
  | call (call : Call)
  | refresh (token jobId : Uuid)
  | checkRetry (client : Nat) (jobId : Uuid) (now : Instant)
  | updateRetry (client : Nat)
  | cleanup (locked : List Uuid) (now : Instant)

namespace Call

/-- The token and the copy of a job that a worker passes. -/
def copy? : Call → Option (Uuid × JobRecord)
  | .commitCheckpoints job token _ _ => some (token, job)
  | .finalizeSuccess job token _ _ _ => some (token, job)
  | .finalizeFailure job token _ _ _ _ => some (token, job)
  | _ => none

/-- `_execute` reports the summary of a failed quality check and no other one, and `retry`
is not one transaction. -/
def isIssued : Call → Bool
  | .retry _ _ => false
  | .finalizeFailure _ _ _ exc _ resultMetadata =>
      resultMetadata.isNone || decide (exc.cls = .dataQuality)
  | _ => true

theorem reported {job : JobRecord} {token : Uuid} {now : Instant} {exc : PyException}
    {error : String} {resultMetadata : Option ResultMetadata}
    (h : (finalizeFailure job token now exc error resultMetadata).isIssued = true) :
    resultMetadata = none ∨ exc.cls = .dataQuality := by
  simpa [isIssued] using h

/-- The job whose input `create_historical_query` writes. -/
def input? : Call → Option Uuid
  | .createHistoricalQuery _ _ _ _ id _ => some id
  | _ => none

/-- The copy that a claim returns to its worker. -/
def claimed (config : Config) (db : Database) : Call → List (Uuid × JobRecord)
  | .claimPass owner now locked token =>
      match (FeatureStore.claimPass config.settings db owner now locked token).2 with
      | .claimed job => [(token, job)]
      | .nothing | .next => []
  | _ => []

end Call

namespace JobSystem

def initial : JobSystem := ⟨.empty, [], [], fun _ => none, []⟩

/-- Tokens and the ids of jobs with artifacts are new UUIDs, and a worker's copy was read
under its token. -/
def Admits (s : JobSystem) (call : Call) : Prop :=
  call.isIssued = true ∧ (∀ token ∈ call.tokens, token ∉ s.drawn) ∧
    (∀ copy ∈ call.copy?, copy ∈ s.copies) ∧ ∀ id ∈ call.input?, s.db.jobs.find? id = none

instance copy_lawfulBEq : LawfulBEq (Uuid × JobRecord) := inferInstance

instance (s : JobSystem) (call : Call) : Decidable (s.Admits call) := by
  unfold Admits
  infer_instance

/-- The retry of a client after its reads and checks. -/
def checkedRetry (db : Database) (jobId : Uuid) (now : Instant) : Option (JobRecord × Instant) :=
  match db.jobs.find? jobId with
  | none => none
  | some job =>
      match retryCheck job now with
      | .error _ => none
      | .ok () => some (job, now)

def step (config : Config) (s : JobSystem) : JobAction → JobSystem
  | .call call =>
      if s.Admits call then
        { s with
          db := call.apply config s.db
          drawn := call.tokens ++ s.drawn
          copies := call.claimed config s.db ++ s.copies
          inputs := call.input?.toList ++ s.inputs }
      else s
  | .refresh token jobId =>
      match s.db.jobs.find? jobId with
      | none => s
      | some row =>
          if s.copies.any fun copy => decide (copy.1 = token) && decide (copy.2.id = jobId) then
            { s with copies := (token, row) :: s.copies }
          else s
  | .checkRetry client jobId now =>
      { s with retries := Function.update s.retries client (checkedRetry s.db jobId now) }
  | .updateRetry client =>
      match s.retries client with
      | none => s
      | some (job, now) =>
          { s with
            db := (FeatureStore.updateRetry config.settings s.db job now).1
            retries := Function.update s.retries client none }
  | .cleanup locked now =>
      let (db, cleaned) := cleanupExpiredArtifacts s.db locked now
      { s with db := db, inputs := s.inputs.filter fun id => !cleaned.contains id }

/-- The job system after a run. -/
def run (config : Config) (actions : List JobAction) : JobSystem :=
  Execution.run (step config) initial actions

end JobSystem

/-- What an action can do to a stored row. -/
inductive RowStep (config : Config) (s : JobSystem) : JobAction → JobRecord → JobRecord → Prop
  | kept (action : JobAction) (row : JobRecord) : RowStep config s action row row
  | cancelled {row : JobRecord} (now : Instant) (active : row.status.isActive = true) :
      RowStep config s (.call (.cancel row.id now)) row
        ((setCancelled config.settings row now).set row)
  | retried {row : JobRecord} (client : Nat) {job : JobRecord} {now : Instant}
      (checked : s.retries client = some (job, now)) (same : job.id = row.id)
      (resettable : row.status.isResettable = true)
      (committed : (updateRetry config.settings s.db job now).2.isOk = true) :
      RowStep config s (.updateRetry client) row ((setRetried config.settings).set row)
  | exhausted {row : JobRecord} (owner : String) (now : Instant) (locked : List Uuid)
      (token : Uuid) (eligible : row.eligible now = true)
      (spent : row.maxAttempts ≤ row.attemptCount) :
      RowStep config s (.call (.claimPass owner now locked token)) row
        ((setExhausted config.settings row now).set row)
  | claimed {row : JobRecord} (owner : String) (now : Instant) (locked : List Uuid) (token : Uuid)
      (fresh : token ∉ s.drawn) (eligible : row.eligible now = true)
      (budget : (row.attemptCount : Int) < row.maxAttempts) :
      RowStep config s (.call (.claimPass owner now locked token)) row
        ((setClaimed config.settings row owner token now).set row)
  | renewed {row : JobRecord} (token : Uuid) (now : Instant)
      (owned : row.ownedBy token now = true) :
      RowStep config s (.call (.heartbeat row.id token now)) row
        ((setRenewed config.settings now).set row)
  | checkpointed {row : JobRecord} (job : JobRecord) (token : Uuid) (now : Instant)
      (checkpoints : List Checkpoint) (copied : (token, job) ∈ s.copies) (same : job.id = row.id)
      (owned : row.ownedBy token now = true) :
      RowStep config s (.call (.commitCheckpoints job token now checkpoints)) row
        ((setCheckpoints checkpoints).set row)
  | succeeded {row : JobRecord} (job : JobRecord) (token : Uuid) (now : Instant)
      (resultUri : Option String) (resultMetadata : Option ResultMetadata)
      (copied : (token, job) ∈ s.copies) (same : job.id = row.id)
      (owned : row.ownedBy token now = true) :
      RowStep config s (.call (.finalizeSuccess job token now resultUri resultMetadata)) row
        ((setSucceeded config.settings job now resultUri resultMetadata).set row)
  | failed {row : JobRecord} (job : JobRecord) (token : Uuid) (now : Instant) (exc : PyException)
      (error : String) (resultMetadata : Option ResultMetadata)
      (copied : (token, job) ∈ s.copies) (same : job.id = row.id)
      (owned : row.ownedBy token now = true)
      (reported : resultMetadata = none ∨ exc.cls = .dataQuality) :
      RowStep config s (.call (.finalizeFailure job token now exc error resultMetadata)) row
        ((setFailed config.settings job exc now error resultMetadata).set row)
  | cleaned {row : JobRecord} (locked : List Uuid) (now : Instant)
      (expired : cleanupGuard locked now row = true) :
      RowStep config s (.cleanup locked now) row ((setCleaned now).set row)

section Rows

variable {config : Config} {s : JobSystem} {action : JobAction} {call : Call} {db' : Database}
  {jobId : Uuid} {row row' : JobRecord}

/-- The row of a job after an assignment to one job. -/
theorem row_of_modify {jobs : JobTable} {k : Uuid} {a : Assignment JobRecord.id JobRecord.id}
    {P : JobRecord → JobRecord → Prop} (hrow : jobs.find? jobId = some row) (hkept : P row row)
    (hset : ∀ stored, jobs.find? k = some stored → stored.id = k → row = stored →
      P stored (a.set stored)) :
    ∃ row', (jobs.modify k a).find? jobId = some row' ∧ P row row' := by
  rw [Table.find?_modify]
  split
  · rename_i hk
    subst hk
    exact ⟨a.set row, by rw [hrow]; rfl, hset row hrow (Table.key_of_find? hrow) rfl⟩
  · exact ⟨row, hrow, hkept⟩

theorem row_of_insert {jobs jobs' : JobTable} {new : JobRecord} {P : JobRecord → JobRecord → Prop}
    (hinsert : jobs.insert? new = some jobs') (hrow : jobs.find? jobId = some row)
    (hkept : P row row) : ∃ row', jobs'.find? jobId = some row' ∧ P row row' := by
  refine ⟨row, ?_, hkept⟩
  rw [Table.find?_insert hinsert, if_neg, hrow]
  rintro rfl
  cases (Table.insert?_fresh hinsert).symm.trans hrow

/-- What a committed call does to a stored row. -/
theorem Commit.row_step (h : Commit config s.db call db') (hadmits : s.Admits call)
    (hrow : s.db.jobs.find? jobId = some row) :
    ∃ row', db'.jobs.find? jobId = some row' ∧ RowStep config s (.call call) row row' := by
  have hkept : RowStep config s (.call call) row row := .kept _ row
  cases h with
  | unchanged => exact ⟨row, hrow, hkept⟩
  | registered => exact ⟨row, hrow, hkept⟩
  | submitted _ _ _ _ hinsert => exact row_of_insert hinsert hrow hkept
  | reserved _ _ _ _ _ _ hinsert _ => exact row_of_insert hinsert hrow hkept
  | staged _ _ _ _ _ _ hinsert => exact row_of_insert hinsert hrow hkept
  | @cancelled _ now job hstored hactive =>
      rw [releaseIncrementalReservation_jobs]
      apply row_of_modify hrow hkept
      rintro stored hfind rfl rfl
      obtain rfl := Option.some.inj (hstored.symm.trans hfind)
      exact .cancelled now hactive
  | retried => cases hadmits.1
  | @exhausted owner now locked token candidate hstored heligible hspent =>
      rw [releaseIncrementalReservation_jobs]
      apply row_of_modify hrow hkept
      rintro stored hfind - rfl
      obtain rfl := Option.some.inj (hstored.symm.trans hfind)
      exact .exhausted owner now locked token heligible hspent
  | @claimed owner now locked token candidate hstored heligible hbudget =>
      apply row_of_modify hrow hkept
      rintro stored hfind - rfl
      obtain rfl := Option.some.inj (hstored.symm.trans hfind)
      exact .claimed owner now locked token (hadmits.2.1 token (List.mem_singleton_self _))
        heligible hbudget
  | renewed _ token now hstored howned =>
      apply row_of_modify hrow hkept
      rintro stored hfind rfl rfl
      obtain rfl := Option.some.inj (hstored.symm.trans hfind)
      exact .renewed token now howned
  | checkpointed job token now checkpoints hstored howned =>
      apply row_of_modify hrow hkept
      rintro stored hfind hid rfl
      obtain rfl := Option.some.inj (hstored.symm.trans hfind)
      exact .checkpointed job token now checkpoints (hadmits.2.2.1 _ rfl) hid.symm howned
  | published job token now uri metadata hstored howned
  | applied job token now uri metadata hstored howned
  | succeeded job token now uri metadata hstored howned =>
      apply row_of_modify hrow hkept
      rintro stored hfind hid rfl
      obtain rfl := Option.some.inj (hstored.symm.trans hfind)
      exact .succeeded job token now uri metadata (hadmits.2.2.1 _ rfl) hid.symm howned
  | rescheduled job token now exc error metadata hstored howned =>
      apply row_of_modify hrow hkept
      rintro stored hfind hid rfl
      obtain rfl := Option.some.inj (hstored.symm.trans hfind)
      exact .failed job token now exc error metadata (hadmits.2.2.1 _ rfl) hid.symm howned
        (Call.reported hadmits.1)
  | failed job token now exc error metadata hstored howned =>
      rw [releaseIncrementalReservation_jobs]
      apply row_of_modify hrow hkept
      rintro stored hfind hid rfl
      obtain rfl := Option.some.inj (hstored.symm.trans hfind)
      exact .failed job token now exc error metadata (hadmits.2.2.1 _ rfl) hid.symm howned
        (Call.reported hadmits.1)

/-- The UPDATE of a retry resets the row of its job, or fails and leaves it. -/
theorem updateRetry_row {settings : Settings} {db : Database} {job : JobRecord} {now : Instant}
    (hrow : db.jobs.find? jobId = some row) :
    ∃ row', (updateRetry settings db job now).1.jobs.find? jobId = some row' ∧
      (row' = row ∨ job.id = row.id ∧ row.status.isResettable = true ∧
        (updateRetry settings db job now).2.isOk = true ∧
        row' = (setRetried settings).set row) := by
  unfold updateRetry
  split
  · exact ⟨row, hrow, Or.inl rfl⟩
  rename_i reserved hreserved
  unfold retryUpdate
  dsimp only
  rw [reacquire_jobs hreserved]
  split
  · exact ⟨row, hrow, Or.inl rfl⟩
  · rename_i hcount
    have hany := (Table.rowcount_at db.jobs job.id fun row => row.status.isResettable).mp hcount
    obtain ⟨stored, hstored, hresettable⟩ := (Option.any_eq_true _ _).mp hany
    have hupdate := (Table.update_hit (fun row : JobRecord => row.status.isResettable) hstored
      hresettable).2
    have hok : (refreshJob { reserved with jobs := db.jobs.modify job.id (setRetried settings) }
        job.id).isOk = true := by
      rw [refreshJob, Table.find?_modify_self, hstored]
      rfl
    simp only [hupdate]
    apply row_of_modify (P := fun row row' => row' = row ∨ job.id = row.id ∧
      row.status.isResettable = true ∧ _ ∧ row' = (setRetried settings).set row) hrow (Or.inl rfl)
    rintro found hfind hid rfl
    obtain rfl := Option.some.inj (hstored.symm.trans hfind)
    exact Or.inr ⟨hid.symm, hresettable, hok, rfl⟩

/-- What a step does to a stored row. -/
theorem JobSystem.step_row (config : Config) (action : JobAction)
    (hrow : s.db.jobs.find? jobId = some row) :
    ∃ row', (s.step config action).db.jobs.find? jobId = some row' ∧
      RowStep config s action row row' := by
  have hkept : RowStep config s action row row := .kept _ row
  cases action with
  | call call =>
      rw [step]
      split
      · rename_i hadmits
        exact (call.commit config s.db).row_step hadmits hrow
      · exact ⟨row, hrow, hkept⟩
  | refresh token jobId =>
      rw [step]
      split
      · exact ⟨row, hrow, hkept⟩
      · split <;> exact ⟨row, hrow, hkept⟩
  | checkRetry client jobId now => exact ⟨row, hrow, hkept⟩
  | updateRetry client =>
      rw [step]
      split
      · exact ⟨row, hrow, hkept⟩
      · rename_i job now hretry
        obtain ⟨row', hrow', hset⟩ := @updateRetry_row jobId row config.settings s.db job now hrow
        refine ⟨row', hrow', ?_⟩
        rcases hset with rfl | ⟨hid, hresettable, hcommitted, rfl⟩
        · exact hkept
        · exact .retried client hretry hid hresettable hcommitted
  | cleanup locked now =>
      refine ⟨if cleanupGuard locked now row then (setCleaned now).set row else row, ?_, ?_⟩
      · change (s.db.jobs.update _ _).find? jobId = _
        rw [Table.find?_update, hrow]
        rfl
      · split
        · rename_i hexpired
          exact .cleaned locked now hexpired
        · exact hkept

theorem find?_new {jobs jobs' : JobTable} {new : JobRecord}
    (hinsert : jobs.insert? new = some jobs')
    (hnone : jobs.find? jobId = none) (hrow : jobs'.find? jobId = some row) :
    row = new ∧ jobId = new.id := by
  rw [Table.find?_insert hinsert] at hrow
  split at hrow
  · rename_i hid
    exact ⟨(Option.some.inj hrow).symm, hid⟩
  · rw [hnone] at hrow
    cases hrow

theorem find?_modify_none {jobs : JobTable} {k : Uuid} {a : Assignment JobRecord.id JobRecord.id}
    (hnone : jobs.find? jobId = none) : (jobs.modify k a).find? jobId = none := by
  rw [Table.find?_modify]
  split
  · rename_i hk
    rw [← hk, hnone]
    rfl
  · exact hnone

/-- A row that a call adds is a new job; historical queries are added by submissions. -/
theorem Commit.new_row (h : Commit config s.db call db') (hnone : s.db.jobs.find? jobId = none)
    (hrow : db'.jobs.find? jobId = some row) :
    ∃ kind payload artifactUri now,
      row = newJobRecord config.settings jobId kind payload artifactUri now ∧
        (call.isSubmission = true ∨ kind ≠ .historicalQuery) := by
  have hmodified : ∀ {k : Uuid} {a : Assignment JobRecord.id JobRecord.id},
      (s.db.jobs.modify k a).find? jobId ≠ some row := by
    intro k a hsome
    rw [find?_modify_none hnone] at hsome
    cases hsome
  cases h with
  | unchanged => cases hnone.symm.trans hrow
  | registered => cases hnone.symm.trans hrow
  | submitted _ hsubmission _ _ hinsert =>
      obtain ⟨rfl, rfl⟩ := find?_new hinsert hnone hrow
      exact ⟨_, _, _, _, rfl, Or.inl hsubmission⟩
  | reserved _ _ _ _ _ _ hinsert _ =>
      obtain ⟨rfl, rfl⟩ := find?_new hinsert hnone hrow
      exact ⟨_, _, _, _, rfl, Or.inr nofun⟩
  | staged _ _ _ _ _ _ hinsert =>
      obtain ⟨rfl, rfl⟩ := find?_new hinsert hnone hrow
      exact ⟨_, _, _, _, rfl, Or.inr nofun⟩
  | cancelled | exhausted | failed =>
      rw [releaseIncrementalReservation_jobs] at hrow
      exact absurd hrow hmodified
  | retried | claimed | renewed | checkpointed | published | applied | succeeded
  | rescheduled => exact absurd hrow hmodified

theorem updateRetry_none {settings : Settings} {db : Database} {job : JobRecord} {now : Instant}
    (hnone : db.jobs.find? jobId = none) :
    (updateRetry settings db job now).1.jobs.find? jobId = none := by
  unfold updateRetry
  split
  · exact hnone
  rename_i reserved hreserved
  unfold retryUpdate
  dsimp only
  split
  · exact hnone
  · rw [Table.find?_update, reacquire_jobs hreserved, hnone]
    rfl

/-- A row that a step adds is a new job. -/
theorem JobSystem.step_new (hnone : s.db.jobs.find? jobId = none)
    (hrow : (s.step config action).db.jobs.find? jobId = some row) :
    ∃ call kind payload artifactUri now, action = .call call ∧ s.Admits call ∧
      row = newJobRecord config.settings jobId kind payload artifactUri now ∧
        (call.isSubmission = true ∨ kind ≠ .historicalQuery) := by
  have hsame : ∀ {db : Database}, db.jobs.find? jobId = none → db.jobs.find? jobId ≠ some row :=
    fun hnone hsome => nomatch hnone.symm.trans hsome
  cases action with
  | call call =>
      rw [step] at hrow
      split at hrow
      · rename_i hadmits
        obtain ⟨kind, payload, artifactUri, now, hnew⟩ :=
          (call.commit config s.db).new_row hnone hrow
        exact ⟨call, kind, payload, artifactUri, now, rfl, hadmits, hnew⟩
      · exact absurd hrow (hsame hnone)
  | refresh token jobId =>
      rw [step] at hrow
      split at hrow
      · exact absurd hrow (hsame hnone)
      · split at hrow <;> exact absurd hrow (hsame hnone)
  | checkRetry client jobId now => exact absurd hrow (hsame hnone)
  | updateRetry client =>
      rw [step] at hrow
      split at hrow
      · exact absurd hrow (hsame hnone)
      · exact absurd hrow (hsame (updateRetry_none hnone))
  | cleanup locked now =>
      change (s.db.jobs.update _ _).find? jobId = _ at hrow
      rw [Table.find?_update, hnone] at hrow
      cases hrow

end Rows

end FeatureStore
