import FeatureStore.JobTransactions
import FeatureStore.Library.Execution
import FeatureStore.Library.Fencing

/-!
# The control plane and its runs

A control plane is the database together with the lease tokens drawn so far; its
leases are sound by construction. A run is any sequence of calls: workers, API
servers and the consumer interleave freely, each with its own clock.
-/

namespace FeatureStore

open Relational Fencing

/-- The token under which a job is leased. -/
def leaseHolder (jobs : JobTable) (jobId : Uuid) : Option Uuid :=
  (jobs.find? jobId).bind (·.leaseToken)

/-- The leases of the job table, given the tokens drawn so far. -/
def leasesOf (db : Database) (drawn : List Uuid) : Leases Uuid Uuid :=
  ⟨leaseHolder db.jobs, {token | token ∈ drawn}⟩

section Tables

variable {jobs jobs' : JobTable}

@[simp] theorem releaseIncrementalReservation_jobs (db : Database) (job : JobRecord)
    (now : Instant) : (releaseIncrementalReservation db job now).jobs = db.jobs := by
  unfold releaseIncrementalReservation
  split <;> rfl

@[simp] theorem releaseIncrementalReservation_streamEvents (db : Database) (job : JobRecord)
    (now : Instant) :
    (releaseIncrementalReservation db job now).streamEvents = db.streamEvents := by
  unfold releaseIncrementalReservation
  split <;> rfl

@[simp] theorem markStreamEventsApplied_jobs (db : Database) (job : JobRecord)
    (now : Instant) : (markStreamEventsApplied db job now).jobs = db.jobs := rfl

theorem leaseHolder_insert {row : JobRecord} (h : jobs.insert? row = some jobs')
    (hrow : row.leaseToken = none) {jobId token : Uuid}
    (hheld : leaseHolder jobs' jobId = some token) : leaseHolder jobs jobId = some token := by
  rw [leaseHolder, Table.find?_insert h] at hheld
  split at hheld
  · simp [hrow] at hheld
  · exact hheld

theorem leaseHolder_modify (jobId : Uuid) (a : Assignment JobRecord.id JobRecord.id)
    (k : Uuid) :
    leaseHolder (jobs.modify jobId a) k =
      if k = jobId then ((jobs.find? jobId).map a.set).bind (·.leaseToken)
      else leaseHolder jobs k := by
  rw [leaseHolder, Table.find?_modify]
  split <;> rfl

/-- An assignment that grants no token adds no holder. -/
theorem leaseHolder_modify_of_keeps {jobId : Uuid} {a : Assignment JobRecord.id JobRecord.id}
    (h : ∀ row, (a.set row).leaseToken = none ∨ (a.set row).leaseToken = row.leaseToken)
    {k token : Uuid} (hheld : leaseHolder (jobs.modify jobId a) k = some token) :
    leaseHolder jobs k = some token := by
  rw [leaseHolder_modify] at hheld
  split at hheld
  · rename_i hk
    subst k
    cases hrow : jobs.find? jobId with
    | none => simp [hrow] at hheld
    | some row =>
        rcases h row with hnone | hsame
        · simp [hrow, hnone] at hheld
        · simpa [leaseHolder, hrow, hsame] using hheld
  · exact hheld

end Tables

/-- The tokens that a call draws. -/
def Call.tokens : Call → List Uuid
  | .claimPass _ _ _ token => [token]
  | .createBackfill .. | .createMaterialization .. | .createHistoricalQuery ..
  | .createIncrementalMaterialization .. | .cancel .. | .retry .. | .heartbeat ..
  | .commitCheckpoints .. | .finalizeSuccess .. | .finalizeFailure .. | .register ..
  | .stageBatch .. => []

section Commits

variable {config : Config} {db db' : Database} {call : Call}

/-- A claim grants its own token to the job it claims; no other call grants any. -/
theorem Commit.granted (h : Commit config db call db') {jobId token : Uuid}
    (hheld : leaseHolder db'.jobs jobId = some token) :
    leaseHolder db.jobs jobId = some token ∨
      call.tokens = [token] ∧ ∀ k, leaseHolder db.jobs k ≠ some token →
        leaseHolder db'.jobs k = some token → k = jobId := by
  cases h with
  | unchanged => exact Or.inl hheld
  | submitted _ _ _ _ hinsert => exact Or.inl (leaseHolder_insert hinsert rfl hheld)
  | reserved _ _ _ _ _ _ hinsert _ => exact Or.inl (leaseHolder_insert hinsert rfl hheld)
  | cancelled jobId now =>
      rw [releaseIncrementalReservation_jobs] at hheld
      exact Or.inl (leaseHolder_modify_of_keeps (fun _ => Or.inl rfl) hheld)
  | retried jobId now =>
      exact Or.inl (leaseHolder_modify_of_keeps (fun _ => Or.inl rfl) hheld)
  | exhausted owner now locked token =>
      rw [releaseIncrementalReservation_jobs] at hheld
      exact Or.inl (leaseHolder_modify_of_keeps (fun _ => Or.inl rfl) hheld)
  | @claimed owner now locked fresh candidate stored eligible budget =>
      have hheld' := hheld
      rw [leaseHolder_modify] at hheld'
      split at hheld'
      · rename_i hk
        have htoken : fresh = token := by simpa [stored, setClaimed, setJob] using hheld'
        subst hk htoken
        refine Or.inr ⟨rfl, fun k hbefore hafter => ?_⟩
        by_contra hne
        rw [leaseHolder_modify, if_neg hne] at hafter
        exact hbefore hafter
      · exact Or.inl hheld'
  | renewed => exact Or.inl (leaseHolder_modify_of_keeps (fun _ => Or.inr rfl) hheld)
  | checkpointed => exact Or.inl (leaseHolder_modify_of_keeps (fun _ => Or.inr rfl) hheld)
  | published => exact Or.inl (leaseHolder_modify_of_keeps (fun _ => Or.inl rfl) hheld)
  | applied => exact Or.inl (leaseHolder_modify_of_keeps (fun _ => Or.inl rfl) hheld)
  | succeeded => exact Or.inl (leaseHolder_modify_of_keeps (fun _ => Or.inl rfl) hheld)
  | rescheduled => exact Or.inl (leaseHolder_modify_of_keeps (fun _ => Or.inl rfl) hheld)
  | failed =>
      rw [releaseIncrementalReservation_jobs] at hheld
      exact Or.inl (leaseHolder_modify_of_keeps (fun _ => Or.inl rfl) hheld)
  | registered => exact Or.inl hheld
  | staged _ _ _ _ _ _ hinsert => exact Or.inl (leaseHolder_insert hinsert rfl hheld)

/-- Every commit whose tokens are fresh is a step of the leases. -/
theorem Commit.lease_step (h : Commit config db call db') {drawn : List Uuid}
    (hsound : (leasesOf db drawn).Sound) (hfresh : ∀ token ∈ call.tokens, token ∉ drawn) :
    Leases.Step (leasesOf db drawn) (leasesOf db' (call.tokens ++ drawn)) where
  drawn_subset := fun token hdrawn => List.mem_append_right _ hdrawn
  held := by
    intro jobId token hheld
    rcases h.granted hheld with hbefore | ⟨htokens, honly⟩
    · exact Or.inl hbefore
    · have hnew : token ∉ drawn := hfresh token (by simp [htokens])
      refine Or.inr ⟨hnew, by simp [leasesOf, htokens], fun k hk => ?_⟩
      exact honly k (fun hbefore => hnew (hsound.held_drawn hbefore)) hk

/-- No statement deletes a job or changes its kind or its payload. -/
theorem Commit.job_kept (h : Commit config db call db') {jobId : Uuid} {row : JobRecord}
    (hrow : db.jobs.find? jobId = some row) :
    ∃ row', db'.jobs.find? jobId = some row' ∧ row'.kind = row.kind ∧
      row'.payload = row.payload := by
  have hinserted : ∀ {new : JobRecord} {jobs : JobTable}, db.jobs.insert? new = some jobs →
      ∃ row', jobs.find? jobId = some row' ∧ row'.kind = row.kind ∧
        row'.payload = row.payload := by
    intro new jobs hinsert
    refine ⟨row, ?_, rfl, rfl⟩
    rw [Table.find?_insert hinsert, if_neg, hrow]
    rintro rfl
    cases (Table.insert?_fresh hinsert).symm.trans hrow
  have hmodified : ∀ {k : Uuid} {a : Assignment JobRecord.id JobRecord.id},
      (∀ r, (a.set r).kind = r.kind ∧ (a.set r).payload = r.payload) →
      ∃ row', (db.jobs.modify k a).find? jobId = some row' ∧ row'.kind = row.kind ∧
        row'.payload = row.payload := by
    intro k a hkeeps
    rw [Table.find?_modify]
    split
    · rename_i hk
      subst hk
      exact ⟨a.set row, by rw [hrow]; rfl, hkeeps row⟩
    · exact ⟨row, hrow, rfl, rfl⟩
  cases h with
  | unchanged | registered => exact ⟨row, hrow, rfl, rfl⟩
  | submitted _ _ _ _ hinsert => exact hinserted hinsert
  | reserved _ _ _ _ _ _ hinsert _ => exact hinserted hinsert
  | staged _ _ _ _ _ _ hinsert => exact hinserted hinsert
  | cancelled | exhausted | failed =>
      rw [releaseIncrementalReservation_jobs]
      exact hmodified fun _ => ⟨rfl, rfl⟩
  | retried | claimed | renewed | checkpointed | published | applied | succeeded
  | rescheduled => exact hmodified fun _ => ⟨rfl, rfl⟩

end Commits

/-- A worker's copy of a job: the stored row has its kind and its payload, which
no statement changes. Every other column of the copy may be stale. -/
def JobRecord.SnapshotIn (job : JobRecord) (db : Database) : Prop :=
  ∃ row, db.jobs.find? job.id = some row ∧ row.kind = job.kind ∧ row.payload = job.payload

instance (job : JobRecord) (db : Database) : Decidable (job.SnapshotIn db) :=
  decidable_of_iff
    ((db.jobs.find? job.id).any fun row =>
      decide (row.kind = job.kind) && decide (row.payload = job.payload)) <| by
    cases h : db.jobs.find? job.id <;> simp [JobRecord.SnapshotIn, h]

/-- The copy of a job that a worker passes to a call. -/
def Call.job? : Call → Option JobRecord
  | .commitCheckpoints job _ _ _ => some job
  | .finalizeSuccess job _ _ _ _ => some job
  | .finalizeFailure job _ _ _ _ _ => some job
  | .createBackfill .. | .createMaterialization .. | .createHistoricalQuery ..
  | .createIncrementalMaterialization .. | .cancel .. | .retry .. | .claimPass ..
  | .heartbeat .. | .register .. | .stageBatch .. => none

/-- The database and the lease tokens drawn so far. -/
structure ControlPlane where
  db : Database
  drawn : List Uuid
  leases_sound : (leasesOf db drawn).Sound

namespace ControlPlane

def initial : ControlPlane where
  db := .empty
  drawn := []
  leases_sound := by
    constructor
    · intro k t h
      cases h
    · intro k k' t h
      cases h

/-- The leases of a control plane, as the library sees them. -/
def leases (s : ControlPlane) : Leases Uuid Uuid := leasesOf s.db s.drawn

/-- A call draws fresh tokens, and its copy of a job was read from the table. -/
def Admits (s : ControlPlane) (call : Call) : Prop :=
  (∀ token ∈ call.tokens, token ∉ s.drawn) ∧ ∀ job ∈ call.job?, job.SnapshotIn s.db

instance (s : ControlPlane) (call : Call) : Decidable (s.Admits call) := by
  unfold Admits
  infer_instance

/-- Commit one call; what no process can issue has no effect. -/
def step (config : Config) (s : ControlPlane) (call : Call) : ControlPlane :=
  if h : s.Admits call then
    { db := call.apply config s.db
      drawn := call.tokens ++ s.drawn
      leases_sound := ((call.commit config s.db).lease_step s.leases_sound h.1).sound
        s.leases_sound }
  else s

/-- The control plane after a run. -/
def run (config : Config) (s : ControlPlane) (calls : List Call) : ControlPlane :=
  Execution.run (step config) s calls

variable {config : Config} {s : ControlPlane} {call : Call}

theorem step_of_admits (h : s.Admits call) :
    (s.step config call).db = call.apply config s.db := by
  simp [step, h]

/-- Each step of the control plane refines a step of its leases. -/
theorem step_leases (config : Config) (s : ControlPlane) (call : Call) :
    Leases.Step s.leases (s.step config call).leases := by
  unfold step
  split
  · rename_i h
    exact (call.commit config s.db).lease_step s.leases_sound h.1
  · exact .refl _

/-- A step either changes nothing or commits its call on behalf of a process
that could issue it. -/
theorem step_commit (config : Config) (s : ControlPlane) (call : Call) :
    (s.step config call).db = s.db ∨
      s.Admits call ∧ Commit config s.db call (s.step config call).db := by
  by_cases h : s.Admits call
  · refine Or.inr ⟨h, ?_⟩
    rw [step_of_admits h]
    exact call.commit config s.db
  · exact Or.inl (by simp [step, h])

end ControlPlane

end FeatureStore
