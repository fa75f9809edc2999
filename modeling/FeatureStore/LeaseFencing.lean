import FeatureStore.ControlPlane

/-!
# Lease fencing

A lease token is presented by heartbeats, checkpoints and finalizations. Once its
job has been claimed again, cancelled or finalized, the token is retired in the
leases of the control plane, and calls that present it commit nothing.
-/

namespace FeatureStore

open Relational Fencing

/-- The pass of `claim_next` that leases `jobId` under `token`. -/
def Call.Issues (config : Config) (db : Database) (call : Call) (jobId token : Uuid) : Prop :=
  ∃ owner now locked job, call = .claimPass owner now locked token ∧
    (FeatureStore.claimPass config.settings db owner now locked token).2 = .claimed job ∧
    job.id = jobId

/-- Claims, cancellations and finalizations: the calls that end a lease. -/
def Call.endsLease : Call → Bool
  | .claimPass .. | .cancel .. | .finalizeSuccess .. | .finalizeFailure .. => true
  | .createBackfill .. | .createMaterialization .. | .createHistoricalQuery ..
  | .createIncrementalMaterialization .. | .retry .. | .heartbeat ..
  | .commitCheckpoints .. | .register .. | .stageBatch .. => false

/-- The call commits a claim, a cancellation or a finalization of `jobId`. -/
def Call.Revokes (config : Config) (db : Database) (call : Call) (jobId : Uuid) : Prop :=
  call.endsLease = true ∧ (call.apply config db).jobs.find? jobId ≠ db.jobs.find? jobId

variable {config : Config} {db db' : Database} {call : Call}

/-- A worker's call commits only while it owns the stored row. -/
theorem Commit.fenced (h : Commit config db call db') {jobId token : Uuid} {now : Instant}
    (hfenced : call.fenced? = some (jobId, token, now)) :
    db' = db ∨ ∃ row, db.jobs.find? jobId = some row ∧ row.ownedBy token now = true := by
  cases h with
  | unchanged => exact Or.inl rfl
  | submitted _ hsubmission => cases call <;> cases hsubmission <;> cases hfenced
  | reserved | cancelled | retried | exhausted | claimed | registered | staged =>
      cases hfenced
  | renewed _ _ _ hstored howned
  | checkpointed _ _ _ _ hstored howned
  | published _ _ _ _ _ hstored howned
  | applied _ _ _ _ _ hstored howned
  | succeeded _ _ _ _ _ hstored howned
  | rescheduled _ _ _ _ _ _ hstored howned
  | failed _ _ _ _ _ _ hstored howned =>
      cases hfenced
      exact Or.inr ⟨_, hstored, howned⟩

theorem JobRecord.ownedBy_iff {row : JobRecord} {token : Uuid} {now : Instant} :
    row.ownedBy token now = true ↔
      row.leaseToken = some token ∧ row.status = .running ∧
        ∃ expiresAt, row.leaseExpiresAt = some expiresAt ∧ now < expiresAt := by
  unfold JobRecord.ownedBy
  cases row.leaseExpiresAt <;> simp [and_assoc, and_comm, and_left_comm]

/-- A call that ends a lease and changes the row of a job leaves it unleased or
leased under the token that the call draws. -/
theorem Commit.revoked (h : Commit config db call db') (hends : call.endsLease = true)
    {jobId : Uuid} (hchanged : db'.jobs.find? jobId ≠ db.jobs.find? jobId) :
    leaseHolder db'.jobs jobId = none ∨
      ∃ token ∈ call.tokens, leaseHolder db'.jobs jobId = some token := by
  have hmodified : ∀ {k : Uuid} {a : Assignment JobRecord.id JobRecord.id},
      (db.jobs.modify k a).find? jobId ≠ db.jobs.find? jobId →
      leaseHolder (db.jobs.modify k a) jobId =
        ((db.jobs.find? k).map a.set).bind (·.leaseToken) := by
    intro k a hne
    rw [leaseHolder_modify, if_pos]
    by_contra hk
    exact hne (Table.find?_modify_ne _ _ hk)
  cases h with
  | unchanged => exact absurd rfl hchanged
  | submitted _ hsubmission => cases call <;> cases hsubmission <;> cases hends
  | reserved | retried | renewed | checkpointed | registered | staged => cases hends
  | cancelled _ _ stored =>
      rw [releaseIncrementalReservation_jobs] at hchanged ⊢
      exact Or.inl (by rw [hmodified hchanged, stored]; rfl)
  | exhausted _ _ _ _ stored =>
      rw [releaseIncrementalReservation_jobs] at hchanged ⊢
      exact Or.inl (by rw [hmodified hchanged, stored]; rfl)
  | claimed _ _ _ token stored =>
      exact Or.inr ⟨token, by simp [Call.tokens], by rw [hmodified hchanged, stored]; rfl⟩
  | published _ _ _ _ _ stored
  | succeeded _ _ _ _ _ stored
  | rescheduled _ _ _ _ _ _ stored =>
      exact Or.inl (by rw [hmodified hchanged, stored]; rfl)
  | applied _ _ _ _ _ stored =>
      rw [markStreamEventsApplied_jobs] at hchanged ⊢
      exact Or.inl (by rw [hmodified hchanged, stored]; rfl)
  | failed _ _ _ _ _ _ stored =>
      rw [releaseIncrementalReservation_jobs] at hchanged ⊢
      exact Or.inl (by rw [hmodified hchanged, stored]; rfl)

namespace ControlPlane

variable {s : ControlPlane} {jobId token : Uuid}

/-- After a claim its token is confined to the claimed job. -/
theorem confined_of_issues (hadmits : s.Admits call)
    (hissues : call.Issues config s.db jobId token) :
    (s.step config call).leases.Confined jobId token := by
  obtain ⟨owner, now, locked, job, rfl, hclaimed, rfl⟩ := hissues
  refine (s.step config _).leases_sound.confined ?_
  change leaseHolder (s.step config _).db.jobs job.id = some token
  rw [step_of_admits hadmits]
  obtain ⟨hstored, htoken, _⟩ := claimPass_claimed hclaimed
  exact Option.bind_eq_some_iff.mpr ⟨job, hstored, htoken⟩

/-- A revocation retires the tokens confined to its job. -/
theorem retired_of_revokes (hconfined : s.leases.Confined jobId token)
    (hadmits : s.Admits call) (hrevokes : call.Revokes config s.db jobId) :
    (s.step config call).leases.Retired token := by
  refine Leases.Confined.retired ((step_leases config s call).confined hconfined) ?_
  change leaseHolder (s.step config call).db.jobs jobId ≠ some token
  rw [step_of_admits hadmits]
  intro hheld
  rcases (call.commit config s.db).revoked hrevokes.1 hrevokes.2 with
    hnone | ⟨fresh, hfresh, hsome⟩
  · cases hnone.symm.trans hheld
  · cases hsome.symm.trans hheld
    exact hadmits.1 token hfresh hconfined.1

/-- A call that presents a retired token commits nothing. -/
theorem apply_of_retired (hretired : s.leases.Retired token) {now : Instant}
    (hfenced : call.fenced? = some (jobId, token, now)) : call.apply config s.db = s.db := by
  rcases (call.commit config s.db).fenced hfenced with hsame | ⟨row, hrow, howned⟩
  · exact hsame
  · have hheld : leaseHolder s.db.jobs jobId = some token := by
      simpa [leaseHolder, hrow] using (JobRecord.ownedBy_iff.mp howned).1
    exact absurd hheld (hretired.2 jobId)

/-- Once a lease has been revoked, in whatever run, no call under its token
changes any table; and a call under any token changes a table only while the
token is stored in its job's row, which is running under an unexpired lease. -/
theorem lease_fencing (config : Config) (s : ControlPlane) (jobId token : Uuid)
    (claim revocation : Call) (between after : List Call) (hclaim : s.Admits claim)
    (hissues : claim.Issues config s.db jobId token)
    (hrevocation : ((s.step config claim).run config between).Admits revocation)
    (hrevokes : revocation.Revokes config ((s.step config claim).run config between).db jobId) :
    let later := (((s.step config claim).run config between).step config revocation).run
      config after
    (∀ (stale : Call) (jobId' : Uuid) (now : Instant), stale.fenced? = some (jobId', token, now) →
      stale.apply config later.db = later.db) ∧
    ∀ (t : ControlPlane) (call : Call) (jobId' token' : Uuid) (now : Instant),
      call.fenced? = some (jobId', token', now) → call.apply config t.db ≠ t.db →
      ∃ row expiresAt, t.db.jobs.find? jobId' = some row ∧ row.leaseToken = some token' ∧
        row.status = .running ∧ row.leaseExpiresAt = some expiresAt ∧ now < expiresAt := by
  intro later
  constructor
  · intro stale jobId' now hfenced
    have hheld : ((s.step config claim).run config between).leases.Confined jobId token :=
      Execution.invariant (fun s call h => (step_leases config s call).confined h)
        (confined_of_issues hclaim hissues) between
    have hretired : later.leases.Retired token :=
      Execution.invariant (fun s call h => (step_leases config s call).retired h)
        (retired_of_revokes hheld hrevocation hrevokes) after
    exact apply_of_retired hretired hfenced
  · intro t call jobId' token' now hfenced hchanged
    obtain ⟨row, hrow, howned⟩ :=
      ((call.commit config t.db).fenced hfenced).resolve_left hchanged
    obtain ⟨htoken, hrunning, expiresAt, hexpires, hlt⟩ := JobRecord.ownedBy_iff.mp howned
    exact ⟨row, expiresAt, hrow, htoken, hrunning, hexpires, hlt⟩

/-- A second worker reclaims an expired lease; the first worker's heartbeat, sent
by a clock at which its own lease still runs, changes nothing. -/
theorem lease_fencing_after_reclaim :
    let submitted := initial.step defaultConfig
      (.createBackfill ⟨"driver_stats@1", 0, 1, by decide⟩ 1 0)
    let reclaimed := ((submitted.step defaultConfig (.claimPass "first" 0 [] 7)).run
      defaultConfig []).step defaultConfig (.claimPass "second" (seconds 30) [] 8)
    (Call.heartbeat 1 7 1).apply defaultConfig reclaimed.db = reclaimed.db :=
  (lease_fencing defaultConfig
    (initial.step defaultConfig (.createBackfill ⟨"driver_stats@1", 0, 1, by decide⟩ 1 0)) 1 7
    (.claimPass "first" 0 [] 7) (.claimPass "second" (seconds 30) [] 8) [] [] (by decide)
    ⟨"first", 0, [], _, rfl, rfl, rfl⟩ (by decide) ⟨rfl, by decide⟩).1 (.heartbeat 1 7 1) 1 1 rfl

end ControlPlane

end FeatureStore
