import FeatureStore.ControlPlane

/-!
# Recovery of staged events

A staged record has left the Kafka log behind: only its append job can bring it
into the offline table. The job is never a succeeded one, because a success
applies the job's staged records in its own transaction. A failed or exhausted
append job can be retried at any time; a cancelled one is refused by `retry`.
-/

namespace FeatureStore

open Relational

/-- An append job whose records are still to be applied, and whose artifacts
never expire. -/
structure JobRecord.Awaiting (job : JobRecord) : Prop where
  append : job.kind = .offlineAppend
  unsucceeded : job.status ≠ .succeeded
  expires : job.artifactExpiresAt = none
  cleaned : job.artifactsCleanedAt = none

/-- Every staged record names a stored append job that is still to succeed. -/
def StagedAwaiting (db : Database) : Prop :=
  ∀ record ∈ db.streamEvents.rows, record.state = .staged →
    ∃ job, record.jobId = some job.id ∧ db.jobs.find? job.id = some job ∧ job.Awaiting

theorem newJobRecord_awaiting (settings : Settings) (id : Uuid) (payload : JobPayload)
    (now : Instant) :
    (newJobRecord settings id .offlineAppend payload none now).Awaiting :=
  ⟨rfl, by simp [newJobRecord], rfl, rfl⟩

theorem failureStatus_unsucceeded (job : JobRecord) (exc : PyException) :
    failureStatus job exc ≠ .succeeded := by
  unfold failureStatus
  split
  · simp
  · split <;> simp

section Commits

variable {config : Config} {db db' : Database} {call : Call}

theorem Commit.staged_record (h : Commit config db call db') {record : StreamEventRecord}
    (hmem : record ∈ db'.streamEvents.rows) (hstaged : record.state = .staged) :
    record ∈ db.streamEvents.rows ∨
      ∃ job, record.jobId = some job.id ∧ db'.jobs.find? job.id = some job ∧
        job.Awaiting := by
  cases h with
  | unchanged | submitted | reserved | claimed | renewed | checkpointed | published
  | succeeded | rescheduled => exact Or.inl hmem
  | cancelled | exhausted | failed =>
      rw [releaseIncrementalReservation_streamEvents] at hmem
      exact Or.inl hmem
  | retried _ _ _ _ acquired =>
      rw [(reacquire_kept acquired).2] at hmem
      exact Or.inl hmem
  | applied =>
      obtain ⟨before, hbefore, rfl⟩ := List.mem_map.mp hmem
      split at hstaged
      · cases hstaged
      · rename_i hguard
        rw [if_neg hguard]
        exact Or.inl hbefore
  | registered _ _ _ _ _ _ _ inserted =>
      rw [Table.insert?_rows inserted] at hmem
      rcases List.mem_append.mp hmem with hbefore | hnew
      · exact Or.inl hbefore
      · rw [List.mem_singleton.mp hnew] at hstaged
        cases hstaged
  | staged viewRef stagingUri recordIds jobId now _ inserted =>
      obtain ⟨before, hbefore, rfl⟩ := List.mem_map.mp hmem
      split
      · refine Or.inr ⟨newJobRecord config.settings jobId .offlineAppend
          (.offlineAppend viewRef stagingUri) none now, rfl, ?_, newJobRecord_awaiting _ _ _ _⟩
        exact (Table.find?_insert inserted _).trans (if_pos rfl)
      · exact Or.inl hbefore

/-- An awaiting job stays so until its success applies its records. -/
theorem Commit.awaiting (h : Commit config db call db')
    (hcopy : ∀ job ∈ call.job?, job.SnapshotIn db) {jobId : Uuid} {row : JobRecord}
    (hrow : db.jobs.find? jobId = some row) (hwaiting : row.Awaiting) :
    (∃ row', db'.jobs.find? jobId = some row' ∧ row'.Awaiting) ∨
      ∃ now, db'.streamEvents = db.streamEvents.update (appliedGuard jobId) (setApplied now) := by
  have hinserted : ∀ {new : JobRecord} {jobs : JobTable}, db.jobs.insert? new = some jobs →
      ∃ row', jobs.find? jobId = some row' ∧ row'.Awaiting := by
    intro new jobs hinsert
    refine ⟨row, ?_, hwaiting⟩
    rw [Table.find?_insert hinsert, if_neg, hrow]
    rintro rfl
    cases (Table.insert?_fresh hinsert).symm.trans hrow
  have hmodified : ∀ {k : Uuid} {a : Assignment JobRecord.id JobRecord.id},
      (k = jobId → (a.set row).Awaiting) →
      ∃ row', (db.jobs.modify k a).find? jobId = some row' ∧ row'.Awaiting := by
    intro k a hset
    rw [Table.find?_modify]
    split
    · rename_i hk
      subst hk
      exact ⟨a.set row, by rw [hrow]; rfl, hset rfl⟩
    · exact ⟨row, hrow, hwaiting⟩
  -- The copy that a worker finalizes has the kind of the stored row.
  have hkind : ∀ {job : JobRecord}, job ∈ call.job? → job.id = jobId →
      job.kind = .offlineAppend := by
    rintro job hjob rfl
    obtain ⟨stored, hstored, hkind, _⟩ := hcopy job hjob
    cases hstored.symm.trans hrow
    exact hkind.symm.trans hwaiting.append
  obtain ⟨happend, hunsucceeded, hexpires, hcleaned⟩ := hwaiting
  cases h with
  | unchanged | registered => exact Or.inl ⟨row, hrow, happend, hunsucceeded, hexpires, hcleaned⟩
  | submitted _ _ _ _ hinsert => exact Or.inl (hinserted hinsert)
  | reserved _ _ _ _ _ _ hinsert _ => exact Or.inl (hinserted hinsert)
  | staged _ _ _ _ _ _ hinsert => exact Or.inl (hinserted hinsert)
  | cancelled _ _ stored =>
      rw [releaseIncrementalReservation_jobs]
      refine Or.inl (hmodified ?_)
      rintro rfl
      cases stored.symm.trans hrow
      exact ⟨happend, by simp [setCancelled, setJob], by
        simp [setCancelled, setJob, happend, hexpires], hcleaned⟩
  | retried => exact Or.inl (hmodified fun _ => ⟨happend, by simp [setRetried, setJob], rfl, rfl⟩)
  | exhausted _ _ _ _ stored =>
      rw [releaseIncrementalReservation_jobs]
      refine Or.inl (hmodified ?_)
      rintro rfl
      cases stored.symm.trans hrow
      exact ⟨happend, by simp [setExhausted, setJob], by
        simp [setExhausted, setJob, happend, hexpires], hcleaned⟩
  | claimed =>
      exact Or.inl (hmodified fun _ =>
        ⟨happend, by simp [setClaimed, setJob], hexpires, hcleaned⟩)
  | renewed | checkpointed =>
      exact Or.inl (hmodified fun _ => ⟨happend, hunsucceeded, hexpires, hcleaned⟩)
  | published job _ _ _ _ _ _ incremental =>
      refine Or.inl (hmodified fun hid => ?_)
      simp [JobRecord.incremental?, hkind rfl hid] at incremental
  | applied job _ now _ _ _ _ append =>
      by_cases hid : job.id = jobId
      · subst hid
        exact Or.inr ⟨now, rfl⟩
      · exact Or.inl (hmodified fun heq => absurd heq hid)
  | succeeded job _ _ _ _ _ _ _ notAppend =>
      exact Or.inl (hmodified fun hid => absurd (hkind rfl hid) notAppend)
  | rescheduled job _ _ exc _ _ _ _ status =>
      refine Or.inl (hmodified fun hid => ⟨happend, ?_, ?_, hcleaned⟩)
      · simp [setFailed, setJob, status]
      · simp [setFailed, setJob, status]
  | failed job _ _ exc _ _ _ _ status =>
      rw [releaseIncrementalReservation_jobs]
      refine Or.inl (hmodified fun hid => ⟨happend, ?_, ?_, hcleaned⟩)
      · exact failureStatus_unsucceeded job exc
      · simp [setFailed, setJob, hkind rfl hid]

theorem Commit.stagedAwaiting (h : Commit config db call db')
    (hcopy : ∀ job ∈ call.job?, job.SnapshotIn db) (hdb : StagedAwaiting db) :
    StagedAwaiting db' := by
  intro record hmem hstaged
  rcases h.staged_record hmem hstaged with hbefore | hnew
  · obtain ⟨job, hlinked, hstored, hwaiting⟩ := hdb record hbefore hstaged
    rcases h.awaiting hcopy hstored hwaiting with ⟨job', hstored', hwaiting'⟩ | ⟨now, happlied⟩
    · have hid := Table.key_of_find? hstored'
      exact ⟨job', hid ▸ hlinked, hid ▸ hstored', hwaiting'⟩
    · -- The success of the job has left none of its records staged.
      rw [happlied] at hmem
      obtain ⟨before, hbefore', rfl⟩ := List.mem_map.mp hmem
      split at hstaged
      · cases hstaged
      · rename_i hguard
        rw [if_neg hguard] at hlinked
        simp [appliedGuard, hlinked, hstaged] at hguard
  · exact hnew

end Commits

/-- `retry` accepts a failed or exhausted job whose artifacts never expire. -/
theorem retry_ok {db : Database} {job : JobRecord} (settings : Settings) (now : Instant)
    (hstored : db.jobs.find? job.id = some job) (hwaiting : job.Awaiting)
    (hstatus : job.status = .failed ∨ job.status = .exhausted) :
    ∃ updated, (retry settings db job.id now).2 = .ok updated := by
  have hcheck : retryCheck job now = .ok () := by
    have hretryable : job.isRetryable = true := by
      rcases hstatus with hstatus | hstatus <;> simp [JobRecord.isRetryable, hstatus]
    simp [retryCheck, hretryable, JobRecord.artifactsExpired, hwaiting.expires,
      hwaiting.cleaned]
  have hacquire : reacquire db job now = .ok db := by
    simp [reacquire, JobRecord.incremental?, hwaiting.append]
  obtain ⟨hcount, hupdate⟩ := Table.update_hit
    (fun row : JobRecord => row.status.isResettable) hstored (retryCheck_resettable hcheck)
  simp only [retry, hstored, hcheck, hacquire, retryUpdate]
  rw [if_neg hcount, hupdate, refreshJob, Table.find?_modify_self, hstored]
  exact ⟨_, rfl⟩

namespace ControlPlane

theorem step_stagedAwaiting (config : Config) (s : ControlPlane) (call : Call)
    (h : StagedAwaiting s.db) : StagedAwaiting (s.step config call).db := by
  rcases step_commit config s call with hsame | ⟨hadmits, hcommit⟩
  · rw [hsame]
    exact h
  · exact hcommit.stagedAwaiting hadmits.2 h

/-- In every reachable state a staged record names an append job which is pending,
retrying or running, or which `retry` accepts, or which has been cancelled. -/
theorem staged_recoverable (config : Config) (calls : List Call) :
    let db := (initial.run config calls).db
    ∀ record ∈ db.streamEvents.rows, record.state = .staged →
      ∃ job, record.jobId = some job.id ∧ db.jobs.find? job.id = some job ∧
        job.kind = .offlineAppend ∧
        (job.status.isActive = true ∨
          (∀ now, ∃ updated, (retry config.settings db job.id now).2 = .ok updated) ∨
          job.status = .cancelled) := by
  intro db record hmem hstaged
  have hdb : StagedAwaiting db := by
    refine Execution.invariant (step_stagedAwaiting config) ?_ calls
    intro record hmem
    cases hmem
  obtain ⟨job, hlinked, hstored, hwaiting⟩ := hdb record hmem hstaged
  refine ⟨job, hlinked, hstored, hwaiting.append, ?_⟩
  have hretry := fun hstatus now => retry_ok config.settings now hstored hwaiting hstatus
  cases hstatus : job.status with
  | pending | running | retrying => exact Or.inl rfl
  | succeeded => exact absurd hstatus hwaiting.unsucceeded
  | failed => exact Or.inr (Or.inl (hretry (Or.inl hstatus)))
  | exhausted => exact Or.inr (Or.inl (hretry (Or.inr hstatus)))
  | cancelled => exact Or.inr (Or.inr rfl)

/-- A staged event whose append job is cancelled. -/
def cancelledRun : List Call :=
  [.register ⟨"event", "driver_stats@1", [], .utc 0, [], by decide, rfl⟩ "drivers" 0 0 5 0,
    .stageBatch "driver_stats@1" ⟨"driver_stats@1", 9⟩ [5] 1 0,
    .cancel 1 0]

/-- The event stays staged under a job which `retry` refuses. -/
theorem cancelled_append_stranded :
    ¬∀ calls, let db := (initial.run defaultConfig calls).db
      ∀ record ∈ db.streamEvents.rows, record.state = .staged →
        ∃ job, record.jobId = some job.id ∧ db.jobs.find? job.id = some job ∧
          job.kind = .offlineAppend ∧
          (job.status.isActive = true ∨
            ∃ now updated, (retry defaultConfig.settings db job.id now).2 = .ok updated) := by
  intro h
  obtain ⟨job, hlinked, hstored, happend, hstatus⟩ := h cancelledRun _ (.head _) rfl
  have hid : 1 = job.id := Option.some.inj hlinked
  have hcancelled : ((initial.run defaultConfig cancelledRun).db.jobs.find? 1).any
      (fun job => decide (job.status = .cancelled)) = true := by decide
  rw [hid, hstored, Option.any_some, decide_eq_true_eq] at hcancelled
  rcases hstatus with hactive | ⟨now, updated, hretry⟩
  · simp [hcancelled, JobStatus.isActive] at hactive
  · simp [retry, hstored, retryCheck, JobRecord.isRetryable, hcancelled, happend,
      JobRecord.isIncremental, JobRecord.incremental?] at hretry

end ControlPlane

end FeatureStore
