import FeatureStore.IncrementalReservation
import FeatureStore.StagedRecovery

/-!
# The evolution of the ledger

What a transaction can do to a stored event and to an append job. A record keeps its
identity, its payload and its fingerprint, moves from pending to staged to applied,
and is linked to one job; an append job comes from a staging transaction, and its
success is final.
-/

namespace FeatureStore

open Relational

/-- What one transaction may do to a record. -/
structure StreamEventRecord.EvolvesTo (record record' : StreamEventRecord) : Prop where
  id : record'.id = record.id
  identity : record'.identity = record.identity
  payload : record'.payload = record.payload
  fingerprint : record'.fingerprint = record.fingerprint
  state : record'.state = record.state ∨ record.state = .pending ∧ record'.state = .staged ∨
    record.state = .staged ∧ record'.state = .applied
  jobId : ∀ jobId, record.jobId = some jobId → record'.jobId = some jobId

/-- Every record is still there, one transaction later. -/
def LedgerStep (db db' : Database) : Prop :=
  ∀ record ∈ db.streamEvents.rows, ∃ record' ∈ db'.streamEvents.rows, record.EvolvesTo record'

/-- The transactions of the stream consumer: it alone registers and stages events. -/
def Call.isIngestion : Call → Bool
  | .register .. | .stageBatch .. => true
  | .createBackfill .. | .createMaterialization .. | .createHistoricalQuery ..
  | .createIncrementalMaterialization .. | .cancel .. | .retry .. | .claimPass ..
  | .heartbeat .. | .commitCheckpoints .. | .finalizeSuccess .. | .finalizeFailure .. => false

/-- No pending record is linked to a job. -/
def PendingUnlinked (db : Database) : Prop :=
  ∀ record ∈ db.streamEvents.rows, record.state = .pending → record.jobId = none

theorem StreamEventRecord.EvolvesTo.refl (record : StreamEventRecord) :
    record.EvolvesTo record :=
  ⟨rfl, rfl, rfl, rfl, Or.inl rfl, fun _ h => h⟩

/-- What has left the pending state does not come back to it. -/
theorem StreamEventRecord.EvolvesTo.settled {record record' : StreamEventRecord}
    (h : record.EvolvesTo record') (hstate : record.state ≠ .pending) :
    record'.state ≠ .pending := by
  rcases h.state with hsame | ⟨hpending, _⟩ | ⟨_, happlied⟩
  · rw [hsame]
    exact hstate
  · exact absurd hpending hstate
  · rw [happlied]
    decide

theorem LedgerStep.refl (db : Database) : LedgerStep db db :=
  fun record hrecord => ⟨record, hrecord, .refl record⟩

theorem LedgerStep.of_eq {db db' : Database} (h : db'.streamEvents = db.streamEvents) :
    LedgerStep db db' := by
  intro record hrecord
  exact ⟨record, h ▸ hrecord, .refl record⟩

/-- An update of the ledger evolves each record that it selects. -/
theorem LedgerStep.of_update {db db' : Database} {guard : StreamEventRecord → Bool}
    {a : Assignment StreamEventRecord.id StreamEventRecord.identity}
    (hdb : db'.streamEvents = db.streamEvents.update guard a)
    (h : ∀ record ∈ db.streamEvents.rows, guard record = true →
      record.EvolvesTo (a.set record)) : LedgerStep db db' := by
  intro record hrecord
  refine ⟨if guard record then a.set record else record, ?_, ?_⟩
  · rw [hdb, Table.update_rows]
    exact List.mem_map_of_mem hrecord
  · split
    · rename_i hguard
      exact h record hrecord hguard
    · exact .refl record

theorem appliedGuard_iff {jobId : Uuid} {record : StreamEventRecord} :
    appliedGuard jobId record = true ↔ record.jobId = some jobId ∧ record.state = .staged := by
  simp [appliedGuard]

theorem stagingGuard_iff {recordIds : List Uuid} {record : StreamEventRecord} :
    stagingGuard recordIds record = true ↔
      record.id ∈ recordIds ∧ record.state = .pending := by
  simp [stagingGuard]

section Commits

variable {config : Config} {db db' : Database} {call : Call}

/-- Outside the consumer, a transaction leaves the ledger alone or applies the staged
records of the job that it finalizes. -/
theorem Commit.events_cases (h : Commit config db call db') (houtside : call.isIngestion = false) :
    db'.streamEvents = db.streamEvents ∨
      ∃ job token now resultUri resultMetadata,
        call = .finalizeSuccess job token now resultUri resultMetadata ∧
        job.kind = .offlineAppend ∧
        db'.streamEvents = db.streamEvents.update (appliedGuard job.id) (setApplied now) := by
  cases h with
  | unchanged | submitted | reserved | claimed | renewed | checkpointed | published
  | succeeded | rescheduled => exact Or.inl rfl
  | cancelled | exhausted | failed =>
      exact Or.inl (releaseIncrementalReservation_streamEvents _ _ _)
  | retried _ _ _ _ acquired => exact Or.inl (reacquire_kept acquired).2
  | applied job token now resultUri resultMetadata _ _ append =>
      exact Or.inr ⟨job, token, now, resultUri, resultMetadata, rfl, append, rfl⟩
  | registered | staged => cases houtside

/-- The ledger is left alone, or the staged records of one job are applied. -/
def AppliesAtMost (db db' : Database) : Prop :=
  db'.streamEvents = db.streamEvents ∨
    ∃ jobId now, db'.streamEvents = db.streamEvents.update (appliedGuard jobId) (setApplied now)

theorem Commit.appliesAtMost (h : Commit config db call db')
    (houtside : call.isIngestion = false) : AppliesAtMost db db' := by
  rcases h.events_cases houtside with hsame | ⟨job, _, now, _, _, _, _, hupdate⟩
  · exact Or.inl hsame
  · exact Or.inr ⟨job.id, now, hupdate⟩

theorem AppliesAtMost.ledgerStep (h : AppliesAtMost db db') : LedgerStep db db' := by
  rcases h with hsame | ⟨jobId, now, hupdate⟩
  · exact .of_eq hsame
  · refine .of_update hupdate fun record _ hguard => ?_
    have hstate := (appliedGuard_iff.mp hguard).2
    exact ⟨rfl, rfl, rfl, rfl, Or.inr (Or.inr ⟨hstate, rfl⟩), fun _ h => h⟩

/-- What has left the pending state outside the consumer had left it before. -/
theorem AppliesAtMost.settled_origin (h : AppliesAtMost db db') {record : StreamEventRecord}
    (hrecord : record ∈ db'.streamEvents.rows) (hstate : record.state ≠ .pending) :
    ∃ before ∈ db.streamEvents.rows, before.state ≠ .pending ∧
      before.payload = record.payload ∧ before.identity = record.identity := by
  rcases h with hsame | ⟨jobId, now, hupdate⟩
  · exact ⟨record, hsame ▸ hrecord, hstate, rfl, rfl⟩
  · rw [hupdate, Table.update_rows] at hrecord
    obtain ⟨before, hbefore, rfl⟩ := List.mem_map.mp hrecord
    by_cases hguard : appliedGuard jobId before = true
    · have hstaged := (appliedGuard_iff.mp hguard).2
      rw [if_pos hguard]
      exact ⟨before, hbefore, by simp [hstaged], rfl, rfl⟩
    · rw [if_neg hguard] at hstate ⊢
      exact ⟨before, hbefore, hstate, rfl, rfl⟩

/-- Every transaction evolves every record. -/
theorem Commit.ledgerStep (h : Commit config db call db') (hunlinked : PendingUnlinked db) :
    LedgerStep db db' := by
  by_cases houtside : call.isIngestion = false
  · exact (h.appliesAtMost houtside).ledgerStep
  cases h with
  | unchanged | submitted => exact .of_eq rfl
  | reserved | cancelled | retried | exhausted | claimed | renewed | checkpointed
  | published | applied | succeeded | rescheduled | failed => exact absurd rfl houtside
  | registered _ _ _ _ _ _ _ inserted =>
      intro record hrecord
      refine ⟨record, ?_, .refl record⟩
      rw [Table.insert?_rows inserted]
      exact List.mem_append_left _ hrecord
  | staged viewRef stagingUri recordIds jobId now =>
      refine .of_update rfl ?_
      intro record hrecord hguard
      have hstate := (stagingGuard_iff.mp hguard).2
      refine ⟨rfl, rfl, rfl, rfl, Or.inr (Or.inl ⟨hstate, rfl⟩), ?_⟩
      intro other hother
      cases (hunlinked record hrecord hstate).symm.trans hother

/-- The success of a job is final. -/
theorem Commit.succeeded_kept (h : Commit config db call db') {jobId : Uuid} {row : JobRecord}
    (hrow : db.jobs.find? jobId = some row) (hsucceeded : row.status = .succeeded) :
    ∃ row', db'.jobs.find? jobId = some row' ∧ row'.status = .succeeded := by
  have hinserted : ∀ {new : JobRecord} {jobs : JobTable}, db.jobs.insert? new = some jobs →
      ∃ row', jobs.find? jobId = some row' ∧ row'.status = .succeeded := by
    intro new jobs hinsert
    refine ⟨row, ?_, hsucceeded⟩
    rw [Table.find?_insert hinsert, if_neg, hrow]
    rintro rfl
    cases (Table.insert?_fresh hinsert).symm.trans hrow
  -- No statement addresses a succeeded row: each one finds its row active or failed.
  have hmodified : ∀ {k : Uuid} {found : JobRecord}
      {a : Assignment JobRecord.id JobRecord.id}, db.jobs.find? k = some found →
      found.status ≠ .succeeded →
      ∃ row', (db.jobs.modify k a).find? jobId = some row' ∧ row'.status = .succeeded := by
    intro k found a hfound hstatus
    refine ⟨row, ?_, hsucceeded⟩
    rw [Table.find?_modify_ne _ _ ?_, hrow]
    rintro rfl
    cases hfound.symm.trans hrow
    exact hstatus hsucceeded
  have hactive : ∀ {found : JobRecord}, found.status.isActive = true →
      found.status ≠ .succeeded := by
    intro found hactive hstatus
    rw [hstatus] at hactive
    cases hactive
  cases h with
  | unchanged | registered => exact ⟨row, hrow, hsucceeded⟩
  | submitted _ _ _ _ hinsert => exact hinserted hinsert
  | reserved _ _ _ _ _ _ hinsert _ => exact hinserted hinsert
  | staged _ _ _ _ _ _ hinsert => exact hinserted hinsert
  | cancelled _ _ stored active =>
      rw [releaseIncrementalReservation_jobs]
      exact hmodified stored (hactive active)
  | retried _ _ stored checked =>
      refine hmodified stored fun hstatus => ?_
      have hresettable := retryCheck_resettable checked
      rw [hstatus] at hresettable
      cases hresettable
  | exhausted _ _ _ _ stored eligible =>
      rw [releaseIncrementalReservation_jobs]
      exact hmodified stored (hactive (eligible_active eligible))
  | claimed _ _ _ _ stored eligible =>
      exact hmodified stored (hactive (eligible_active eligible))
  | renewed _ _ _ stored owned => exact hmodified stored (hactive (ownedBy_active owned))
  | checkpointed _ _ _ _ stored owned =>
      exact hmodified stored (hactive (ownedBy_active owned))
  | published _ _ _ _ _ stored owned =>
      exact hmodified stored (hactive (ownedBy_active owned))
  | applied _ _ _ _ _ stored owned => exact hmodified stored (hactive (ownedBy_active owned))
  | succeeded _ _ _ _ _ stored owned =>
      exact hmodified stored (hactive (ownedBy_active owned))
  | rescheduled _ _ _ _ _ _ stored owned =>
      exact hmodified stored (hactive (ownedBy_active owned))
  | failed _ _ _ _ _ _ stored owned =>
      rw [releaseIncrementalReservation_jobs]
      exact hmodified stored (hactive (ownedBy_active owned))

/-- An append job that was not there before comes from a staging transaction. -/
theorem Commit.append_origin (h : Commit config db call db') (houtside : call.isIngestion = false)
    {jobId : Uuid} {row' : JobRecord} (hrow' : db'.jobs.find? jobId = some row')
    (happend : row'.kind = .offlineAppend) :
    ∃ row, db.jobs.find? jobId = some row ∧ row.kind = .offlineAppend ∧
      row.payload = row'.payload := by
  have hinserted : ∀ {new : JobRecord} {jobs : JobTable}, db.jobs.insert? new = some jobs →
      new.kind ≠ .offlineAppend → jobs.find? jobId = some row' →
      ∃ row, db.jobs.find? jobId = some row ∧ row.kind = .offlineAppend ∧
        row.payload = row'.payload := by
    intro new jobs hinsert hkind hfind
    rw [Table.find?_insert hinsert] at hfind
    split at hfind
    · cases hfind
      exact absurd happend hkind
    · exact ⟨row', hfind, happend, rfl⟩
  have hmodified : ∀ {k : Uuid} {a : Assignment JobRecord.id JobRecord.id},
      (∀ r, (a.set r).kind = r.kind ∧ (a.set r).payload = r.payload) →
      (db.jobs.modify k a).find? jobId = some row' →
      ∃ row, db.jobs.find? jobId = some row ∧ row.kind = .offlineAppend ∧
        row.payload = row'.payload := by
    intro k a hkeeps hfind
    rw [Table.find?_modify] at hfind
    split at hfind
    · rename_i hk
      subst hk
      obtain ⟨row, hrow, rfl⟩ := Option.map_eq_some_iff.mp hfind
      exact ⟨row, hrow, (hkeeps row).1.symm.trans happend, (hkeeps row).2.symm⟩
    · exact ⟨row', hfind, happend, rfl⟩
  cases h with
  | unchanged => exact ⟨row', hrow', happend, rfl⟩
  | registered | staged => cases houtside
  | submitted _ _ _ notAppend hinsert => exact hinserted hinsert notAppend hrow'
  | reserved _ _ _ _ _ _ hinsert _ =>
      exact hinserted hinsert (by simp [newJobRecord]) hrow'
  | cancelled | exhausted | failed =>
      rw [releaseIncrementalReservation_jobs] at hrow'
      exact hmodified (fun _ => ⟨rfl, rfl⟩) hrow'
  | retried | claimed | renewed | checkpointed | published | applied | succeeded
  | rescheduled => exact hmodified (fun _ => ⟨rfl, rfl⟩) hrow'

/-- The job of a record that stays staged goes on waiting. -/
theorem Commit.awaiting_of_staged (h : Commit config db call db')
    (hcopy : ∀ job ∈ call.job?, job.SnapshotIn db) {record : StreamEventRecord}
    (hrecord : record ∈ db'.streamEvents.rows) (hstaged : record.state = .staged)
    {job : JobRecord} (hlinked : record.jobId = some job.id)
    (hstored : db.jobs.find? job.id = some job) (hwaiting : job.Awaiting) :
    ∃ job', record.jobId = some job'.id ∧ db'.jobs.find? job'.id = some job' ∧
      job'.Awaiting ∧ job'.payload = job.payload := by
  rcases h.awaiting hcopy hstored hwaiting with ⟨job', hstored', hwaiting'⟩ | ⟨now, happlied⟩
  · have hid := Table.key_of_find? hstored'
    obtain ⟨row', hrow', _, hpayload⟩ := h.job_kept hstored
    cases hstored'.symm.trans hrow'
    exact ⟨job', hid ▸ hlinked, hid ▸ hstored', hwaiting', hpayload⟩
  · -- The success of the job has left none of its records staged.
    rw [happlied, Table.update_rows] at hrecord
    obtain ⟨before, _, rfl⟩ := List.mem_map.mp hrecord
    split at hstaged
    · cases hstaged
    · rename_i hguard
      rw [if_neg hguard] at hlinked
      exact absurd (appliedGuard_iff.mpr ⟨hlinked, hstaged⟩) hguard

end Commits

end FeatureStore
