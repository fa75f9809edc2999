import FeatureStore.ControlPlane
import FeatureStore.Library.Reservation

/-!
# The incremental reservation

`materialization_states.active_job_id` is the owner of a slot, one for each
feature view, which the active incremental jobs of the view occupy. Every commit
is a step of these slots, so a view has at most one active incremental job, and
that job is the one its state row names.
-/

namespace FeatureStore

open Relational Reservation

/-- The job that the state row of a view names. -/
def reservationOf (states : MaterializationStateTable) (featureView : String) : Option Uuid :=
  (states.find? featureView).bind (·.activeJobId)

/-- `jobId` is an incremental job which is pending, retrying or running, and whose
request names this view and this cutoff. -/
def ActiveRequest (jobs : JobTable) (jobId : Uuid) (request : String × Instant) : Prop :=
  ∃ job, jobs.find? jobId = some job ∧ job.incremental? = some request ∧
    job.status.isActive = true

/-- `jobId` is an incremental job of the view which is pending, retrying or running. -/
def ActiveIncremental (jobs : JobTable) (jobId : Uuid) (featureView : String) : Prop :=
  ∃ cutoff, ActiveRequest jobs jobId (featureView, cutoff)

/-- The reservations of a database, as the library sees them. -/
def slotsOf (db : Database) : Slots Uuid String :=
  ⟨ActiveIncremental db.jobs, reservationOf db.materializationStates⟩

section Tables

variable {jobs jobs' : JobTable} {states states' : MaterializationStateTable}

theorem activeRequest_insert {row : JobRecord} (h : jobs.insert? row = some jobs')
    {jobId : Uuid} {request : String × Instant} (hactive : ActiveRequest jobs' jobId request) :
    ActiveRequest jobs jobId request ∨ jobId = row.id ∧ row.incremental? = some request := by
  obtain ⟨job, hjob, hincremental, hstatus⟩ := hactive
  rw [Table.find?_insert h] at hjob
  split at hjob
  · rename_i hid
    cases hjob
    exact Or.inr ⟨hid, hincremental⟩
  · exact Or.inl ⟨job, hjob, hincremental, hstatus⟩

/-- An assignment that keeps the request of a job only decides whether it stays active. -/
theorem activeRequest_modify {k : Uuid} {a : Assignment JobRecord.id JobRecord.id}
    (hkeeps : ∀ row, (a.set row).incremental? = row.incremental?) {jobId : Uuid}
    {request : String × Instant} (hactive : ActiveRequest (jobs.modify k a) jobId request) :
    ActiveRequest jobs jobId request ∧ jobId ≠ k ∨
      jobId = k ∧ ∃ row, jobs.find? k = some row ∧ row.incremental? = some request ∧
        (a.set row).status.isActive = true := by
  obtain ⟨job, hjob, hincremental, hstatus⟩ := hactive
  rw [Table.find?_modify] at hjob
  split at hjob
  · rename_i hid
    obtain ⟨row, hrow, rfl⟩ := Option.map_eq_some_iff.mp hjob
    exact Or.inr ⟨hid, row, hrow, (hkeeps row).symm.trans hincremental, hstatus⟩
  · rename_i hid
    exact Or.inl ⟨⟨job, hjob, hincremental, hstatus⟩, hid⟩

/-- An assignment that activates no job keeps the active ones. -/
theorem activeRequest_of_modify {k : Uuid} {a : Assignment JobRecord.id JobRecord.id}
    (hkeeps : ∀ row, (a.set row).incremental? = row.incremental?)
    (hstatus : ∀ row, jobs.find? k = some row → (a.set row).status.isActive = true →
      row.status.isActive = true)
    {jobId : Uuid} {request : String × Instant}
    (hactive : ActiveRequest (jobs.modify k a) jobId request) :
    ActiveRequest jobs jobId request := by
  rcases activeRequest_modify hkeeps hactive with
    ⟨hbefore, _⟩ | ⟨rfl, row, hrow, hincremental, hnow⟩
  · exact hbefore
  · exact ⟨row, hrow, hincremental, hstatus row hrow hnow⟩

/-- A job that an assignment ends is not among the active jobs afterwards. -/
theorem activeRequest_of_ended {k : Uuid} {a : Assignment JobRecord.id JobRecord.id}
    (hkeeps : ∀ row, (a.set row).incremental? = row.incremental?)
    (hended : ∀ row, (a.set row).status.isActive = false) {jobId : Uuid}
    {request : String × Instant} (hactive : ActiveRequest (jobs.modify k a) jobId request) :
    ActiveRequest jobs jobId request ∧ jobId ≠ k := by
  rcases activeRequest_modify hkeeps hactive with hbefore | ⟨_, row, _, _, hnow⟩
  · exact hbefore
  · exact absurd hnow (by simp [hended row])

theorem reservationOf_reserve {featureView : String} {jobId : Uuid} {now : Instant}
    (h : reserve? states featureView jobId now = some states') (k : String) :
    reservationOf states' k = if k = featureView then some jobId else reservationOf states k := by
  unfold reserve? at h
  unfold reservationOf
  cases hstate : states.find? featureView with
  | some state =>
      rw [hstate] at h
      cases h
      rw [Table.find?_modify, hstate]
      split <;> rfl
  | none =>
      rw [hstate] at h
      rw [Table.find?_insert h]
      change (if k = featureView then _ else _ : Option MaterializationState).bind _ = _
      split <;> rfl

/-- A release drops no reservation but that of its own job. -/
theorem reservationOf_release {db : Database} {job : JobRecord} {now : Instant}
    {featureView : String} {jobId : Uuid} (hne : jobId ≠ job.id)
    (hheld : reservationOf db.materializationStates featureView = some jobId) :
    reservationOf (releaseIncrementalReservation db job now).materializationStates featureView =
      some jobId := by
  unfold releaseIncrementalReservation
  split
  · exact hheld
  · obtain ⟨state, hstate, hactive⟩ := Option.bind_eq_some_iff.mp hheld
    rw [reservationOf, Table.find?_update, hstate]
    have hother : ¬jobId = job.id := hne
    simp [hactive, hother]

theorem reservationOf_setWatermark {featureView : String} {jobId : Uuid} {cutoff : Instant}
    {freshness : Option Instant} {now : Instant} {k : String} {i : Uuid}
    (howner : reservationOf states featureView = some jobId) (hne : i ≠ jobId)
    (hheld : reservationOf states k = some i) :
    reservationOf (states.modify featureView (setWatermark jobId cutoff freshness now)) k =
      some i := by
  have hk : k ≠ featureView := by
    rintro rfl
    exact hne (Option.some.inj (hheld.symm.trans howner))
  rw [reservationOf, Table.find?_modify_ne _ _ hk]
  exact hheld

/-- `activeReservation?` finds the active incremental job that owns the view. -/
theorem activeReservation?_of_active {db : Database} {jobId : Uuid} {featureView : String}
    (howner : reservationOf db.materializationStates featureView = some jobId)
    (hactive : ActiveIncremental db.jobs jobId featureView) :
    ∃ active, activeReservation? db featureView = some active ∧ active.id = jobId := by
  obtain ⟨state, hstate, hnamed⟩ := Option.bind_eq_some_iff.mp howner
  obtain ⟨_, job, hjob, _, hstatus⟩ := hactive
  refine ⟨job, ?_, Table.key_of_find? hjob⟩
  simp [activeReservation?, hstate, hnamed, hjob, hstatus]

end Tables

theorem failureStatus_inactive {job : JobRecord} {exc : PyException}
    (h : failureStatus job exc ≠ .retrying) : (failureStatus job exc).isActive = false := by
  unfold failureStatus at h ⊢
  split
  · rfl
  · split <;> simp_all [JobStatus.isActive]

theorem eligible_active {job : JobRecord} {now : Instant} (h : job.eligible now = true) :
    job.status.isActive = true := by
  unfold JobRecord.eligible at h
  cases hstatus : job.status <;> simp_all [JobStatus.isActive]

theorem ownedBy_active {row : JobRecord} {token : Uuid} {now : Instant}
    (h : row.ownedBy token now = true) : row.status.isActive = true := by
  unfold JobRecord.ownedBy at h
  have hrunning : row.status = .running := by simp_all
  rw [hrunning]
  rfl

section Commits

variable {config : Config} {db db' : Database} {call : Call}

/-- A job that ends leaves its slot; the owner entries of the others stay. -/
theorem slots_step_of_ended {jobId : Uuid} {a : Assignment JobRecord.id JobRecord.id}
    {states : MaterializationStateTable} {streamEvents : StreamEventTable}
    (hkeeps : ∀ row, (a.set row).incremental? = row.incremental?)
    (hended : ∀ row, (a.set row).status.isActive = false)
    (hstates : ∀ {i k}, i ≠ jobId → reservationOf db.materializationStates k = some i →
      reservationOf states k = some i) :
    Slots.Step (slotsOf db) (slotsOf ⟨db.jobs.modify jobId a, states, streamEvents⟩) := by
  refine .leave ?_ ?_
  · rintro i k ⟨cutoff, hactive⟩
    exact ⟨cutoff, (activeRequest_of_ended hkeeps hended hactive).1⟩
  · rintro i k ⟨cutoff, hactive⟩ howner
    exact hstates (activeRequest_of_ended hkeeps hended hactive).2 howner

/-- A job that ends and releases its reservation leaves its slot. -/
theorem slots_step_of_released {job : JobRecord} {now : Instant}
    {a : Assignment JobRecord.id JobRecord.id}
    (hkeeps : ∀ row, (a.set row).incremental? = row.incremental?)
    (hended : ∀ row, (a.set row).status.isActive = false) :
    Slots.Step (slotsOf db) (slotsOf (releaseIncrementalReservation
      { db with jobs := db.jobs.modify job.id a } job now)) := by
  refine .leave ?_ ?_
  · rintro i k ⟨cutoff, hactive⟩
    rw [releaseIncrementalReservation_jobs] at hactive
    exact ⟨cutoff, (activeRequest_of_ended hkeeps hended hactive).1⟩
  · rintro i k ⟨cutoff, hactive⟩ howner
    rw [releaseIncrementalReservation_jobs] at hactive
    refine reservationOf_release (activeRequest_of_ended hkeeps hended hactive).2 ?_
    exact howner

/-- A job that changes within its active statuses keeps its slot. -/
theorem slots_step_of_kept {jobId : Uuid} {a : Assignment JobRecord.id JobRecord.id}
    (hkeeps : ∀ row, (a.set row).incremental? = row.incremental?)
    (hstatus : ∀ row, db.jobs.find? jobId = some row → (a.set row).status.isActive = true →
      row.status.isActive = true) :
    Slots.Step (slotsOf db) (slotsOf { db with jobs := db.jobs.modify jobId a }) := by
  refine .leave ?_ fun _ howner => howner
  rintro i k ⟨cutoff, hactive⟩
  exact ⟨cutoff, activeRequest_of_modify hkeeps hstatus hactive⟩

/-- A new job that is not incremental takes no slot. -/
theorem slots_step_of_plain {row : JobRecord} {jobs : JobTable} {streamEvents : StreamEventTable}
    (hinsert : db.jobs.insert? row = some jobs) (hplain : row.incremental? = none) :
    Slots.Step (slotsOf db) (slotsOf ⟨jobs, db.materializationStates, streamEvents⟩) := by
  refine .leave ?_ fun _ howner => howner
  rintro i k ⟨cutoff, hactive⟩
  rcases activeRequest_insert hinsert hactive with hbefore | ⟨_, hincremental⟩
  · exact ⟨cutoff, hbefore⟩
  · cases hplain.symm.trans hincremental

/-- `retry` takes the slot of its view only when no other job occupies it. -/
theorem reacquire_step {job : JobRecord} {now : Instant} {reserved : Database}
    (hsound : (slotsOf db).Sound) (h : reacquire db job now = .ok reserved)
    {jobs : JobTable}
    (hjobs : ∀ {j request}, ActiveRequest jobs j request →
      ActiveRequest db.jobs j request ∨ j = job.id ∧ job.incremental? = some request) :
    Slots.Step (slotsOf db) (slotsOf { reserved with jobs := jobs }) := by
  unfold reacquire at h
  split at h
  · rename_i hplain
    cases h
    refine .leave ?_ fun _ howner => howner
    rintro i k ⟨cutoff, hactive⟩
    rcases hjobs hactive with hbefore | ⟨_, hincremental⟩
    · exact ⟨cutoff, hbefore⟩
    · cases hplain.symm.trans hincremental
  · rename_i featureView cutoff hincremental
    split at h
    · cases h
    · rename_i hfree
      split at h
      · cases h
      · rename_i states hstates
        cases h
        refine .enter job.id featureView ?_ ?_ ?_ ?_
        · intro j hactive
          obtain ⟨active, hfound, hid⟩ := activeReservation?_of_active (hsound hactive) hactive
          by_contra hne
          rw [hfound] at hfree
          simp [hid, hne] at hfree
        · rintro j k ⟨cutoff', hactive⟩
          rcases hjobs hactive with hbefore | ⟨hj, hincremental'⟩
          · exact Or.inl ⟨cutoff', hbefore⟩
          · cases hincremental.symm.trans hincremental'
            exact Or.inr ⟨hj, rfl⟩
        · exact (reservationOf_reserve hstates featureView).trans (if_pos rfl)
        · exact fun hne => (reservationOf_reserve hstates _).trans (if_neg hne)

theorem newJobRecord_incremental? {settings : Settings} {id : Uuid} {kind : JobKind}
    {payload : JobPayload} {artifactUri : Option String} {now : Instant}
    (h : payload.incremental? = none ∨ kind ≠ .materialize) :
    (newJobRecord settings id kind payload artifactUri now).incremental? = none := by
  rcases h with hpayload | hkind
  · simp [newJobRecord, JobRecord.incremental?, hpayload]
  · simp [newJobRecord, JobRecord.incremental?, hkind]

/-- Every commit is a step of the reservations. -/
theorem Commit.slots_step (h : Commit config db call db') (hsound : (slotsOf db).Sound) :
    Slots.Step (slotsOf db) (slotsOf db') := by
  cases h with
  | unchanged => exact .leave id fun _ howner => howner
  | submitted _ _ hplain _ hinsert =>
      exact slots_step_of_plain hinsert (newJobRecord_incremental? (Or.inl hplain))
  | @reserved request _ _ now id jobs states hinactive _ hinsert hacquired =>
      refine .enter id request.featureView ?_ ?_ ?_ ?_
      · intro j hactive
        obtain ⟨_, hfound, _⟩ := activeReservation?_of_active (hsound hactive) hactive
        cases hinactive.symm.trans hfound
      · rintro j k ⟨cutoff, hactive⟩
        rcases activeRequest_insert hinsert hactive with hbefore | ⟨hid, hincremental⟩
        · exact Or.inl ⟨cutoff, hbefore⟩
        · cases hincremental
          exact Or.inr ⟨hid, rfl⟩
      · exact (reservationOf_reserve hacquired _).trans (if_pos rfl)
      · exact fun hne => (reservationOf_reserve hacquired _).trans (if_neg hne)
  | cancelled jobId now stored =>
      have hid := Table.key_of_find? stored
      subst hid
      exact slots_step_of_released (fun _ => rfl) fun _ => rfl
  | retried jobId now stored checked acquired =>
      have hid := Table.key_of_find? stored
      subst hid
      refine reacquire_step hsound acquired fun hactive => ?_
      rcases activeRequest_modify (fun _ => rfl) hactive with
        ⟨hbefore, _⟩ | ⟨rfl, row, hrow, hincremental, _⟩
      · exact Or.inl hbefore
      · cases stored.symm.trans hrow
        exact Or.inr ⟨rfl, hincremental⟩
  | exhausted owner now locked token stored =>
      exact slots_step_of_released (fun _ => rfl) fun _ => rfl
  | claimed owner now locked token stored eligible =>
      refine slots_step_of_kept (fun _ => rfl) fun row hrow _ => ?_
      cases stored.symm.trans hrow
      exact eligible_active eligible
  | renewed | checkpointed =>
      exact slots_step_of_kept (fun _ => rfl) fun _ _ hactive => hactive
  | published job token now _ _ stored owned incremental reservation held =>
      refine slots_step_of_ended (fun _ => rfl) (fun _ => rfl) fun hne howner => ?_
      exact reservationOf_setWatermark (by rw [reservationOf, reservation]; exact held) hne howner
  | applied | succeeded =>
      exact slots_step_of_ended (fun _ => rfl) (fun _ => rfl) fun _ howner => howner
  | rescheduled job token now exc _ _ stored owned =>
      refine slots_step_of_kept (fun _ => rfl) fun row hrow _ => ?_
      cases stored.symm.trans hrow
      exact ownedBy_active owned
  | failed job token now exc _ _ stored owned status =>
      exact slots_step_of_released (fun _ => rfl) fun _ => failureStatus_inactive status
  | registered => exact .leave id fun _ howner => howner
  | staged _ _ _ _ _ _ hinsert =>
      exact slots_step_of_plain hinsert (newJobRecord_incremental? (Or.inl rfl))

end Commits

section Errors

variable {db : Database}

theorem refreshJob_of_find? {jobId : Uuid} {job : JobRecord}
    (h : db.jobs.find? jobId = some job) : refreshJob db jobId = .ok job := by
  rw [refreshJob, h]

/-- A creating method that raises has committed nothing. -/
theorem createIncrementalPasses_error {settings : Settings} {featureView : String}
    {cutoff : Instant} {lookback : Nat} {now : Instant} {ids : List Uuid} {exc : PyException}
    (h : (createIncrementalPasses settings db featureView cutoff lookback now ids).2 =
      .error exc) :
    (createIncrementalPasses settings db featureView cutoff lookback now ids).1 = db := by
  induction ids with
  | nil => rfl
  | cons id rest ih =>
      unfold createIncrementalPasses at h ⊢
      cases hactive : activeReservation? db featureView with
      | some active => rfl
      | none =>
          rw [hactive] at h
          dsimp only at h ⊢
          split at h
          · rename_i hbehind
            rw [if_pos hbehind]
          · rename_i hahead
            rw [if_neg hahead]
            cases hinsert : insertReserved? settings db featureView cutoff lookback id now with
            | none =>
                rw [hinsert] at h
                cases rest with
                | nil => rfl
                | cons _ _ => exact ih h
            | some committed =>
                rw [hinsert] at h
                have hstored : ∃ job, committed.jobs.find? id = some job := by
                  unfold insertReserved? at hinsert
                  split at hinsert
                  · cases hinsert
                  · rename_i jobs hjobs
                    split at hinsert <;> cases hinsert
                    exact ⟨_, (Table.find?_insert hjobs id).trans (if_pos rfl)⟩
                obtain ⟨job, hjob⟩ := hstored
                cases (refreshJob_of_find? hjob).symm.trans h

/-- `retry` raises without a commit. -/
theorem retry_error {settings : Settings} {jobId : Uuid} {now : Instant} {exc : PyException}
    (h : (retry settings db jobId now).2 = .error exc) :
    (retry settings db jobId now).1 = db := by
  unfold retry at h ⊢
  cases hjob : db.jobs.find? jobId with
  | none => rfl
  | some job =>
      rw [hjob] at h
      dsimp only at h ⊢
      cases hcheck : retryCheck job now with
      | error exc => rfl
      | ok _ =>
          rw [hcheck] at h
          dsimp only at h ⊢
          cases hacquire : reacquire db job now with
          | error exc => rfl
          | ok reserved =>
              rw [hacquire] at h
              dsimp only at h ⊢
              unfold retryUpdate at h ⊢
              dsimp only at h ⊢
              split at h
              · rename_i hcount
                rw [if_pos hcount]
              · -- The committed row is there to be refreshed.
                have hrow := Table.find?_update reserved.jobs
                  (fun row : JobRecord => decide (row.id = jobId) && row.status.isResettable)
                  (setRetried settings) jobId
                have hstored : reserved.jobs.find? jobId = some job := by
                  rw [reacquire_jobs hacquire, hjob]
                rw [hstored] at hrow
                exact absurd ((refreshJob_of_find? hrow).symm.trans h) (by simp)

/-- A finalization under a held lease finds the reservation of its job. -/
theorem finalizeSuccess_ok (hsound : (slotsOf db).Sound) (settings : Settings)
    {job row : JobRecord} {token : Uuid} {now : Instant} (resultUri : Option String)
    (resultMetadata : Option ResultMetadata) (hsnapshot : job.SnapshotIn db)
    (hrow : db.jobs.find? job.id = some row) (howned : row.ownedBy token now = true) :
    ∃ updated, (finalizeSuccess settings db job token now resultUri resultMetadata).2 =
      .ok updated := by
  have hincremental : row.incremental? = job.incremental? := by
    obtain ⟨stored, hstored, hkind, hpayload⟩ := hsnapshot
    cases hstored.symm.trans hrow
    rw [JobRecord.incremental?, hkind, hpayload]
    rfl
  have hrefresh : ∀ (a : Assignment JobRecord.id JobRecord.id) states streamEvents,
      refreshJob ⟨db.jobs.modify job.id a, states, streamEvents⟩ job.id = .ok (a.set row) := by
    intro a states streamEvents
    exact refreshJob_of_find? ((Table.find?_modify_self _ _ _).trans (by rw [hrow]; rfl))
  unfold finalizeSuccess
  obtain ⟨hcount, hupdate⟩ :=
    Table.update_hit (fun row : JobRecord => row.ownedBy token now) hrow howned
  change db.jobs.rowcount (leaseGuard job.id token now) ≠ 0 at hcount
  change ∀ a, db.jobs.update (leaseGuard job.id token now) a = _ at hupdate
  rw [if_neg hcount, hupdate]
  dsimp only
  split
  · rename_i featureView cutoff hjob
    have howner : reservationOf db.materializationStates featureView = some job.id :=
      hsound ⟨cutoff, row, hrow, hincremental.trans hjob, ownedBy_active howned⟩
    obtain ⟨state, hstate, hheld⟩ := Option.bind_eq_some_iff.mp howner
    obtain ⟨hcount, _⟩ := Table.update_hit
      (fun state : MaterializationState => decide (state.activeJobId = some job.id)) hstate
      (by simp [hheld])
    change db.materializationStates.rowcount (reservationGuard featureView job.id) ≠ 0 at hcount
    rw [if_neg hcount]
    exact ⟨_, hrefresh _ _ _⟩
  · split <;> exact ⟨_, hrefresh _ _ _⟩

end Errors

namespace ControlPlane

theorem step_slots_sound (config : Config) (s : ControlPlane) (call : Call)
    (h : (slotsOf s.db).Sound) : (slotsOf (s.step config call).db).Sound := by
  rcases step_commit config s call with hsame | ⟨_, hcommit⟩
  · rw [hsame]
    exact h
  · exact (hcommit.slots_step h).sound h

theorem run_slots_sound (config : Config) (calls : List Call) :
    (slotsOf (initial.run config calls).db).Sound := by
  refine Execution.invariant (step_slots_sound config) ?_ calls
  rintro jobId featureView ⟨cutoff, job, hjob, _⟩
  cases hjob

/-- In every reachable state a view has at most one active incremental job, which
its state row names; a finalization under a held lease cannot lose it, and a
creation or a retry that raises leaves the tables as they were. -/
theorem reservation_exclusive (config : Config) (calls : List Call) :
    let db := (initial.run config calls).db
    (∀ featureView i j, ActiveIncremental db.jobs i featureView →
      ActiveIncremental db.jobs j featureView → i = j) ∧
    (∀ featureView i, ActiveIncremental db.jobs i featureView →
      reservationOf db.materializationStates featureView = some i) ∧
    (∀ job row token now resultUri resultMetadata, job.SnapshotIn db →
      db.jobs.find? job.id = some row → row.ownedBy token now = true →
      ∃ updated, (finalizeSuccess config.settings db job token now resultUri
        resultMetadata).2 = .ok updated) ∧
    (∀ request firstId secondId now exc,
      (createIncrementalMaterialization config.settings db request firstId secondId now).2 =
        .error exc →
      (createIncrementalMaterialization config.settings db request firstId secondId now).1 =
        db) ∧
    ∀ jobId now exc, (retry config.settings db jobId now).2 = .error exc →
      (retry config.settings db jobId now).1 = db := by
  intro db
  have hsound : (slotsOf db).Sound := run_slots_sound config calls
  refine ⟨?_, ?_, ?_, ?_, ?_⟩
  · intro featureView i j hi hj
    exact hsound.exclusive hi hj
  · intro featureView i hi
    exact hsound hi
  · intro job row token now resultUri resultMetadata hsnapshot hrow howned
    exact finalizeSuccess_ok hsound config.settings resultUri resultMetadata hsnapshot hrow howned
  · intro request firstId secondId now exc h
    exact createIncrementalPasses_error h
  · intro jobId now exc h
    exact retry_error h

end ControlPlane

end FeatureStore
