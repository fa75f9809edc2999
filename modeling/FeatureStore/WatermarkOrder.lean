import FeatureStore.IncrementalReservation

/-!
# The order of watermarks

A successful incremental job publishes its cutoff as the watermark of its view.
`create_incremental_materialization` refuses a cutoff behind the watermark, but
`retry` puts a job back into execution without that comparison. Watermarks never
go back in the runs whose retries are not behind them.
-/

namespace FeatureStore

open Relational Reservation

/-- The watermark of a view, if one has been published. -/
def watermarkOf (states : MaterializationStateTable) (featureView : String) : Option Instant :=
  (states.find? featureView).bind (·.watermark)

/-- The watermarks of a database, as the library sees them. -/
def frontiersOf (db : Database) : Frontiers Uuid String Instant :=
  ⟨fun jobId featureView cutoff => ActiveRequest db.jobs jobId (featureView, cutoff),
    watermarkOf db.materializationStates⟩

/-- A retry that `retry` can accept is not behind the watermark of its view. -/
def RetryAhead (db : Database) : Call → Prop
  | .retry jobId _ => ∀ job ∈ db.jobs.find? jobId, job.isRetryable = true →
      ∀ request ∈ job.incremental?,
        ∀ watermark ∈ watermarkOf db.materializationStates request.1, watermark ≤ request.2
  | .createBackfill .. | .createMaterialization .. | .createHistoricalQuery ..
  | .createIncrementalMaterialization .. | .cancel .. | .claimPass .. | .heartbeat ..
  | .commitCheckpoints .. | .finalizeSuccess .. | .finalizeFailure .. | .register ..
  | .stageBatch .. => True

instance (db : Database) (call : Call) : Decidable (RetryAhead db call) := by
  cases call <;> unfold RetryAhead <;> infer_instance

section Tables

variable {states states' : MaterializationStateTable}

theorem watermarkOf_reserve {featureView : String} {jobId : Uuid} {now : Instant}
    (h : reserve? states featureView jobId now = some states') (k : String) :
    watermarkOf states' k = watermarkOf states k := by
  unfold reserve? at h
  unfold watermarkOf
  cases hstate : states.find? featureView with
  | some state =>
      rw [hstate] at h
      cases h
      rw [Table.find?_modify, hstate]
      split
      · rename_i hk
        subst k
        rw [hstate]
        rfl
      · rfl
  | none =>
      rw [hstate] at h
      rw [Table.find?_insert h]
      change (if k = featureView then _ else _ : Option MaterializationState).bind _ = _
      split
      · rename_i hk
        subst k
        rw [hstate]
        rfl
      · rfl

@[simp] theorem watermarkOf_release (db : Database) (job : JobRecord) (now : Instant)
    (k : String) :
    watermarkOf (releaseIncrementalReservation db job now).materializationStates k =
      watermarkOf db.materializationStates k := by
  unfold releaseIncrementalReservation
  split
  · rfl
  · rw [watermarkOf, Table.find?_update, watermarkOf]
    cases db.materializationStates.find? k with
    | none => rfl
    | some state =>
        rw [Option.map_some, Option.bind_some, Option.bind_some]
        split <;> rfl

theorem watermarkOf_setWatermark {featureView : String} {state : MaterializationState}
    (hstate : states.find? featureView = some state) (jobId : Uuid) (cutoff : Instant)
    (freshness : Option Instant) (now : Instant) (k : String) :
    watermarkOf (states.modify featureView (setWatermark jobId cutoff freshness now)) k =
      if k = featureView then some cutoff else watermarkOf states k := by
  rw [watermarkOf, Table.find?_modify, hstate]
  split <;> rfl

theorem watermarkOf_reacquire {db reserved : Database} {job : JobRecord} {now : Instant}
    (h : reacquire db job now = .ok reserved) (k : String) :
    watermarkOf reserved.materializationStates k = watermarkOf db.materializationStates k := by
  unfold reacquire at h
  split at h
  · cases h
    rfl
  · split at h
    · cases h
    · split at h
      · cases h
      · rename_i states hstates
        cases h
        exact watermarkOf_reserve hstates k

end Tables

theorem isRetryable_of_retryCheck {job : JobRecord} {now : Instant}
    (h : retryCheck job now = .ok ()) : job.isRetryable = true := by
  unfold retryCheck at h
  split at h
  · assumption
  · cases h

section Commits

variable {config : Config} {db db' : Database} {call : Call}

theorem frontiers_step_of_kept {jobId : Uuid} {a : Assignment JobRecord.id JobRecord.id}
    {states : MaterializationStateTable} {streamEvents : StreamEventTable}
    (hkeeps : ∀ row, (a.set row).incremental? = row.incremental?)
    (hstatus : ∀ row, db.jobs.find? jobId = some row → (a.set row).status.isActive = true →
      row.status.isActive = true)
    (hstates : ∀ k, watermarkOf states k = watermarkOf db.materializationStates k) :
    Frontiers.Step (frontiersOf db)
      (frontiersOf ⟨db.jobs.modify jobId a, states, streamEvents⟩) :=
  .quiet (fun hactive => Or.inl (activeRequest_of_modify hkeeps hstatus hactive)) hstates

theorem frontiers_step_of_released {job : JobRecord} {now : Instant}
    {a : Assignment JobRecord.id JobRecord.id}
    (hkeeps : ∀ row, (a.set row).incremental? = row.incremental?)
    (hended : ∀ row, (a.set row).status.isActive = false) :
    Frontiers.Step (frontiersOf db) (frontiersOf (releaseIncrementalReservation
      { db with jobs := db.jobs.modify job.id a } job now)) := by
  refine .quiet ?_ fun k => watermarkOf_release _ job now k
  intro i k cutoff hactive
  change ActiveRequest (releaseIncrementalReservation _ job now).jobs _ _ at hactive
  rw [releaseIncrementalReservation_jobs] at hactive
  exact Or.inl (activeRequest_of_ended hkeeps hended hactive).1

theorem frontiers_step_of_plain {row : JobRecord} {jobs : JobTable}
    {streamEvents : StreamEventTable} (hinsert : db.jobs.insert? row = some jobs)
    (hplain : row.incremental? = none) :
    Frontiers.Step (frontiersOf db)
      (frontiersOf ⟨jobs, db.materializationStates, streamEvents⟩) := by
  refine .quiet ?_ fun _ => rfl
  intro i k cutoff hactive
  rcases activeRequest_insert hinsert hactive with hbefore | ⟨_, hincremental⟩
  · exact Or.inl hbefore
  · cases hplain.symm.trans hincremental

/-- Every commit is a step of the watermarks, unless it is a retry behind one. -/
theorem Commit.frontiers_step (h : Commit config db call db') (hslots : (slotsOf db).Sound)
    (hcopy : ∀ job ∈ call.job?, job.SnapshotIn db) (hretry : RetryAhead db call) :
    Frontiers.Step (frontiersOf db) (frontiersOf db') := by
  cases h with
  | unchanged => exact .quiet (fun hactive => Or.inl hactive) fun _ => rfl
  | submitted _ _ hplain _ hinsert =>
      exact frontiers_step_of_plain hinsert (newJobRecord_incremental? (Or.inl hplain))
  | @reserved request _ _ now id jobs states _ hahead hinsert hacquired =>
      refine .quiet ?_ (watermarkOf_reserve hacquired)
      intro i k cutoff hactive
      rcases activeRequest_insert hinsert hactive with hbefore | ⟨_, hincremental⟩
      · exact Or.inl hbefore
      · cases hincremental
        refine Or.inr fun hwatermark => ?_
        obtain ⟨state, hstate, hwatermark⟩ := Option.bind_eq_some_iff.mp hwatermark
        exact hahead hstate hwatermark
  | cancelled jobId now stored =>
      have hid := Table.key_of_find? stored
      subst hid
      exact frontiers_step_of_released (fun _ => rfl) fun _ => rfl
  | @retried jobId now job reserved stored checked acquired =>
      have hkept := watermarkOf_reacquire acquired
      refine .quiet ?_ hkept
      intro i k cutoff hactive
      rcases activeRequest_modify (fun _ => rfl) hactive with
        ⟨hbefore, _⟩ | ⟨_, row, hrow, hincremental, _⟩
      · exact Or.inl hbefore
      · cases stored.symm.trans hrow
        exact Or.inr fun hwatermark => hretry job stored (isRetryable_of_retryCheck checked)
          (k, cutoff) hincremental _ hwatermark
  | exhausted => exact frontiers_step_of_released (fun _ => rfl) fun _ => rfl
  | claimed owner now locked token stored eligible =>
      refine frontiers_step_of_kept (fun _ => rfl) ?_ fun _ => rfl
      intro row hrow _
      cases stored.symm.trans hrow
      exact eligible_active eligible
  | renewed | checkpointed =>
      exact frontiers_step_of_kept (fun _ => rfl) (fun _ _ hactive => hactive) fun _ => rfl
  | @published job token now _ _ row featureView cutoff state stored owned incremental
      reservation held =>
      obtain ⟨row', hrow', hkind, hpayload⟩ := hcopy job rfl
      cases stored.symm.trans hrow'
      have hrequest : ActiveRequest db.jobs job.id (featureView, cutoff) := by
        refine ⟨row, stored, ?_, ownedBy_active owned⟩
        rw [← incremental, JobRecord.incremental?, hkind, hpayload]
        rfl
      refine .publish job.id featureView cutoff hrequest ?_ ?_ ?_ ?_
      · intro j c hactive
        obtain ⟨hbefore, hne⟩ := activeRequest_of_ended (fun _ => rfl) (fun _ => rfl) hactive
        exact hne (hslots.exclusive ⟨c, hbefore⟩ ⟨cutoff, hrequest⟩)
      · intro j k c hactive
        exact (activeRequest_of_ended (fun _ => rfl) (fun _ => rfl) hactive).1
      · exact (watermarkOf_setWatermark reservation _ _ _ _ _).trans (if_pos rfl)
      · exact fun hk => (watermarkOf_setWatermark reservation _ _ _ _ _).trans (if_neg hk)
  | applied | succeeded =>
      exact frontiers_step_of_kept (fun _ => rfl) (fun _ _ hactive => by cases hactive)
        fun _ => rfl
  | rescheduled job token now exc _ _ stored owned =>
      refine frontiers_step_of_kept (fun _ => rfl) ?_ fun _ => rfl
      intro row hrow _
      cases stored.symm.trans hrow
      exact ownedBy_active owned
  | failed job token now exc _ _ stored owned status =>
      exact frontiers_step_of_released (fun _ => rfl) fun _ => failureStatus_inactive status
  | registered => exact .quiet (fun hactive => Or.inl hactive) fun _ => rfl
  | staged _ _ _ _ _ _ hinsert =>
      exact frontiers_step_of_plain hinsert (newJobRecord_incremental? (Or.inl rfl))

end Commits

namespace ControlPlane

/-- The invariant of the runs whose retries are not behind a watermark. -/
structure WatermarksOrdered (s : ControlPlane) : Prop where
  slots : (slotsOf s.db).Sound
  ahead : (frontiersOf s.db).Ahead

theorem initial_ordered : initial.WatermarksOrdered where
  slots := run_slots_sound defaultConfig []
  ahead := by
    rintro jobId featureView cutoff watermark ⟨job, hjob, _⟩
    cases hjob

theorem step_frontiers {config : Config} {s : ControlPlane} {call : Call}
    (h : s.WatermarksOrdered) (hretry : RetryAhead s.db call) :
    Frontiers.Step (frontiersOf s.db) (frontiersOf (s.step config call).db) := by
  rcases step_commit config s call with hsame | ⟨hadmits, hcommit⟩
  · rw [hsame]
    exact .quiet (fun hactive => Or.inl hactive) fun _ => rfl
  · exact hcommit.frontiers_step h.slots hadmits.2 hretry

theorem step_ordered {config : Config} (s : ControlPlane) (call : Call)
    (h : s.WatermarksOrdered) (hretry : RetryAhead s.db call) :
    (s.step config call).WatermarksOrdered where
  slots := step_slots_sound config s call h.slots
  ahead := (step_frontiers h hretry).ahead h.ahead

/-- The step publishes no watermark behind the stored one. -/
def KeepsWatermarks (config : Config) (s : ControlPlane) (call : Call) : Prop :=
  ∀ featureView, Advances (watermarkOf s.db.materializationStates featureView)
    (watermarkOf (s.step config call).db.materializationStates featureView)

/-- In a run whose retries are not behind the watermark of their view, no step
moves a watermark back, and neither does any stretch of the run. -/
theorem watermark_monotone (config : Config) (calls : List Call)
    (h : Execution.Along (step config) (fun s call => RetryAhead s.db call) initial calls) :
    Execution.Along (step config) (KeepsWatermarks config) initial calls ∧
    ∀ first second rest, calls = first ++ second ++ rest → ∀ featureView,
      Advances (watermarkOf (initial.run config first).db.materializationStates featureView)
        (watermarkOf (initial.run config (first ++ second)).db.materializationStates
          featureView) := by
  have hsteps : Execution.Along (step config) (KeepsWatermarks config) initial calls :=
    Execution.along_of (I := WatermarksOrdered) step_ordered
      (fun s call hs hretry => (step_frontiers hs hretry).advances hs.ahead)
      initial_ordered h
  refine ⟨hsteps, ?_⟩
  rintro first second rest rfl featureView
  rw [Execution.along_append, Execution.along_append] at hsteps
  unfold run
  rw [Execution.run_append]
  exact Execution.related_of_along
    (R := fun s t => Advances (watermarkOf s.db.materializationStates featureView)
      (watermarkOf t.db.materializationStates featureView))
    (fun _ => .refl _) Advances.trans
    (Execution.along_mono (fun s call hkeeps => hkeeps featureView) hsteps.1.2)

/-- An incremental request for a view of the sample runs. -/
def sampleRequest (cutoff : Instant) : IncrementalMaterializationRequest :=
  ⟨"driver_stats@1", some cutoff, some 0⟩

/-- A worker's copy of such a job, claimed at time zero. -/
def sampleCopy (id token : Uuid) (cutoff : Instant) : JobRecord :=
  { newJobRecord {} id .materialize (.incremental "driver_stats@1" cutoff 0) none 0 with
    status := .running
    attemptCount := 1
    startedAt := some 0
    workerId := some "worker"
    leaseToken := some token
    leaseExpiresAt := some (seconds 30)
    lastHeartbeatAt := some 0 }

/-- Job 1, with cutoff 10, fails; job 2 publishes 20; job 1 is retried and succeeds. -/
def overtakenRun : List Call :=
  [.createIncrementalMaterialization (sampleRequest 10) 1 101 0,
    .claimPass "worker" 0 [] 11,
    .finalizeFailure (sampleCopy 1 11 10) 11 0 (valueError "source") "source" none,
    .createIncrementalMaterialization (sampleRequest 20) 2 102 0,
    .claimPass "worker" 0 [] 12,
    .finalizeSuccess (sampleCopy 2 12 20) 12 0 none none,
    .retry 1 0,
    .claimPass "worker" 0 [] 13]

/-- The watermark goes back from 20 to 10. -/
theorem watermark_regression :
    ¬∀ calls, Execution.Along (step defaultConfig) (KeepsWatermarks defaultConfig) initial
      calls := by
  intro h
  have hlast := h (overtakenRun ++ [.finalizeSuccess (sampleCopy 1 13 10) 13 0 none none])
  rw [Execution.along_append] at hlast
  obtain ⟨later, hlater, hle⟩ := hlast.2.1 "driver_stats@1" 20 (by decide)
  have hten : later = 10 := Option.some.inj (hlater.symm.trans (by decide))
  subst hten
  exact absurd hle (by decide)

/-- A retry that no later success has overtaken. -/
theorem watermark_monotone_of_prompt_retry :
    Execution.Along (step defaultConfig) (KeepsWatermarks defaultConfig) initial
      [.createIncrementalMaterialization (sampleRequest 10) 1 101 0,
        .claimPass "worker" 0 [] 11,
        .finalizeSuccess (sampleCopy 1 11 10) 11 0 none none,
        .createIncrementalMaterialization (sampleRequest 20) 2 102 0,
        .claimPass "worker" 0 [] 12,
        .finalizeFailure (sampleCopy 2 12 20) 12 0 (valueError "source") "source" none,
        .retry 2 0,
        .claimPass "worker" 0 [] 13,
        .finalizeSuccess (sampleCopy 2 13 20) 13 0 none none] :=
  (watermark_monotone defaultConfig _ (by decide)).1

end ControlPlane

end FeatureStore
