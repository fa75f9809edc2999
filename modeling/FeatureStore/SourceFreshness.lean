import FeatureStore.IncrementalCoverage
import FeatureStore.LeaseFencing

/-!
# The frontier of a view

The state row of a view holds the watermark and the source freshness that the last success
published. An attempt reads both when it starts, and publishes them again with what its scan
found. Only the holder of the reservation publishes, so nothing comes between the two: each
success continues the one before it, and the freshness accumulates over all of them.
-/

namespace FeatureStore

open Relational Reservation

/-- The watermark and the source freshness that the state row of a view holds. -/
def frontierOf (states : MaterializationStateTable) (featureView : String) :
    Option Instant × Option Instant :=
  (watermarkOf states featureView, (states.find? featureView).bind (·.sourceFreshnessAt))

/-- The job is active, and its row names the token. -/
def Leased (db : Database) (jobId token : Uuid) : Prop :=
  ∃ row, db.jobs.find? jobId = some row ∧ row.status.isActive = true ∧
    row.leaseToken = some token

section Tables

variable {jobs jobs' : JobTable} {states states' : MaterializationStateTable}

theorem frontierOf_reserve {featureView : String} {jobId : Uuid} {now : Instant}
    (h : reserve? states featureView jobId now = some states') (k : String) :
    frontierOf states' k = frontierOf states k := by
  refine Prod.ext (watermarkOf_reserve h k) ?_
  unfold reserve? at h
  unfold frontierOf
  dsimp only
  cases hstate : states.find? featureView with
  | some state =>
      rw [hstate] at h
      cases h
      by_cases hk : k = featureView
      · subst k
        rw [Table.find?_modify, if_pos rfl, hstate]
        rfl
      · rw [Table.find?_modify_ne _ _ hk]
  | none =>
      rw [hstate] at h
      rw [Table.find?_insert h]
      change (if k = featureView then _ else _ : Option MaterializationState).bind _ = _
      split
      · rename_i hk
        subst k
        rw [hstate]
        rfl
      · rfl

theorem frontierOf_release (db : Database) (job : JobRecord) (now : Instant) (k : String) :
    frontierOf (releaseIncrementalReservation db job now).materializationStates k =
      frontierOf db.materializationStates k := by
  refine Prod.ext (watermarkOf_release db job now k) ?_
  unfold releaseIncrementalReservation frontierOf
  split
  · rfl
  · dsimp only
    rw [Table.find?_update]
    cases db.materializationStates.find? k with
    | none => rfl
    | some state =>
        rw [Option.map_some, Option.bind_some, Option.bind_some]
        split <;> rfl

theorem frontierOf_setWatermark {featureView : String} {state : MaterializationState}
    (hstate : states.find? featureView = some state) (jobId : Uuid) (cutoff : Instant)
    (freshness : Option Instant) (now : Instant) (k : String) :
    frontierOf (states.modify featureView (setWatermark jobId cutoff freshness now)) k =
      if k = featureView then (some cutoff, freshness) else frontierOf states k := by
  unfold frontierOf
  rw [watermarkOf_setWatermark hstate]
  by_cases hk : k = featureView
  · subst k
    rw [if_pos rfl, if_pos rfl, Table.find?_modify, if_pos rfl, hstate]
    rfl
  · rw [if_neg hk, if_neg hk, Table.find?_modify_ne _ _ hk]

theorem frontierOf_reacquire {db reserved : Database} {job : JobRecord} {now : Instant}
    (h : reacquire db job now = .ok reserved) (k : String) :
    frontierOf reserved.materializationStates k = frontierOf db.materializationStates k := by
  unfold reacquire at h
  split at h
  · cases h
    rfl
  · split at h
    · cases h
    · split at h
      · cases h
      · rename_i states hstates
        cases h
        exact frontierOf_reserve hstates k

theorem leased_insert {db : Database} {row : JobRecord} (h : db.jobs.insert? row = some jobs)
    (hrow : row.leaseToken = none) {states : MaterializationStateTable}
    {streamEvents : StreamEventTable} {jobId token : Uuid}
    (hleased : Leased ⟨jobs, states, streamEvents⟩ jobId token) : Leased db jobId token := by
  obtain ⟨held, hheld, hactive, htoken⟩ := hleased
  rw [Table.find?_insert h] at hheld
  split at hheld
  · cases hheld
    cases hrow.symm.trans htoken
  · exact ⟨held, hheld, hactive, htoken⟩

/-- An assignment either ends the lease of its job or keeps status and token. -/
theorem leased_modify {db : Database} {k : Uuid} {a : Assignment JobRecord.id JobRecord.id}
    (h : ∀ row, (a.set row).leaseToken = none ∨
      (a.set row).status = row.status ∧ (a.set row).leaseToken = row.leaseToken)
    {states : MaterializationStateTable} {streamEvents : StreamEventTable} {jobId token : Uuid}
    (hleased : Leased ⟨db.jobs.modify k a, states, streamEvents⟩ jobId token) :
    Leased db jobId token := by
  obtain ⟨held, hheld, hactive, htoken⟩ := hleased
  rw [Table.find?_modify] at hheld
  split at hheld
  · rename_i hk
    subst k
    obtain ⟨row, hrow, rfl⟩ := Option.map_eq_some_iff.mp hheld
    rcases h row with hnone | ⟨hstatus, hsame⟩
    · cases hnone.symm.trans htoken
    · exact ⟨row, hrow, hstatus ▸ hactive, hsame.symm.trans htoken⟩
  · exact ⟨held, hheld, hactive, htoken⟩

/-- An assignment that ends the lease of its job leaves it leased to nobody. -/
theorem not_leased_of_unleased {db : Database} {k : Uuid}
    {a : Assignment JobRecord.id JobRecord.id} (h : ∀ row, (a.set row).leaseToken = none)
    {states : MaterializationStateTable} {streamEvents : StreamEventTable} {token : Uuid} :
    ¬Leased ⟨db.jobs.modify k a, states, streamEvents⟩ k token := by
  rintro ⟨held, hheld, _, htoken⟩
  rw [Table.find?_modify, if_pos rfl] at hheld
  obtain ⟨row, _, rfl⟩ := Option.map_eq_some_iff.mp hheld
  cases (h row).symm.trans htoken

end Tables

section Commits

variable {config : Config} {db db' : Database} {call : Call}

/-- A lease was held before, or the call is the claim that grants it. -/
theorem Commit.leased_origin (h : Commit config db call db') {jobId token : Uuid}
    (hleased : Leased db' jobId token) : Leased db jobId token ∨ call.tokens = [token] := by
  cases h with
  | unchanged => exact Or.inl hleased
  | submitted _ _ _ _ hinsert => exact Or.inl (leased_insert hinsert rfl hleased)
  | reserved _ _ _ _ _ _ hinsert _ => exact Or.inl (leased_insert hinsert rfl hleased)
  | staged _ _ _ _ _ _ hinsert => exact Or.inl (leased_insert hinsert rfl hleased)
  | cancelled | exhausted | failed =>
      rw [Leased, releaseIncrementalReservation_jobs] at hleased
      exact Or.inl (leased_modify (fun _ => Or.inl rfl) hleased)
  | retried | published | applied | succeeded | rescheduled =>
      exact Or.inl (leased_modify (fun _ => Or.inl rfl) hleased)
  | renewed | checkpointed =>
      exact Or.inl (leased_modify (fun _ => Or.inr ⟨rfl, rfl⟩) hleased)
  | @claimed owner now locked fresh candidate stored eligible budget =>
      obtain ⟨held, hheld, hactive, htoken⟩ := hleased
      rw [Table.find?_modify] at hheld
      split at hheld
      · obtain ⟨row, _, rfl⟩ := Option.map_eq_some_iff.mp hheld
        have hsame : fresh = token := Option.some.inj htoken
        exact Or.inr (by rw [Call.tokens, hsame])
      · exact Or.inl ⟨held, hheld, hactive, htoken⟩
  | registered => exact Or.inl hleased

/-- A success that publishes: its call, the lease and the reservation that it needs, and what
it writes. -/
structure Publication (db : Database) (call : Call) (db' : Database) (job : JobRecord)
    (token : Uuid) (viewRef : String) (cutoff : Instant) (freshness : Option Instant) :
    Prop where
  issued : ∃ now resultUri resultMetadata,
    call = .finalizeSuccess job token now resultUri resultMetadata ∧
      freshness = resultMetadata.bind ResultMetadata.sourceFreshnessAt
  incremental : job.incremental? = some (viewRef, cutoff)
  leased : Leased db job.id token
  reserved : reservationOf db.materializationStates viewRef = some job.id
  ended : ∀ other, ¬Leased db' job.id other
  frontier : ∀ k, frontierOf db'.materializationStates k =
    if k = viewRef then (some cutoff, freshness) else frontierOf db.materializationStates k

/-- The update of `_finalize_success` under the lease and the reservation is a publication. -/
theorem publication_of_held {settings : Settings} {job row : JobRecord} {token : Uuid}
    {now : Instant} {resultUri : Option String} {resultMetadata : Option ResultMetadata}
    {viewRef : String} {cutoff : Instant} {state : MaterializationState}
    (hstored : db.jobs.find? job.id = some row) (howned : row.ownedBy token now = true)
    (hincremental : job.incremental? = some (viewRef, cutoff))
    (hstate : db.materializationStates.find? viewRef = some state)
    (hheld : state.activeJobId = some job.id) :
    Publication db (.finalizeSuccess job token now resultUri resultMetadata)
      { db with
        jobs := db.jobs.modify job.id
          (setSucceeded settings job now resultUri resultMetadata)
        materializationStates := db.materializationStates.modify viewRef
          (setWatermark job.id cutoff
            (resultMetadata.bind ResultMetadata.sourceFreshnessAt) now) }
      job token viewRef cutoff (resultMetadata.bind ResultMetadata.sourceFreshnessAt) where
  issued := ⟨now, resultUri, resultMetadata, rfl, rfl⟩
  incremental := hincremental
  leased := ⟨row, hstored, ownedBy_active howned, (JobRecord.ownedBy_iff.mp howned).1⟩
  reserved := by
    rw [reservationOf, hstate]
    exact hheld
  ended := fun other => not_leased_of_unleased fun _ => rfl
  frontier := fun k => frontierOf_setWatermark hstate job.id cutoff _ now k

/-- The frontiers stay, or the call is a publication. -/
theorem Commit.frontier_origin (h : Commit config db call db') :
    (∀ k, frontierOf db'.materializationStates k = frontierOf db.materializationStates k) ∨
      ∃ job token viewRef cutoff freshness,
        Publication db call db' job token viewRef cutoff freshness := by
  cases h with
  | unchanged | submitted | claimed | renewed | checkpointed | applied | succeeded
  | rescheduled | registered | staged => exact Or.inl fun _ => rfl
  | reserved _ _ _ _ _ _ _ hacquired => exact Or.inl (frontierOf_reserve hacquired)
  | retried _ _ _ _ hacquired =>
      have hkept := frontierOf_reacquire hacquired
      exact Or.inl hkept
  | cancelled | exhausted | failed => exact Or.inl (frontierOf_release _ _ _)
  | published _ _ _ _ _ stored owned incremental reservation held =>
      exact Or.inr ⟨_, _, _, _, _, publication_of_held stored owned incremental reservation held⟩

/-- A call that publishes nothing keeps every frontier. -/
theorem Commit.frontier_kept (h : Commit config db call db') (hquiet : call.published? = none)
    (k : String) :
    frontierOf db'.materializationStates k = frontierOf db.materializationStates k := by
  rcases h.frontier_origin with hkept | ⟨job, token, viewRef, cutoff, freshness, hpublication⟩
  · exact hkept k
  · obtain ⟨now, resultUri, resultMetadata, rfl, _⟩ := hpublication.issued
    cases hpublication.incremental.symm.trans hquiet

/-- Nobody else publishes on the view of an incremental job that keeps its lease. -/
theorem Commit.frontier_of_leased (h : Commit config db call db') (hsound : (slotsOf db).Sound)
    {job : JobRecord} (hcopy : job.SnapshotIn db) {viewRef : String} {cutoff : Instant}
    (hincremental : job.incremental? = some (viewRef, cutoff)) {token : Uuid}
    (hbefore : Leased db job.id token) (hafter : Leased db' job.id token) :
    frontierOf db'.materializationStates viewRef =
      frontierOf db.materializationStates viewRef := by
  rcases h.frontier_origin with hkept | ⟨other, _, otherView, _, _, hpublication⟩
  · exact hkept viewRef
  · rw [hpublication.frontier, if_neg]
    rintro rfl
    obtain ⟨row, hrow, hkind, hpayload⟩ := hcopy
    obtain ⟨held, hheld, hactive, _⟩ := hbefore
    cases hrow.symm.trans hheld
    have hoccupies : ActiveIncremental db.jobs job.id viewRef := by
      refine ⟨cutoff, row, hrow, ?_, hactive⟩
      simp only [JobRecord.incremental?, hkind, hpayload] at hincremental ⊢
      exact hincremental
    have howner : reservationOf db.materializationStates viewRef = some job.id :=
      hsound hoccupies
    have hsame : other.id = job.id :=
      Option.some.inj (hpublication.reserved.symm.trans howner)
    exact hpublication.ended token (hsame ▸ hafter)

/-- An incremental job that finalizes successfully has published. -/
theorem finalizeSuccess_published {settings : Settings} {job job' : JobRecord} {token : Uuid}
    {now : Instant} {resultUri : Option String} {resultMetadata : Option ResultMetadata}
    (h : finalizeSuccess settings db job token now resultUri resultMetadata = (db', .ok job'))
    {viewRef : String} {cutoff : Instant}
    (hincremental : job.incremental? = some (viewRef, cutoff)) :
    Publication db (.finalizeSuccess job token now resultUri resultMetadata) db' job token
      viewRef cutoff (resultMetadata.bind ResultMetadata.sourceFreshnessAt) := by
  unfold finalizeSuccess at h
  rcases lease_cases db.jobs job.id token now with
    ⟨row, hrow, howned, hcount, hupdate⟩ | ⟨hcount, _⟩
  · rw [if_neg hcount, hupdate] at h
    dsimp only at h
    rw [hincremental] at h
    dsimp only at h
    rcases reservation_cases db.materializationStates viewRef job.id with
      ⟨state, hstate, hheld, hcount, hupdate⟩ | ⟨hcount, _⟩
    · rw [if_neg hcount, hupdate] at h
      obtain rfl := (Prod.mk.inj h).1
      exact publication_of_held hrow howned hincremental hstate hheld
    · rw [if_pos hcount] at h
      cases (Prod.mk.inj h).2
  · rw [if_pos hcount] at h
    cases (Prod.mk.inj h).2

end Commits

/-- The newest of both lists is the newest of the two newest. -/
theorem max?_append_max? (earlier later : List Instant) :
    (earlier.max?.toList ++ later.max?.toList).max? = (later ++ earlier).max? := by
  cases hearlier : earlier.max? with
  | none =>
      obtain rfl := List.max?_eq_none_iff.mp hearlier
      cases hlater : later.max? <;> simp [hlater]
  | some newest =>
      cases hlater : later.max? with
      | none =>
          obtain rfl := List.max?_eq_none_iff.mp hlater
          simp [hearlier]
      | some newer =>
          obtain ⟨hmem, hle⟩ := List.max?_eq_some_iff.mp hearlier
          obtain ⟨hmem', hle'⟩ := List.max?_eq_some_iff.mp hlater
          symm
          change (later ++ earlier).max? = some (max newest newer)
          refine List.max?_eq_some_iff.mpr ⟨?_, ?_⟩
          · rcases max_choice newest newer with hmax | hmax
            · rw [hmax]
              exact List.mem_append_right _ hmem
            · rw [hmax]
              exact List.mem_append_left _ hmem'
          · intro time htime
            rcases List.mem_append.mp htime with hnew | hold
            · exact (hle' time hnew).trans (le_max_right newest newer)
            · exact (hle time hold).trans (le_max_left newest newer)

/-- The rows that the scan of a success found in its window. -/
def CompletedRun.found (run : CompletedRun) : List OfflineRow :=
  OfflineStore.loadRange (some ⟨run.present, 0⟩) run.start run.cutoff

/-- The cutoff of the latest success, and the newest timestamp that any of them found. -/
def frontierOfRuns (runs : List CompletedRun) : Option Instant × Option Instant :=
  (runs.head?.map (·.cutoff),
    (runs.flatMap fun run => run.found.map (·.eventTimestamp)).max?)

/-- Each success starts its lookback before the cutoff of the one before it, and the first
from the beginning. -/
def Chained : List CompletedRun → Prop
  | [] => True
  | run :: earlier =>
      run.start = (frontierOfRuns earlier).1.map (· - seconds run.lookbackSeconds) ∧
        Chained earlier

/-- The window of an incremental job begins at the frontier of its view. -/
def MaterializationPlan.Current (plan : MaterializationPlan) (states : MaterializationStateTable)
    (job : JobRecord) : Prop :=
  ∀ viewRef cutoff, job.incremental? = some (viewRef, cutoff) →
    plan.viewRef = viewRef ∧ plan.endAt = cutoff ∧
      (plan.watermark, plan.priorFreshness) = frontierOf states viewRef ∧
      plan.start = plan.watermark.map (· - seconds plan.lookbackSeconds)

/-- The plan that an attempt works by. -/
def MaterializeStage.plan? : MaterializeStage → Option MaterializationPlan
  | .requiringOwnership plan | .scanning plan => some plan
  | .confirmingOwnership scan .. | .upserting scan .. | .checkpointing scan _
  | .finalizing scan _ | .returning scan => some scan.plan
  | .starting | .reading | .failing _ | .ended => none

theorem MaterializeStage.next_plan? (scan : MaterializationScan) (updated : Nat)
    (pending : List OfflineRow) :
    (MaterializeStage.next scan updated pending).plan? = some scan.plan := by
  cases pending <;> rfl

/-- The window that an attempt reads begins at the frontier that it reads. -/
theorem current_of_read {states : MaterializationStateTable} {job : JobRecord}
    {plan : MaterializationPlan} (hplan : materializationPlan states job.payload = .ok plan) :
    plan.Current states job := by
  intro viewRef cutoff hincremental
  have hpayload : job.payload.incremental? = some (viewRef, cutoff) := by
    unfold JobRecord.incremental? at hincremental
    split at hincremental
    · exact hincremental
    · cases hincremental
  cases hjob : job.payload with
  | incremental featureView endAt lookbackSeconds =>
      rw [hjob] at hplan hpayload
      cases hpayload
      cases hplan
      exact ⟨rfl, rfl, rfl, rfl⟩
  | range | offlineAppend | historicalQuery =>
      rw [hjob] at hpayload
      cases hpayload

namespace MaterializationSystem

variable {m : MaterializationSystem} {s : MaterializationHistory}

/-- A claim draws a token that no attempt has. -/
def FreshTokens (s : MaterializationHistory) : MaterializationAction → Prop
  | .call call => ∀ a ∈ s.attempts, a.token ∉ call.tokens
  | .statement _ _ | .raise _ _ | .append _ _ | .upsert _ => True

instance (s : MaterializationHistory) (action : MaterializationAction) :
    Decidable (FreshTokens s action) := by
  cases action <;> unfold FreshTokens <;> infer_instance

/-- While its lease lasts, an attempt works from the frontier of its view. -/
def PlanHeld (db : Database) (a : MaterializeAttempt) : Prop :=
  ∀ plan, a.stage.plan? = some plan → Leased db a.job.id a.token →
    plan.Current db.materializationStates a.job

/-- The successes of each view are a chain, and its state row holds their frontier. -/
structure FrontierSound (s : MaterializationHistory) : Prop where
  slots : (slotsOf s.stores.db).Sound
  copies : ∀ a ∈ s.attempts, a.job.SnapshotIn s.stores.db
  plans : ∀ a ∈ s.attempts, PlanHeld s.stores.db a
  frontier : ∀ viewRef, frontierOf s.stores.db.materializationStates viewRef =
    frontierOfRuns (s.completed viewRef)
  chained : ∀ viewRef, Chained (s.completed viewRef)

/-- A commit that does not draw the token of an attempt keeps its plan. -/
theorem PlanHeld.commit {db db' : Database} {call : Call} {a : MaterializeAttempt}
    (h : PlanHeld db a) (hcommit : Commit m.config db call db') (hsound : (slotsOf db).Sound)
    (hcopy : a.job.SnapshotIn db) (hfresh : a.token ∉ call.tokens) : PlanHeld db' a := by
  intro plan hplan hafter viewRef cutoff hincremental
  have hbefore : Leased db a.job.id a.token := by
    refine (hcommit.leased_origin hafter).resolve_right ?_
    intro htokens
    exact hfresh (by rw [htokens]; exact List.mem_singleton_self _)
  obtain ⟨hview, hend, hfrontier, hstart⟩ := h plan hplan hbefore viewRef cutoff hincremental
  refine ⟨hview, hend, hfrontier.trans ?_, hstart⟩
  exact (hcommit.frontier_of_leased hsound hcopy hincremental hbefore hafter).symm

/-- A success extends the chain of its view, and the frontier with it. -/
theorem frontierOfRuns_cons {states : MaterializationStateTable} {job : JobRecord}
    {scan : MaterializationScan} {viewRef : String} {cutoff : Instant}
    {earlier : List CompletedRun} (hcurrent : scan.plan.Current states job)
    (hincremental : job.incremental? = some (viewRef, cutoff))
    (hfrontier : frontierOf states viewRef = frontierOfRuns earlier) (hchained : Chained earlier) :
    let run : CompletedRun :=
      ⟨scan.plan.start, cutoff, scan.plan.lookbackSeconds, scan.source.rows⟩
    frontierOfRuns (run :: earlier) = (some cutoff, scan.sourceFreshness) ∧
      Chained (run :: earlier) := by
  intro run
  obtain ⟨_, rfl, hread, hstart⟩ := hcurrent viewRef cutoff hincremental
  have hearlier := hread.trans hfrontier
  have hwatermark : scan.plan.watermark = (frontierOfRuns earlier).1 := congrArg Prod.fst hearlier
  have hfreshness : scan.plan.priorFreshness = (frontierOfRuns earlier).2 :=
    congrArg Prod.snd hearlier
  have hfound : run.found = scan.rows := rfl
  refine ⟨Prod.ext rfl ?_, ?_, hchained⟩
  · change (List.flatMap _ (run :: earlier)).max? = scan.sourceFreshness
    rw [List.flatMap_cons, hfound, MaterializationScan.sourceFreshness, hfreshness]
    exact (max?_append_max? _ _).symm
  · rw [← hwatermark]
    exact hstart

theorem PlanHeld.goto {db : Database} {a : MaterializeAttempt} (h : PlanHeld db a)
    {stage : MaterializeStage}
    (hstage : ∀ plan, stage.plan? = some plan → a.stage.plan? = some plan) :
    PlanHeld db (a.goto stage) := by
  intro plan hplan hleased
  exact h plan (hstage plan hplan) hleased

/-- A refreshed copy of the job stands for the copy before it. -/
theorem PlanHeld.refreshed {db : Database} {a : MaterializeAttempt} (h : PlanHeld db a)
    {job : JobRecord} (hcopy : a.job.SnapshotIn db) (hstored : db.jobs.find? a.job.id = some job)
    {stage : MaterializeStage}
    (hstage : ∀ plan, stage.plan? = some plan → a.stage.plan? = some plan) :
    PlanHeld db ⟨job, a.token, stage⟩ := by
  intro plan hplan hleased viewRef cutoff hincremental
  have hid : job.id = a.job.id := Table.key_of_find? hstored
  rw [(hcopy.refreshed hstored).2] at hincremental
  exact h plan (hstage plan hplan) (hid ▸ hleased) viewRef cutoff hincremental

/-- A statement that commits no publication. -/
theorem FrontierSound.quiet (h : FrontierSound s) {k : Nat} {a : MaterializeAttempt}
    {stores : ServingStores} {call : Call}
    (hcommit : Commit m.config s.stores.db call stores.db) (htokens : call.tokens = [])
    (hquiet : call.published? = none) (hcopy : a.job.SnapshotIn stores.db)
    (hplan : PlanHeld stores.db a) (hunfinished : a.completed? = none) :
    FrontierSound ⟨stores, s.attempts.set k a, recordRun s.completed a.completed?⟩ where
  slots := (hcommit.slots_step h.slots).sound h.slots
  copies := by
    intro b hb
    rcases List.mem_or_eq_of_mem_set hb with hold | rfl
    · exact hcommit.snapshot_kept (h.copies b hold)
    · exact hcopy
  plans := by
    intro b hb
    rcases List.mem_or_eq_of_mem_set hb with hold | rfl
    · exact (h.plans b hold).commit hcommit h.slots (h.copies b hold) (by simp [htokens])
    · exact hplan
  frontier := by
    intro viewRef
    rw [hunfinished]
    exact (hcommit.frontier_kept hquiet viewRef).trans (h.frontier viewRef)
  chained := by
    intro viewRef
    rw [hunfinished]
    exact h.chained viewRef

/-- A statement that publishes records its success. -/
theorem FrontierSound.published (h : FrontierSound s) {k : Nat} {a : MaterializeAttempt}
    (ha : a ∈ s.attempts) {scan : MaterializationScan} {updated : Nat}
    (hstage : a.stage = .finalizing scan updated) {now : Instant} {job : JobRecord}
    {db : Database}
    (hcommit : finalizeSuccess m.config.settings s.stores.db a.job a.token now none
      (some (.materialization (scan.summary m.query updated))) = (db, .ok job))
    {viewRef : String} {cutoff : Instant}
    (hincremental : a.job.incremental? = some (viewRef, cutoff)) :
    FrontierSound ⟨{ s.stores with db := db },
      s.attempts.set k ⟨job, a.token, .returning scan⟩,
      recordRun s.completed (MaterializeAttempt.completed? ⟨job, a.token, .returning scan⟩)⟩ := by
  have hpublication := finalizeSuccess_published hcommit hincremental
  have hdb : db = (Call.finalizeSuccess a.job a.token now none
      (some (.materialization (scan.summary m.query updated)))).apply m.config
        s.stores.db := by rw [Call.apply, hcommit]
  have hcall := Call.commit m.config s.stores.db (.finalizeSuccess a.job a.token now none
    (some (.materialization (scan.summary m.query updated))))
  rw [← hdb] at hcall
  have hstored := finalizeSuccess_stored hcommit
  obtain ⟨hcopy, hsame⟩ := (hcall.snapshot_kept (h.copies a ha)).refreshed hstored
  have hid : job.id = a.job.id := Table.key_of_find? hstored
  have hcurrent : scan.plan.Current s.stores.db.materializationStates a.job :=
    h.plans a ha scan.plan (by rw [hstage]; rfl) hpublication.leased
  obtain ⟨hfrontier, hchained⟩ := frontierOfRuns_cons hcurrent hincremental
    (h.frontier viewRef) (h.chained viewRef)
  have hcompleted : MaterializeAttempt.completed? ⟨job, a.token, .returning scan⟩ =
      some (viewRef,
        ⟨scan.plan.start, cutoff, scan.plan.lookbackSeconds, scan.source.rows⟩) := by
    simp only [MaterializeAttempt.completed?, hsame, hincremental, Option.map_some]
  rw [hcompleted]
  have hother : ∀ other, other ≠ viewRef → ∀ run,
      recordRun s.completed (some (viewRef, run)) other = s.completed other := by
    intro other hview run
    refine recordRun_of_ne fun run' hrun => ?_
    cases hrun
    exact hview rfl
  refine ⟨(hcall.slots_step h.slots).sound h.slots, ?_, ?_, fun other => ?_, fun other => ?_⟩
  · intro b hb
    rcases List.mem_or_eq_of_mem_set hb with hold | rfl
    · exact hcall.snapshot_kept (h.copies b hold)
    · exact hcopy
  · intro b hb
    rcases List.mem_or_eq_of_mem_set hb with hold | rfl
    · exact (h.plans b hold).commit hcall h.slots (h.copies b hold) (by simp [Call.tokens])
    · intro plan _ hleased
      rw [hid] at hleased
      exact absurd hleased (hpublication.ended a.token)
  · refine (hpublication.frontier other).trans ?_
    by_cases hview : other = viewRef
    · subst hview
      rw [if_pos rfl]
      exact hfrontier.symm.trans (congrArg frontierOfRuns (recordRun_self ..).symm)
    · rw [if_neg hview, h.frontier other]
      exact congrArg frontierOfRuns (hother other hview _).symm
  · by_cases hview : other = viewRef
    · subst hview
      exact (congrArg Chained (recordRun_self ..)).mpr hchained
    · exact (congrArg Chained (hother other hview _)).mpr (h.chained other)

/-- One case for each kind of statement. -/
theorem FrontierSound.statement (h : FrontierSound s) {k : Nat} {a a' : MaterializeAttempt}
    (ha : a ∈ s.attempts) {now : Instant} {stores : ServingStores}
    (hstatement : MaterializeStatement m.config m.codec m.query s.stores a now stores a') :
    FrontierSound ⟨stores, s.attempts.set k a', recordRun s.completed a'.completed?⟩ := by
  have hcopy := h.copies a ha
  have hplan := h.plans a ha
  have hread : Commit m.config s.stores.db (.heartbeat a.job.id a.token now) s.stores.db :=
    .unchanged _
  cases hstatement with
  | stopped stage stopped =>
      rcases stopped with rfl | ⟨exc, rfl⟩
      · exact h.quiet hread rfl rfl hcopy (hplan.goto fun _ hnone => by cases hnone) rfl
      · exact h.quiet hread rfl rfl hcopy (hplan.goto fun _ hnone => by cases hnone) rfl
  | checked => exact h.quiet hread rfl rfl hcopy (hplan.goto fun _ hnone => by cases hnone) rfl
  | @read plan stage planned =>
      refine h.quiet hread rfl rfl hcopy ?_ rfl
      intro plan' hplan' _
      cases hplan'
      exact current_of_read planned
  | required stage =>
      refine h.quiet hread rfl rfl hcopy (hplan.goto fun plan hplan => ?_) rfl
      rw [stage]
      exact hplan
  | scanned stage found =>
      refine h.quiet hread rfl rfl hcopy (hplan.goto fun plan hplan => ?_) (completed?_next ..)
      rw [MaterializeStage.next_plan?] at hplan
      rw [stage]
      exact hplan
  | confirmed stage =>
      refine h.quiet hread rfl rfl hcopy (hplan.goto fun plan hplan => ?_) rfl
      rw [stage]
      exact hplan
  | upserted stage validated =>
      refine h.quiet hread rfl rfl hcopy (hplan.goto fun plan hplan => ?_) (completed?_next ..)
      rw [MaterializeStage.next_plan?] at hplan
      rw [stage]
      exact hplan
  | @checkpointed scan updated checkpoints job db stage commit =>
      have hdb : db = (Call.commitCheckpoints a.job a.token now checkpoints).apply m.config
          s.stores.db := by rw [Call.apply, commit]
      have hcall := Call.commit m.config s.stores.db
        (.commitCheckpoints a.job a.token now checkpoints)
      rw [← hdb] at hcall
      have hkept := hcall.snapshot_kept hcopy
      have hstored := commitCheckpoints_stored commit
      refine h.quiet hcall rfl rfl (hkept.refreshed hstored).1 ?_ rfl
      refine (hplan.commit hcall h.slots hcopy (by simp [Call.tokens])).refreshed hkept hstored ?_
      intro plan hplan
      rw [stage]
      exact hplan
  | @finalized scan updated job db stage commit =>
      cases hincremental : a.job.incremental? with
      | some request => exact h.published ha stage commit hincremental
      | none =>
          have hdb : db = (Call.finalizeSuccess a.job a.token now none
              (some (.materialization (scan.summary m.query updated)))).apply m.config
                s.stores.db := by rw [Call.apply, commit]
          have hcall := Call.commit m.config s.stores.db (.finalizeSuccess a.job a.token now none
            (some (.materialization (scan.summary m.query updated))))
          rw [← hdb] at hcall
          have hkept := hcall.snapshot_kept hcopy
          have hstored := finalizeSuccess_stored commit
          obtain ⟨hcopy', hsame⟩ := hkept.refreshed hstored
          refine h.quiet hcall rfl hincremental hcopy' ?_ ?_
          · refine (hplan.commit hcall h.slots hcopy (by simp [Call.tokens])).refreshed hkept
              hstored ?_
            intro plan hplan
            rw [stage]
            exact hplan
          · simp only [MaterializeAttempt.completed?, hsame, hincremental, Option.map_none]
  | @failed exc stage =>
      have hcall := Call.commit m.config s.stores.db
        (.finalizeFailure a.job a.token now exc exc.message none)
      exact h.quiet hcall rfl rfl (hcall.snapshot_kept hcopy)
        ((hplan.commit hcall h.slots hcopy (by simp [Call.tokens])).goto
          fun _ hnone => by cases hnone) rfl

theorem step_frontierSound (s : MaterializationHistory) (action : MaterializationAction)
    (h : FrontierSound s) (hfresh : FreshTokens s action) : FrontierSound (m.step s action) := by
  cases action with
  | call call =>
      by_cases hpublished : call.published?.isSome = true
      · simp only [step, if_pos hpublished]
        exact h
      · simp only [step, if_neg hpublished]
        have hcall := call.commit m.config s.stores.db
        have hquiet : call.published? = none := Option.not_isSome_iff_eq_none.mp hpublished
        refine ⟨(hcall.slots_step h.slots).sound h.slots, ?_, ?_, ?_, h.chained⟩
        · intro a ha
          rcases List.mem_append.mp ha with hold | hnew
          · exact hcall.snapshot_kept (h.copies a hold)
          · exact (started_copy (Option.mem_toList.mp hnew)).1
        · intro a ha
          rcases List.mem_append.mp ha with hold | hnew
          · exact (h.plans a hold).commit hcall h.slots (h.copies a hold) (hfresh a hold)
          · intro plan hplan
            rw [(started_copy (Option.mem_toList.mp hnew)).2] at hplan
            cases hplan
        · intro viewRef
          exact (hcall.frontier_kept hquiet viewRef).trans (h.frontier viewRef)
  | statement k now =>
      cases hk : s.attempts[k]? with
      | none =>
          simp only [step, hk]
          exact h
      | some a =>
          simp only [step, hk]
          exact h.statement (List.mem_of_getElem? hk) MaterializeAttempt.advance_statement
  | raise k exc =>
      cases hk : s.attempts[k]? with
      | none =>
          simp only [step, hk]
          exact h
      | some a =>
          simp only [step, hk]
          obtain ⟨stage, hgoto, hstopped⟩ := a.raise_goto exc
          rw [hgoto]
          have hstatement : MaterializeStatement m.config m.codec m.query s.stores a 0 s.stores
              (a.goto stage) := .stopped stage hstopped
          have hsound := h.statement (k := k) (List.mem_of_getElem? hk) hstatement
          have hnone : (a.goto stage).completed? = none := by
            rcases hstopped with rfl | ⟨exc, rfl⟩ <;> rfl
          rwa [hnone] at hsound
  | append viewRef rows => exact ⟨h.slots, h.copies, h.plans, h.frontier, h.chained⟩
  | upsert event => exact ⟨h.slots, h.copies, h.plans, h.frontier, h.chained⟩

theorem initial_frontierSound (views : String → Option DeltaTable) (online : OnlineStore) :
    FrontierSound (initial views online) where
  slots := ControlPlane.run_slots_sound defaultConfig []
  copies := by
    intro a ha
    cases ha
  plans := by
    intro a ha
    cases ha
  frontier := fun _ => rfl
  chained := fun _ => trivial

/-- An action only puts successes before the earlier ones. -/
theorem completed_suffix (s : MaterializationHistory) (action : MaterializationAction)
    (viewRef : String) : s.completed viewRef <:+ (m.step s action).completed viewRef := by
  cases action with
  | call call =>
      unfold step
      dsimp only
      split <;> exact List.suffix_refl _
  | statement k now =>
      unfold step
      dsimp only
      split
      · exact List.suffix_refl _
      · rename_i a _
        rcases recordRun_cases s.completed
            (a.advance m.config m.codec m.query s.stores now).2.completed? viewRef with
          hsame | ⟨run, _, hlatest⟩
        · exact hsame ▸ List.suffix_refl _
        · change s.completed viewRef <:+ recordRun s.completed _ viewRef
          rw [hlatest]
          exact List.suffix_cons run _
  | raise k exc =>
      unfold step
      dsimp only
      split <;> exact List.suffix_refl _
  | append viewRef rows => exact List.suffix_refl _
  | upsert event => exact List.suffix_refl _

/-- More successes leave no older freshness. -/
theorem freshness_advances {runs earlier : List CompletedRun} (h : earlier <:+ runs) :
    Advances (frontierOfRuns earlier).2 (frontierOfRuns runs).2 := by
  intro time htime
  obtain ⟨hmem, _⟩ := List.max?_eq_some_iff.mp htime
  have hfound : time ∈ runs.flatMap fun run => run.found.map (·.eventTimestamp) := by
    obtain ⟨run, hrun, htimes⟩ := List.mem_flatMap.mp hmem
    exact List.mem_flatMap.mpr ⟨run, h.subset hrun, htimes⟩
  cases hnewest : (frontierOfRuns runs).2 with
  | none =>
      rw [List.max?_eq_none_iff.mp hnewest] at hfound
      cases hfound
  | some newest => exact ⟨newest, rfl, (List.max?_eq_some_iff.mp hnewest).2 time hfound⟩

/-- In every run whose claims draw fresh tokens: each success on a view starts its lookback
before the cutoff of the success before it, the state row of the view holds the cutoff of the
last success and the newest timestamp that any success found in its window, and so the source
freshness never goes back, even where a watermark does. -/
theorem successes_build_on_the_last (m : MaterializationSystem)
    (views : String → Option DeltaTable) (online : OnlineStore)
    (actions : List MaterializationAction)
    (hfresh : Execution.Along m.step FreshTokens (initial views online) actions)
    (viewRef : String) :
    Chained ((m.run (initial views online) actions).completed viewRef) ∧
      frontierOf (m.run (initial views online) actions).stores.db.materializationStates viewRef =
        frontierOfRuns ((m.run (initial views online) actions).completed viewRef) ∧
      ∀ first later, actions = first ++ later →
        Advances
          (frontierOf (m.run (initial views online) first).stores.db.materializationStates
            viewRef).2
          (frontierOf (m.run (initial views online) actions).stores.db.materializationStates
            viewRef).2 := by
  have hsound : ∀ {taken : List MaterializationAction},
      Execution.Along m.step FreshTokens (initial views online) taken →
        FrontierSound (m.run (initial views online) taken) := by
    intro taken htaken
    exact Execution.invariant_of_along step_frontierSound (initial_frontierSound views online)
      htaken
  have hlast := hsound hfresh
  refine ⟨hlast.chained viewRef, hlast.frontier viewRef, ?_⟩
  rintro first later rfl
  have hfirst := hsound (Execution.along_append.mp hfresh).1
  rw [hfirst.frontier, hlast.frontier]
  refine freshness_advances ?_
  unfold run
  rw [Execution.run_append]
  refine Execution.related_of_along
    (R := fun s t : MaterializationHistory => s.completed viewRef <:+ t.completed viewRef)
    (fun _ => List.suffix_refl _) (fun hst htu => hst.trans htu) ?_
  exact Execution.along_of_invariant (I := fun _ => True) (fun _ _ _ => trivial)
    (fun s action _ => completed_suffix s action viewRef) trivial later

/-- The second success of the run with a late row continues the first. -/
theorem late_row_successes_chained :
    Chained ((sampleSystem.run
      (initial (fun _ => some ⟨[sampleRow "first" 4 "a"], 0⟩) fun _ => none)
        lateRowRun).completed "driver_stats@1") ∧
    frontierOf (sampleSystem.run
      (initial (fun _ => some ⟨[sampleRow "first" 4 "a"], 0⟩) fun _ => none)
        lateRowRun).stores.db.materializationStates "driver_stats@1" =
      (some (seconds 20), some (seconds 6)) := by
  obtain ⟨hchained, hfrontier, _⟩ := successes_build_on_the_last sampleSystem
    (fun _ => some ⟨[sampleRow "first" 4 "a"], 0⟩) (fun _ => none) lateRowRun (by decide)
    "driver_stats@1"
  exact ⟨hchained, hfrontier.trans (by decide)⟩

end MaterializationSystem

end FeatureStore
