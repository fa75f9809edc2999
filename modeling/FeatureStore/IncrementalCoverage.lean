import FeatureStore.Library.Execution
import FeatureStore.Library.IncrementalScan
import FeatureStore.Materialization
import FeatureStore.WatermarkOrder

/-!
# Coverage of incremental materialization

A successful incremental job has scanned from the watermark, less its lookback, up
to its cutoff. The watermark is the cutoff of some earlier success, so the rows
behind the window were there to be scanned before, unless they arrived later than
the lookback allows. No hash goes back, and so no row is missed.
-/

namespace FeatureStore

open Relational IncrementalScan

/-- A successful incremental job: its window, and the rows present at its scan. -/
structure CompletedRun where
  start : Option Instant
  cutoff : Instant
  lookbackSeconds : Nat
  present : List OfflineRow

/-- A success as the scans of the library see it. -/
def CompletedRun.scan (run : CompletedRun) : Scan Instant OfflineRow :=
  ⟨run.start, run.cutoff, {row | row ∈ run.present}⟩

/-- The stores, the attempts so far, and the successes on each view, the latest first. -/
structure MaterializationHistory where
  stores : ServingStores
  attempts : List MaterializeAttempt
  completed : String → List CompletedRun

/-- A database transaction of any process, the next statement of an attempt, an
exception in it, an append of another job, or an upsert of another process. -/
inductive MaterializationAction
  | call (call : Call)
  | statement (k : Nat) (now : Instant)
  | raise (k : Nat) (exc : PyException)
  | append (viewRef : String) (rows : List OfflineRow)
  | upsert (event : StreamFeatureEvent)

/-- The view and the cutoff that a call would publish. -/
def Call.published? : Call → Option (String × Instant)
  | .finalizeSuccess job _ _ _ _ => job.incremental?
  | .createBackfill .. | .createMaterialization .. | .createHistoricalQuery ..
  | .createIncrementalMaterialization .. | .cancel .. | .retry .. | .claimPass ..
  | .heartbeat .. | .commitCheckpoints .. | .finalizeFailure .. | .register ..
  | .stageBatch .. => none

/-- The success that an attempt has just committed, if it has. -/
def MaterializeAttempt.completed? (a : MaterializeAttempt) : Option (String × CompletedRun) :=
  match a.stage with
  | .returning scan => a.job.incremental?.map fun (viewRef, cutoff) =>
      (viewRef, ⟨scan.plan.start, cutoff, scan.plan.lookbackSeconds, scan.source.rows⟩)
  | .starting | .reading | .requiringOwnership _ | .scanning _ | .confirmingOwnership ..
  | .upserting .. | .checkpointing .. | .finalizing .. | .failing _ | .ended => none

/-- Put a success before the earlier ones of its view. -/
def recordRun (completed : String → List CompletedRun) :
    Option (String × CompletedRun) → String → List CompletedRun
  | none => completed
  | some (viewRef, run) => Function.update completed viewRef (run :: completed viewRef)

/-- The parts of the system that a run does not change. -/
structure MaterializationSystem where
  config : Config
  codec : OnlineCodec
  query : LatestQuery

namespace MaterializationSystem

variable (m : MaterializationSystem)

/-- Workers publish watermarks through their attempts only. -/
def step (s : MaterializationHistory) : MaterializationAction → MaterializationHistory
  | .call call =>
      if call.published?.isSome then s
      else
        { s with
          stores := { s.stores with db := call.apply m.config s.stores.db }
          attempts :=
            s.attempts ++ (claimedMaterialization? m.config s.stores.db call).toList }
  | .statement k now =>
      match s.attempts[k]? with
      | none => s
      | some a =>
          let next := a.advance m.config m.codec m.query s.stores now
          { stores := next.1
            attempts := s.attempts.set k next.2
            completed := recordRun s.completed next.2.completed? }
  | .raise k exc =>
      match s.attempts[k]? with
      | none => s
      | some a => { s with attempts := s.attempts.set k (a.raise exc) }
  | .append viewRef rows =>
      { s with
        stores :=
          { s.stores with
            views := Function.update s.stores.views viewRef
              (some (OfflineStore.append (s.stores.views viewRef) rows)) } }
  | .upsert event =>
      { s with
        stores := { s.stores with online := (s.stores.online.upsert m.codec event).1 } }

/-- Nothing has been submitted; the tables and the hashes are arbitrary. -/
def initial (views : String → Option DeltaTable) (online : OnlineStore) :
    MaterializationHistory :=
  ⟨⟨.empty, views, online⟩, [], fun _ => []⟩

def run (s : MaterializationHistory) (actions : List MaterializationAction) :
    MaterializationHistory :=
  Execution.run m.step s actions

/-- The hash of the row's entity is not behind the row. -/
def Delivered (online : OnlineStore) (viewRef : String) (row : OfflineRow) : Prop :=
  online.Holds (m.codec.entityKey viewRef row.entityValues) row.rank

/-- The window starts from the beginning, or its lookback behind an earlier cutoff. -/
def ResumesFrom (start : Option Instant) (lookbackSeconds : Nat)
    (earlier : List CompletedRun) : Prop :=
  start = none ∨ ∃ prior ∈ earlier, start = some (prior.cutoff - seconds lookbackSeconds)

/-- Every success of a view resumes from an earlier one. -/
def Linked : List CompletedRun → Prop
  | [] => True
  | run :: earlier => ResumesFrom run.start run.lookbackSeconds earlier ∧ Linked earlier

/-- The rows that a success found are still in the table, and those of its window
have been delivered. -/
structure CompletedSound (stores : ServingStores) (viewRef : String) (run : CompletedRun) :
    Prop where
  present : run.present <+: OfflineStore.load (stores.views viewRef)
  delivered : ∀ row ∈ run.present, (∀ start, run.start = some start →
    start ≤ row.eventTimestamp) → row.eventTimestamp < run.cutoff →
      m.Delivered stores.online viewRef row

/-- The window of an incremental job resumes from a success of its view. -/
def PlanSound (s : MaterializationHistory) (job : JobRecord) (plan : MaterializationPlan) :
    Prop :=
  ∀ viewRef cutoff, job.incremental? = some (viewRef, cutoff) →
    plan.viewRef = viewRef ∧ plan.endAt = cutoff ∧
      ResumesFrom plan.start plan.lookbackSeconds (s.completed viewRef)

/-- Each scanned row has been delivered, or a newer row of its entity is pending. -/
structure ScanSound (s : MaterializationHistory) (job : JobRecord)
    (scan : MaterializationScan) (pending : List OfflineRow) : Prop where
  plan : PlanSound s job scan.plan
  present : scan.source.rows <+: OfflineStore.load (s.stores.views scan.plan.viewRef)
  delivered : ∀ row ∈ scan.rows, m.Delivered s.stores.online scan.plan.viewRef row ∨
    ∃ latest ∈ pending, latest.entityValues = row.entityValues ∧ row.rank ≤ latest.rank

def StageSound (s : MaterializationHistory) (job : JobRecord) : MaterializeStage → Prop
  | .requiringOwnership plan | .scanning plan => PlanSound s job plan
  | .confirmingOwnership scan _ row rest | .upserting scan _ row rest =>
      m.ScanSound s job scan (row :: rest)
  | .checkpointing scan _ | .finalizing scan _ => m.ScanSound s job scan []
  | .starting | .reading | .returning _ | .failing _ | .ended => True

/-- Every watermark is the cutoff of a success. -/
def Published (s : MaterializationHistory) : Prop :=
  ∀ viewRef watermark, watermarkOf s.stores.db.materializationStates viewRef = some watermark →
    ∃ run ∈ s.completed viewRef, run.cutoff = watermark

structure Invariant (s : MaterializationHistory) : Prop where
  published : Published s
  copies : ∀ a ∈ s.attempts, a.job.SnapshotIn s.stores.db
  stages : ∀ a ∈ s.attempts, m.StageSound s a.job a.stage
  linked : ∀ viewRef, Linked (s.completed viewRef)
  completed : ∀ viewRef, ∀ run ∈ s.completed viewRef,
    m.CompletedSound s.stores viewRef run

/-- What no action takes back: successes, rows of a table, and the rank of a hash. -/
structure Grows (s s' : MaterializationHistory) : Prop where
  completed : ∀ viewRef, ∀ run ∈ s.completed viewRef, run ∈ s'.completed viewRef
  views : ∀ viewRef, OfflineStore.load (s.stores.views viewRef) <+:
    OfflineStore.load (s'.stores.views viewRef)
  online : ∀ key rank, s.stores.online.Holds key rank → s'.stores.online.Holds key rank

end MaterializationSystem

section Commits

variable {config : Config} {db db' : Database} {call : Call}

/-- A watermark is an old one, or the one that the call publishes. -/
theorem Commit.watermark_origin (h : Commit config db call db') {viewRef : String}
    {watermark : Instant}
    (hwatermark : watermarkOf db'.materializationStates viewRef = some watermark) :
    watermarkOf db.materializationStates viewRef = some watermark ∨
      call.published? = some (viewRef, watermark) := by
  cases h with
  | unchanged | submitted | claimed | renewed | checkpointed | applied | succeeded
  | rescheduled | registered | staged => exact Or.inl hwatermark
  | reserved _ _ _ _ _ _ _ hacquired =>
      rw [watermarkOf_reserve hacquired] at hwatermark
      exact Or.inl hwatermark
  | retried _ _ _ _ hacquired =>
      have hkept := watermarkOf_reacquire hacquired viewRef
      exact Or.inl (hkept.symm.trans hwatermark)
  | cancelled | exhausted | failed =>
      rw [watermarkOf_release] at hwatermark
      exact Or.inl hwatermark
  | published job _ _ _ _ _ _ incremental reservation =>
      rw [watermarkOf_setWatermark reservation] at hwatermark
      split at hwatermark
      · rename_i hview
        cases hwatermark
        subst hview
        exact Or.inr incremental
      · exact Or.inl hwatermark

theorem Commit.snapshot_kept (h : Commit config db call db') {job : JobRecord}
    (hjob : job.SnapshotIn db) : job.SnapshotIn db' := by
  obtain ⟨row, hrow, hkind, hpayload⟩ := hjob
  obtain ⟨row', hrow', hkind', hpayload'⟩ := h.job_kept hrow
  exact ⟨row', hrow', hkind'.trans hkind, hpayload'.trans hpayload⟩

/-- A refreshed copy of a job has the kind and the payload of the copy before it. -/
theorem JobRecord.SnapshotIn.refreshed {job job' : JobRecord} (h : job.SnapshotIn db)
    (hstored : db.jobs.find? job.id = some job') :
    job'.SnapshotIn db ∧ job'.incremental? = job.incremental? := by
  obtain ⟨row, hrow, hkind, hpayload⟩ := h
  cases hstored.symm.trans hrow
  have hid := Table.key_of_find? hstored
  refine ⟨⟨job', by rw [hid]; exact hstored, rfl, rfl⟩, ?_⟩
  simp only [JobRecord.incremental?, hkind, hpayload]

end Commits

theorem OfflineRow.streamEvent_ok {viewRef : String} {row : OfflineRow}
    {event : StreamFeatureEvent} (h : row.streamEvent viewRef = .ok event) :
    event.featureView = viewRef ∧ event.entityValues = row.entityValues ∧
      event.rank = row.rank := by
  unfold OfflineRow.streamEvent at h
  split at h
  · cases h
  · rename_i eventId hid
    split at h
    · cases h
      refine ⟨rfl, rfl, ?_⟩
      rw [StreamFeatureEvent.rank, OfflineRow.rank, hid, DateTime.asUtc_utc]
    · split at h <;> cases h

namespace MaterializationSystem

variable {m : MaterializationSystem} {s s' : MaterializationHistory} {job : JobRecord}

theorem ResumesFrom.mono {start : Option Instant} {lookbackSeconds : Nat}
    {earlier later : List CompletedRun} (h : ResumesFrom start lookbackSeconds earlier)
    (hsub : ∀ run ∈ earlier, run ∈ later) : ResumesFrom start lookbackSeconds later := by
  rcases h with hnone | ⟨prior, hprior, hstart⟩
  · exact Or.inl hnone
  · exact Or.inr ⟨prior, hsub prior hprior, hstart⟩

theorem PlanSound.mono {plan : MaterializationPlan} (h : PlanSound s job plan)
    (hgrows : Grows s s') : PlanSound s' job plan := by
  intro viewRef cutoff hincremental
  obtain ⟨hview, hend, hresumes⟩ := h viewRef cutoff hincremental
  exact ⟨hview, hend, hresumes.mono (hgrows.completed viewRef)⟩

theorem ScanSound.mono {scan : MaterializationScan} {pending : List OfflineRow}
    (h : m.ScanSound s job scan pending) (hgrows : Grows s s') :
    m.ScanSound s' job scan pending where
  plan := h.plan.mono hgrows
  present := h.present.trans (hgrows.views scan.plan.viewRef)
  delivered := by
    intro row hrow
    exact (h.delivered row hrow).imp_left (hgrows.online _ _)

theorem StageSound.mono {stage : MaterializeStage} (h : m.StageSound s job stage)
    (hgrows : Grows s s') : m.StageSound s' job stage := by
  cases stage with
  | requiringOwnership plan | scanning plan => exact PlanSound.mono h hgrows
  | confirmingOwnership scan updated row rest | upserting scan updated row rest =>
      exact ScanSound.mono h hgrows
  | checkpointing scan updated | finalizing scan updated => exact ScanSound.mono h hgrows
  | starting | reading | returning scan | failing exc | ended => trivial

theorem CompletedSound.mono {viewRef : String} {run : CompletedRun}
    (h : m.CompletedSound s.stores viewRef run) (hgrows : Grows s s') :
    m.CompletedSound s'.stores viewRef run where
  present := h.present.trans (hgrows.views viewRef)
  delivered := by
    intro row hrow hstart hcutoff
    exact hgrows.online _ _ (h.delivered row hrow hstart hcutoff)

theorem stageSound_next {scan : MaterializationScan} {pending : List OfflineRow}
    (h : m.ScanSound s job scan pending) (updated : Nat) :
    m.StageSound s job (.next scan updated pending) := by
  cases pending with
  | nil => exact h
  | cons row rest => exact h

/-- The window read from the state row resumes from a success. -/
theorem planSound_of_read (hpublished : Published s) {plan : MaterializationPlan}
    (hplan : materializationPlan s.stores.db.materializationStates job.payload = .ok plan) :
    PlanSound s job plan := by
  intro viewRef cutoff hincremental
  have hpayload : job.payload.incremental? = some (viewRef, cutoff) := by
    unfold JobRecord.incremental? at hincremental
    split at hincremental
    · exact hincremental
    · cases hincremental
  cases hjob : job.payload with
  | incremental featureView endAt lookbackSeconds =>
      rw [hjob] at hplan hpayload
      cases hpayload
      cases hplan
      refine ⟨rfl, rfl, ?_⟩
      cases hwatermark : watermarkOf s.stores.db.materializationStates viewRef with
      | none =>
          have hstart := congrArg (Option.map fun watermark => watermark - seconds lookbackSeconds)
            hwatermark
          exact Or.inl hstart
      | some watermark =>
          obtain ⟨prior, hprior, hcutoff⟩ := hpublished viewRef watermark hwatermark
          have hstart := congrArg (Option.map fun watermark => watermark - seconds lookbackSeconds)
            hwatermark
          refine Or.inr ⟨prior, hprior, ?_⟩
          rw [hcutoff]
          exact hstart
  | range | offlineAppend | historicalQuery =>
      rw [hjob] at hpayload
      cases hpayload

/-- The query puts a newest row of each scanned entity before the upserts. -/
theorem scanSound_of_scanned {plan : MaterializationPlan} {source : DeltaTable}
    (hplan : PlanSound s job plan) (hsource : s.stores.views plan.viewRef = some source) :
    m.ScanSound s job ⟨plan, source⟩
      (MaterializationScan.latest m.query ⟨plan, source⟩) where
  plan := hplan
  present := by
    rw [hsource]
    exact List.prefix_rfl
  delivered := by
    intro row hrow
    exact Or.inr (m.query.newest _ row hrow)

/-- An upsert delivers its row, and with it every older row of the entity. -/
theorem ScanSound.upserted {scan : MaterializationScan} {row : OfflineRow}
    {rest : List OfflineRow} (h : m.ScanSound s job scan (row :: rest))
    {event : StreamFeatureEvent} (hevent : row.streamEvent scan.plan.viewRef = .ok event) :
    m.ScanSound
      { s with
        stores := { s.stores with online := (s.stores.online.upsert m.codec event).1 } }
      job scan rest where
  plan := h.plan
  present := h.present
  delivered := by
    obtain ⟨hview, hentity, hrank⟩ := OfflineRow.streamEvent_ok hevent
    intro older holder
    rcases h.delivered older holder with hdelivered | ⟨latest, hlatest, hsame, hle⟩
    · exact Or.inl hdelivered.upsert
    · rcases List.mem_cons.mp hlatest with rfl | hlatest
      · have hheld := OnlineStore.holds_upsert m.codec s.stores.online event
        rw [hview, hentity, hsame, hrank] at hheld
        exact Or.inl (hheld.mono hle)
      · exact Or.inr ⟨latest, hlatest, hsame, hle⟩

/-- What a finished scan has delivered. -/
theorem ScanSound.completed {scan : MaterializationScan} (h : m.ScanSound s job scan [])
    {viewRef : String} {cutoff : Instant}
    (hincremental : job.incremental? = some (viewRef, cutoff)) :
    m.CompletedSound s.stores viewRef
      ⟨scan.plan.start, cutoff, scan.plan.lookbackSeconds, scan.source.rows⟩ := by
  obtain ⟨hview, hend, _⟩ := h.plan viewRef cutoff hincremental
  subst hview hend
  refine ⟨h.present, ?_⟩
  intro row hrow hstart hcutoff
  have hscanned : row ∈ scan.rows := OfflineStore.mem_loadRange.mpr ⟨hrow, hstart, hcutoff⟩
  exact (h.delivered row hscanned).resolve_right (by simp)

/-- What a statement of an attempt leaves, with the success that it may commit. -/
structure StatementSound (m : MaterializationSystem) (s : MaterializationHistory)
    (stores : ServingStores) (a : MaterializeAttempt) : Prop where
  views : stores.views = s.stores.views
  online : ∀ key rank, s.stores.online.Holds key rank → stores.online.Holds key rank
  copies : ∀ job : JobRecord, job.SnapshotIn s.stores.db → job.SnapshotIn stores.db
  copy : a.job.SnapshotIn stores.db
  stage : m.StageSound { s with stores := stores } a.job a.stage
  watermark : ∀ viewRef watermark,
    watermarkOf stores.db.materializationStates viewRef = some watermark →
      watermarkOf s.stores.db.materializationStates viewRef = some watermark ∨
        ∃ run, a.completed? = some (viewRef, run) ∧ run.cutoff = watermark
  completed : ∀ viewRef run, a.completed? = some (viewRef, run) →
    ResumesFrom run.start run.lookbackSeconds (s.completed viewRef) ∧
      m.CompletedSound stores viewRef run

/-- A statement that writes no store. -/
theorem StatementSound.of_read {a : MaterializeAttempt} {stage : MaterializeStage}
    (hcopy : a.job.SnapshotIn s.stores.db) (hstage : m.StageSound s a.job stage)
    (hunfinished : (a.goto stage).completed? = none) :
    StatementSound m s s.stores (a.goto stage) where
  views := rfl
  online := fun _ _ h => h
  copies := fun _ h => h
  copy := hcopy
  stage := hstage
  watermark := fun _ _ h => Or.inl h
  completed := by
    intro viewRef run hrun
    cases hunfinished.symm.trans hrun

/-- A statement that commits a call which publishes nothing. -/
theorem StatementSound.of_call {a : MaterializeAttempt} {db : Database} (call : Call)
    (hdb : db = call.apply m.config s.stores.db) (hquiet : call.published? = none)
    (hcopy : a.job.SnapshotIn db)
    (hstage : m.StageSound { s with stores := { s.stores with db := db } } a.job a.stage)
    (hunfinished : a.completed? = none) :
    StatementSound m s { s.stores with db := db } a where
  views := rfl
  online := fun _ _ h => h
  copies := by
    intro job hjob
    rw [hdb]
    exact (call.commit m.config s.stores.db).snapshot_kept hjob
  copy := hcopy
  stage := hstage
  watermark := by
    intro viewRef watermark hwatermark
    change watermarkOf db.materializationStates viewRef = some watermark at hwatermark
    rw [hdb] at hwatermark
    refine ((call.commit m.config s.stores.db).watermark_origin hwatermark).imp_right ?_
    intro hpublished
    cases hquiet.symm.trans hpublished
  completed := by
    intro viewRef run hrun
    cases hunfinished.symm.trans hrun

theorem completed?_next (a : MaterializeAttempt) (scan : MaterializationScan) (updated : Nat)
    (pending : List OfflineRow) : (a.goto (.next scan updated pending)).completed? = none := by
  cases pending <;> rfl

/-- One case for each kind of statement. -/
theorem statementSound {stores : ServingStores} {a a' : MaterializeAttempt} {now : Instant}
    (h : MaterializeStatement m.config m.codec m.query s.stores a now stores a')
    (hi : m.Invariant s) (ha : a ∈ s.attempts) : StatementSound m s stores a' := by
  have hcopy := hi.copies a ha
  have hstage := hi.stages a ha
  cases h with
  | stopped stage stopped =>
      rcases stopped with rfl | ⟨exc, rfl⟩
      · exact .of_read hcopy trivial rfl
      · exact .of_read hcopy trivial rfl
  | checked => exact .of_read hcopy trivial rfl
  | read stage planned =>
      exact .of_read hcopy (planSound_of_read hi.published planned) rfl
  | required stage =>
      rw [stage] at hstage
      exact .of_read hcopy hstage rfl
  | scanned stage found =>
      rw [stage] at hstage
      exact .of_read hcopy (stageSound_next (scanSound_of_scanned hstage found) 0)
        (completed?_next ..)
  | confirmed stage =>
      rw [stage] at hstage
      exact .of_read hcopy hstage rfl
  | @upserted scan updated row rest event stage validated =>
      rw [stage] at hstage
      exact
        { views := rfl
          online := fun _ _ hheld => hheld.upsert
          copies := fun _ hjob => hjob
          copy := hcopy
          stage := stageSound_next (ScanSound.upserted hstage validated) _
          watermark := fun _ _ hwatermark => Or.inl hwatermark
          completed := by
            intro viewRef run hrun
            cases (completed?_next a scan _ rest).symm.trans hrun }
  | @checkpointed scan updated checkpoints job db stage commit =>
      rw [stage] at hstage
      have hdb : db = (Call.commitCheckpoints a.job a.token now checkpoints).apply m.config
          s.stores.db := by rw [Call.apply, commit]
      have hkept : a.job.SnapshotIn db := by
        rw [hdb]
        exact (Call.commit m.config s.stores.db _).snapshot_kept hcopy
      obtain ⟨hcopy', hsame⟩ := hkept.refreshed (commitCheckpoints_stored commit)
      refine .of_call _ hdb rfl hcopy' ?_ rfl
      have hscan : m.ScanSound s a.job scan [] := hstage
      refine ⟨?_, hscan.present, hscan.delivered⟩
      intro viewRef cutoff hincremental
      exact hscan.plan viewRef cutoff (hsame.symm.trans hincremental)
  | @finalized scan updated job db stage commit =>
      rw [stage] at hstage
      have hdb : db = (Call.finalizeSuccess a.job a.token now none
          (some (.materialization (scan.summary m.query updated)))).apply m.config
            s.stores.db := by rw [Call.apply, commit]
      have hcommit := Call.commit m.config s.stores.db (.finalizeSuccess a.job a.token now none
        (some (.materialization (scan.summary m.query updated))))
      rw [← hdb] at hcommit
      obtain ⟨hcopy', hsame⟩ :=
        (hcommit.snapshot_kept hcopy).refreshed (finalizeSuccess_stored commit)
      have hscan : m.ScanSound s a.job scan [] := hstage
      refine ⟨rfl, fun _ _ hheld => hheld, fun _ hjob => hcommit.snapshot_kept hjob, hcopy',
        trivial, ?_, ?_⟩
      · intro viewRef watermark hwatermark
        refine (hcommit.watermark_origin hwatermark).imp_right ?_
        intro hpublished
        have hincremental : job.incremental? = some (viewRef, watermark) :=
          hsame.trans hpublished
        exact ⟨⟨scan.plan.start, watermark, scan.plan.lookbackSeconds, scan.source.rows⟩,
          by simp only [MaterializeAttempt.completed?, hincremental, Option.map_some], rfl⟩
      · intro viewRef run hrun
        obtain ⟨⟨viewRef', cutoff⟩, hincremental, hpair⟩ := Option.map_eq_some_iff.mp hrun
        cases hpair
        rw [hsame] at hincremental
        have hcompleted := hscan.completed hincremental
        exact ⟨(hscan.plan viewRef cutoff hincremental).2.2, hcompleted.present,
          hcompleted.delivered⟩
  | @failed exc stage =>
      have hcommit := Call.commit m.config s.stores.db
        (.finalizeFailure a.job a.token now exc exc.message none)
      exact .of_call (.finalizeFailure a.job a.token now exc exc.message none) rfl rfl
        (hcommit.snapshot_kept hcopy) trivial rfl

theorem recordRun_of_ne {completed : String → List CompletedRun}
    {success : Option (String × CompletedRun)} {viewRef : String}
    (h : ∀ run, success ≠ some (viewRef, run)) :
    recordRun completed success viewRef = completed viewRef := by
  cases success with
  | none => rfl
  | some pair =>
      refine Function.update_of_ne ?_ _ _
      rintro rfl
      exact h pair.2 rfl

theorem recordRun_self (completed : String → List CompletedRun) (viewRef : String)
    (run : CompletedRun) :
    recordRun completed (some (viewRef, run)) viewRef = run :: completed viewRef :=
  Function.update_self ..

/-- Either the history of a view is unchanged, or the success is its latest run. -/
theorem recordRun_cases (completed : String → List CompletedRun)
    (success : Option (String × CompletedRun)) (viewRef : String) :
    recordRun completed success viewRef = completed viewRef ∨
      ∃ run, success = some (viewRef, run) ∧
        recordRun completed success viewRef = run :: completed viewRef := by
  by_cases h : ∃ run, success = some (viewRef, run)
  · obtain ⟨run, rfl⟩ := h
    exact Or.inr ⟨run, rfl, recordRun_self completed viewRef run⟩
  · exact Or.inl (recordRun_of_ne fun run hrun => h ⟨run, hrun⟩)

theorem mem_recordRun {completed : String → List CompletedRun}
    (success : Option (String × CompletedRun)) {viewRef : String} {run : CompletedRun}
    (h : run ∈ completed viewRef) : run ∈ recordRun completed success viewRef := by
  rcases recordRun_cases completed success viewRef with hsame | ⟨latest, _, hlatest⟩
  · rw [hsame]
    exact h
  · rw [hlatest]
    exact List.mem_cons_of_mem latest h

/-- A sound statement keeps the invariant, its success recorded. -/
theorem StatementSound.invariant {stores : ServingStores} {a : MaterializeAttempt}
    (h : StatementSound m s stores a) (hi : m.Invariant s) (k : Nat) :
    m.Invariant ⟨stores, s.attempts.set k a, recordRun s.completed a.completed?⟩ := by
  have hgrows : Grows s ⟨stores, s.attempts.set k a, recordRun s.completed a.completed?⟩ := by
    refine ⟨fun _ _ hrun => mem_recordRun _ hrun, ?_, h.online⟩
    intro viewRef
    simp only [h.views, List.prefix_rfl]
  refine ⟨?_, ?_, ?_, ?_, ?_⟩
  · intro viewRef watermark hwatermark
    rcases h.watermark viewRef watermark hwatermark with hold | ⟨run, hrun, hcutoff⟩
    · obtain ⟨run, hrun, hcutoff⟩ := hi.published viewRef watermark hold
      exact ⟨run, hgrows.completed viewRef run hrun, hcutoff⟩
    · refine ⟨run, ?_, hcutoff⟩
      change run ∈ recordRun s.completed a.completed? viewRef
      rw [hrun, recordRun_self]
      exact List.mem_cons_self
  · intro b hb
    rcases List.mem_or_eq_of_mem_set hb with hold | rfl
    · exact h.copies b.job (hi.copies b hold)
    · exact h.copy
  · intro b hb
    rcases List.mem_or_eq_of_mem_set hb with hold | rfl
    · exact (hi.stages b hold).mono hgrows
    · refine h.stage.mono ⟨fun _ _ hrun => mem_recordRun _ hrun, ?_, fun _ _ hheld => hheld⟩
      intro viewRef
      exact List.prefix_rfl
  · intro viewRef
    change Linked (recordRun s.completed a.completed? viewRef)
    rcases recordRun_cases s.completed a.completed? viewRef with hsame | ⟨run, hrun, hlatest⟩
    · rw [hsame]
      exact hi.linked viewRef
    · rw [hlatest]
      exact ⟨(h.completed viewRef run hrun).1, hi.linked viewRef⟩
  · intro viewRef run hrun
    change run ∈ recordRun s.completed a.completed? viewRef at hrun
    rcases recordRun_cases s.completed a.completed? viewRef with hsame | ⟨latest, hnew, hlatest⟩
    · rw [hsame] at hrun
      exact (hi.completed viewRef run hrun).mono hgrows
    · rw [hlatest] at hrun
      rcases List.mem_cons.mp hrun with rfl | hold
      · exact (h.completed viewRef run hnew).2
      · exact (hi.completed viewRef run hold).mono hgrows

/-- An action outside the attempts that publishes nothing. -/
theorem Invariant.of_grows {stores : ServingStores} (hi : m.Invariant s)
    (hgrows : Grows s { s with stores := stores })
    (hwatermark : ∀ viewRef watermark,
      watermarkOf stores.db.materializationStates viewRef = some watermark →
        watermarkOf s.stores.db.materializationStates viewRef = some watermark)
    (hcopies : ∀ job : JobRecord, job.SnapshotIn s.stores.db → job.SnapshotIn stores.db) :
    m.Invariant { s with stores := stores } where
  published := fun viewRef watermark h => hi.published viewRef watermark (hwatermark _ _ h)
  copies := fun a ha => hcopies a.job (hi.copies a ha)
  stages := fun a ha => (hi.stages a ha).mono hgrows
  linked := hi.linked
  completed := fun viewRef run hrun => (hi.completed viewRef run hrun).mono hgrows

/-- A started attempt holds a copy of the row that its claim committed. -/
theorem started_copy {db : Database} {call : Call} {a : MaterializeAttempt}
    (h : claimedMaterialization? m.config db call = some a) :
    a.job.SnapshotIn (call.apply m.config db) ∧ a.stage = .starting := by
  unfold claimedMaterialization? at h
  split at h
  · split at h
    · rename_i job hjob
      split at h
      · cases h
        obtain ⟨hstored, _⟩ := claimPass_claimed hjob
        exact ⟨⟨job, hstored, rfl, rfl⟩, rfl⟩
      · cases h
    · cases h
    · cases h
  all_goals cases h

theorem step_invariant (s : MaterializationHistory) (action : MaterializationAction)
    (hi : m.Invariant s) : m.Invariant (m.step s action) := by
  cases action with
  | call call =>
      by_cases hpublished : call.published?.isSome = true
      · simp only [step, if_pos hpublished]
        exact hi
      · simp only [step, if_neg hpublished]
        have hcommit := call.commit m.config s.stores.db
        have hbase : m.Invariant
            { s with stores := { s.stores with db := call.apply m.config s.stores.db } } := by
          refine hi.of_grows ⟨fun _ _ h => h, fun _ => List.prefix_rfl, fun _ _ h => h⟩ ?_
            fun job hjob => hcommit.snapshot_kept hjob
          intro viewRef watermark hwatermark
          refine (hcommit.watermark_origin hwatermark).resolve_right ?_
          intro hnew
          exact hpublished (by rw [hnew]; rfl)
        refine ⟨hbase.published, ?_, ?_, hbase.linked, hbase.completed⟩
        · intro a ha
          rcases List.mem_append.mp ha with hold | hnew
          · exact hbase.copies a hold
          · exact (started_copy (Option.mem_toList.mp hnew)).1
        · intro a ha
          rcases List.mem_append.mp ha with hold | hnew
          · exact (hbase.stages a hold).mono
              ⟨fun _ _ h => h, fun _ => List.prefix_rfl, fun _ _ h => h⟩
          · rw [(started_copy (Option.mem_toList.mp hnew)).2]
            trivial
  | statement k now =>
      cases hk : s.attempts[k]? with
      | none =>
          simp only [step, hk]
          exact hi
      | some a =>
          simp only [step, hk]
          have hstatement : MaterializeStatement m.config m.codec m.query s.stores a now _ _ :=
            MaterializeAttempt.advance_statement
          exact (statementSound hstatement hi (List.mem_of_getElem? hk)).invariant hi k
  | raise k exc =>
      cases hk : s.attempts[k]? with
      | none =>
          simp only [step, hk]
          exact hi
      | some a =>
          simp only [step, hk]
          have ha := List.mem_of_getElem? hk
          obtain ⟨stage, hgoto, hstopped⟩ := a.raise_goto exc
          rw [hgoto]
          have hsound : StatementSound m s s.stores (a.goto stage) := by
            rcases hstopped with rfl | ⟨exc, rfl⟩
            · exact .of_read (hi.copies a ha) trivial rfl
            · exact .of_read (hi.copies a ha) trivial rfl
          have hnone : (a.goto stage).completed? = none := by
            rcases hstopped with rfl | ⟨exc, rfl⟩ <;> rfl
          have hinvariant := hsound.invariant hi k
          rwa [hnone] at hinvariant
  | append viewRef rows =>
      refine hi.of_grows ⟨fun _ _ h => h, ?_, fun _ _ h => h⟩ (fun _ _ h => h) fun _ h => h
      intro other
      by_cases hview : other = viewRef
      · subst hview
        simp only [Function.update_self]
        exact List.prefix_append _ _
      · simp only [Function.update_of_ne hview]
        exact List.prefix_rfl
  | upsert event =>
      exact hi.of_grows ⟨fun _ _ h => h, fun _ => List.prefix_rfl, fun _ _ h => h.upsert⟩
        (fun _ _ h => h) fun _ h => h

theorem initial_invariant (views : String → Option DeltaTable) (online : OnlineStore) :
    m.Invariant (initial views online) where
  published := by
    intro viewRef watermark hwatermark
    cases hwatermark
  copies := by
    intro a ha
    cases ha
  stages := by
    intro a ha
    cases ha
  linked := fun _ => trivial
  completed := by
    intro viewRef run hrun
    cases hrun

/-- The successes of a view form a history, if no row came later than a lookback. -/
theorem Linked.history {runs : List CompletedRun} {rows : List OfflineRow} {bound : Int}
    (hlinked : Linked runs) (hpresent : ∀ run ∈ runs, run.present <+: rows)
    (hbound : ∀ run ∈ runs, bound ≤ seconds run.lookbackSeconds)
    (hlate : ∀ run ∈ runs, ∀ row ∈ rows.drop run.present.length,
      run.cutoff - bound ≤ row.eventTimestamp) :
    History OfflineRow.eventTimestamp (runs.map CompletedRun.scan) := by
  induction runs with
  | nil => trivial
  | cons run earlier ih =>
      have hearlier : ∀ prior ∈ earlier, prior ∈ run :: earlier :=
        fun _ h => List.mem_cons_of_mem run h
      refine ⟨?_, ih hlinked.2 (fun prior h => hpresent prior (hearlier prior h))
        (fun prior h => hbound prior (hearlier prior h))
        fun prior h => hlate prior (hearlier prior h)⟩
      rcases hlinked.1 with hnone | ⟨prior, hprior, hstart⟩
      · exact Or.inl hnone
      · refine Or.inr ⟨prior.scan, List.mem_map_of_mem hprior, _, hstart, ?_, ?_⟩
        · have hnonneg : 0 ≤ seconds run.lookbackSeconds := by
            unfold seconds
            omega
          change prior.cutoff - seconds run.lookbackSeconds ≤ prior.cutoff
          exact Int.sub_le_self _ hnonneg
        · -- A row that the earlier scan did not find was appended after it.
          intro row hrow hmissing
          obtain ⟨appended, happended⟩ := hpresent prior (hearlier prior hprior)
          have hmem : row ∈ rows.drop prior.present.length := by
            have hrows : row ∈ prior.present ++ appended := by
              rw [happended]
              exact (hpresent run List.mem_cons_self).subset hrow
            rw [← happended, List.drop_left]
            exact (List.mem_append.mp hrows).resolve_left hmissing
          calc
            prior.cutoff - seconds run.lookbackSeconds ≤ prior.cutoff - bound :=
              Int.sub_le_sub_left (hbound run List.mem_cons_self) _
            _ ≤ row.eventTimestamp := hlate prior (hearlier prior hprior) row hmem

/-- A system whose tables hold one row of each entity, so that the query keeps all. -/
def sampleSystem : MaterializationSystem where
  config := defaultConfig
  codec :=
    { digest := fun values => String.join (values.map (·.1))
      dumps := fun _ => "null" }
  query := ⟨id, fun _ _ h => h, fun _ row h => ⟨row, h, rfl, le_refl _⟩⟩

/-- A row of a driver at the given second. -/
def sampleRow (driver : String) (second : Int) (eventId : String) : OfflineRow :=
  ⟨[(driver, .null)], seconds second, some eventId, [], dateOf (seconds second), rfl⟩

/-- An incremental request for the sample view, with a lookback of five seconds. -/
def lookbackRequest (cutoff : Int) : IncrementalMaterializationRequest :=
  ⟨"driver_stats@1", some (seconds cutoff), some 5⟩

/-- A success with cutoff 10, a row that comes four seconds late, and a success with
cutoff 20 whose first attempt dies after its scan. -/
def lateRowRun : List MaterializationAction :=
  [.call (.createIncrementalMaterialization (lookbackRequest 10) 1 101 0),
    .call (.claimPass "worker" 0 [] 11)] ++ List.replicate 9 (.statement 0 0) ++
  [.append "driver_stats@1" [sampleRow "second" 6 "b"],
    .call (.createIncrementalMaterialization (lookbackRequest 20) 2 102 0),
    .call (.claimPass "worker" 0 [] 12)] ++ List.replicate 4 (.statement 1 0) ++
  [.call (.claimPass "worker" (seconds 30) [] 13)] ++
    List.replicate 9 (.statement 2 (seconds 30))

end MaterializationSystem

end FeatureStore
