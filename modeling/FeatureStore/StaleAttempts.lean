import FeatureStore.BackfillRuns
import FeatureStore.LeaseFencing
import FeatureStore.Materialization
import FeatureStore.Library.GuardedWriter

/-!
# Attempts that have lost their lease

`_execute` checks the lease before its writes, and each of its transactions checks it again. So an
attempt whose token has been retired ends after a few statements, and writes at most what lies
between two of its checks.
-/

namespace FeatureStore

open Relational Fencing

/-- The statement of a worker at its clock, or an exception in its place. -/
inductive WorkerInput
  | statement (now : Instant)
  | raise (exc : PyException)

/-- How the attempts at one kind of job act on their stores. -/
structure AttemptKind (ω σ ι τ : Type) where
  db : ω → Database
  /-- What the attempts write besides the tables of the control plane. -/
  store : ω → τ
  token : σ → Uuid
  step : ω → σ → ι → ω × σ
  /-- The next statement writes to the store. -/
  writes : σ → Bool
  /-- The writes until the next check of the lease. -/
  exposure : σ → Nat
  /-- The statements until the end of an attempt without a lease, one of which may raise. -/
  distance : σ → Nat

namespace AttemptKind

variable {ω σ ι τ : Type} (k : AttemptKind ω σ ι τ)

/-- What a statement without a lease leaves of an attempt and its stores. -/
structure Winds (w : ω) (a : σ) (next : ω × σ) : Prop where
  db : k.db next.1 = k.db w
  token : k.token next.2 = k.token a
  exposure : (k.writes a).toNat + k.exposure next.2 ≤ k.exposure a
  distance : k.distance next.2 ≤ k.distance a - 1
  frame : k.writes a = false → k.store next.1 = k.store w

/-- Without a lease every statement winds the attempt down. -/
def WindsDown : Prop :=
  ∀ w a drawn, (leasesOf (k.db w) drawn).Retired (k.token a) → ∀ i, k.Winds w a (k.step w a i)

/-- Transactions of the control plane, and any change of the other stores. -/
def Transacts (w w' : ω × List Uuid) : Prop :=
  Leases.Step (leasesOf (k.db w.1) w.2) (leasesOf (k.db w'.1) w'.2)

def turn (w : ω × List Uuid) (a : σ) (i : ι) : (ω × List Uuid) × σ :=
  (((k.step w.1 a i).1, w.2), (k.step w.1 a i).2)

def IsStale (w : ω × List Uuid) (a : σ) : Prop := (leasesOf (k.db w.1) w.2).Retired (k.token a)

variable {k} {w : ω × List Uuid} {a : σ}

/-- Every call that the control plane commits is such a transaction. -/
theorem transacts_call (config : Config) (s : ControlPlane) (call : Call) {w' : ω × List Uuid}
    (hbefore : (k.db w.1, w.2) = (s.db, s.drawn))
    (hafter : (k.db w'.1, w'.2) = ((s.step config call).db, (s.step config call).drawn)) :
    k.Transacts w w' := by
  obtain ⟨hdb, hdrawn⟩ := Prod.mk.inj hbefore
  obtain ⟨hdb', hdrawn'⟩ := Prod.mk.inj hafter
  rw [Transacts, hdb, hdrawn, hdb', hdrawn']
  exact ControlPlane.step_leases config s call

theorem isStale_turn (h : k.WindsDown) (hstale : k.IsStale w a) (i : ι) :
    k.IsStale (k.turn w a i).1 (k.turn w a i).2 := by
  have hwinds := h w.1 a w.2 hstale i
  rw [IsStale, turn, hwinds.db, hwinds.token]
  exact hstale

/-- The attempts of a kind that winds down, with their lease as the permit. -/
def writer (k : AttemptKind ω σ ι τ) (h : k.WindsDown) :
    GuardedWriter (ω × List Uuid) σ ι τ where
  step := k.turn
  store w := k.store w.1
  writes := k.writes
  Lost := k.IsStale
  exposure := k.exposure
  distance := k.distance
  frame hstale hreads i := (h _ _ _ hstale i).frame hreads
  lost_step hstale i := isStale_turn h hstale i
  exposure_step hstale i := (h _ _ _ hstale i).exposure
  distance_step hstale i := (h _ _ _ hstale i).distance

theorem stopsWithin (h : k.WindsDown) {ended : σ → Prop} {writes steps : Nat}
    (hexposure : ∀ a, k.exposure a ≤ writes) (hdistance : ∀ a, k.distance a ≤ steps)
    (hended : ∀ a, k.distance a = 0 → ended a) :
    (k.writer h).StopsWithin k.Transacts ended writes steps :=
  GuardedWriter.stopsWithin (fun hstep hstale => hstep.retired hstale) hexposure hdistance hended

end AttemptKind

section Retired

variable {settings : Settings} {db : Database} {drawn : List Uuid} {job : JobRecord}
  {jobId token : Uuid}

theorem not_owned_of_retired (h : (leasesOf db drawn).Retired token) {row : JobRecord}
    (hrow : db.jobs.find? jobId = some row) (now : Instant) : row.ownedBy token now = false := by
  by_contra howned
  have htoken := (JobRecord.ownedBy_iff.mp (Bool.not_eq_false _ ▸ howned)).1
  exact h.2 jobId (Option.bind_eq_some_iff.mpr ⟨row, hrow, htoken⟩)

theorem owns_of_retired (h : (leasesOf db drawn).Retired token) (now : Instant) :
    owns db jobId token now = false := by
  unfold owns
  cases hrow : db.jobs.find? jobId with
  | none => rfl
  | some row => exact not_owned_of_retired h hrow now

theorem rowcount_of_retired (h : (leasesOf db drawn).Retired token) (now : Instant) :
    db.jobs.rowcount (leaseGuard jobId token now) = 0 :=
  (Table.update_miss (fun row : JobRecord => row.ownedBy token now)
    fun _ hrow => not_owned_of_retired h hrow now).1

theorem commitCheckpoints_of_retired (h : (leasesOf db drawn).Retired token) (now : Instant)
    (checkpoints : List Checkpoint) : commitCheckpoints db job token now checkpoints =
      (db, .error (leaseLost s!"job lease was lost before checkpoint: {job.id}")) := by
  rw [commitCheckpoints, if_pos (rowcount_of_retired h now)]

theorem finalizeSuccess_of_retired (h : (leasesOf db drawn).Retired token) (now : Instant)
    (uri : Option String) (metadata : Option ResultMetadata) :
    finalizeSuccess settings db job token now uri metadata =
      (db, .error (leaseLost s!"job lease was lost before success: {job.id}")) := by
  rw [finalizeSuccess, if_pos (rowcount_of_retired h now)]

theorem finalizeFailure_of_retired (h : (leasesOf db drawn).Retired token) (now : Instant)
    (exc : PyException) (error : String) (metadata : Option ResultMetadata) :
    finalizeFailure settings db job token now exc error metadata = db := by
  rw [finalizeFailure, if_pos (rowcount_of_retired h now)]

end Retired

/-! ## Materializations -/

/-- The next statement is an upsert. -/
def MaterializeStage.writes : MaterializeStage → Bool
  | .upserting .. => true
  | _ => false

def MaterializeStage.distance : MaterializeStage → Nat
  | .reading | .scanning _ | .upserting .. => 3
  | .requiringOwnership _ | .confirmingOwnership .. | .checkpointing .. | .finalizing ..
  | .returning _ => 2
  | .starting | .failing _ => 1
  | .ended => 0

/-- Materializations write to the online store. -/
def materializations (config : Config) (codec : OnlineCodec) (query : LatestQuery) :
    AttemptKind ServingStores MaterializeAttempt WorkerInput OnlineStore where
  db w := w.db
  store w := w.online
  token a := a.token
  step w a
    | .statement now => a.advance config codec query w now
    | .raise exc => (w, a.raise exc)
  writes a := a.stage.writes
  exposure a := a.stage.writes.toNat
  distance a := a.stage.distance

section Materialization

variable {config : Config} {codec : OnlineCodec} {query : LatestQuery} {w : ServingStores}
  {a : MaterializeAttempt} {stage : MaterializeStage}

theorem MaterializeStage.distance_next (scan : MaterializationScan) (updated : Nat)
    (rows : List OfflineRow) :
    (MaterializeStage.next scan updated rows).distance = 2 ∧
      (MaterializeStage.next scan updated rows).writes = false := by
  cases rows <;> exact ⟨rfl, rfl⟩

namespace MaterializeAttempt

theorem winds_leave {online : OnlineStore} (hwrites : stage.writes = false)
    (hdistance : stage.distance ≤ a.stage.distance - 1)
    (hframe : a.stage.writes = false → online = w.online) :
    (materializations config codec query).Winds w a
      ({ w with online := online }, a.goto stage) := by
  refine ⟨rfl, rfl, ?_, hdistance, hframe⟩
  change a.stage.writes.toNat + stage.writes.toNat ≤ a.stage.writes.toNat
  rw [hwrites]
  exact Nat.le_refl _

theorem winds_goto (hwrites : stage.writes = false)
    (hdistance : stage.distance ≤ a.stage.distance - 1) :
    (materializations config codec query).Winds w a (w, a.goto stage) :=
  winds_leave hwrites hdistance fun _ => rfl

theorem winds_handle (exc : PyException) (hdistance : 2 ≤ a.stage.distance) :
    (materializations config codec query).Winds w a (w, a.handle exc) := by
  obtain ⟨stage, hgoto, hstopped⟩ := a.handle_goto exc
  rw [hgoto]
  rcases hstopped with rfl | ⟨exc, rfl⟩
  · exact winds_goto rfl (Nat.zero_le _)
  · exact winds_goto rfl (Nat.le_sub_one_of_lt hdistance)

theorem winds_raise (exc : PyException) :
    (materializations config codec query).Winds w a (w, a.raise exc) := by
  unfold raise
  cases hstage : a.stage with
  | starting | failing | ended => exact winds_goto rfl (Nat.zero_le _)
  | reading | requiringOwnership | scanning | confirmingOwnership | upserting | checkpointing
  | finalizing | returning => exact winds_handle exc (by simp [hstage, MaterializeStage.distance])

theorem winds_advance {drawn : List Uuid} (h : (leasesOf w.db drawn).Retired a.token)
    (now : Instant) :
    (materializations config codec query).Winds w a (a.advance config codec query w now) := by
  unfold advance
  cases hstage : a.stage with
  | starting | requiringOwnership | confirmingOwnership =>
      rw [owns_of_retired h]
      exact winds_goto rfl (Nat.zero_le _)
  | reading =>
      dsimp only
      split
      · rename_i exc _
        exact winds_handle exc (by simp [hstage, MaterializeStage.distance])
      · exact winds_goto rfl (by simp [hstage, MaterializeStage.distance])
  | scanning plan =>
      dsimp only
      split
      · exact winds_handle noViewTable (by simp [hstage, MaterializeStage.distance])
      · rename_i source _
        obtain ⟨hdistance, hwrites⟩ := MaterializeStage.distance_next ⟨plan, source⟩ 0
          (MaterializationScan.latest query ⟨plan, source⟩)
        refine winds_goto hwrites ?_
        rw [hstage]
        exact Nat.le_of_eq hdistance
  | upserting scan updated row rest =>
      dsimp only
      split
      · rename_i exc _
        exact winds_handle exc (by simp [hstage, MaterializeStage.distance])
      · rename_i event _
        obtain ⟨hdistance, hwrites⟩ := MaterializeStage.distance_next scan
          (updated + (w.online.upsert codec event).2.toNat) rest
        refine winds_leave hwrites ?_ fun hreads => ?_
        · rw [hstage]
          exact Nat.le_of_eq hdistance
        · rw [hstage] at hreads
          cases hreads
  | checkpointing scan updated =>
      dsimp only
      rw [commitCheckpoints_of_retired h]
      exact winds_handle _ (by simp [hstage, MaterializeStage.distance])
  | finalizing scan updated =>
      dsimp only
      rw [finalizeSuccess_of_retired h]
      exact winds_handle _ (by simp [hstage, MaterializeStage.distance])
  | returning scan => exact winds_goto rfl (Nat.zero_le _)
  | failing exc =>
      dsimp only
      rw [finalizeFailure_of_retired h]
      exact winds_goto rfl (Nat.zero_le _)
  | ended =>
      have hself : a.goto .ended = a := by
        cases a
        cases hstage
        rfl
      have hwinds : (materializations config codec query).Winds w a (w, a.goto .ended) :=
        winds_goto rfl (Nat.zero_le _)
      rwa [hself] at hwinds

end MaterializeAttempt

theorem materializations_windDown : (materializations config codec query).WindsDown := by
  intro w a drawn h input
  cases input with
  | statement now => exact MaterializeAttempt.winds_advance h now
  | raise exc => exact MaterializeAttempt.winds_raise exc

end Materialization

/-! ## Offline appends -/

/-- The next statement appends to the view. -/
def AppendStage.writes : AppendStage → Bool
  | .appending _ => true
  | _ => false

def AppendStage.distance : AppendStage → Nat
  | .loadingStaging => 4
  | .loadingTarget _ | .appending _ => 3
  | .requiringOwnership | .confirmingOwnership _ | .checkpointing _ | .finalizing _ => 2
  | .starting | .cleaning | .failing _ => 1
  | .ended => 0

/-- Offline appends write to the tables of views. -/
def offlineAppends (config : Config) (canonicalRow : OfflineRow → String) :
    AttemptKind Warehouse Attempt WorkerInput (String → Option DeltaTable) where
  db w := w.db
  store w := w.views
  token a := a.token
  step w a
    | .statement now => a.advance config canonicalRow w now
    | .raise exc => (w, a.raise exc)
  writes a := a.stage.writes
  exposure a := a.stage.writes.toNat
  distance a := a.stage.distance

section Append

variable {config : Config} {canonicalRow : OfflineRow → String} {w : Warehouse} {a : Attempt}
  {stage : AppendStage}

namespace Attempt

theorem winds_leave {staging : StagingUri → Option DeltaTable} {views : String → Option DeltaTable}
    (hwrites : stage.writes = false) (hdistance : stage.distance ≤ a.stage.distance - 1)
    (hframe : a.stage.writes = false → views = w.views) :
    (offlineAppends config canonicalRow).Winds w a
      ({ w with staging := staging, views := views }, a.goto stage) := by
  refine ⟨rfl, rfl, ?_, hdistance, hframe⟩
  change a.stage.writes.toNat + stage.writes.toNat ≤ a.stage.writes.toNat
  rw [hwrites]
  exact Nat.le_refl _

theorem winds_goto (hwrites : stage.writes = false)
    (hdistance : stage.distance ≤ a.stage.distance - 1) :
    (offlineAppends config canonicalRow).Winds w a (w, a.goto stage) :=
  winds_leave hwrites hdistance fun _ => rfl

theorem winds_handle (exc : PyException) (hdistance : 2 ≤ a.stage.distance) :
    (offlineAppends config canonicalRow).Winds w a (w, a.handle exc) := by
  obtain ⟨stage, hgoto, hstopped⟩ := a.handle_goto exc
  rw [hgoto]
  rcases hstopped with rfl | ⟨exc, rfl⟩
  · exact winds_goto rfl (Nat.zero_le _)
  · exact winds_goto rfl (Nat.le_sub_one_of_lt hdistance)

theorem winds_raise (exc : PyException) :
    (offlineAppends config canonicalRow).Winds w a (w, a.raise exc) := by
  unfold raise
  cases hstage : a.stage with
  | starting | cleaning | failing | ended => exact winds_goto rfl (Nat.zero_le _)
  | requiringOwnership | loadingStaging | loadingTarget | confirmingOwnership | appending
  | checkpointing | finalizing => exact winds_handle exc (by simp [hstage, AppendStage.distance])

theorem winds_advance {drawn : List Uuid} (h : (leasesOf w.db drawn).Retired a.token)
    (now : Instant) :
    (offlineAppends config canonicalRow).Winds w a (a.advance config canonicalRow w now) := by
  unfold advance
  cases hstage : a.stage with
  | starting | requiringOwnership | confirmingOwnership =>
      rw [owns_of_retired h]
      exact winds_goto rfl (Nat.zero_le _)
  | loadingStaging =>
      dsimp only
      split
      · exact winds_handle _ (by simp [hstage, AppendStage.distance])
      · split
        · exact winds_handle _ (by simp [hstage, AppendStage.distance])
        · exact winds_goto rfl (by simp [hstage, AppendStage.distance])
  | loadingTarget staged =>
      dsimp only
      split
      · exact winds_handle _ (by simp [hstage, AppendStage.distance])
      · split
        · exact winds_handle _ (by simp [hstage, AppendStage.distance])
        · split
          · exact winds_goto rfl (by simp [hstage, AppendStage.distance])
          · exact winds_goto rfl (by simp [hstage, AppendStage.distance])
  | appending comparison =>
      dsimp only
      split
      · exact winds_handle _ (by simp [hstage, AppendStage.distance])
      · refine winds_leave rfl (by simp [hstage, AppendStage.distance]) fun hreads => ?_
        rw [hstage] at hreads
        cases hreads
  | checkpointing comparison =>
      dsimp only
      rw [commitCheckpoints_of_retired h]
      exact winds_handle _ (by simp [hstage, AppendStage.distance])
  | finalizing comparison =>
      dsimp only
      rw [finalizeSuccess_of_retired h]
      exact winds_handle _ (by simp [hstage, AppendStage.distance])
  | cleaning =>
      dsimp only
      split
      · exact winds_goto rfl (Nat.zero_le _)
      · exact winds_leave rfl (Nat.zero_le _) fun _ => rfl
  | failing exc =>
      dsimp only
      rw [finalizeFailure_of_retired h]
      exact winds_goto rfl (Nat.zero_le _)
  | ended =>
      have hself : a.goto .ended = a := by
        cases a
        cases hstage
        rfl
      have hwinds : (offlineAppends config canonicalRow).Winds w a (w, a.goto .ended) :=
        winds_goto rfl (Nat.zero_le _)
      rwa [hself] at hwinds

end Attempt

theorem offlineAppends_windDown : (offlineAppends config canonicalRow).WindsDown := by
  intro w a drawn h input
  cases input with
  | statement now => exact Attempt.winds_advance h now
  | raise exc => exact Attempt.winds_raise exc

end Append

/-! ## Backfills -/

namespace BackfillChunk

/-- The first access leaves the table, and the next one writes. -/
theorem advance_loading (chunk : BackfillChunk) (table : Option DeltaTable) :
    (chunk.advance table .loading).1 = table ∧
      ((chunk.advance table .loading).2 = .creating ∨
        ∃ existing, (chunk.advance table .loading).2 = .overwriting existing) := by
  cases table with
  | none => exact ⟨rfl, Or.inl rfl⟩
  | some existing => exact ⟨rfl, Or.inr ⟨existing, rfl⟩⟩

theorem advance_creating (chunk : BackfillChunk) (table : Option DeltaTable) :
    (chunk.advance table .creating).2 = .written := by
  unfold advance
  dsimp only
  split <;> rfl

end BackfillChunk

/-- The next statement writes to the view. -/
def BackfillStage.writesView : BackfillStage → Bool
  | .accessing _ (.overwriting _) | .accessing _ .creating => true
  | _ => false

/-- The next statement writes to the quarantine table. -/
def BackfillStage.writesQuarantine : BackfillStage → Bool
  | .quarantining _ => true
  | _ => false

/-- The writes to the view until the next check of the lease. -/
def BackfillStage.viewExposure : BackfillStage → Nat
  | .accessing _ .written => 0
  | .quarantining _ | .accessing _ _ => 1
  | _ => 0

def BackfillStage.distance : BackfillStage → Nat
  | .quarantining _ => 5
  | .reading | .accessing _ .loading => 4
  | .looping _ _ _ | .evaluating _ | .accessing _ _ => 3
  | .requiringOwnership _ | .confirmingOwnership _ | .checkpointing _ | .finalizing _ => 2
  | .starting | .failing _ _ => 1
  | .ended => 0

/-- What backfills do to one of their tables. -/
def backfills (d : BackfillDeployment) {τ : Type} (store : BackfillStores → τ)
    (writes : BackfillStage → Bool) (exposure : BackfillStage → Nat) :
    AttemptKind BackfillStores BackfillAttempt (WorkerInput × Except PyException ArrowTable) τ where
  db w := w.db
  store := store
  token a := a.token
  step w a
    | (.statement now, loaded) => a.advance d w now loaded
    | (.raise exc, _) => (w, a.raise exc)
  writes a := writes a.stage
  exposure a := exposure a.stage
  distance a := a.stage.distance

/-- Backfills write to the table of their view. -/
def viewBackfills (d : BackfillDeployment) :
    AttemptKind BackfillStores BackfillAttempt (WorkerInput × Except PyException ArrowTable)
      (Option DeltaTable) :=
  backfills d (·.view) BackfillStage.writesView BackfillStage.viewExposure

/-- Backfills write to their quarantine table. -/
def quarantineBackfills (d : BackfillDeployment) :
    AttemptKind BackfillStores BackfillAttempt (WorkerInput × Except PyException ArrowTable)
      (Option (List QuarantinedRow)) :=
  backfills d (·.quarantine) BackfillStage.writesQuarantine fun stage =>
    stage.writesQuarantine.toNat

section Backfill

variable {d : BackfillDeployment} {w : BackfillStores} {a : BackfillAttempt} {stage : BackfillStage}

/-- What a statement without a lease leaves of a backfill and both its tables. -/
structure BackfillWinds (d : BackfillDeployment) (w : BackfillStores) (a : BackfillAttempt)
    (next : BackfillStores × BackfillAttempt) : Prop where
  view : (viewBackfills d).Winds w a next
  quarantine : (quarantineBackfills d).Winds w a next

namespace BackfillAttempt

theorem winds_leave {view : Option DeltaTable} {quarantine : Option (List QuarantinedRow)}
    (hview : a.stage.writesView.toNat + stage.viewExposure ≤ a.stage.viewExposure)
    (hquarantine : stage.writesQuarantine = false)
    (hdistance : stage.distance ≤ a.stage.distance - 1)
    (hviewFrame : a.stage.writesView = false → view = w.view)
    (hquarantineFrame : a.stage.writesQuarantine = false → quarantine = w.quarantine) :
    BackfillWinds d w a ({ w with view := view, quarantine := quarantine }, a.goto stage) := by
  refine ⟨⟨rfl, rfl, hview, hdistance, hviewFrame⟩, ⟨rfl, rfl, ?_, hdistance, hquarantineFrame⟩⟩
  change a.stage.writesQuarantine.toNat + stage.writesQuarantine.toNat ≤
    a.stage.writesQuarantine.toNat
  rw [hquarantine]
  exact Nat.le_refl _

theorem viewExposure_of_writes : a.stage.writesView.toNat ≤ a.stage.viewExposure := by
  cases a.stage with
  | accessing pass access =>
      cases access <;> simp [BackfillStage.writesView, BackfillStage.viewExposure]
  | _ => exact Nat.zero_le _

theorem writesQuarantine_of_viewExposure (h : stage.viewExposure = 0) :
    stage.writesQuarantine = false := by
  cases stage with
  | quarantining pass => cases h
  | _ => rfl

theorem winds_goto (hexposure : stage.viewExposure = 0)
    (hdistance : stage.distance ≤ a.stage.distance - 1) : BackfillWinds d w a (w, a.goto stage) :=
  winds_leave (by rw [hexposure]; exact viewExposure_of_writes)
    (writesQuarantine_of_viewExposure hexposure) hdistance (fun _ => rfl) fun _ => rfl

theorem winds_handle (exc : PyException) (hdistance : 2 ≤ a.stage.distance) :
    BackfillWinds d w a (w, a.handle exc) := by
  obtain ⟨stage, hgoto, hstopped⟩ := a.handle_goto exc
  rw [hgoto]
  rcases hstopped with rfl | ⟨exc, summary, rfl⟩
  · exact winds_goto rfl (Nat.zero_le _)
  · exact winds_goto rfl (Nat.le_sub_one_of_lt hdistance)

theorem winds_raise (exc : PyException) : BackfillWinds d w a (w, a.raise exc) := by
  unfold raise
  cases hstage : a.stage with
  | starting | failing | ended => exact winds_goto rfl (Nat.zero_le _)
  | accessing pass access =>
      refine winds_handle exc ?_
      cases access <;> simp [hstage, BackfillStage.distance]
  | reading | looping | requiringOwnership | evaluating | confirmingOwnership | quarantining
  | checkpointing | finalizing => exact winds_handle exc (by simp [hstage, BackfillStage.distance])

theorem winds_evaluate {slot : ChunkSlot} (hstage : a.stage = .evaluating slot)
    (loaded : Except PyException ArrowTable) :
    BackfillWinds d w a (w, a.evaluate d slot loaded) := by
  unfold evaluate
  split
  · exact winds_handle _ (by simp [hstage, BackfillStage.distance])
  · split
    · exact winds_handle _ (by simp [hstage, BackfillStage.distance])
    · dsimp only
      split
      · exact winds_goto rfl (by simp [hstage, BackfillStage.distance])
      · exact winds_goto rfl (by simp [hstage, BackfillStage.distance])

theorem winds_access {pass : ChunkPass} {access : BackfillChunk.Stage}
    (hstage : a.stage = .accessing pass access) :
    BackfillWinds d w a ({ w with view := ((pass.chunk d).advance w.view access).1 },
      a.goto (pass.afterAccess ((pass.chunk d).advance w.view access).2)) := by
  have hwriting : a.stage.writesView = true → a.stage.writesView = false → False := fun h h' =>
    Bool.noConfusion (h.symm.trans h')
  cases access with
  | loading =>
      obtain ⟨hview, hnext | ⟨existing, hnext⟩⟩ :=
        BackfillChunk.advance_loading (pass.chunk d) w.view
      · rw [hview, hnext]
        exact winds_leave (by rw [hstage]; exact Nat.le_refl 1) rfl
          (by rw [hstage]; exact Nat.le_refl 3) (fun _ => rfl) fun _ => rfl
      · rw [hview, hnext]
        exact winds_leave (by rw [hstage]; exact Nat.le_refl 1) rfl
          (by rw [hstage]; exact Nat.le_refl 3) (fun _ => rfl) fun _ => rfl
  | overwriting existing =>
      exact winds_leave (by rw [hstage]; exact Nat.le_refl 1) rfl
        (by rw [hstage]; exact Nat.le_refl 2)
        (fun hreads => (hwriting (by rw [hstage]; rfl) hreads).elim) fun _ => rfl
  | creating =>
      rw [BackfillChunk.advance_creating]
      exact winds_leave (by rw [hstage]; exact Nat.le_refl 1) rfl
        (by rw [hstage]; exact Nat.le_refl 2)
        (fun hreads => (hwriting (by rw [hstage]; rfl) hreads).elim) fun _ => rfl
  | written =>
      exact winds_leave (by rw [hstage]; exact Nat.le_refl 0) rfl
        (by rw [hstage]; exact Nat.le_refl 2) (fun _ => rfl) fun _ => rfl

theorem winds_advance {drawn : List Uuid} (h : (leasesOf w.db drawn).Retired a.token)
    (now : Instant) (loaded : Except PyException ArrowTable) :
    BackfillWinds d w a (a.advance d w now loaded) := by
  cases hstage : a.stage with
  | starting | requiringOwnership | confirmingOwnership =>
      simp only [advance, hstage]
      rw [owns_of_retired h]
      exact winds_goto rfl (Nat.zero_le _)
  | reading =>
      simp only [advance, hstage]
      split
      · exact winds_handle _ (by simp [hstage, BackfillStage.distance])
      · exact winds_goto rfl (by simp [hstage, BackfillStage.distance])
  | looping plan cursor summary =>
      simp only [advance, hstage, owns_of_retired h]
      split
      · exact winds_goto rfl (Nat.zero_le _)
      · exact winds_goto rfl (by simp [hstage, BackfillStage.distance])
  | evaluating slot =>
      simp only [advance, hstage]
      exact winds_evaluate hstage loaded
  | quarantining pass =>
      simp only [advance, hstage]
      split
      · exact winds_handle _ (by simp [hstage, BackfillStage.distance])
      · refine winds_leave ?_ rfl (by simp [hstage, BackfillStage.distance]) (fun _ => rfl)
          fun hreads => ?_
        · simp [hstage, BackfillStage.writesView, BackfillStage.viewExposure]
        · rw [hstage] at hreads
          cases hreads
  | accessing pass access =>
      simp only [advance, hstage]
      split
      · refine winds_handle _ ?_
        cases access <;> simp [hstage, BackfillStage.distance]
      · have hwinds := winds_access (d := d) (w := w) hstage
        revert hwinds
        cases (pass.chunk d).advance w.view access with
        | mk view next => cases next <;> exact id
  | checkpointing pass =>
      simp only [advance, hstage]
      rw [commitCheckpoints_of_retired h]
      exact winds_handle _ (by simp [hstage, BackfillStage.distance])
  | finalizing summary =>
      simp only [advance, hstage]
      rw [finalizeSuccess_of_retired h]
      exact winds_handle _ (by simp [hstage, BackfillStage.distance])
  | failing exc summary =>
      simp only [advance, hstage]
      rw [finalizeFailure_of_retired h]
      exact winds_goto rfl (Nat.zero_le _)
  | ended =>
      simp only [advance, hstage]
      have hself : a.goto .ended = a := by
        cases a
        cases hstage
        rfl
      have hwinds : BackfillWinds d w a (w, a.goto .ended) := winds_goto rfl (Nat.zero_le _)
      rwa [hself] at hwinds

end BackfillAttempt

theorem viewBackfills_windDown : (viewBackfills d).WindsDown := by
  rintro w a drawn h ⟨input, loaded⟩
  cases input with
  | statement now => exact (BackfillAttempt.winds_advance h now loaded).view
  | raise exc => exact (BackfillAttempt.winds_raise exc).view

theorem quarantineBackfills_windDown : (quarantineBackfills d).WindsDown := by
  rintro w a drawn h ⟨input, loaded⟩
  cases input with
  | statement now => exact (BackfillAttempt.winds_advance h now loaded).quarantine
  | raise exc => exact (BackfillAttempt.winds_raise exc).quarantine

end Backfill

/-- An attempt whose lease has been retired, whatever transactions follow: a materialization makes
at most one more upsert, an offline append at most one more append, and a backfill at most one
write to its quarantine table and one to its view; each ends after a few statements of its own. -/
theorem stale_attempts_stop (config : Config) (codec : OnlineCodec) (query : LatestQuery)
    (canonicalRow : OfflineRow → String) (d : BackfillDeployment) :
    ((materializations config codec query).writer materializations_windDown).StopsWithin
        (materializations config codec query).Transacts (fun a => a.stage = .ended) 1 3 ∧
      ((offlineAppends config canonicalRow).writer offlineAppends_windDown).StopsWithin
        (offlineAppends config canonicalRow).Transacts (fun a => a.stage = .ended) 1 4 ∧
      ((viewBackfills d).writer viewBackfills_windDown).StopsWithin (viewBackfills d).Transacts
        (fun a => a.stage = .ended) 1 5 ∧
      ((quarantineBackfills d).writer quarantineBackfills_windDown).StopsWithin
        (quarantineBackfills d).Transacts (fun a => a.stage = .ended) 1 5 := by
  have hbackfill : ∀ a : BackfillAttempt, a.stage.distance ≤ 5 := by
    intro a
    cases a.stage with
    | accessing pass access => cases access <;> simp [BackfillStage.distance]
    | _ => simp [BackfillStage.distance]
  have hbackfillEnded : ∀ a : BackfillAttempt, a.stage.distance = 0 → a.stage = .ended := by
    intro a
    cases a.stage with
    | accessing pass access => cases access <;> simp [BackfillStage.distance]
    | _ => simp [BackfillStage.distance]
  refine ⟨AttemptKind.stopsWithin _ ?_ ?_ ?_, AttemptKind.stopsWithin _ ?_ ?_ ?_,
    AttemptKind.stopsWithin _ ?_ hbackfill hbackfillEnded,
    AttemptKind.stopsWithin _ (fun a => Bool.toNat_le a.stage.writesQuarantine) hbackfill
      hbackfillEnded⟩
  · exact fun a => Bool.toNat_le a.stage.writes
  · intro a
    change a.stage.distance ≤ 3
    cases a.stage <;> simp [MaterializeStage.distance]
  · intro a
    change a.stage.distance = 0 → _
    cases a.stage <;> simp [MaterializeStage.distance]
  · exact fun a => Bool.toNat_le a.stage.writes
  · intro a
    change a.stage.distance ≤ 4
    cases a.stage <;> simp [AppendStage.distance]
  · intro a
    change a.stage.distance = 0 → _
    cases a.stage <;> simp [AppendStage.distance]
  · intro a
    change a.stage.viewExposure ≤ 1
    cases a.stage with
    | accessing pass access => cases access <;> simp [BackfillStage.viewExposure]
    | _ => simp [BackfillStage.viewExposure]

end FeatureStore
