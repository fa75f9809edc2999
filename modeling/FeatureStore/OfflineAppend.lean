import FeatureStore.ControlPlane
import FeatureStore.UnseenRows
import Mathlib.Logic.Function.Basic

/-!
# Attempts of an offline append

An attempt runs `JobExecutor._execute` on an `OFFLINE_APPEND` job. Each ownership
check, each access to a Delta table and each database transaction is one
statement, which acts on the current state of the stores; between two statements
anything else may happen, and an attempt may never take its next one.
-/

namespace FeatureStore

open Relational

/-- The stores that an offline append reads and writes. -/
structure Warehouse where
  db : Database
  staging : StagingUri → Option DeltaTable
  views : String → Option DeltaTable

/-- The local variables of `_offline_append` once `_unseen_rows` has returned. -/
structure Comparison where
  staged : List OfflineRow
  target : Option DeltaTable
  unseen : List OfflineRow
  spec : UnseenSpec staged (OfflineStore.load target) unseen

/-- The statement that an attempt takes next. -/
inductive AppendStage
  | starting
  | requiringOwnership
  | loadingStaging
  | loadingTarget (staged : List OfflineRow)
  | confirmingOwnership (comparison : Comparison)
  | appending (comparison : Comparison)
  | checkpointing (comparison : Comparison)
  | finalizing (comparison : Comparison)
  | cleaning
  | failing (exc : PyException)
  | ended

/-- A worker's copy of the job, the token of its lease, and its next statement. -/
structure Attempt where
  job : JobRecord
  token : Uuid
  stage : AppendStage

/-- `payload["feature_view"]` and `payload["staging_uri"]` of an offline append. -/
def JobPayload.offlineAppend? : JobPayload → Option (String × StagingUri)
  | .offlineAppend featureView stagingUri => some (featureView, stagingUri)
  | .range _ _ _ | .incremental _ _ _ | .historicalQuery _ _ _ => none

namespace Attempt

def goto (a : Attempt) (stage : AppendStage) : Attempt := { a with stage := stage }

/-- An exception in the body of `_execute`: a lost lease ends the attempt, any
other exception is recorded as its failure. -/
def handle (a : Attempt) (exc : PyException) : Attempt :=
  if exc.cls = .leaseLost then a.goto .ended else a.goto (.failing exc)

/-- An exception at the next statement. The first check and the handlers are
outside the `try`; errors of the final deletion are suppressed. -/
def raise (a : Attempt) (exc : PyException) : Attempt :=
  match a.stage with
  | .starting | .cleaning | .failing _ | .ended => a.goto .ended
  | .requiringOwnership | .loadingStaging | .loadingTarget _ | .confirmingOwnership _
  | .appending _ | .checkpointing _ | .finalizing _ => a.handle exc

/-- The `TableNotFoundError` of a staging location. -/
def noStagingTable : PyException := ⟨.runtime, "no table at the staging location"⟩

/-- The next statement of the attempt, at the worker's clock. -/
def advance (config : Config) (canonicalRow : OfflineRow → String) (w : Warehouse)
    (a : Attempt) (now : Instant) : Warehouse × Attempt :=
  match a.stage with
  | .starting =>
      (w, a.goto (if owns w.db a.job.id a.token now then .requiringOwnership else .ended))
  | .requiringOwnership =>
      (w, a.goto (if owns w.db a.job.id a.token now then .loadingStaging else .ended))
  | .loadingStaging =>
      match a.job.payload.offlineAppend? with
      | none => (w, a.handle (keyError "'staging_uri'"))
      | some (_, stagingUri) =>
          match w.staging stagingUri with
          | none => (w, a.handle noStagingTable)
          | some table => (w, a.goto (.loadingTarget table.rows))
  | .loadingTarget staged =>
      match a.job.payload.offlineAppend? with
      | none => (w, a.handle (keyError "'feature_view'"))
      | some (featureView, _) =>
          match h : unseenRows canonicalRow staged (OfflineStore.load (w.views featureView)) with
          | .error exc => (w, a.handle exc)
          | .ok unseen =>
              let comparison := ⟨staged, w.views featureView, unseen, unseenRows_spec h⟩
              (w, a.goto (if unseen.isEmpty then .checkpointing comparison
                else .confirmingOwnership comparison))
  | .confirmingOwnership comparison =>
      (w, a.goto (if owns w.db a.job.id a.token now then .appending comparison else .ended))
  | .appending comparison =>
      match a.job.payload.offlineAppend? with
      | none => (w, a.handle (keyError "'feature_view'"))
      | some (featureView, _) =>
          ({ w with
              views := Function.update w.views featureView
                (some (OfflineStore.append (w.views featureView) comparison.unseen)) },
            a.goto (.checkpointing comparison))
  | .checkpointing comparison =>
      match commitCheckpoints w.db a.job a.token now
          [.appended comparison.unseen.length,
            .duplicates (comparison.staged.length - comparison.unseen.length)] with
      | (db, .ok job) => ({ w with db := db }, ⟨job, a.token, .finalizing comparison⟩)
      | (db, .error exc) => ({ w with db := db }, a.handle exc)
  | .finalizing _ =>
      match finalizeSuccess config.settings w.db a.job a.token now none none with
      | (db, .ok job) => ({ w with db := db }, ⟨job, a.token, .cleaning⟩)
      | (db, .error exc) => ({ w with db := db }, a.handle exc)
  | .cleaning =>
      match a.job.payload.offlineAppend? with
      | none => (w, a.goto .ended)
      | some (_, stagingUri) =>
          ({ w with staging := Function.update w.staging stagingUri none }, a.goto .ended)
  | .failing exc =>
      ({ w with
          db := finalizeFailure config.settings w.db a.job a.token now exc exc.message none },
        a.goto .ended)
  | .ended => (w, a)

@[simp] theorem handle_job (a : Attempt) (exc : PyException) : (a.handle exc).job = a.job := by
  unfold handle
  split <;> rfl

/-- An exception leaves an attempt ended or about to record its failure. -/
theorem handle_stage (a : Attempt) (exc : PyException) :
    (a.handle exc).stage = .ended ∨ (a.handle exc).stage = .failing exc := by
  unfold handle
  split
  · exact Or.inl rfl
  · exact Or.inr rfl

theorem raise_cases (a : Attempt) (exc : PyException) :
    (a.raise exc).job = a.job ∧
      ((a.raise exc).stage = .ended ∨ (a.raise exc).stage = .failing exc) := by
  unfold raise
  split <;> first
    | exact ⟨rfl, Or.inl rfl⟩
    | exact ⟨a.handle_job exc, a.handle_stage exc⟩

end Attempt

theorem refreshJob_ok {db : Database} {jobId : Uuid} {job : JobRecord}
    (h : refreshJob db jobId = .ok job) : db.jobs.find? jobId = some job := by
  unfold refreshJob at h
  split at h
  · cases h
    assumption
  · cases h

/-- The copy that a checkpoint returns is the committed row. -/
theorem commitCheckpoints_stored {db db' : Database} {job job' : JobRecord} {token : Uuid}
    {now : Instant} {checkpoints : List Checkpoint}
    (h : commitCheckpoints db job token now checkpoints = (db', .ok job')) :
    db'.jobs.find? job.id = some job' := by
  unfold commitCheckpoints at h
  split at h
  · cases h
  · obtain ⟨hdb, hjob⟩ := Prod.mk.inj h
    subst hdb
    exact refreshJob_ok hjob

/-- The copy that a finalization returns is the committed row. -/
theorem finalizeSuccess_stored {settings : Settings} {db db' : Database}
    {job job' : JobRecord} {token : Uuid} {now : Instant} {resultUri : Option String}
    {resultMetadata : Option ResultMetadata}
    (h : finalizeSuccess settings db job token now resultUri resultMetadata =
      (db', .ok job')) :
    db'.jobs.find? job.id = some job' := by
  unfold finalizeSuccess at h
  split at h
  · cases h
  · dsimp only at h
    split at h
    · split at h
      · cases h
      · obtain ⟨hdb, hjob⟩ := Prod.mk.inj h
        subst hdb
        exact refreshJob_ok hjob
    · obtain ⟨hdb, hjob⟩ := Prod.mk.inj h
      subst hdb
      exact refreshJob_ok hjob

/-- The effect of one statement: its stage, what it found, and what it leaves. -/
inductive Statement (config : Config) (canonicalRow : OfflineRow → String) (w : Warehouse)
    (a : Attempt) (now : Instant) : Warehouse → Attempt → Prop
  | stopped (stage : AppendStage) (stopped : stage = .ended ∨ ∃ exc, stage = .failing exc)
      (unwritten : ∀ comparison, a.stage = .appending comparison →
        a.job.payload.offlineAppend? = none) :
      Statement config canonicalRow w a now w (a.goto stage)
  | checked (stage : a.stage = .starting) (owned : owns w.db a.job.id a.token now = true) :
      Statement config canonicalRow w a now w (a.goto .requiringOwnership)
  | required (stage : a.stage = .requiringOwnership)
      (owned : owns w.db a.job.id a.token now = true) :
      Statement config canonicalRow w a now w (a.goto .loadingStaging)
  | loadedStaging {featureView : String} {stagingUri : StagingUri} {table : DeltaTable}
      (stage : a.stage = .loadingStaging)
      (payload : a.job.payload.offlineAppend? = some (featureView, stagingUri))
      (found : w.staging stagingUri = some table) :
      Statement config canonicalRow w a now w (a.goto (.loadingTarget table.rows))
  | compared (comparison : Comparison) {featureView : String} {stagingUri : StagingUri}
      (stage : a.stage = .loadingTarget comparison.staged)
      (payload : a.job.payload.offlineAppend? = some (featureView, stagingUri))
      (target : comparison.target = w.views featureView)
      (selected : unseenRows canonicalRow comparison.staged
        (OfflineStore.load (w.views featureView)) = .ok comparison.unseen) :
      Statement config canonicalRow w a now w
        (a.goto (if comparison.unseen = [] then .checkpointing comparison
          else .confirmingOwnership comparison))
  | confirmed {comparison : Comparison} (stage : a.stage = .confirmingOwnership comparison)
      (owned : owns w.db a.job.id a.token now = true) :
      Statement config canonicalRow w a now w (a.goto (.appending comparison))
  | appended {featureView : String} {stagingUri : StagingUri} {comparison : Comparison}
      (stage : a.stage = .appending comparison)
      (payload : a.job.payload.offlineAppend? = some (featureView, stagingUri)) :
      Statement config canonicalRow w a now
        { w with
          views := Function.update w.views featureView
            (some (OfflineStore.append (w.views featureView) comparison.unseen)) }
        (a.goto (.checkpointing comparison))
  | checkpointed {comparison : Comparison} {checkpoints : List Checkpoint} {job : JobRecord}
      {db : Database} (stage : a.stage = .checkpointing comparison)
      (commit : commitCheckpoints w.db a.job a.token now checkpoints = (db, .ok job)) :
      Statement config canonicalRow w a now { w with db := db }
        ⟨job, a.token, .finalizing comparison⟩
  | finalized {comparison : Comparison} {job : JobRecord} {db : Database}
      (stage : a.stage = .finalizing comparison)
      (commit : finalizeSuccess config.settings w.db a.job a.token now none none =
        (db, .ok job)) :
      Statement config canonicalRow w a now { w with db := db } ⟨job, a.token, .cleaning⟩
  | cleaned {featureView : String} {stagingUri : StagingUri} (stage : a.stage = .cleaning)
      (payload : a.job.payload.offlineAppend? = some (featureView, stagingUri)) :
      Statement config canonicalRow w a now
        { w with staging := Function.update w.staging stagingUri none } (a.goto .ended)
  | failed {exc : PyException} (stage : a.stage = .failing exc) :
      Statement config canonicalRow w a now
        { w with
          db := finalizeFailure config.settings w.db a.job a.token now exc exc.message none }
        (a.goto .ended)

/-- A checkpoint that raises has lost its lease and committed nothing. -/
theorem commitCheckpoints_raised {db db' : Database} {job : JobRecord} {token : Uuid}
    {now : Instant} {checkpoints : List Checkpoint} {exc : PyException}
    (h : commitCheckpoints db job token now checkpoints = (db', .error exc)) :
    db' = db ∧ exc.cls = .leaseLost := by
  unfold commitCheckpoints at h
  rcases lease_cases db.jobs job.id token now with
    ⟨row, hrow, _, hcount, hupdate⟩ | ⟨hcount, _⟩
  · rw [if_neg hcount, hupdate] at h
    have hstored := (Table.find?_modify_self db.jobs job.id (setCheckpoints checkpoints)).trans
      (by rw [hrow, Option.map_some])
    have hresult := (Prod.mk.inj h).2
    rw [refreshJob, hstored] at hresult
    cases hresult
  · rw [if_pos hcount] at h
    obtain ⟨hdb, hexc⟩ := Prod.mk.inj h
    exact ⟨hdb.symm, by rw [← Except.error.inj hexc]; rfl⟩

theorem commitCheckpoints_error {db db' : Database} {job : JobRecord} {token : Uuid}
    {now : Instant} {checkpoints : List Checkpoint} {exc : PyException}
    (h : commitCheckpoints db job token now checkpoints = (db', .error exc)) : db' = db :=
  (commitCheckpoints_raised h).1

/-- A finalization that raises has committed nothing. -/
theorem finalizeSuccess_error {settings : Settings} {db db' : Database} {job : JobRecord}
    {token : Uuid} {now : Instant} {resultUri : Option String}
    {resultMetadata : Option ResultMetadata} {exc : PyException}
    (h : finalizeSuccess settings db job token now resultUri resultMetadata =
      (db', .error exc)) : db' = db := by
  unfold finalizeSuccess at h
  rcases lease_cases db.jobs job.id token now with
    ⟨row, hrow, _, hcount, hupdate⟩ | ⟨hcount, _⟩
  · have hstored : ∀ a, (db.jobs.modify job.id a).find? job.id = some (a.set row) := by
      intro a
      rw [Table.find?_modify_self, hrow, Option.map_some]
    rw [if_neg hcount, hupdate] at h
    dsimp only at h
    split at h
    · split at h
      · exact (Prod.mk.inj h).1.symm
      · have hresult := (Prod.mk.inj h).2
        rw [refreshJob, hstored] at hresult
        cases hresult
    · have hresult := (Prod.mk.inj h).2
      split at hresult
      · rw [refreshJob, markStreamEventsApplied_jobs, hstored] at hresult
        cases hresult
      · rw [refreshJob, hstored] at hresult
        cases hresult
  · rw [if_pos hcount] at h
    exact (Prod.mk.inj h).1.symm

theorem Attempt.handle_goto (a : Attempt) (exc : PyException) :
    ∃ stage, a.handle exc = a.goto stage ∧ (stage = .ended ∨ ∃ exc, stage = .failing exc) := by
  unfold Attempt.handle
  split
  · exact ⟨_, rfl, Or.inl rfl⟩
  · exact ⟨_, rfl, Or.inr ⟨exc, rfl⟩⟩

section Inversion

variable {config : Config} {canonicalRow : OfflineRow → String} {w : Warehouse} {a : Attempt}
  {now : Instant}

theorem Statement.handled (exc : PyException)
    (h : ∀ comparison, a.stage = .appending comparison →
      a.job.payload.offlineAppend? = none) :
    Statement config canonicalRow w a now w (a.handle exc) := by
  obtain ⟨stage, hgoto, hstopped⟩ := a.handle_goto exc
  rw [hgoto]
  exact .stopped stage hstopped h

/-- Every statement has one of the listed effects. -/
theorem Attempt.advance_statement :
    Statement config canonicalRow w a now (a.advance config canonicalRow w now).1
      (a.advance config canonicalRow w now).2 := by
  unfold Attempt.advance
  cases hstage : a.stage with
  | starting =>
      dsimp only
      split
      · rename_i howned
        exact .checked hstage howned
      · exact .stopped .ended (Or.inl rfl) (by simp [hstage])
  | requiringOwnership =>
      dsimp only
      split
      · rename_i howned
        exact .required hstage howned
      · exact .stopped .ended (Or.inl rfl) (by simp [hstage])
  | loadingStaging =>
      dsimp only
      split
      · exact .handled (keyError "'staging_uri'") (by simp [hstage])
      · rename_i featureView stagingUri hpayload
        split
        · exact .handled Attempt.noStagingTable (by simp [hstage])
        · rename_i table hfound
          exact .loadedStaging hstage hpayload hfound
  | loadingTarget staged =>
      dsimp only
      split
      · exact .handled (keyError "'feature_view'") (by simp [hstage])
      · rename_i featureView stagingUri hpayload
        split
        · rename_i exc hexc
          exact .handled exc (by simp [hstage])
        · rename_i unseen hunseen
          have hcompared : Statement config canonicalRow w a now w _ :=
            .compared ⟨staged, w.views featureView, unseen, unseenRows_spec hunseen⟩ hstage
              hpayload rfl hunseen
          simpa only [List.isEmpty_iff] using hcompared
  | confirmingOwnership comparison =>
      dsimp only
      split
      · rename_i howned
        exact .confirmed hstage howned
      · exact .stopped .ended (Or.inl rfl) (by simp [hstage])
  | appending comparison =>
      dsimp only
      split
      · rename_i hpayload
        exact .handled (keyError "'feature_view'") fun _ _ => hpayload
      · rename_i featureView stagingUri hpayload
        exact .appended hstage hpayload
  | checkpointing comparison =>
      dsimp only
      split
      · rename_i db job hcommit
        exact .checkpointed hstage hcommit
      · rename_i db exc hcommit
        rw [commitCheckpoints_error hcommit]
        exact .handled exc (by simp [hstage])
  | finalizing comparison =>
      dsimp only
      split
      · rename_i db job hcommit
        exact .finalized hstage hcommit
      · rename_i db exc hcommit
        rw [finalizeSuccess_error hcommit]
        exact .handled exc (by simp [hstage])
  | cleaning =>
      dsimp only
      split
      · exact .stopped .ended (Or.inl rfl) (by simp [hstage])
      · rename_i featureView stagingUri hpayload
        exact .cleaned hstage hpayload
  | failing exc => exact .failed hstage
  | ended =>
      have hself : a = a.goto .ended := by
        cases a
        cases hstage
        rfl
      have hstopped : Statement config canonicalRow w a now w (a.goto .ended) :=
        .stopped .ended (Or.inl rfl) (by simp [hstage])
      rwa [← hself] at hstopped

end Inversion

/-- What a pass of `claim_next` starts: an attempt, if it claims an offline append. -/
def claimedAttempt? (config : Config) (db : Database) : Call → Option Attempt
  | .claimPass owner now locked token =>
      match (claimPass config.settings db owner now locked token).2 with
      | .claimed job =>
          if job.kind = .offlineAppend then some ⟨job, token, .starting⟩ else none
      | .nothing | .next => none
  | .createBackfill .. | .createMaterialization .. | .createHistoricalQuery ..
  | .createIncrementalMaterialization .. | .cancel .. | .retry .. | .heartbeat ..
  | .commitCheckpoints .. | .finalizeSuccess .. | .finalizeFailure .. | .register ..
  | .stageBatch .. => none

end FeatureStore
