import FeatureStore.OfflineAppend
import FeatureStore.OnlineStore

/-!
# Attempts of a materialization

An attempt runs `JobExecutor._execute` on a `MATERIALIZE` job, in either mode. As
for offline appends, each ownership check, each access to a store and each
database transaction is one statement, and the attempt may never take its next one.
-/

namespace FeatureStore

open Relational

/-- The stores that a materialization reads and writes. -/
structure ServingStores where
  db : Database
  views : String → Option DeltaTable
  online : OnlineStore

/-- The local variables of `_materialize` once the state row has been read. -/
structure MaterializationPlan where
  viewRef : String
  mode : MaterializationMode
  start : Option Instant
  endAt : Instant
  lookbackSeconds : Nat
  watermark : Option Instant
  priorFreshness : Option Instant
deriving DecidableEq, Repr

/-- The window that `_materialize` derives from the payload and the state row. -/
def materializationPlan (states : MaterializationStateTable) :
    JobPayload → Except PyException MaterializationPlan
  | .range featureView start endAt =>
      let state := states.find? featureView
      .ok ⟨featureView, .explicit, some start, endAt, 0, state.bind (·.watermark), none⟩
  | .incremental featureView endAt lookbackSeconds =>
      let state := states.find? featureView
      let watermark := state.bind (·.watermark)
      .ok ⟨featureView, .incremental,
        watermark.map fun watermark => watermark - seconds lookbackSeconds, endAt,
        lookbackSeconds, watermark, state.bind (·.sourceFreshnessAt)⟩
  | .offlineAppend _ _ => .error (keyError "'end'")
  | .historicalQuery _ _ _ => .error (keyError "'feature_view'")

/-- The query of `_materialize`: in each partition by the join keys, the first row
by timestamp and event id descending, nulls last. -/
structure LatestQuery where
  run : List OfflineRow → List OfflineRow
  scanned : ∀ rows, ∀ row ∈ run rows, row ∈ rows
  newest : ∀ rows, ∀ row ∈ rows, ∃ latest ∈ run rows,
    latest.entityValues = row.entityValues ∧ row.rank ≤ latest.rank

/-- A plan with the table that its scan read. -/
structure MaterializationScan where
  plan : MaterializationPlan
  source : DeltaTable

namespace MaterializationScan

/-- The rows that `load_range` returns. -/
def rows (scan : MaterializationScan) : List OfflineRow :=
  OfflineStore.loadRange (some scan.source) scan.plan.start scan.plan.endAt

def latest (query : LatestQuery) (scan : MaterializationScan) : List OfflineRow :=
  query.run scan.rows

/-- `source_freshness`: the greatest of the prior freshness and the scanned timestamps. -/
def sourceFreshness (scan : MaterializationScan) : Option Instant :=
  (scan.plan.priorFreshness.toList ++
    (scan.rows.map (·.eventTimestamp)).max?.toList).max?

/-- The dictionary that `_materialize` returns. -/
def summary (query : LatestQuery) (scan : MaterializationScan) (updated : Nat) :
    MaterializationSummary where
  mode := scan.plan.mode
  effectiveStart := scan.plan.start
  effectiveEnd := scan.plan.endAt
  lookbackSeconds := scan.plan.lookbackSeconds
  scannedRows := scan.rows.length
  candidateEntities := (scan.latest query).length
  updatedEntities := updated
  skippedEntities := (scan.latest query).length - updated
  sourceFreshnessAt := scan.sourceFreshness
  freshnessLag := scan.sourceFreshness.map fun freshness => max 0 (scan.plan.endAt - freshness)
  resultingWatermark :=
    match scan.plan.mode with
    | .incremental => some scan.plan.endAt
    | .explicit => scan.plan.watermark

end MaterializationScan

/-- The event of a row, which the model validates. -/
def OfflineRow.streamEvent (viewRef : String) (row : OfflineRow) :
    Except PyException StreamFeatureEvent :=
  match row.eventId with
  | none => .error ⟨.validation, "event_id: Input should be a valid string"⟩
  | some eventId =>
      if h : 1 ≤ eventId.length ∧ eventId.length ≤ 256 then
        .ok ⟨eventId, viewRef, row.entityValues, .utc row.eventTimestamp, row.values, h, rfl⟩
      else if eventId.length = 0 then
        .error ⟨.validation, "event_id: String should have at least 1 character"⟩
      else .error ⟨.validation, "event_id: String should have at most 256 characters"⟩

/-- The statement that an attempt takes next. `updated` counts the accepted upserts. -/
inductive MaterializeStage
  | starting
  | reading
  | requiringOwnership (plan : MaterializationPlan)
  | scanning (plan : MaterializationPlan)
  | confirmingOwnership (scan : MaterializationScan) (updated : Nat) (row : OfflineRow)
      (rest : List OfflineRow)
  | upserting (scan : MaterializationScan) (updated : Nat) (row : OfflineRow)
      (rest : List OfflineRow)
  | checkpointing (scan : MaterializationScan) (updated : Nat)
  | finalizing (scan : MaterializationScan) (updated : Nat)
  | returning (scan : MaterializationScan)
  | failing (exc : PyException)
  | ended

/-- The next pass of the loop over the latest rows, or the end of the loop. -/
def MaterializeStage.next (scan : MaterializationScan) (updated : Nat) :
    List OfflineRow → MaterializeStage
  | [] => .checkpointing scan updated
  | row :: rest => .confirmingOwnership scan updated row rest

structure MaterializeAttempt where
  job : JobRecord
  token : Uuid
  stage : MaterializeStage

namespace MaterializeAttempt

def goto (a : MaterializeAttempt) (stage : MaterializeStage) : MaterializeAttempt :=
  { a with stage := stage }

/-- An exception in the body of `_execute`. -/
def handle (a : MaterializeAttempt) (exc : PyException) : MaterializeAttempt :=
  if exc.cls = .leaseLost then a.goto .ended else a.goto (.failing exc)

/-- An exception at the next statement; the first check and the handler are
outside the `try`. -/
def raise (a : MaterializeAttempt) (exc : PyException) : MaterializeAttempt :=
  match a.stage with
  | .starting | .failing _ | .ended => a.goto .ended
  | .reading | .requiringOwnership _ | .scanning _ | .confirmingOwnership .. | .upserting ..
  | .checkpointing .. | .finalizing .. | .returning _ => a.handle exc

/-- The `TableNotFoundError` of a view without offline data. -/
def noViewTable : PyException := ⟨.runtime, "no table at the view location"⟩

/-- The next statement of the attempt, at the worker's clock. -/
def advance (config : Config) (codec : OnlineCodec) (query : LatestQuery)
    (w : ServingStores) (a : MaterializeAttempt) (now : Instant) :
    ServingStores × MaterializeAttempt :=
  match a.stage with
  | .starting => (w, a.goto (if owns w.db a.job.id a.token now then .reading else .ended))
  | .reading =>
      match materializationPlan w.db.materializationStates a.job.payload with
      | .error exc => (w, a.handle exc)
      | .ok plan => (w, a.goto (.requiringOwnership plan))
  | .requiringOwnership plan =>
      (w, a.goto (if owns w.db a.job.id a.token now then .scanning plan else .ended))
  | .scanning plan =>
      match w.views plan.viewRef with
      | none => (w, a.handle noViewTable)
      | some source =>
          let scan := ⟨plan, source⟩
          (w, a.goto (.next scan 0 (scan.latest query)))
  | .confirmingOwnership scan updated row rest =>
      (w, a.goto (if owns w.db a.job.id a.token now then .upserting scan updated row rest
        else .ended))
  | .upserting scan updated row rest =>
      match row.streamEvent scan.plan.viewRef with
      | .error exc => (w, a.handle exc)
      | .ok event =>
          let (online, accepted) := w.online.upsert codec event
          ({ w with online := online }, a.goto (.next scan (updated + accepted.toNat) rest))
  | .checkpointing scan updated =>
      match commitCheckpoints w.db a.job a.token now
          [.materialized (scan.latest query).length] with
      | (db, .ok job) => ({ w with db := db }, ⟨job, a.token, .finalizing scan updated⟩)
      | (db, .error exc) => ({ w with db := db }, a.handle exc)
  | .finalizing scan updated =>
      match finalizeSuccess config.settings w.db a.job a.token now none
          (some (.materialization (scan.summary query updated))) with
      | (db, .ok job) => ({ w with db := db }, ⟨job, a.token, .returning scan⟩)
      | (db, .error exc) => ({ w with db := db }, a.handle exc)
  | .returning _ => (w, a.goto .ended)
  | .failing exc =>
      ({ w with
          db := finalizeFailure config.settings w.db a.job a.token now exc exc.message none },
        a.goto .ended)
  | .ended => (w, a)

/-- A handled exception leaves an attempt ended or about to record its failure. -/
theorem handle_goto (a : MaterializeAttempt) (exc : PyException) :
    ∃ stage, a.handle exc = a.goto stage ∧ (stage = .ended ∨ ∃ exc, stage = .failing exc) := by
  unfold handle
  split
  · exact ⟨_, rfl, Or.inl rfl⟩
  · exact ⟨_, rfl, Or.inr ⟨exc, rfl⟩⟩

theorem raise_goto (a : MaterializeAttempt) (exc : PyException) :
    ∃ stage, a.raise exc = a.goto stage ∧ (stage = .ended ∨ ∃ exc, stage = .failing exc) := by
  unfold raise
  split <;> first
    | exact ⟨_, rfl, Or.inl rfl⟩
    | exact a.handle_goto exc

end MaterializeAttempt

/-- The effect of one statement: its stage, what it found, and what it leaves. A
success publishes the cutoff of the attempt's copy. -/
inductive MaterializeStatement (config : Config) (codec : OnlineCodec) (query : LatestQuery)
    (w : ServingStores) (a : MaterializeAttempt) (now : Instant) :
    ServingStores → MaterializeAttempt → Prop
  | stopped (stage : MaterializeStage)
      (stopped : stage = .ended ∨ ∃ exc, stage = .failing exc) :
      MaterializeStatement config codec query w a now w (a.goto stage)
  | checked (stage : a.stage = .starting) :
      MaterializeStatement config codec query w a now w (a.goto .reading)
  | read {plan : MaterializationPlan} (stage : a.stage = .reading)
      (planned : materializationPlan w.db.materializationStates a.job.payload = .ok plan) :
      MaterializeStatement config codec query w a now w (a.goto (.requiringOwnership plan))
  | required {plan : MaterializationPlan} (stage : a.stage = .requiringOwnership plan) :
      MaterializeStatement config codec query w a now w (a.goto (.scanning plan))
  | scanned {plan : MaterializationPlan} {source : DeltaTable}
      (stage : a.stage = .scanning plan) (found : w.views plan.viewRef = some source) :
      MaterializeStatement config codec query w a now w
        (a.goto (.next ⟨plan, source⟩ 0 (MaterializationScan.latest query ⟨plan, source⟩)))
  | confirmed {scan : MaterializationScan} {updated : Nat} {row : OfflineRow}
      {rest : List OfflineRow} (stage : a.stage = .confirmingOwnership scan updated row rest) :
      MaterializeStatement config codec query w a now w
        (a.goto (.upserting scan updated row rest))
  | upserted {scan : MaterializationScan} {updated : Nat} {row : OfflineRow}
      {rest : List OfflineRow} {event : StreamFeatureEvent}
      (stage : a.stage = .upserting scan updated row rest)
      (validated : row.streamEvent scan.plan.viewRef = .ok event) :
      MaterializeStatement config codec query w a now
        { w with online := (w.online.upsert codec event).1 }
        (a.goto (.next scan (updated + (w.online.upsert codec event).2.toNat) rest))
  | checkpointed {scan : MaterializationScan} {updated : Nat} {checkpoints : List Checkpoint}
      {job : JobRecord} {db : Database} (stage : a.stage = .checkpointing scan updated)
      (commit : commitCheckpoints w.db a.job a.token now checkpoints = (db, .ok job)) :
      MaterializeStatement config codec query w a now { w with db := db }
        ⟨job, a.token, .finalizing scan updated⟩
  | finalized {scan : MaterializationScan} {updated : Nat} {job : JobRecord} {db : Database}
      (stage : a.stage = .finalizing scan updated)
      (commit : finalizeSuccess config.settings w.db a.job a.token now none
        (some (.materialization (scan.summary query updated))) = (db, .ok job)) :
      MaterializeStatement config codec query w a now { w with db := db }
        ⟨job, a.token, .returning scan⟩
  | failed {exc : PyException} (stage : a.stage = .failing exc) :
      MaterializeStatement config codec query w a now
        { w with
          db := finalizeFailure config.settings w.db a.job a.token now exc exc.message none }
        (a.goto .ended)

section Inversion

variable {config : Config} {codec : OnlineCodec} {query : LatestQuery} {w : ServingStores}
  {a : MaterializeAttempt} {now : Instant}

theorem MaterializeStatement.handled (exc : PyException) :
    MaterializeStatement config codec query w a now w (a.handle exc) := by
  obtain ⟨stage, hgoto, hstopped⟩ := a.handle_goto exc
  rw [hgoto]
  exact .stopped stage hstopped

/-- Every statement has one of the listed effects. -/
theorem MaterializeAttempt.advance_statement :
    MaterializeStatement config codec query w a now (a.advance config codec query w now).1
      (a.advance config codec query w now).2 := by
  unfold MaterializeAttempt.advance
  cases hstage : a.stage with
  | starting =>
      dsimp only
      split
      · exact .checked hstage
      · exact .stopped .ended (Or.inl rfl)
  | reading =>
      dsimp only
      split
      · rename_i exc _
        exact .handled exc
      · rename_i plan hplan
        exact .read hstage hplan
  | requiringOwnership plan =>
      dsimp only
      split
      · exact .required hstage
      · exact .stopped .ended (Or.inl rfl)
  | scanning plan =>
      dsimp only
      split
      · exact .handled noViewTable
      · rename_i source hfound
        exact .scanned hstage hfound
  | confirmingOwnership scan updated row rest =>
      dsimp only
      split
      · exact .confirmed hstage
      · exact .stopped .ended (Or.inl rfl)
  | upserting scan updated row rest =>
      dsimp only
      split
      · rename_i exc _
        exact .handled exc
      · rename_i event hevent
        exact .upserted hstage hevent
  | checkpointing scan updated =>
      dsimp only
      split
      · rename_i db job hcommit
        exact .checkpointed hstage hcommit
      · rename_i db exc hcommit
        rw [commitCheckpoints_error hcommit]
        exact .handled exc
  | finalizing scan updated =>
      dsimp only
      split
      · rename_i db job hcommit
        exact .finalized hstage hcommit
      · rename_i db exc hcommit
        rw [finalizeSuccess_error hcommit]
        exact .handled exc
  | returning scan => exact .stopped .ended (Or.inl rfl)
  | failing exc => exact .failed hstage
  | ended =>
      have hself : a.goto .ended = a := by
        cases a
        cases hstage
        rfl
      have hstopped : MaterializeStatement config codec query w a now w (a.goto .ended) :=
        .stopped .ended (Or.inl rfl)
      rwa [hself] at hstopped

end Inversion

/-- What a pass of `claim_next` starts: an attempt, if it claims a materialization. -/
def claimedMaterialization? (config : Config) (db : Database) :
    Call → Option MaterializeAttempt
  | .claimPass owner now locked token =>
      match (claimPass config.settings db owner now locked token).2 with
      | .claimed job =>
          if job.kind = .materialize then some ⟨job, token, .starting⟩ else none
      | .nothing | .next => none
  | .createBackfill .. | .createMaterialization .. | .createHistoricalQuery ..
  | .createIncrementalMaterialization .. | .cancel .. | .retry .. | .heartbeat ..
  | .commitCheckpoints .. | .finalizeSuccess .. | .finalizeFailure .. | .register ..
  | .stageBatch .. => none

end FeatureStore
