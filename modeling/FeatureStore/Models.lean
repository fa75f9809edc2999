import Mathlib.Algebra.Group.Int.Defs
import Mathlib.Algebra.GroupWithZero.Nat
import Mathlib.Data.Int.ConditionallyCompleteOrder
import Mathlib.Data.String.Basic
import Mathlib.Order.ConditionallyCompleteLattice.Basic

/-!
# Value types, requests and events

Enumerations and request models of the service. A model validator becomes a
field, so a request that the service would refuse cannot be built. Instants are
UTC microseconds; the ISO texts of the source stand for them one to one. A UUID
is the integer its canonical text encodes, whose order is the order of the texts.
-/

namespace FeatureStore

abbrev Uuid := Nat

abbrev Instant := Int

/-- `timedelta(seconds=n)` in microseconds. -/
def seconds (n : Int) : Int := n * 1000000

/-- A Python `datetime`: its wall clock and, unless it is naive, its UTC offset. -/
structure DateTime where
  wall : Instant
  utcOffset : Option Int
deriving DecidableEq, Repr

/-- `_as_utc`: a naive value is read as UTC. -/
def DateTime.asUtc (value : DateTime) : Instant :=
  value.wall - value.utcOffset.getD 0

def DateTime.utc (instant : Instant) : DateTime := ⟨instant, some 0⟩

@[simp] theorem DateTime.asUtc_utc (instant : Instant) :
    (DateTime.utc instant).asUtc = instant := by
  simp [DateTime.asUtc, DateTime.utc]

/-- The exception classes that the modelled code distinguishes. -/
inductive ExceptionClass
  | registryNotFound | registryConflict | validation | value | key | type
  | arrow | duckdb | schemaMismatch | dataQuality | integrity | leaseLost | runtime
deriving DecidableEq, Repr

structure PyException where
  cls : ExceptionClass
  message : String
deriving DecidableEq, Repr

def valueError (message : String) : PyException := ⟨.value, message⟩

def keyError (message : String) : PyException := ⟨.key, message⟩

/-- A `mapM` that does not raise relates each element to what it was mapped to. -/
theorem forall₂_of_mapM {α β : Type} {f : α → Except PyException β} {items : List α}
    {results : List β} (h : items.mapM f = .ok results) :
    List.Forall₂ (fun item result => f item = .ok result) items results := by
  induction items generalizing results with
  | nil =>
      cases h
      exact .nil
  | cons item rest ih =>
      rw [List.mapM_cons] at h
      cases hitem : f item with
      | error exc =>
          rw [hitem] at h
          cases h
      | ok result =>
          cases hrest : rest.mapM f with
          | error exc =>
              rw [hitem, hrest] at h
              cases h
          | ok others =>
              rw [hitem, hrest] at h
              cases h
              exact .cons hitem (ih hrest)

/-- The results of a `mapM` come from its items, and every item has one. -/
theorem mem_of_mapM {α β : Type} {f : α → Except PyException β} {items : List α}
    {results : List β} (h : items.mapM f = .ok results) :
    (∀ result ∈ results, ∃ item ∈ items, f item = .ok result) ∧
      ∀ item ∈ items, ∃ result ∈ results, f item = .ok result := by
  have hrelated := forall₂_of_mapM h
  clear h
  induction hrelated with
  | nil => exact ⟨nofun, nofun⟩
  | @cons item result rest others hitem _ ih =>
      constructor
      · rw [List.forall_mem_cons]
        refine ⟨⟨item, List.mem_cons_self, hitem⟩, fun other hother => ?_⟩
        obtain ⟨source, hsource, hok⟩ := ih.1 other hother
        exact ⟨source, List.mem_cons_of_mem _ hsource, hok⟩
      · rw [List.forall_mem_cons]
        refine ⟨⟨result, List.mem_cons_self, hitem⟩, fun other hother => ?_⟩
        obtain ⟨target, htarget, hok⟩ := ih.2 other hother
        exact ⟨target, List.mem_cons_of_mem _ htarget, hok⟩

/-- A `mapM` does not raise if no element does. -/
theorem mapM_ok {α β : Type} {f : α → Except PyException β} {items : List α}
    (h : ∀ item ∈ items, ∃ result, f item = .ok result) :
    ∃ results, items.mapM f = .ok results := by
  induction items with
  | nil => exact ⟨[], rfl⟩
  | cons item rest ih =>
      obtain ⟨result, hresult⟩ := h item List.mem_cons_self
      obtain ⟨others, hothers⟩ := ih fun other hother => h other (List.mem_cons_of_mem item hother)
      refine ⟨result :: others, ?_⟩
      rw [List.mapM_cons, hresult, hothers]
      rfl

theorem mapM_eq_ok_map {α β : Type} {f : α → Except PyException β} {g : α → β} {items : List α}
    (h : ∀ item ∈ items, f item = .ok (g item)) : items.mapM f = .ok (items.map g) := by
  induction items with
  | nil => rfl
  | cons item rest ih =>
      rw [List.mapM_cons, h item List.mem_cons_self,
        ih fun other hother => h other (List.mem_cons_of_mem item hother)]
      rfl

/-- The results of a `mapM` are a map if each of them is known. -/
theorem eq_map_of_mapM {α β : Type} {f : α → Except PyException β} {g : α → β} {items : List α}
    {results : List β} (h : items.mapM f = .ok results)
    (hg : ∀ item ∈ items, ∀ result, f item = .ok result → result = g item) :
    results = items.map g := by
  have hok : items.mapM f = .ok (items.map g) := by
    apply mapM_eq_ok_map
    intro item hitem
    obtain ⟨result, -, hresult⟩ := (mem_of_mapM h).2 item hitem
    rw [hresult, hg item hitem result hresult]
  exact Except.ok.inj (h.symm.trans hok)

/-- A step that does not raise goes on with its value. -/
theorem ok_of_bind {α β : Type} {x : Except PyException α} {f : α → Except PyException β} {b : β}
    (h : (x >>= f) = .ok b) : ∃ a, x = .ok a ∧ f a = .ok b := by
  cases x with
  | ok a => exact ⟨a, rfl, h⟩
  | error exc => cases h

/-- A loop that raises nothing. -/
theorem forM_ok_iff {α : Type} {items : List α} {f : α → Except PyException Unit} :
    items.forM f = .ok () ↔ ∀ item ∈ items, f item = .ok () := by
  induction items with
  | nil => exact iff_of_true rfl nofun
  | cons item rest ih =>
      rw [List.forall_mem_cons, ← ih]
      change (f item >>= fun _ => rest.forM f) = .ok () ↔ _
      cases hitem : f item with
      | ok _ => exact ⟨fun hrest => ⟨rfl, hrest⟩, fun h => h.2⟩
      | error exc => exact ⟨nofun, fun h => nomatch h.1⟩

/-- Values of the free-form dictionaries (`Any`): JSON, and the timestamps that
typed tables add. Floats are opaque tokens. -/
inductive Value
  | null
  | bool (b : Bool)
  | int (n : Int)
  | float (repr : String)
  | str (s : String)
  | timestamp (t : DateTime)
  | list (items : List Value)
  | dict (items : List (String × Value))
deriving Repr

/-- A Python dictionary with string keys, in insertion order. -/
abbrev Dict := List (String × Value)

inductive ValueType
  | string | int64 | float64 | bool | timestamp
deriving DecidableEq, Repr

inductive QualityPolicy
  | reject | quarantine | report
deriving DecidableEq, Repr

inductive QualityConstraintType
  | nullable | minimum | maximum | acceptedValues | unique | maxAgeSeconds
deriving DecidableEq, Repr

inductive JobKind
  | backfill | materialize | offlineAppend | historicalQuery
deriving DecidableEq, Repr

inductive JobStatus
  | pending | running | retrying | succeeded | failed | exhausted | cancelled
deriving DecidableEq, Repr

inductive JobFailureKind
  | retryable | terminal | leaseExpired
deriving DecidableEq, Repr

inductive StreamEventState
  | pending | staged | applied
deriving DecidableEq, Repr

inductive RegistryObjectKind
  | entity | batchSource | streamSource | featureView | featureService
deriving DecidableEq, Repr

structure RegistryTarget where
  kind : RegistryObjectKind
  name : String
  version : Option String
  feature : Option String
deriving DecidableEq, Repr

structure RegistryWarning where
  target : RegistryTarget
  message : String
  deprecatedAt : Instant
  replacement : Option RegistryTarget
  inheritedFrom : Option RegistryTarget
deriving DecidableEq, Repr

/-- `Settings`: the values that job and stream execution read. Only the default
lookback is bounded by the source. -/
structure Settings where
  historicalResultTtlSeconds : Int := 86400
  jobLeaseSeconds : Int := 30
  jobMaxAttempts : Int := 3
  jobRetryBaseSeconds : Int := 5
  jobRetryMaxSeconds : Int := 60
  materializationLookbackSeconds : Nat := 3600
  streamBatchSize : Int := 500
  streamFlushMicroseconds : Int := 2000000
deriving DecidableEq, Repr

/-- `JobRequest`, with its model validator as a field. -/
structure JobRequest where
  featureView : String
  start : Instant
  endAt : Instant
  valid_range : start < endAt
deriving DecidableEq, Repr

structure IncrementalMaterializationRequest where
  featureView : String
  endAt : Option Instant
  lookbackSeconds : Option Nat
deriving DecidableEq, Repr

/-- `StreamFeatureEvent`, with its length bound and its validator as fields. -/
structure StreamFeatureEvent where
  eventId : String
  featureView : String
  entityValues : Dict
  eventTimestamp : DateTime
  values : Dict
  eventId_length : 1 ≤ eventId.length ∧ eventId.length ≤ 256
  timezone_required : eventTimestamp.utcOffset.isSome = true
deriving Repr

theorem a_length : 1 ≤ "a".length ∧ "a".length ≤ 256 := by
  decide

theorem b_length : 1 ≤ "b".length ∧ "b".length ≤ 256 := by
  decide

/-- The identity under which the ledger keeps an event. -/
def StreamFeatureEvent.identity (event : StreamFeatureEvent) : String × String :=
  (event.featureView, event.eventId)

structure DataQualitySummary where
  policy : QualityPolicy
  evaluatedRows : Nat
  validRows : Nat
  invalidRows : Nat
  quarantinedRows : Nat
  countsByConstraint : List (QualityConstraintType × Nat)
deriving DecidableEq, Repr

inductive MaterializationMode
  | explicit | incremental
deriving DecidableEq, Repr

structure MaterializationSummary where
  mode : MaterializationMode
  effectiveStart : Option Instant
  effectiveEnd : Instant
  lookbackSeconds : Nat
  scannedRows : Nat
  candidateEntities : Nat
  updatedEntities : Nat
  skippedEntities : Nat
  sourceFreshnessAt : Option Instant
  freshnessLag : Option Int
  resultingWatermark : Option Instant
deriving DecidableEq, Repr

/-- The stored part of `HistoricalResult`; its format and content type are constants. -/
structure HistoricalResult where
  rowCount : Nat
  byteSize : Nat
  resolvedFeatures : List String
  warnings : List RegistryWarning
deriving DecidableEq, Repr

/-- The `result_metadata` column: one dictionary shape for each job kind that has one. -/
inductive ResultMetadata
  | quality (summary : DataQualitySummary)
  | materialization (summary : MaterializationSummary)
  | historical (result : HistoricalResult)
deriving DecidableEq, Repr

/-- `result_metadata.get("source_freshness_at")`. -/
def ResultMetadata.sourceFreshnessAt : ResultMetadata → Option Instant
  | .materialization summary => summary.sourceFreshnessAt
  | .quality _ | .historical _ => none

/-- Where `_flush_view` writes a batch: `s3://<bucket>/staging/<view>/<uuid>`. -/
structure StagingUri where
  viewRef : String
  batch : Uuid
deriving DecidableEq, Repr

/-- The `payload` column: one dictionary shape for each way a job is created. -/
inductive JobPayload
  | range (featureView : String) (start endAt : Instant)
  | incremental (featureView : String) (endAt : Instant) (lookbackSeconds : Nat)
  | offlineAppend (featureView : String) (stagingUri : StagingUri)
  | historicalQuery (observationCount : Nat) (resolvedFeatures : List String)
      (warnings : List RegistryWarning)
deriving DecidableEq, Repr

/-- An entry of the `checkpoints` column. The last two are texts of older
releases that resumption still reads. -/
inductive Checkpoint
  | backfill (cursor : Instant) (quality : DataQualitySummary)
  | materialized (rows : Nat)
  | appended (rows : Nat)
  | duplicates (rows : Nat)
  | cursor (at_ : Instant)
  | quality (summary : DataQualitySummary)
deriving DecidableEq, Repr

end FeatureStore
