import FeatureStore.Materialization
import FeatureStore.OnlineConvergence
import FeatureStore.RegistryModels
import Mathlib.Data.List.Dedup

/-!
# Three selections of the latest row

The historical join, the query of the materializer and the upsert script each pick
one row of an entity. Rows are ranked by timestamp and event id, with null ids last;
in SQL, floats are equal when their texts are.
-/

namespace FeatureStore

open LastWriter

/-- A row of the observations table: its join-key columns and its timestamp. -/
structure ObservationRow where
  entityValues : Dict
  eventTimestamp : Instant
deriving Repr

/-- SQL `=`, which does not hold of nulls. -/
def sqlEqual (a b : Option Value) : Bool :=
  decide (a = b) && decide (a ≠ none) && decide (a ≠ some .null)

/-- The join condition of `_join_view`. -/
def joinsRow (joinKeys : List String) (observation : ObservationRow) (row : OfflineRow) : Bool :=
  joinKeys.all (fun key =>
    sqlEqual (observation.entityValues.lookup key) (row.entityValues.lookup key)) &&
    decide (row.eventTimestamp ≤ observation.eventTimestamp)

/-- The rows that a left join puts beside an observation: nulls if none matches. -/
def leftJoin (joinKeys : List String) (rows : List OfflineRow) (observation : ObservationRow) :
    List (Option OfflineRow) :=
  match rows.filter (joinsRow joinKeys observation) with
  | [] => [none]
  | row :: rest => (row :: rest).map some

/-- The window order of `_join_view`, nulls last. -/
def joinRank (row : Option OfflineRow) : WithBot Instant ×ₗ WithBot String :=
  toLex (row.elim ⊥ fun row => (row.eventTimestamp : WithBot Instant),
    (row.bind (·.eventId)).elim ⊥ fun id => (id : WithBot String))

/-- The row whose `ROW_NUMBER()` is 1 in the window of an observation. -/
def joinedRow (joinKeys : List String) (rows : List OfflineRow) (observation : ObservationRow) :
    Option OfflineRow :=
  (newest joinRank (leftJoin joinKeys rows observation)).join

/-- `if ttl_seconds` in `_join_view`, and the comparison that it adds to the query. -/
def isExpired (ttlSeconds : Option Nat) (observation : ObservationRow) (row : OfflineRow) : Bool :=
  ttlSeconds.any fun ttl => decide (ttl ≠ 0) &&
    decide (row.eventTimestamp < observation.eventTimestamp - seconds ttl)

/-- The columns that `_join_view` adds to an observation. -/
structure JoinedColumns where
  status : String
  features : Dict
  age : Option Int
deriving Repr

/-- `HistoricalRetriever._join_view`, for one observation. -/
def joinView (viewName : String) (featureNames joinKeys : List String) (ttlSeconds : Option Nat)
    (rows : List OfflineRow) (observation : ObservationRow) : JoinedColumns :=
  let present := (joinedRow joinKeys rows observation).filter
    fun row => !isExpired ttlSeconds observation row
  { status :=
      match joinedRow joinKeys rows observation with
      | none => "missing"
      | some row => if isExpired ttlSeconds observation row then "expired" else "present"
    features := featureNames.map fun name => (s!"{viewName}__{name}",
      (present.bind (·.values.lookup name)).getD .null)
    age := present.map fun row => observation.eventTimestamp - row.eventTimestamp }

/-- The query of `_materialize`: the first row of each partition by the join keys. -/
def latestRows (rows : List OfflineRow) : List OfflineRow :=
  (rows.map (·.entityValues)).dedup.filterMap fun entityValues =>
    newest OfflineRow.rank (rows.filter fun row => decide (row.entityValues = entityValues))

/-- Upserts one after the other, none of which raises. -/
def RedisStore.upsertAll? (codec : OnlineCodec) (redis : RedisStore)
    (events : List StreamFeatureEvent) : Option RedisStore :=
  events.foldlM (fun redis event => (redis.upsert? codec event).map (·.1)) redis

/-- Rows of a view table with typed columns: the join keys, not null, and the features,
none of which is named like a field of the upsert script. -/
structure ViewRows (entity : Manifest.Entity) (view : Manifest.FeatureView) where
  rows : List OfflineRow
  joinKeys : ∀ row ∈ rows, row.entityValues.map (·.1) = entity.joinKeys.map (·.1)
  notNull : ∀ row ∈ rows, ∀ item ∈ row.entityValues, item.2 ≠ .null
  features : ∀ row ∈ rows, row.values.map (·.1) = view.features.map (·.name)
  unreserved : ∀ feature ∈ view.features, feature.name ≠ timestampField ∧ feature.name ≠ idField
  distinct : (rows.map fun row => (row.entityValues, row.eventTimestamp, row.eventId)).Nodup

/-- The rows of an entity up to a time. -/
def rowsOf (rows : List OfflineRow) (key : Dict) (t : Instant) : List OfflineRow :=
  rows.filter fun row => decide (row.entityValues = key) && decide (row.eventTimestamp ≤ t)

section Selections

variable {entity : Manifest.Entity} {view : Manifest.FeatureView} {rows : List OfflineRow}
  {key : Dict} {t : Instant} {row : OfflineRow}

theorem sqlEqual_iff {a b : Option Value} :
    sqlEqual a b = true ↔ a = b ∧ a ≠ none ∧ a ≠ some .null := by
  simp [sqlEqual, and_assoc]

/-- Without null join keys a row joins an observation when it is of its entity and not
later. -/
theorem joinsRow_iff (hkey : key.map (·.1) = entity.joinKeys.map (·.1))
    (hrow : row.entityValues.map (·.1) = entity.joinKeys.map (·.1))
    (hnull : ∀ item ∈ row.entityValues, item.2 ≠ .null) :
    joinsRow (entity.joinKeys.map (·.1)) ⟨key, t⟩ row = true ↔
      row.entityValues = key ∧ row.eventTimestamp ≤ t := by
  have hnodup : (key.map (·.1)).Nodup := hkey ▸ entity.joinKeys_nodup
  rw [joinsRow, Bool.and_eq_true, decide_eq_true_eq, List.all_eq_true]
  refine and_congr_left fun _ => ⟨fun hall => ?_, ?_⟩
  · apply Dictionaries.eq_of_lookup hnodup (hrow.trans hkey.symm)
    intro name hname
    rw [hkey] at hname
    exact (sqlEqual_iff.mp (hall name hname)).1.symm
  · rintro rfl name hname
    rw [← hkey, ← Dictionaries.lookup_isSome_iff, Option.isSome_iff_exists] at hname
    obtain ⟨value, hvalue⟩ := hname
    refine sqlEqual_iff.mpr ⟨rfl, by simp [hvalue], ?_⟩
    rw [hvalue]
    rw [Dictionaries.lookup_eq_some_iff hnodup] at hvalue
    exact fun heq => hnull _ hvalue (Option.some.inj heq)

theorem joinRank_le {a b : OfflineRow} :
    joinRank (some a) ≤ joinRank (some b) ↔ a.rank ≤ b.rank := by
  simp [joinRank, OfflineRow.rank, eventRank, Prod.Lex.toLex_le_toLex]

/-- The join selects the latest row of the entity. -/
theorem joinedRow_spec (data : ViewRows entity view)
    (hkey : key.map (·.1) = entity.joinKeys.map (·.1)) :
    (joinedRow (entity.joinKeys.map (·.1)) data.rows ⟨key, t⟩ = none ↔
      rowsOf data.rows key t = []) ∧
    ∀ row, joinedRow (entity.joinKeys.map (·.1)) data.rows ⟨key, t⟩ = some row →
      IsLatest OfflineRow.rank (rowsOf data.rows key t) row := by
  have hrows : data.rows.filter (joinsRow (entity.joinKeys.map (·.1)) ⟨key, t⟩) =
      rowsOf data.rows key t := by
    apply List.filter_congr
    intro row hrow
    rw [Bool.eq_iff_iff, joinsRow_iff hkey (data.joinKeys row hrow) (data.notNull row hrow)]
    simp
  rw [joinedRow, leftJoin, hrows]
  cases hmatched : rowsOf data.rows key t with
  | nil => exact ⟨iff_of_true rfl rfl, nofun⟩
  | cons first rest =>
      simp only
      rcases Option.eq_none_or_eq_some (newest joinRank ((first :: rest).map some)) with
        hnone | ⟨selected, hsome⟩
      · rw [newest_eq_none] at hnone
        cases hnone
      · obtain ⟨hmem, hmax⟩ := isLatest_newest hsome
        obtain ⟨row, hrow, rfl⟩ := List.mem_map.mp hmem
        rw [hsome]
        refine ⟨iff_of_false nofun nofun, fun other hother => ?_⟩
        obtain rfl : row = other := Option.some.inj hother
        refine ⟨hrow, fun other hother => ?_⟩
        exact joinRank_le.mp (hmax (some other) (List.mem_map.mpr ⟨other, hother, rfl⟩))

/-- A row is kept when it is the first of its own partition. -/
theorem mem_latestRows : row ∈ latestRows rows ↔
    newest OfflineRow.rank
      (rows.filter fun other => decide (other.entityValues = row.entityValues)) = some row := by
  rw [latestRows, List.mem_filterMap]
  constructor
  · rintro ⟨entityValues, -, hnewest⟩
    obtain ⟨-, hpartition⟩ := List.mem_filter.mp (isLatest_newest hnewest).1
    rwa [of_decide_eq_true hpartition]
  · intro hnewest
    obtain ⟨hmem, -⟩ := List.mem_filter.mp (isLatest_newest hnewest).1
    exact ⟨row.entityValues, List.mem_dedup.mpr (List.mem_map.mpr ⟨row, hmem, rfl⟩), hnewest⟩

/-- The query as the materializations use it. -/
def latestQuery : LatestQuery where
  run := latestRows
  scanned rows row hrow :=
    List.mem_of_mem_filter (isLatest_newest (mem_latestRows.mp hrow)).1
  newest rows row hrow := by
    have hpartition : row ∈ rows.filter fun other =>
        decide (other.entityValues = row.entityValues) :=
      List.mem_filter.mpr ⟨hrow, decide_eq_true rfl⟩
    cases hnewest : newest OfflineRow.rank
        (rows.filter fun other => decide (other.entityValues = row.entityValues)) with
    | none =>
        rw [newest_eq_none.mp hnewest] at hpartition
        cases hpartition
    | some latest =>
        obtain ⟨hmem, hmax⟩ := isLatest_newest hnewest
        have hkey : latest.entityValues = row.entityValues :=
          of_decide_eq_true (List.mem_filter.mp hmem).2
        refine ⟨latest, mem_latestRows.mpr ?_, hkey, hmax row hpartition⟩
        rw [hkey, hnewest]

/-- The query of the materializer keeps the latest row of the entity. -/
theorem latestRows_spec :
    ((latestRows (rows.filter fun row => decide (row.eventTimestamp ≤ t))).find?
        (fun row => decide (row.entityValues = key)) = none ↔ rowsOf rows key t = []) ∧
    ∀ row, (latestRows (rows.filter fun row => decide (row.eventTimestamp ≤ t))).find?
        (fun row => decide (row.entityValues = key)) = some row →
      IsLatest OfflineRow.rank (rowsOf rows key t) row := by
  have hpartition : ((rows.filter fun row => decide (row.eventTimestamp ≤ t)).filter
      fun row => decide (row.entityValues = key)) = rowsOf rows key t := by
    rw [List.filter_filter, rowsOf]
  constructor
  · rw [List.find?_eq_none]
    constructor
    · intro hnone
      rw [← hpartition, ← @newest_eq_none _ _ _ OfflineRow.rank, Option.eq_none_iff_forall_ne_some]
      intro row hrow
      have hkey : row.entityValues = key :=
        of_decide_eq_true (List.mem_filter.mp (isLatest_newest hrow).1).2
      exact hnone row (mem_latestRows.mpr (by rw [hkey, hrow])) (decide_eq_true hkey)
    · intro hempty row hrow hkey
      have hlatest := isLatest_newest (mem_latestRows.mp hrow)
      rw [of_decide_eq_true hkey, hpartition, hempty] at hlatest
      cases hlatest.1
  · intro row hfind
    have hlatest := isLatest_newest (mem_latestRows.mp (List.mem_of_find?_eq_some hfind))
    have hkey : row.entityValues = key := by simpa using List.find?_some hfind
    rwa [hkey, hpartition] at hlatest

/-- A rank tells the timestamp and the event id. -/
theorem rank_eq_iff {a b : OfflineRow} :
    a.rank = b.rank ↔ a.eventTimestamp = b.eventTimestamp ∧ a.eventId = b.eventId := by
  have hid : (a.eventId.elim ⊥ fun id => (id : WithBot String)) =
      (b.eventId.elim ⊥ fun id => (id : WithBot String)) ↔ a.eventId = b.eventId := by
    cases a.eventId with
    | none => cases b.eventId <;> simp
    | some id => cases b.eventId <;> simp
  rw [OfflineRow.rank, OfflineRow.rank, eventRank, eventRank, toLex_inj, Prod.mk.injEq, hid]

/-- Rows of one entity differ in rank. -/
theorem ViewRows.rank_injective (data : ViewRows entity view) :
    ∀ a ∈ rowsOf data.rows key t, ∀ b ∈ rowsOf data.rows key t, a.rank = b.rank → a = b := by
  intro a ha b hb hrank
  obtain ⟨hmemA, hkeyA⟩ := List.mem_filter.mp ha
  obtain ⟨hmemB, hkeyB⟩ := List.mem_filter.mp hb
  simp only [Bool.and_eq_true, decide_eq_true_eq] at hkeyA hkeyB
  obtain ⟨htimestamp, hid⟩ := rank_eq_iff.mp hrank
  apply List.inj_on_of_nodup_map data.distinct hmemA hmemB
  rw [hkeyA.1, hkeyB.1, htimestamp, hid]

end Selections

section Upserts

variable {codec : OnlineCodec} {entity : Manifest.Entity} {view : Manifest.FeatureView}
  {viewRef : String} {key : Dict} {t : Instant} {row : OfflineRow} {event : StreamFeatureEvent}
  {events : List StreamFeatureEvent} {redis after : RedisStore}

/-- Upserts that all return are those of representable timestamps. -/
theorem upsertAll?_eq (h : redis.upsertAll? codec events = some after) :
    (∀ event ∈ events, Instant.IsRepresentable event.eventTimestamp.asUtc) ∧
      after = redis.upserts codec events := by
  induction events generalizing redis with
  | nil => exact ⟨nofun, (Option.some.inj h).symm⟩
  | cons event rest ih =>
      obtain ⟨next, hnext, hrest⟩ := Option.bind_eq_some_iff.mp h
      change (redis.upsert? codec event).map (·.1) = some next at hnext
      obtain ⟨hreps, hafter⟩ := ih hrest
      refine ⟨List.forall_mem_cons.mpr ⟨?_, hreps⟩, ?_⟩
      · by_contra hrep
        have hraises : redis.upsert? codec event = none := by
          rw [RedisStore.upsert?, DateTime.utcText?, if_neg hrep]
          rfl
        rw [hraises] at hnext
        cases hnext
      · rw [hafter, RedisStore.upserts, RedisStore.upserts, List.foldl_cons, hnext]
        rfl

theorem streamEvent_ok (h : row.streamEvent viewRef = .ok event) :
    row.eventId = some event.eventId ∧ event.featureView = viewRef ∧
      event.entityValues = row.entityValues ∧
      event.eventTimestamp = .utc row.eventTimestamp ∧ event.values = row.values := by
  unfold OfflineRow.streamEvent at h
  cases hid : row.eventId with
  | none =>
      rw [hid] at h
      cases h
  | some eventId =>
      simp only [hid] at h
      split at h
      · cases h
        exact ⟨rfl, rfl, rfl, rfl, rfl⟩
      · split at h <;> cases h

theorem streamEvent_rank (h : row.streamEvent viewRef = .ok event) : event.rank = row.rank := by
  obtain ⟨hid, -, -, htimestamp, -⟩ := streamEvent_ok h
  rw [StreamFeatureEvent.rank, OfflineRow.rank, hid, htimestamp, DateTime.asUtc_utc]

/-- The events of an entity's rows are events of its key that agree on what they carry. -/
theorem ViewRows.coherent (data : ViewRows entity view)
    (hevents : ∀ event ∈ events, ∃ row ∈ rowsOf data.rows key t,
      row.streamEvent viewRef = .ok event) : Coherent events := by
  have hvalues : ∀ event ∈ events, event.values.map (·.1) = view.features.map (·.name) := by
    intro event hevent
    obtain ⟨row, hrow, hok⟩ := hevents event hevent
    rw [(streamEvent_ok hok).2.2.2.2]
    exact data.features row (List.mem_of_mem_filter hrow)
  constructor
  · intro event hevent
    rw [hvalues event hevent]
    exact view.features_nodup
  · intro event hevent name hname
    rw [hvalues event hevent] at hname
    obtain ⟨feature, hfeature, rfl⟩ := List.mem_map.mp hname
    exact data.unreserved feature hfeature
  · intro a ha b hb name
    rw [hvalues a ha, hvalues b hb]
  · intro a ha b hb hrank name
    obtain ⟨rowA, hrowA, hokA⟩ := hevents a ha
    obtain ⟨rowB, hrowB, hokB⟩ := hevents b hb
    rw [streamEvent_rank hokA, streamEvent_rank hokB] at hrank
    rw [(streamEvent_ok hokA).2.2.2.2, (streamEvent_ok hokB).2.2.2.2,
      data.rank_injective rowA hrowA rowB hrowB hrank]

/-- The hash left by the rows of an entity holds the latest of them. -/
theorem upserts_rowsOf (data : ViewRows entity view) {order : List OfflineRow}
    (horder : order.Perm (rowsOf data.rows key t))
    (hevents : order.mapM (·.streamEvent viewRef) = .ok events)
    (hafter : RedisStore.empty.upsertAll? codec events = some after) :
    (rowsOf data.rows key t = [] → after (codec.entityKey viewRef key) = []) ∧
      ∀ row, IsLatest OfflineRow.rank (rowsOf data.rows key t) row →
        ∃ event, row.streamEvent viewRef = .ok event ∧
          HoldsEvent codec (after (codec.entityKey viewRef key)) event := by
  obtain ⟨hfrom, hinto⟩ := mem_of_mapM hevents
  obtain ⟨hreps, rfl⟩ := upsertAll?_eq hafter
  have hsource : ∀ event ∈ events, ∃ row ∈ rowsOf data.rows key t,
      row.streamEvent viewRef = .ok event := by
    intro event hevent
    obtain ⟨row, hrow, hok⟩ := hfrom event hevent
    exact ⟨row, horder.mem_iff.mp hrow, hok⟩
  have hkeys : ∀ event ∈ events, codec.eventKey event = codec.entityKey viewRef key := by
    intro event hevent
    obtain ⟨row, hrow, hok⟩ := hsource event hevent
    obtain ⟨-, href, hentity, -, -⟩ := streamEvent_ok hok
    have hkey : row.entityValues = key := by
      have hmatch := (List.mem_filter.mp hrow).2
      simp only [Bool.and_eq_true, decide_eq_true_eq] at hmatch
      exact hmatch.1
    rw [OnlineCodec.eventKey, href, hentity, hkey]
  have hstorable : storable codec (codec.entityKey viewRef key) events = events := by
    apply List.filter_eq_self.mpr
    intro event hevent
    simp [hkeys event hevent, hreps event hevent]
  have hholds := upserts_holds (hstorable.symm ▸ data.coherent hsource)
  rw [hstorable] at hholds
  constructor
  · intro hempty
    apply hholds.1
    rw [List.eq_nil_iff_forall_not_mem]
    intro event hevent
    obtain ⟨row, hrow, -⟩ := hsource event hevent
    rw [hempty] at hrow
    cases hrow
  · intro row hlatest
    obtain ⟨event, hevent, hok⟩ := hinto row (horder.mem_iff.mpr hlatest.1)
    refine ⟨event, hok, hholds.2 event ⟨hevent, fun other hother => ?_⟩⟩
    obtain ⟨source, hsource, hother⟩ := hsource other hother
    rw [streamEvent_rank hok, streamEvent_rank hother]
    exact hlatest.2 source hsource

/-- Upserts of representable events with proper names do not raise. -/
theorem upsertAll?_of_representable (hredis : ∀ key, ∃ stored, Encodes stored (redis key))
    (hevents : ∀ event ∈ events, Instant.IsRepresentable event.eventTimestamp.asUtc ∧
      event.Unreserved ∧ (event.values.map (·.1)).Nodup) :
    redis.upsertAll? codec events = some (redis.upserts codec events) := by
  induction events generalizing redis with
  | nil => rfl
  | cons event rest ih =>
      obtain ⟨⟨hrep, hnames, hnodup⟩, hrest⟩ := List.forall_mem_cons.mp hevents
      obtain ⟨stored, hstored⟩ := hredis (codec.eventKey event)
      obtain ⟨after, hupsert, -, hafter⟩ := upsert?_own hrep hnames hnodup hstored
      have hencodes : ∀ key, ∃ stored, Encodes stored (after key) := by
        intro key
        by_cases hkey : codec.eventKey event = key
        · rw [← hkey]
          exact ⟨_, hafter⟩
        · have hother := @upsert?_other codec key event redis fun h => hkey h.1
          rw [hupsert] at hother
          rw [show after key = redis key from hother]
          exact hredis key
      have hnext : (redis.upsert? codec event).map (·.1) = some after := by rw [hupsert]; rfl
      rw [RedisStore.upsertAll?, List.foldlM_cons, hnext]
      change after.upsertAll? codec rest = _
      rw [ih hencodes hrest, RedisStore.upserts, RedisStore.upserts, List.foldl_cons, hnext]
      rfl

end Upserts

section Sample

def accountEntity : Manifest.Entity :=
  ⟨"account", [("account_id", .string)], List.nodup_singleton "account_id"⟩

def accountView : Manifest.FeatureView :=
  ⟨"account_stats", "1.0.0", "account", [⟨"amount", .int64, "", none⟩], "accounts",
    "SELECT * FROM source", none, none, "", none, List.nodup_singleton "amount"⟩

def accountRow (eventId : String) (amount : Int) : OfflineRow :=
  ⟨[("account_id", .str "a1")], 1704189600000000, some eventId, [("amount", .int amount)], 19724,
    by decide⟩

/-- Two rows of one account at one time. -/
def accountRows : ViewRows accountEntity accountView :=
  ⟨[accountRow "a" 1, accountRow "b" 2], by decide, by decide, by decide, by decide, by decide⟩

end Sample

end FeatureStore
