import FeatureStore.LatestRow
import FeatureStore.Library.AsOfJoin

/-!
# The point-in-time join

The query of `_join_view` joins the observations with the rows of a view, numbers the rows
of each observation and keeps the first. It answers with the newest row that is not later
than the observation, and judges the age of that row only.
-/

namespace FeatureStore

open AsOfJoin LastWriter

/-- A cell of a row, which is a dictionary of its columns. -/
def columnOf (row : Dict) (name : String) : Value := (row.lookup name).getD .null

def eventTimestampOf (row : Dict) : Option Instant :=
  match columnOf row "event_timestamp" with
  | .timestamp t => some t.asUtc
  | _ => none

def eventIdOf (row : Dict) : Option String :=
  match columnOf row "event_id" with
  | .str eventId => some eventId
  | _ => none

/-- `ORDER BY f.event_timestamp DESC NULLS LAST, f.event_id DESC NULLS LAST` -/
def windowRank (row : Option Dict) : WithBot Instant ×ₗ WithBot String :=
  toLex ((row.bind eventTimestampOf).elim ⊥ fun t => (t : WithBot Instant),
    (row.bind eventIdOf).elim ⊥ fun id => (id : WithBot String))

/-- What is left to the engine: when cells are equal, the order of row ids, the double of an
interval, and how rows are ordered where `ORDER BY` does not tell. -/
structure QueryEngine where
  equal : Value → Value → Bool
  rowIdLe : Value → Value → Bool
  epoch : Int → Value
  windowOrder : List (Dict × Option Dict) → List (Dict × Option Dict)
  windowOrder_perm : ∀ rows, (windowOrder rows).Perm rows
  windowOrder_sorted : ∀ rows,
    (windowOrder rows).Pairwise fun a b => windowRank b.2 ≤ windowRank a.2
  resultOrder : List (Dict × Option Dict) → List (Dict × Option Dict)
  resultOrder_perm : ∀ rows, (resultOrder rows).Perm rows
  resultOrder_sorted : ∀ rows, (resultOrder rows).Pairwise fun a b =>
    rowIdLe (columnOf a.1 "_row_id") (columnOf b.1 "_row_id") = true

/-- `ttl_expired`, if it is true: `if ttl_seconds`, and the comparison. -/
def ttlExpired (ttlSeconds : Option Nat) (observation : Dict) (row : Option Dict) : Bool :=
  match ttlSeconds, row.bind eventTimestampOf, eventTimestampOf observation with
  | some ttl, some t, some time => decide (ttl ≠ 0) && decide (t < time - seconds ttl)
  | _, _, _ => false

/-- The `CASE` expressions of `_join_view` on one joined row. -/
def caseColumns (viewName : String) (featureNames : List String) (ttlSeconds : Option Nat)
    (observation : Dict) (row : Option Dict) : JoinedColumns :=
  let timestamp := row.bind eventTimestampOf
  let expired := ttlExpired ttlSeconds observation row
  { status :=
      if timestamp.isNone then "missing" else if expired then "expired" else "present"
    features := featureNames.map fun name => (s!"{viewName}__{name}",
      if timestamp.isSome && !expired then row.elim .null fun row => columnOf row name
      else .null)
    age :=
      if timestamp.isSome && !expired then
        (eventTimestampOf observation).bind fun time => timestamp.map fun t => time - t
      else none }

namespace QueryEngine

variable (engine : QueryEngine)

/-- SQL `=`, which does not hold of nulls. -/
def equals (a b : Value) : Bool :=
  decide (a ≠ .null) && decide (b ≠ .null) && engine.equal a b

/-- The `ON` condition of `_join_view`. -/
def joinsOn (joinKeys : List String) (observation row : Dict) : Bool :=
  joinKeys.all (fun key => engine.equals (columnOf observation key) (columnOf row key)) &&
    match eventTimestampOf row, eventTimestampOf observation with
    | some t, some time => decide (t ≤ time)
    | _, _ => false

/-- The columns that `_join_view` puts behind those of an observation. -/
def addedColumns (viewName : String) (columns : JoinedColumns) : Dict :=
  (s!"{viewName}__status", .str columns.status) :: columns.features ++
    [(s!"__feature_store_age__{viewName}", columns.age.elim .null engine.epoch)]

/-- `HistoricalRetriever._join_view`, on the rows of its two tables. -/
def joinView (viewName : String) (featureNames joinKeys : List String) (ttlSeconds : Option Nat)
    (rows observations : List Dict) : List Dict :=
  let joined := AsOfJoin.leftJoin (engine.joinsOn joinKeys) observations rows
  let first := firstOfEach (fun row => columnOf row.1 "_row_id") engine.windowOrder joined
  (engine.resultOrder first).map fun row =>
    row.1 ++ engine.addedColumns viewName
      (caseColumns viewName featureNames ttlSeconds row.1 row.2)

/-- The row has the keys of the observation and is not later. -/
def Eligible (joinKeys : List String) (observation row : Dict) : Prop :=
  (∀ key ∈ joinKeys, engine.equals (columnOf observation key) (columnOf row key) = true) ∧
    ∃ t time, eventTimestampOf row = some t ∧ eventTimestampOf observation = some time ∧ t ≤ time

/-- One of the newest eligible rows, or none if no row is eligible. -/
def IsNewest (joinKeys : List String) (rows : List Dict) (observation : Dict) :
    Option Dict → Prop
  | none => ∀ row ∈ rows, ¬engine.Eligible joinKeys observation row
  | some row => row ∈ rows ∧ engine.Eligible joinKeys observation row ∧
      ∀ other ∈ rows, engine.Eligible joinKeys observation other →
        windowRank (some other) ≤ windowRank (some row)

end QueryEngine

/-- The answer for an observation whose newest eligible row is the given one. -/
def pointInTimeAnswer (viewName : String) (featureNames : List String) (ttlSeconds : Option Nat)
    (observation : Dict) (selected : Option Dict) : JoinedColumns :=
  let unanswered := featureNames.map fun name => (s!"{viewName}__{name}", Value.null)
  match selected, selected.bind eventTimestampOf, eventTimestampOf observation with
  | some row, some t, some time =>
      if ttlSeconds.any fun ttl : Nat => decide (t < time - seconds ttl) then
        ⟨"expired", unanswered, none⟩
      else
        ⟨"present", featureNames.map fun name => (s!"{viewName}__{name}", columnOf row name),
          some (time - t)⟩
  | _, _, _ => ⟨"missing", unanswered, none⟩

section Join

variable {engine : QueryEngine} {joinKeys : List String} {rows others : List Dict}
  {observation row : Dict}

theorem joinsOn_iff :
    engine.joinsOn joinKeys observation row = true ↔
      engine.Eligible joinKeys observation row := by
  rw [QueryEngine.joinsOn, QueryEngine.Eligible, Bool.and_eq_true, List.all_eq_true]
  apply and_congr_right
  intro _
  cases eventTimestampOf row with
  | none => simp
  | some t =>
      cases eventTimestampOf observation with
      | none => simp
      | some time => simp

theorem selects_iff {selected : Option Dict} :
    Selects (engine.joinsOn joinKeys) (fun row => windowRank (some row)) rows observation
        selected ↔
      engine.IsNewest joinKeys rows observation selected := by
  cases selected with
  | none =>
      apply forall₂_congr
      intro row _
      rw [← joinsOn_iff, Bool.not_eq_true]
  | some row =>
      simp only [Selects, IsLatest, QueryEngine.IsNewest, List.mem_filter, joinsOn_iff, and_imp,
        and_assoc]

/-- Rows that are later than the observation do not matter. -/
theorem isNewest_congr
    (h : ∀ row t time, eventTimestampOf row = some t → eventTimestampOf observation = some time →
      t ≤ time → (row ∈ rows ↔ row ∈ others)) (selected : Option Dict) :
    engine.IsNewest joinKeys rows observation selected ↔
      engine.IsNewest joinKeys others observation selected := by
  rw [← selects_iff, ← selects_iff]
  apply selects_congr
  intro row hjoins
  obtain ⟨-, t, time, ht, htime, hle⟩ := joinsOn_iff.mp hjoins
  exact h row t time ht htime hle

/-- On the newest eligible row the `CASE` expressions give the answer. -/
theorem caseColumns_eq (viewName : String) (featureNames : List String)
    {ttlSeconds : Option Nat} (httl : ∀ ttl, ttlSeconds = some ttl → 0 < ttl)
    {selected : Option Dict} (hselected : engine.IsNewest joinKeys rows observation selected) :
    caseColumns viewName featureNames ttlSeconds observation selected =
      pointInTimeAnswer viewName featureNames ttlSeconds observation selected := by
  cases selected with
  | none => simp [caseColumns, pointInTimeAnswer]
  | some row =>
      obtain ⟨-, ⟨-, t, time, ht, htime, -⟩, -⟩ := hselected
      have hexpired : ttlExpired ttlSeconds observation (some row) =
          ttlSeconds.any fun ttl : Nat => decide (t < time - seconds ttl) := by
        cases ttlSeconds with
        | none => rfl
        | some ttl => simp [ttlExpired, ht, htime, (httl ttl rfl).ne']
      simp only [caseColumns, pointInTimeAnswer, hexpired, Option.bind_some, ht, htime]
      cases ttlSeconds.any fun ttl : Nat => decide (t < time - seconds ttl) with
      | true => simp
      | false => simp

/-- A row as old as the time to live is present. -/
theorem status_at_ttl (viewName : String) (featureNames : List String) {time : Instant} {ttl : Nat}
    (htime : eventTimestampOf observation = some time)
    (hrow : eventTimestampOf row = some (time - seconds ttl)) :
    (pointInTimeAnswer viewName featureNames (some ttl) observation (some row)).status =
      "present" := by
  simp only [pointInTimeAnswer, Option.bind_some, htime, hrow, Option.any_some, lt_irrefl,
    decide_false, Bool.false_eq_true, if_false]

/-- The rows of the query are the observations, each with one of its newest eligible rows. -/
theorem joined_selection (engine : QueryEngine) (joinKeys : List String)
    (rows observations : List Dict)
    (hids : (observations.map fun row => columnOf row "_row_id").Nodup) :
    ∃ selection : Dict → Option Dict,
      (engine.resultOrder (firstOfEach (fun row => columnOf row.1 "_row_id") engine.windowOrder
        (AsOfJoin.leftJoin (engine.joinsOn joinKeys) observations rows))).Perm
          (observations.map fun observation => (observation, selection observation)) ∧
      ∀ observation, engine.IsNewest joinKeys rows observation (selection observation) := by
  have hfirst : ∃ selection : Dict → Option Dict,
      (firstOfEach (fun row => columnOf row.1 "_row_id") engine.windowOrder
        (AsOfJoin.leftJoin (engine.joinsOn joinKeys) observations rows)).Perm
          (observations.map fun observation => (observation, selection observation)) ∧
      ∀ observation, Selects (engine.joinsOn joinKeys) (fun row => windowRank (some row)) rows
        observation (selection observation) :=
    exists_selection hids engine.windowOrder_perm engine.windowOrder_sorted fun _ _ hle => hle
  obtain ⟨selection, hperm, hselects⟩ := hfirst
  refine ⟨selection, (engine.resultOrder_perm _).trans hperm, fun observation => ?_⟩
  exact selects_iff.mp (hselects observation)

/-- `_join_view` returns the observations in the order of their ids, each with the columns of
one of its newest eligible rows. -/
theorem joinView_rows (engine : QueryEngine) (viewName : String)
    (featureNames joinKeys : List String) (ttlSeconds : Option Nat) (rows observations : List Dict)
    (hids : (observations.map fun row => columnOf row "_row_id").Nodup) :
    ∃ (selection : Dict → Option Dict) (ordered : List Dict),
      ordered.Perm observations ∧
      (ordered.Pairwise fun a b =>
        engine.rowIdLe (columnOf a "_row_id") (columnOf b "_row_id") = true) ∧
      (∀ observation, engine.IsNewest joinKeys rows observation (selection observation)) ∧
      engine.joinView viewName featureNames joinKeys ttlSeconds rows observations =
        ordered.map fun observation => observation ++ engine.addedColumns viewName
          (caseColumns viewName featureNames ttlSeconds observation (selection observation)) := by
  obtain ⟨selection, hperm, hnewest⟩ := joined_selection engine joinKeys rows observations hids
  have hsorted := engine.resultOrder_sorted
    (firstOfEach (fun row => columnOf row.1 "_row_id") engine.windowOrder
      (AsOfJoin.leftJoin (engine.joinsOn joinKeys) observations rows))
  refine ⟨selection, _, ?_, hsorted.map _ fun _ _ hle => hle, hnewest, ?_⟩
  · have hobservations := hperm.map Prod.fst
    rw [List.map_map] at hobservations
    exact hobservations.trans (List.Perm.of_eq (List.map_id _))
  · rw [QueryEngine.joinView, List.map_map]
    apply List.map_congr_left
    intro row hrow
    obtain ⟨observation, -, rfl⟩ := List.mem_map.mp (hperm.subset hrow)
    rfl

variable {other : Dict}

/-- Only the join keys and the timestamp of an observation matter. -/
theorem isNewest_iff_of_same
    (hkeys : ∀ key ∈ joinKeys, columnOf observation key = columnOf other key)
    (htime : eventTimestampOf observation = eventTimestampOf other) {selected : Option Dict} :
    engine.IsNewest joinKeys rows observation selected ↔
      engine.IsNewest joinKeys rows other selected := by
  have heligible : ∀ row, engine.Eligible joinKeys observation row ↔
      engine.Eligible joinKeys other row := by
    intro row
    rw [QueryEngine.Eligible, QueryEngine.Eligible, htime]
    apply and_congr_left
    intro _
    apply forall₂_congr
    intro key hkey
    rw [hkeys key hkey]
  cases selected with
  | none => simp only [QueryEngine.IsNewest, heligible]
  | some row => simp only [QueryEngine.IsNewest, heligible]

theorem caseColumns_of_same (viewName : String) (featureNames : List String)
    (ttlSeconds : Option Nat) (htime : eventTimestampOf observation = eventTimestampOf other)
    (selected : Option Dict) :
    caseColumns viewName featureNames ttlSeconds observation selected =
      caseColumns viewName featureNames ttlSeconds other selected := by
  have hexpired : ttlExpired ttlSeconds observation selected =
      ttlExpired ttlSeconds other selected := by
    unfold ttlExpired
    rw [htime]
  rw [caseColumns, caseColumns, hexpired, htime]

end Join

/-- Over observations with distinct row ids, `_join_view` returns one row for each of them, in
the order of the ids, with the answer of its newest eligible row. Rows that are later than an
observation do not matter, and a row as old as the time to live is present. -/
theorem join_view_selects (engine : QueryEngine) (viewName : String)
    (featureNames joinKeys : List String) (ttlSeconds : Option Nat) (rows observations : List Dict)
    (hids : (observations.map fun row => columnOf row "_row_id").Nodup)
    (httl : ∀ ttl, ttlSeconds = some ttl → 0 < ttl) :
    (∃ (selection : Dict → Option Dict) (ordered : List Dict),
      ordered.Perm observations ∧
      (ordered.Pairwise fun a b =>
        engine.rowIdLe (columnOf a "_row_id") (columnOf b "_row_id") = true) ∧
      (∀ observation, engine.IsNewest joinKeys rows observation (selection observation)) ∧
      engine.joinView viewName featureNames joinKeys ttlSeconds rows observations =
        ordered.map fun observation => observation ++ engine.addedColumns viewName
          (pointInTimeAnswer viewName featureNames ttlSeconds observation
            (selection observation))) ∧
    (∀ observation others,
      (∀ row t time, eventTimestampOf row = some t → eventTimestampOf observation = some time →
        t ≤ time → (row ∈ rows ↔ row ∈ others)) →
      ∀ selected, engine.IsNewest joinKeys rows observation selected ↔
        engine.IsNewest joinKeys others observation selected) ∧
    ∀ observation row time ttl, ttlSeconds = some ttl → eventTimestampOf observation = some time →
      eventTimestampOf row = some (time - seconds ttl) →
      (pointInTimeAnswer viewName featureNames ttlSeconds observation (some row)).status =
        "present" := by
  refine ⟨?_, fun observation others h => isNewest_congr h, ?_⟩
  · obtain ⟨selection, ordered, hperm, hsorted, hnewest, hrows⟩ :=
      joinView_rows engine viewName featureNames joinKeys ttlSeconds rows observations hids
    refine ⟨selection, ordered, hperm, hsorted, hnewest, hrows.trans ?_⟩
    apply List.map_congr_left
    intro observation _
    rw [caseColumns_eq viewName featureNames httl (hnewest observation)]
  · rintro observation row time ttl rfl htime hrow
    exact status_at_ttl viewName featureNames htime hrow

section Sample

/-- The number of a row id. -/
def rowNumber : Value → Int
  | .int n => n
  | _ => 0

/-- An engine with stable sorts, for which cells are equal if they are the same. -/
def sampleEngine : QueryEngine where
  equal a b := decide (a = b)
  rowIdLe a b := decide (rowNumber a ≤ rowNumber b)
  epoch microseconds := .int (microseconds / 1000000)
  windowOrder rows := rows.insertionSort fun a b => windowRank b.2 ≤ windowRank a.2
  windowOrder_perm rows := List.perm_insertionSort _ rows
  windowOrder_sorted rows := by
    have : Std.Total fun a b : Dict × Option Dict => windowRank b.2 ≤ windowRank a.2 :=
      ⟨fun a b => le_total (windowRank b.2) (windowRank a.2)⟩
    have : IsTrans (Dict × Option Dict) fun a b => windowRank b.2 ≤ windowRank a.2 :=
      ⟨fun _ _ _ hab hbc => le_trans hbc hab⟩
    exact List.pairwise_insertionSort _ rows
  resultOrder rows := rows.insertionSort fun a b =>
    rowNumber (columnOf a.1 "_row_id") ≤ rowNumber (columnOf b.1 "_row_id")
  resultOrder_perm rows := List.perm_insertionSort _ rows
  resultOrder_sorted rows := by
    have : Std.Total fun a b : Dict × Option Dict =>
        rowNumber (columnOf a.1 "_row_id") ≤ rowNumber (columnOf b.1 "_row_id") :=
      ⟨fun a b => le_total _ _⟩
    have : IsTrans (Dict × Option Dict) fun a b =>
        rowNumber (columnOf a.1 "_row_id") ≤ rowNumber (columnOf b.1 "_row_id") :=
      ⟨fun _ _ _ hab hbc => le_trans hab hbc⟩
    exact (List.pairwise_insertionSort _ rows).imp fun h => decide_eq_true h

def statsRow (account eventId : String) (hour amount : Int) : Dict :=
  [("account_id", .str account), ("event_timestamp", .timestamp (.utc (hour * 3600000000))),
    ("event_id", .str eventId), ("amount", .int amount)]

def statsObservation (index : Int) (account : String) (hour : Int) : Dict :=
  [("_row_id", .int index), ("account_id", .str account),
    ("event_timestamp", .timestamp (.utc (hour * 3600000000)))]

/-- Two rows of one hour and a later one. -/
def statsRows : List Dict := [statsRow "a" "2" 9 20, statsRow "a" "1" 9 10, statsRow "a" "3" 14 99]

def statsObservations : List Dict :=
  [statsObservation 1 "a" 13, statsObservation 0 "a" 11, statsObservation 2 "b" 13]

/-- The row of the greater id is present after two hours and expired after four; the other
account has none. -/
theorem stats_selected :
    ((sampleEngine.joinView "account_stats" ["amount"] ["account_id"] (some 7200) statsRows
        statsObservations).map fun row =>
          (columnOf row "account_stats__status", columnOf row "account_stats__amount")) =
      [(.str "present", .int 20), (.str "expired", .null), (.str "missing", .null)] ∧
    ∃ (selection : Dict → Option Dict) (ordered : List Dict),
      ordered.Perm statsObservations ∧
      (ordered.Pairwise fun a b =>
        sampleEngine.rowIdLe (columnOf a "_row_id") (columnOf b "_row_id") = true) ∧
      (∀ observation,
        sampleEngine.IsNewest ["account_id"] statsRows observation (selection observation)) ∧
      sampleEngine.joinView "account_stats" ["amount"] ["account_id"] (some 7200) statsRows
          statsObservations =
        ordered.map fun observation => observation ++ sampleEngine.addedColumns "account_stats"
          (pointInTimeAnswer "account_stats" ["amount"] (some 7200) observation
            (selection observation)) :=
  ⟨by decide +kernel, (join_view_selects sampleEngine "account_stats" ["amount"] ["account_id"]
    (some 7200) statsRows statsObservations (by decide) (by simp)).1⟩

end Sample

end FeatureStore
