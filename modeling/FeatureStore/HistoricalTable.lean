import FeatureStore.OnlineRead
import FeatureStore.PointInTime

/-!
# Historical queries

`HistoricalRetriever` threads the observations through one join per view. Their rows carry
the values of the caller under the names that the caller gives, beside a row id and the
columns of the views, in tables that have a column per name.
-/

namespace FeatureStore

/-- `Observation`, whose values have distinct keys. -/
structure Observation where
  entityValues : Dict
  eventTimestamp : DateTime
  keys_nodup : (entityValues.map (·.1)).Nodup
  timezone_required : eventTimestamp.utcOffset.isSome = true
deriving Repr

/-- The names of the columns of a table, and its rows. -/
structure ArrowTable where
  names : List String
  rows : List (List Value)
deriving DecidableEq, Repr

namespace ArrowTable

def record (table : ArrowTable) (row : List Value) : Dict := table.names.zip row

/-- `to_pylist` -/
def toPylist (table : ArrowTable) : List Dict :=
  table.rows.map fun row => Dictionaries.ofItems (table.record row)

/-- `append_column`, with the same cell in every row. -/
def appendColumn (table : ArrowTable) (name : String) (cell : Value) : ArrowTable :=
  ⟨table.names ++ [name], table.rows.map (· ++ [cell])⟩

/-- `table[name]`, which raises unless there is one column of the name. -/
def column (table : ArrowTable) (name : String) : Except PyException (List Value) :=
  match table.names.count name with
  | 0 => .error (keyError s!"Field \"{name}\" does not exist in schema")
  | 1 => .ok (table.rows.map fun row => row.getD (table.names.idxOf name) .null)
  | count => .error (keyError s!"Field \"{name}\" exists {count} times in schema")

/-- `drop`, which raises unless there is one column of the name. -/
def drop (table : ArrowTable) (name : String) : Except PyException ArrowTable :=
  if table.names.count name = 1 then
    let index := table.names.idxOf name
    .ok ⟨table.names.eraseIdx index, table.rows.map (·.eraseIdx index)⟩
  else .error (keyError s!"Column '{name}' not found")

end ArrowTable

/-- The cells of a column as `from_pylist` types them, or the exception that it raises. A type
that keeps the cells of a column keeps any of them; numbers and instants have types, and no cell
is added or lost and no null replaced. -/
structure ArrowTyping where
  convert : List Value → Except PyException (List Value)
  single : ∀ {cells cell}, convert cells = .ok cells → cell ∈ cells → convert [cell] = .ok [cell]
  indices : ∀ n : Nat, convert ((List.range n).map fun i : Nat => .int i) =
    .ok ((List.range n).map fun i : Nat => .int i)
  instants : ∀ instants : List Instant, convert (instants.map fun t => .timestamp (.utc t)) =
    .ok (instants.map fun t => .timestamp (.utc t))
  keepsNulls : ∀ {cells typed}, convert cells = .ok typed → typed.length = cells.length ∧
    ∀ index : Nat, cells[index]? = some .null → typed[index]? = some .null

/-- `pa.Table.from_pylist`: the names are those of the first row. -/
def ArrowTyping.fromPylist (arrow : ArrowTyping) (rows : List Dict) :
    Except PyException ArrowTable := do
  let names := (rows.head?.getD []).map (·.1)
  let columns ← names.mapM fun name => arrow.convert (rows.map fun row => columnOf row name)
  return ⟨names, (List.range rows.length).map fun index =>
    columns.map fun column => column.getD index .null⟩

/-- DuckDB on tables: how it renames columns that have the same name up to case, and which
columns it compares. -/
structure TableEngine extends QueryEngine where
  deduplicate : List String → List String
  comparable : List Value → List Value → Bool
  deduplicate_distinct : ∀ names, (names.map String.toLower).Nodup → deduplicate names = names
  comparable_single : ∀ {cells others cell}, comparable cells others = true → cell ∈ cells →
    comparable [cell] others = true
  rowIdLe_int : ∀ {m n : Int}, rowIdLe (.int m) (.int n) = true ↔ m ≤ n

/-- The names of the columns that `_join_view` adds. -/
def statusName (viewName : String) : String := s!"{viewName}__status"

def outputNames (viewName : String) (featureNames : List String) : List String :=
  statusName viewName :: featureNames.map fun name => s!"{viewName}__{name}"

def ageName (viewName : String) : String := s!"__feature_store_age__{viewName}"

namespace TableEngine

variable (engine : TableEngine)

/-- The names of a registered table, without case. -/
def scannedNames (table : ArrowTable) : List String :=
  (engine.deduplicate table.names).map String.toLower

/-- The rows of a registered table, by these names. -/
def scan (table : ArrowTable) : List Dict :=
  table.rows.map ((engine.scannedNames table).zip ·)

/-- Whether the query of `_join_view` finds its columns and can compare the join keys. -/
def binds (featureNames joinKeys : List String) (featureRows observations : ArrowTable) : Bool :=
  (joinKeys ++ ["event_timestamp", "event_id"] ++ featureNames).all (fun name =>
    (engine.scannedNames featureRows).contains name.toLower) &&
    joinKeys.all fun key => engine.comparable
      ((engine.scan observations).map fun row => columnOf row key.toLower)
      ((engine.scan featureRows).map fun row => columnOf row key.toLower)

/-- `HistoricalRetriever._join_view`. -/
def joinTables (viewName : String) (featureNames joinKeys : List String) (ttlSeconds : Option Nat)
    (featureRows observations : ArrowTable) : Except PyException ArrowTable :=
  if engine.binds featureNames joinKeys featureRows observations then
    let rows := engine.joinView viewName (featureNames.map String.toLower)
      (joinKeys.map String.toLower) ttlSeconds (engine.scan featureRows) (engine.scan observations)
    .ok ⟨engine.deduplicate (engine.deduplicate observations.names ++
        outputNames viewName featureNames ++ [ageName viewName]),
      rows.map fun row => row.map (·.2)⟩
  else .error ⟨.duckdb, "Binder Error"⟩

end TableEngine

/-- `HistoricalRetriever._append_missing`. -/
def appendMissing (table : ArrowTable) (viewName : String) (featureNames : List String) :
    ArrowTable :=
  featureNames.foldl (fun result name => result.appendColumn s!"{viewName}__{name}" .null)
    (table.appendColumn (statusName viewName) (.str "missing"))

/-- A joined table without the age column, after the status and the age have been read. What
the metrics count in them is left out. -/
def ArrowTable.dropAge (joined : ArrowTable) (viewName : String) :
    Except PyException ArrowTable := do
  let _ ← joined.column (statusName viewName)
  let _ ← joined.column (ageName viewName)
  joined.drop (ageName viewName)

/-- The row of an observation in `_query_table`. -/
def observationRow (observation : Observation) (index : Nat) : Except PyException Dict :=
  if Instant.IsRepresentable observation.eventTimestamp.asUtc then
    .ok (Dictionaries.ofItems (("_row_id", .int index) :: observation.entityValues ++
      [("event_timestamp", .timestamp (.utc observation.eventTimestamp.asUtc))]))
  else .error ⟨.runtime, "date value out of range"⟩

/-- What a historical query reads: the registry and the tables of the views, and how pyarrow
and DuckDB treat them. -/
structure Retriever where
  store : RegistryStore
  tables : String → Option ArrowTable
  arrow : ArrowTyping
  engine : TableEngine

namespace Retriever

variable (retriever : Retriever)

/-- One round of the loop of `_query_table`. -/
def queryView (current : ArrowTable) (group : String × List String) :
    Except PyException ArrowTable := do
  let view ← retriever.store.featureView group.1
  let entity ← retriever.store.entity view.entity
  let missing := (entity.joinKeys.map (·.1)).filter fun key => !current.names.contains key
  if missing ≠ [] then
    throw (valueError s!"missing observation entity keys: {pythonList (sortedNames missing)}")
  else
    match retriever.tables group.1 with
    | none => return appendMissing current view.name group.2
    | some featureRows =>
        if featureRows.rows = [] then return appendMissing current view.name group.2
        else
          let joined ← retriever.engine.joinTables view.name group.2 (entity.joinKeys.map (·.1))
            view.ttlSeconds featureRows current
          joined.dropAge view.name

/-- `HistoricalRetriever._query_table`. -/
def queryTable (observations : List Observation) (resolved : List String) :
    Except PyException ArrowTable := do
  if observations.isEmpty then return ⟨[], []⟩
  else
    let rows ← observations.zipIdx.mapM fun item => observationRow item.1 item.2
    let current ← retriever.arrow.fromPylist rows
    let refs ← resolved.mapM splitLastColon
    let final ← (refs.foldl groupRef []).foldlM retriever.queryView current
    final.drop "_row_id"

/-- The check of one reference in `validate`. -/
def checkObservations (observations : List Observation) (ref : String) :
    Except PyException Unit := do
  let (viewRef, _) ← splitLastColon ref
  let view ← retriever.store.featureView viewRef
  let entity ← retriever.store.entity view.entity
  observations.zipIdx.forM fun item =>
    let missing := (entity.joinKeys.map (·.1)).filter fun key =>
      !(item.1.entityValues.map (·.1)).contains key
    if missing ≠ [] then
      throw (valueError s!"missing observation entity keys at row {item.2}: {pythonList (sortedNames missing)}")
    else return ()

/-- `HistoricalRetriever.validate`. -/
def validate (observations : List Observation) (features : List String)
    (featureService : Option String) : Except PyException (List String) := do
  let resolved ← retriever.store.resolveFeatures features featureService
  resolved.forM (retriever.checkObservations observations)
  return resolved

end Retriever

end FeatureStore
