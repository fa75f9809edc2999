import FeatureStore.Models

/-!
# Offline tables

Delta tables of feature rows. Writes are atomic and act on the latest version;
a location without a table is `none`. Every writer of the repository computes
`event_date` from the row's own timestamp, so a row carries that as a field.
-/

namespace FeatureStore

/-- A UTC calendar date, counted in days from the epoch. -/
abbrev Date := Int

def microsecondsPerDay : Int := 86400000000

/-- `timestamp.astimezone(UTC).date()`. -/
def dateOf (instant : Instant) : Date := instant / microsecondsPerDay

theorem dateOf_zero : 0 = dateOf 0 := rfl

/-- A row of a view table or of a staging table. The join-key columns and the
feature columns are grouped; `event_id` is nullable in batch output. -/
structure OfflineRow where
  entityValues : Dict
  eventTimestamp : Instant
  eventId : Option String
  values : Dict
  eventDate : Date
  eventDate_eq : eventDate = dateOf eventTimestamp
deriving Repr

/-- A row with the date of its timestamp. -/
abbrev OfflineRow.dated (entityValues : Dict) (eventTimestamp : Instant) (eventId : Option String)
    (values : Dict) : OfflineRow :=
  ⟨entityValues, eventTimestamp, eventId, values, dateOf eventTimestamp, rfl⟩

/-- `str(row["event_id"])`. -/
def OfflineRow.idText (row : OfflineRow) : String := row.eventId.getD "None"

structure DeltaTable where
  rows : List OfflineRow
  version : Nat
deriving Repr

namespace OfflineStore

/-- The rows at a location; the callers load only what exists. -/
def load (location : Option DeltaTable) : List OfflineRow :=
  (location.map (·.rows)).getD []

/-- `OfflineStore.load_range` on the event timestamp. -/
def loadRange (location : Option DeltaTable) (start : Option Instant) (endAt : Instant) :
    List OfflineRow :=
  (load location).filter fun row =>
    start.all (fun start => decide (start ≤ row.eventTimestamp)) &&
      decide (row.eventTimestamp < endAt)

/-- The version that a write commits. -/
def nextVersion (location : Option DeltaTable) : Nat :=
  (location.map fun table => table.version + 1).getD 0

/-- `OfflineStore.append`, which creates the table if there is none. -/
def append (location : Option DeltaTable) (rows : List OfflineRow) : DeltaTable :=
  ⟨load location ++ rows, nextVersion location⟩

/-- `OfflineStore.overwrite_partition` with the predicate `event_date = date`. -/
def overwritePartition (location : Option DeltaTable) (rows : List OfflineRow) (date : Date) :
    DeltaTable :=
  ⟨(load location).filter (fun row => decide (row.eventDate ≠ date)) ++ rows,
    nextVersion location⟩

@[simp] theorem load_none : load none = [] := rfl

@[simp] theorem load_some (table : DeltaTable) : load (some table) = table.rows := rfl

@[simp] theorem append_rows (location : Option DeltaTable) (rows : List OfflineRow) :
    (append location rows).rows = load location ++ rows := rfl

@[simp] theorem mem_overwritePartition {location : Option DeltaTable} {rows : List OfflineRow}
    {date : Date} {row : OfflineRow} :
    row ∈ (overwritePartition location rows date).rows ↔
      row ∈ load location ∧ row.eventDate ≠ date ∨ row ∈ rows := by
  simp [overwritePartition]

theorem mem_loadRange {location : Option DeltaTable} {start : Option Instant}
    {endAt : Instant} {row : OfflineRow} :
    row ∈ loadRange location start endAt ↔
      row ∈ load location ∧ (∀ s, start = some s → s ≤ row.eventTimestamp) ∧
        row.eventTimestamp < endAt := by
  cases start <;> simp [loadRange]

end OfflineStore

end FeatureStore
