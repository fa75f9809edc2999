import FeatureStore.OfflineStore

/-!
# Backfill chunks

One iteration of the loop in `JobExecutor._backfill`: the rows of the chunk
replace those in its range, within the partition of the chunk's date. The
partition is read, filtered and written back, in two separate accesses.
-/

namespace FeatureStore

/-- `(cursor + timedelta(days=1)).replace(hour=0, minute=0, second=0, microsecond=0)`. -/
def nextMidnight (cursor : Instant) : Instant := (dateOf cursor + 1) * microsecondsPerDay

/-- `chunk_end`, with its fallback. -/
def chunkEnd (cursor endAt : Instant) : Instant :=
  if min endAt (nextMidnight cursor) ≤ cursor then min endAt (cursor + microsecondsPerDay)
  else min endAt (nextMidnight cursor)

/-- A chunk that is about to be written. The output of the batch SQL has been
filtered to the range and validated. -/
structure BackfillChunk where
  cursor : Instant
  endAt : Instant
  output : List OfflineRow
  cursor_lt : cursor < endAt
  output_range : ∀ row ∈ output,
    cursor ≤ row.eventTimestamp ∧ row.eventTimestamp < chunkEnd cursor endAt

namespace BackfillChunk

variable (chunk : BackfillChunk)

/-- `cursor.date()`. -/
def date : Date := dateOf chunk.cursor

/-- The `outside_range` mask. -/
def outsideRange (row : OfflineRow) : Bool :=
  decide (row.eventTimestamp < chunk.cursor) ||
    decide (chunkEnd chunk.cursor chunk.endAt ≤ row.eventTimestamp)

/-- The rows of the loaded table that the replacement keeps. -/
def preserved (existing : DeltaTable) : List OfflineRow :=
  existing.rows.filter fun row =>
    decide (row.eventDate = chunk.date) && chunk.outsideRange row

/-- `replacement`. -/
def replacement (existing : DeltaTable) : List OfflineRow :=
  chunk.preserved existing ++ chunk.output

/-- The access to the target that a chunk makes next. -/
inductive Stage
  | loading
  | overwriting (existing : DeltaTable)
  | creating
  | written

/-- The next access to the target: `exists` and `load`, and then the write. -/
def advance (table : Option DeltaTable) : Stage → Option DeltaTable × Stage
  | .loading =>
      match table with
      | some existing => (table, .overwriting existing)
      | none => (table, .creating)
  | .overwriting existing =>
      (some (OfflineStore.overwritePartition table (chunk.replacement existing) chunk.date),
        .written)
  | .creating =>
      if chunk.output.isEmpty then (table, .written)
      else (some (OfflineStore.append table chunk.output), .written)
  | .written => (table, .written)

variable {chunk}

theorem mem_preserved {existing : DeltaTable} {row : OfflineRow} :
    row ∈ chunk.preserved existing ↔ row ∈ existing.rows ∧ row.eventDate = chunk.date ∧
      chunk.outsideRange row = true := by
  simp [preserved]

theorem outsideRange_of_output {row : OfflineRow} (h : row ∈ chunk.output) :
    chunk.outsideRange row = false := by
  obtain ⟨hstart, hend⟩ := chunk.output_range row h
  simp only [outsideRange, Bool.or_eq_false_iff, decide_eq_false_iff_not]
  exact ⟨Int.not_lt.mpr hstart, Int.not_le.mpr hend⟩

/-- The rows outside the range of the chunk after its overwrite: those of other
dates in the current table, and those of its date in the table it loaded. -/
theorem mem_overwrite {table : Option DeltaTable} {existing : DeltaTable} {row : OfflineRow}
    (houtside : chunk.outsideRange row = true) :
    row ∈ (OfflineStore.overwritePartition table (chunk.replacement existing)
        chunk.date).rows ↔
      row ∈ OfflineStore.load table ∧ row.eventDate ≠ chunk.date ∨
        row ∈ existing.rows ∧ row.eventDate = chunk.date := by
  have hoother : row ∉ chunk.output := by
    intro hrow
    rw [outsideRange_of_output hrow] at houtside
    cases houtside
  simp [replacement, mem_preserved, houtside, hoother]

end BackfillChunk

end FeatureStore
