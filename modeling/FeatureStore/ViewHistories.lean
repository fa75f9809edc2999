import FeatureStore.BackfillResume
import FeatureStore.CursorChunks

/-!
# The rows of a view after backfills and appends

The writes of one view one after the other: backfills, with all their attempts, and appends. At
each point of time the table holds what the last backfill over it has committed, and the rows
that were appended since.
-/

namespace FeatureStore

open Relational Tiling

/-- The rows of a table at a time. -/
def rowsAt (table : Option DeltaTable) (time : Instant) : List OfflineRow :=
  (OfflineStore.load table).filter fun row => decide (row.eventTimestamp = time)

/-- Whether a time is in the chunk of a pass. -/
def ChunkPass.spans (pass : ChunkPass) (time : Instant) : Bool :=
  decide (pass.cursor ≤ time) && decide (time < pass.chunkEnd)

/-- A backfill, and all that happens until the next write of the view. -/
structure BackfillRun where
  backfill : BackfillJob
  actions : List BackfillAction

namespace BackfillRun

variable (run : BackfillRun)

def final : BackfillWorld := run.backfill.run run.actions

/-- Whether a time is in the range of the backfill. -/
def covers (time : Instant) : Bool :=
  decide (run.backfill.request.start ≤ time) && decide (time < run.backfill.request.endAt)

def Succeeded : Prop := ∃ job, run.final.db.jobs.find? run.backfill.job.id = some job ∧
  job.status = .succeeded

/-- The pass that has been committed for a time. -/
def passAt (time : Instant) : Option ChunkPass :=
  run.final.committed.find? fun pass => pass.spans time

/-- The rows at a time that the policy keeps of the output committed for it. -/
def rowsAt (time : Instant) : List OfflineRow :=
  ((run.passAt time).elim [] fun pass =>
    pass.policyRows run.backfill.deployment run.backfill.plan.policy).filter fun row =>
      decide (row.eventTimestamp = time)

end BackfillRun

/-- A write of a view: a backfill, or the append of an append job. -/
inductive ViewWrite
  | append (rows : List OfflineRow)
  | backfill (run : BackfillRun)

/-- The writes lead from one table to another, each on what the one before has left. -/
inductive ViewHistory : Option DeltaTable → List ViewWrite → Option DeltaTable → Prop
  | nil (table : Option DeltaTable) : ViewHistory table [] table
  | append {table last : Option DeltaTable} {writes : List ViewWrite} (rows : List OfflineRow)
      (rest : ViewHistory (some (OfflineStore.append table rows)) writes last) :
      ViewHistory table (.append rows :: writes) last
  | backfill {last : Option DeltaTable} {writes : List ViewWrite} (run : BackfillRun)
      (rest : ViewHistory run.final.view writes last) :
      ViewHistory run.backfill.initial (.backfill run :: writes) last

/-- The rows at a time, by the writes: a backfill over it replaces them, an append adds to
them. -/
def expectedAt (time : Instant) : List OfflineRow → List ViewWrite → List OfflineRow
  | rows, [] => rows
  | rows, .append new :: writes =>
      expectedAt time (rows ++ new.filter fun row => decide (row.eventTimestamp = time)) writes
  | rows, .backfill run :: writes =>
      expectedAt time (if run.covers time then run.rowsAt time else rows) writes

section Chunks

variable {s : BackfillJob} {committed : List ChunkPass} {time : Instant}

/-- A time in a range is in the chunk of one of its days. -/
theorem mem_chunk_of_range {start endAt : Instant} (h : start < endAt) (hstart : start ≤ time)
    (hend : time < endAt) : ∃ i < dayCount start endAt,
      boundary start endAt i ≤ time ∧ time < boundary start endAt (i + 1) := by
  have htiles := daysFrom_tiles h (Nat.zero_add (dayCount start endAt))
  rw [boundary_zero h, boundary_dayCount h] at htiles
  obtain ⟨span, hspan, hlower, hupper⟩ := htiles.cover.mpr ⟨hstart, hend⟩
  obtain ⟨chunk, hchunk, rfl⟩ := List.mem_map.mp hspan
  obtain ⟨i, -, hi, rfl⟩ := mem_daysFrom hchunk
  exact ⟨i, by omega, hlower, hupper⟩

/-- A chain that has reached the end of the range has a pass for each time in it. -/
theorem BackfillJob.Chained.spans (h : s.Chained committed)
    (hreached : s.plan.endAt ≤ s.reached committed) (hstart : s.plan.start ≤ time)
    (hend : time < s.plan.endAt) : ∃ pass ∈ committed, pass.spans time = true := by
  obtain ⟨i, hi, hlower, hupper⟩ := mem_chunk_of_range BackfillJob.start_lt hstart hend
  have hcursor : boundary s.plan.start s.plan.endAt i ∈ committed.map (·.cursor) := by
    rw [h.complete hreached]
    exact List.mem_map_of_mem (List.mem_range.mpr hi)
  obtain ⟨pass, hpass, hcursor⟩ := List.mem_map.mp hcursor
  have hchunkEnd : pass.chunkEnd = boundary s.plan.start s.plan.endAt (i + 1) := by
    rw [ChunkSlot.chunkEnd, hcursor, (h.passes pass hpass).plan]
    exact chunkEnd_boundary ((boundary_lt_iff BackfillJob.start_lt i).mpr hi)
  refine ⟨pass, hpass, ?_⟩
  rw [ChunkPass.spans, hcursor, hchunkEnd, decide_eq_true hlower, decide_eq_true hupper]
  rfl

end Chunks

namespace BackfillRun

variable {run : BackfillRun} {time : Instant}

/-- A backfill that has succeeded has committed a chunk for each time that it covers. -/
theorem Succeeded.passAt (h : run.Succeeded) (hcovers : run.covers time = true) :
    ∃ pass ∈ run.final.committed, pass.spans time = true := by
  obtain ⟨job, hjob, hstatus⟩ := h
  have hsound := run.backfill.run_sound run.actions
  obtain ⟨row, hrow, hrowSound⟩ := hsound.row
  obtain rfl := Option.some.inj (hrow.symm.trans hjob)
  rw [covers, Bool.and_eq_true, decide_eq_true_eq, decide_eq_true_eq,
    ← BackfillJob.plan_range.1, ← BackfillJob.plan_range.2] at hcovers
  exact hsound.chained.spans (hrowSound.succeeded hstatus).1 hcovers.1 hcovers.2

/-- The rows of the view at a time whose chunk has been committed. -/
theorem rowsAt_of_committed
    (h : ∃ pass ∈ run.final.committed, pass.spans time = true) :
    (FeatureStore.rowsAt run.final.view time).Perm (run.rowsAt time) := by
  have hsound := run.backfill.run_sound run.actions
  obtain ⟨pass, hpass⟩ : ∃ pass, run.passAt time = some pass :=
    Option.isSome_iff_exists.mp (List.find?_isSome.mpr h)
  have hfound : run.final.committed.find? (fun pass => pass.spans time) = some pass := hpass
  have hcommitted := List.mem_of_find?_eq_some hfound
  have hspans := List.find?_some hfound
  have hrows := hsound.view.chunks pass hcommitted
  rw [← ChunkPass.inChunk_eq, ChunkPass.kept_eq, (hsound.chained.passes pass hcommitted).plan]
    at hrows
  have hwithin : (FeatureStore.rowsAt run.final.view time) =
      ((OfflineStore.load run.final.view).filter pass.inChunk).filter fun row =>
        decide (row.eventTimestamp = time) := by
    rw [FeatureStore.rowsAt, List.filter_filter]
    refine List.filter_congr fun row _ => ?_
    by_cases hrow : row.eventTimestamp = time
    · subst hrow
      rw [decide_eq_true rfl, Bool.true_and]
      exact hspans.symm
    · rw [decide_eq_false hrow, Bool.false_and]
  rw [hwithin, rowsAt, hpass]
  exact hrows.filter _

/-- A backfill keeps the rows at the times that it does not cover. -/
theorem rowsAt_of_not_covers (h : run.covers time = false) :
    (FeatureStore.rowsAt run.final.view time).Perm
      (FeatureStore.rowsAt run.backfill.initial time) := by
  have hsound := run.backfill.run_sound run.actions
  have houtside : ∀ table : Option DeltaTable, FeatureStore.rowsAt table time =
      ((OfflineStore.load table).filter run.backfill.outside).filter fun row =>
        decide (row.eventTimestamp = time) := by
    intro table
    rw [FeatureStore.rowsAt, List.filter_filter]
    refine List.filter_congr fun row _ => ?_
    by_cases hrow : row.eventTimestamp = time
    · subst hrow
      rw [covers, Bool.and_eq_false_iff, decide_eq_false_iff_not, decide_eq_false_iff_not,
        not_le, not_lt] at h
      rw [decide_eq_true rfl, Bool.true_and, BackfillJob.outside, BackfillJob.plan_range.1,
        BackfillJob.plan_range.2, eq_comm, Bool.or_eq_true, decide_eq_true_eq, decide_eq_true_eq]
      exact h
    · rw [decide_eq_false hrow, Bool.false_and]
  rw [houtside, houtside]
  exact hsound.view.outside.filter _

end BackfillRun

theorem rowsAt_append (table : Option DeltaTable) (rows : List OfflineRow) (time : Instant) :
    rowsAt (some (OfflineStore.append table rows)) time =
      rowsAt table time ++ rows.filter fun row => decide (row.eventTimestamp = time) := by
  rw [rowsAt, OfflineStore.load_some, OfflineStore.append_rows, List.filter_append]
  rfl

theorem expectedAt_perm {time : Instant} {rows rows' : List OfflineRow} (h : rows.Perm rows')
    (writes : List ViewWrite) :
    (expectedAt time rows writes).Perm (expectedAt time rows' writes) := by
  induction writes generalizing rows rows' with
  | nil => exact h
  | cons write writes ih =>
      cases write with
      | append new => exact ih (h.append_right _)
      | backfill run =>
          rw [expectedAt, expectedAt]
          split
          · exact .refl _
          · exact ih h

/-- However backfills and appends of a view follow each other, and however many attempts the
backfills take, at each time the view holds what the last backfill over it has committed, followed
by what has been appended since, where the backfills over it have succeeded or have committed its
chunk. -/
theorem last_backfill_stands {table last : Option DeltaTable} {writes : List ViewWrite}
    (h : ViewHistory table writes last) (time : Instant)
    (hcommitted : ∀ run, ViewWrite.backfill run ∈ writes → run.covers time = true →
      run.Succeeded ∨ (run.passAt time).isSome = true) :
    (rowsAt last time).Perm (expectedAt time (rowsAt table time) writes) := by
  induction h with
  | nil table => exact .refl _
  | append rows rest ih =>
      rw [expectedAt, ← rowsAt_append]
      exact ih fun run hrun => hcommitted run (List.mem_cons_of_mem _ hrun)
  | backfill run rest ih =>
      have hlater := ih fun other hother => hcommitted other (List.mem_cons_of_mem _ hother)
      refine hlater.trans (expectedAt_perm ?_ _)
      split
      · rename_i hcovers
        refine BackfillRun.rowsAt_of_committed ?_
        rcases hcommitted run List.mem_cons_self hcovers with hsucceeded | hpass
        · exact hsucceeded.passAt hcovers
        · exact List.find?_isSome.mp hpass
      · rename_i hcovers
        exact BackfillRun.rowsAt_of_not_covers (Bool.not_eq_true _ ▸ hcovers)

/-- The backfill whose second attempt finds another reading. -/
def sensorRun : BackfillRun :=
  ⟨sensorBackfill, sensorActions (reading (.str "e1") (.int 3)) (reading (.str "e2") (.int 5))⟩

/-- A reading that the stream has brought. -/
def streamedReading : OfflineRow :=
  .dated [("sensor_id", .str "s1")] 60000000 (some "e3") [("level", .int 8)]

/-- The reading that was committed is followed by the one that was appended. -/
theorem last_backfill_stands_of_sensor :
    ∃ last, ViewHistory none [.backfill sensorRun, .append [streamedReading]] last ∧
      ((rowsAt last 60000000).map (·.eventId)).Perm [some "e2", some "e3"] := by
  have hhistory := ViewHistory.backfill sensorRun
    (.append [streamedReading] (.nil (some (OfflineStore.append sensorRun.final.view _))))
  have hpass : (sensorRun.passAt 60000000).isSome = true := by decide +kernel
  have hexpected : (expectedAt 60000000 (rowsAt none 60000000)
      [.backfill sensorRun, .append [streamedReading]]).map (·.eventId) =
        [some "e2", some "e3"] := by
    decide +kernel
  refine ⟨_, hhistory, ?_⟩
  rw [← hexpected]
  refine (last_backfill_stands hhistory 60000000 fun run hrun _ => Or.inr ?_).map _
  rcases List.mem_cons.mp hrun with hrun | hrun
  · cases hrun
    exact hpass
  · cases List.mem_singleton.mp hrun

end FeatureStore
