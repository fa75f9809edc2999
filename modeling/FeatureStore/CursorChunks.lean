import FeatureStore.BackfillProgress
import FeatureStore.DateTimeText
import FeatureStore.Library.Tiling

/-!
# The cursor loop of a backfill

The loop of `JobExecutor._backfill` without the work on its chunks. Adding a day overflows on
the last day of the calendar; before it the loop ends after one round for each day that the
range touches, and its chunks tile the range.
-/

namespace FeatureStore

open FixedWidth Tiling

/-- One iteration of the loop: its cursor, and where its chunk ends. -/
structure CursorChunk where
  cursor : Instant
  chunkEnd : Instant
  fellBack : Bool
deriving DecidableEq, Repr

/-- `cursor + timedelta(days=1)` -/
def nextDay (cursor : Instant) : Except PyException Instant :=
  if cursor + microsecondsPerDay < endInstant then .ok (cursor + microsecondsPerDay)
  else .error ⟨.runtime, "date value out of range"⟩

/-- `instant.replace(hour=0, minute=0, second=0, microsecond=0)` -/
def midnightOf (instant : Instant) : Instant := dateOf instant * microsecondsPerDay

/-- `chunk_end`, and whether the fallback gave it. -/
def chunkAt (endAt cursor : Instant) : Except PyException CursorChunk := do
  let nextMidnight := midnightOf (← nextDay cursor)
  if min endAt nextMidnight ≤ cursor then
    return ⟨cursor, min endAt (← nextDay cursor), true⟩
  return ⟨cursor, min endAt nextMidnight, false⟩

/-- `while cursor < end`, for a number of rounds; there is no result when it is not over. -/
def cursorLoop (endAt : Instant) :
    Nat → Instant → Except PyException (Option (List CursorChunk))
  | 0, _ => return none
  | rounds + 1, cursor => do
      if cursor < endAt then
        let chunk ← chunkAt endAt cursor
        return (← cursorLoop endAt rounds chunk.chunkEnd).map (chunk :: ·)
      return some []

namespace CursorChunk

variable (chunk : CursorChunk)

/-- `checkpoint`: `cursor.isoformat()`, which leaves out a zero fraction. -/
def checkpoint : String :=
  let civil := civilOf chunk.cursor
  String.ofList (render (dateTemplate 'T') civil.fields ++
    ((if civil.microsecond = 0 then [] else render [⟨['.'], 6⟩] [civil.microsecond]) ++
      "+00:00".toList))

def span : Instant × Instant := (chunk.cursor, chunk.chunkEnd)

/-- The fields of a checkpoint, with a zero fraction written out, are those of the cursor. -/
theorem checkpoint_fields (chunk : CursorChunk) :
    isoMicroseconds chunk.cursor = String.ofList
      (render (dateTemplate 'T') (civilOf chunk.cursor).fields ++
        (render [⟨['.'], 6⟩] [(civilOf chunk.cursor).microsecond] ++ "+00:00".toList)) := by
  simp [isoMicroseconds, dateTemplate, render, Calendar.Civil.fields]

/-- A fraction can be read off the text, whether it is written or not. -/
theorem fraction_inj {a b : Nat} (ha : a < 1000000) (hb : b < 1000000) {suffix : List Char}
    (h : (if a = 0 then [] else render [⟨['.'], 6⟩] [a]) ++ suffix =
      (if b = 0 then [] else render [⟨['.'], 6⟩] [b]) ++ suffix) : a = b := by
  have hfraction := List.append_cancel_right h
  by_cases hza : a = 0
  · by_cases hzb : b = 0
    · rw [hza, hzb]
    · rw [if_pos hza, if_neg hzb] at hfraction
      cases hfraction
  · by_cases hzb : b = 0
    · rw [if_neg hza, if_pos hzb] at hfraction
      cases hfraction
    · rw [if_neg hza, if_neg hzb] at hfraction
      have hdigits := List.append_cancel_left hfraction
      simp only [render, List.append_nil] at hdigits
      exact digits_inj ha hb hdigits

/-- Cursors of different chunks have different checkpoints. -/
theorem checkpoint_inj {chunk other : CursorChunk}
    (hchunk : Instant.IsRepresentable chunk.cursor)
    (hother : Instant.IsRepresentable other.cursor)
    (h : chunk.checkpoint = other.checkpoint) : chunk.cursor = other.cursor := by
  obtain ⟨hdate, hfraction⟩ := List.append_inj (String.ofList_injective h) (by
    simp [dateTemplate, render, Calendar.Civil.fields])
  have hmicro : (civilOf chunk.cursor).microsecond = (civilOf other.cursor).microsecond :=
    fraction_inj (Calendar.civil_bounds _).2.2.2.2.2 (Calendar.civil_bounds _).2.2.2.2.2 hfraction
  have htext : isoMicroseconds chunk.cursor = isoMicroseconds other.cursor := by
    rw [chunk.checkpoint_fields, other.checkpoint_fields, hdate, hmicro]
  rcases lt_trichotomy chunk.cursor other.cursor with hlt | heq | hgt
  · exact absurd htext (isoMicroseconds_lt hchunk hother hlt).ne
  · exact heq
  · exact absurd htext (isoMicroseconds_lt hother hchunk hgt).ne'

end CursorChunk

section Loop

variable {start endAt cursor : Instant}

/-- The range of a backfill, before the last day of the calendar. -/
structure CalendarRange (start endAt : Instant) : Prop where
  start_le : minInstant ≤ start
  lt : start < endAt
  end_lt : dateOf endAt < dateOf (endInstant - 1)

/-- The next day of a cursor before the last day exists. -/
theorem nextDay_ok (h : dateOf cursor < dateOf (endInstant - 1)) :
    nextDay cursor = .ok (cursor + microsecondsPerDay) := by
  apply if_pos
  simp only [dateOf, microsecondsPerDay, endInstant, Instant, Date] at *
  omega

theorem midnightOf_nextDay (cursor : Instant) :
    midnightOf (cursor + microsecondsPerDay) = nextMidnight cursor := by
  simp only [midnightOf, nextMidnight, dateOf, microsecondsPerDay, Instant, Date]
  omega

/-- The end of the range and the next midnight lie behind the cursor. -/
theorem lt_chunkEnd (h : cursor < endAt) : cursor < min endAt (nextMidnight cursor) := by
  simp only [nextMidnight, dateOf, microsecondsPerDay, Instant, Date] at *
  omega

theorem chunkEnd_eq (h : cursor < endAt) :
    chunkEnd cursor endAt = min endAt (nextMidnight cursor) :=
  if_neg (not_le.mpr (lt_chunkEnd h))

/-- An iteration before the last day does not fall back. -/
theorem chunkAt_ok (h : cursor < endAt) (hend : dateOf endAt < dateOf (endInstant - 1)) :
    chunkAt endAt cursor = .ok ⟨cursor, chunkEnd cursor endAt, false⟩ := by
  have hcursor : dateOf cursor < dateOf (endInstant - 1) := by
    simp only [dateOf, microsecondsPerDay, Instant, Date] at *
    omega
  have hlt := not_le.mpr (lt_chunkEnd h)
  simp only [chunkAt, nextDay_ok hcursor, bind, Except.bind, midnightOf_nextDay]
  rw [if_neg hlt, chunkEnd_eq h]
  rfl

/-- The chunks of the days of a range, from a day on. -/
def daysFrom (start endAt : Instant) : Nat → Nat → List CursorChunk
  | 0, _ => []
  | days + 1, i =>
      ⟨boundary start endAt i, boundary start endAt (i + 1), false⟩ ::
        daysFrom start endAt days (i + 1)

/-- The loop goes from one day to the next one. -/
theorem cursorLoop_daysFrom (h : CalendarRange start endAt) {days i rounds : Nat}
    (hdays : i + days = dayCount start endAt) (hrounds : days < rounds) :
    cursorLoop endAt rounds (boundary start endAt i) =
      .ok (some (daysFrom start endAt days i)) := by
  induction days generalizing i rounds with
  | zero =>
      obtain ⟨rounds, rfl⟩ := Nat.exists_eq_succ_of_ne_zero (Nat.ne_of_gt hrounds)
      have hover : ¬boundary start endAt i < endAt := by
        rw [boundary_lt_iff h.lt]
        omega
      simp only [cursorLoop, if_neg hover]
      rfl
  | succ days ih =>
      obtain ⟨rounds, rfl⟩ :=
        Nat.exists_eq_succ_of_ne_zero (Nat.ne_of_gt (Nat.zero_lt_of_lt hrounds))
      have hbefore : boundary start endAt i < endAt := (boundary_lt_iff h.lt i).mpr (by omega)
      have hrest := @ih (i + 1) rounds (by omega) (by omega)
      simp only [cursorLoop, if_pos hbefore, chunkAt_ok hbefore h.end_lt, bind, Except.bind,
        chunkEnd_boundary hbefore, hrest]
      rfl

theorem daysFrom_tiles (h : start < endAt) {days i : Nat}
    (hdays : i + days = dayCount start endAt) :
    Tiles (boundary start endAt i) ((daysFrom start endAt days i).map CursorChunk.span)
      (boundary start endAt (dayCount start endAt)) := by
  induction days generalizing i with
  | zero =>
      obtain rfl : i = dayCount start endAt := hdays
      exact .nil _
  | succ days ih =>
      have hbefore : boundary start endAt i < endAt := (boundary_lt_iff h i).mpr (by omega)
      exact .cons (boundary_lt_succ hbefore) (ih (by omega))

theorem boundary_dayCount (h : start < endAt) :
    boundary start endAt (dayCount start endAt) = endAt := by
  have hnot := (boundary_lt_iff h (dayCount start endAt)).not.mpr (Nat.lt_irrefl _)
  simp only [boundary, Instant] at *
  omega

/-- The chunk of a day, and the cursor of the day after it. -/
theorem mem_daysFrom {chunk : CursorChunk} {days i : Nat}
    (hmem : chunk ∈ daysFrom start endAt days i) :
    ∃ j, i ≤ j ∧ j < i + days ∧
      chunk = ⟨boundary start endAt j, boundary start endAt (j + 1), false⟩ := by
  induction days generalizing i with
  | zero => cases hmem
  | succ days ih =>
      rcases List.mem_cons.mp hmem with rfl | hrest
      · exact ⟨i, le_rfl, by omega, rfl⟩
      · obtain ⟨j, hfrom, hbelow, hchunk⟩ := ih hrest
        exact ⟨j, by omega, by omega, hchunk⟩

theorem daysFrom_cursors (days i : Nat) :
    (daysFrom start endAt days i).map (·.cursor) =
      (List.range' i days).map (boundary start endAt) := by
  induction days generalizing i with
  | zero => rfl
  | succ days ih => rw [daysFrom, List.map_cons, ih, List.range'_succ, List.map_cons]

/-- What the loop makes of a range: its chunks tile it, each in one day and none by the fallback. -/
structure IsChunking (start endAt : Instant) (chunks : List CursorChunk) : Prop where
  nonempty : ∀ chunk ∈ chunks, chunk.cursor < chunk.chunkEnd
  consecutive : Tiles start (chunks.map CursorChunk.span) endAt
  disjoint : chunks.Pairwise fun earlier later =>
    Disjoint (Set.Ico earlier.cursor earlier.chunkEnd) (Set.Ico later.cursor later.chunkEnd)
  cover : ∀ time, (∃ chunk ∈ chunks, time ∈ Set.Ico chunk.cursor chunk.chunkEnd) ↔
    time ∈ Set.Ico start endAt
  oneDate : ∀ chunk ∈ chunks, ∀ time ∈ Set.Ico chunk.cursor chunk.chunkEnd,
    dateOf time = dateOf chunk.cursor
  checkpoints : (chunks.map CursorChunk.checkpoint).Nodup
  regular : ∀ chunk ∈ chunks, chunk.fellBack = false

theorem mem_range_representable (h : CalendarRange start endAt) {time : Instant}
    (htime : time ∈ Set.Ico start endAt) : Instant.IsRepresentable time := by
  refine ⟨h.start_le.trans htime.1, ?_⟩
  have hend := h.end_lt
  have hbefore := htime.2
  simp only [dateOf, microsecondsPerDay, endInstant, Instant, Date] at *
  omega

/-- A tiling with chunks of single days that were not fallen back to is a chunking. -/
theorem isChunking_of_tiles {chunks : List CursorChunk} (hrange : CalendarRange start endAt)
    (h : Tiles start (chunks.map CursorChunk.span) endAt)
    (hdate : ∀ chunk ∈ chunks, ∀ time ∈ Set.Ico chunk.cursor chunk.chunkEnd,
      dateOf time = dateOf chunk.cursor)
    (hregular : ∀ chunk ∈ chunks, chunk.fellBack = false) : IsChunking start endAt chunks := by
  have hcover : ∀ time, (∃ chunk ∈ chunks, time ∈ Set.Ico chunk.cursor chunk.chunkEnd) ↔
      time ∈ Set.Ico start endAt := by
    intro time
    rw [← h.cover]
    simp only [List.mem_map, exists_exists_and_eq_and]
    rfl
  have hnonempty : ∀ chunk ∈ chunks, chunk.cursor < chunk.chunkEnd :=
    fun chunk hchunk => h.nonempty _ (List.mem_map_of_mem hchunk)
  have hrepresentable : ∀ chunk ∈ chunks, Instant.IsRepresentable chunk.cursor :=
    fun chunk hchunk => mem_range_representable hrange
      ((hcover _).mp ⟨chunk, hchunk, Set.left_mem_Ico.mpr (hnonempty chunk hchunk)⟩)
  have hstarts : (chunks.map (·.cursor)).Nodup := by
    have := h.nodup_starts
    rwa [List.map_map] at this
  have hdisjoint := h.disjoint
  rw [List.pairwise_map] at hdisjoint
  exact {
    nonempty := hnonempty
    consecutive := h
    disjoint := hdisjoint
    cover := hcover
    oneDate := hdate
    checkpoints := hstarts.of_map.map_on fun chunk hchunk other hother htext =>
      List.inj_on_of_nodup_map hstarts hchunk hother (CursorChunk.checkpoint_inj
        (hrepresentable chunk hchunk) (hrepresentable other hother) htext)
    regular := hregular }

/-- The loop over a range ends, and its chunks are a chunking of the range. -/
theorem cursorLoop_chunks (h : CalendarRange start endAt) :
    ∃ chunks, IsChunking start endAt chunks ∧
      ∀ rounds, dayCount start endAt < rounds →
        cursorLoop endAt rounds start = .ok (some chunks) := by
  refine ⟨daysFrom start endAt (dayCount start endAt) 0, ?_, fun rounds hrounds => ?_⟩
  · have htiles := daysFrom_tiles h.lt (Nat.zero_add (dayCount start endAt))
    rw [boundary_zero h.lt, boundary_dayCount h.lt] at htiles
    refine isChunking_of_tiles h htiles ?_ ?_
    · intro chunk hchunk time htime
      obtain ⟨j, -, hbelow, rfl⟩ := mem_daysFrom hchunk
      have hbefore := (boundary_lt_iff h.lt j).mpr (by omega)
      rw [← chunkEnd_boundary hbefore] at htime
      exact dateOf_of_chunk hbefore htime.1 htime.2
    · intro chunk hchunk
      obtain ⟨j, -, -, rfl⟩ := mem_daysFrom hchunk
      rfl
  · have hloop := cursorLoop_daysFrom h (i := 0) (Nat.zero_add _) hrounds
    rwa [boundary_zero h.lt] at hloop

/-- A range from the evening of a day into the next one. -/
theorem cursorLoop_two_days :
    ∃ chunks, IsChunking 1704229200000000 1704240000000001 chunks ∧
      ∀ rounds, 2 < rounds →
        cursorLoop 1704240000000001 rounds 1704229200000000 = .ok (some chunks) :=
  cursorLoop_chunks ⟨by decide, by decide, by decide⟩

/-- The chunks of the loop are those that the runs of a backfill commit. -/
theorem cursorLoop_cursors (h : CalendarRange start endAt) {rounds : Nat}
    (hrounds : dayCount start endAt < rounds) {chunks : List CursorChunk}
    (hloop : cursorLoop endAt rounds start = .ok (some chunks)) :
    chunks.map (·.cursor) = dayChunks start endAt := by
  have hdays := cursorLoop_daysFrom h (i := 0) (Nat.zero_add _) hrounds
  rw [boundary_zero h.lt, hloop] at hdays
  obtain rfl := Option.some.inj (Except.ok.inj hdays)
  rw [daysFrom_cursors, dayChunks, List.range_eq_range']

end Loop

end FeatureStore
