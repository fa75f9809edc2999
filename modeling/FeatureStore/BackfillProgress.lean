import FeatureStore.BackfillRuns
import FeatureStore.JobRows

/-!
# Progress of a backfill

The chunks of a range are the days that it touches, each cut off at the ends of the range. Every
reachable state has committed the first of them, in order and once each; the table of the view
holds what was written for these, and outside the range what it held before.
-/

namespace FeatureStore

open Relational

section Chunks

variable {start endAt : Instant}

/-- Where the chunk of the `i`-th day of a range begins, and that of the day before ends. -/
def boundary (start endAt : Instant) (i : Nat) : Instant :=
  max start (min endAt ((dateOf start + i) * microsecondsPerDay))

/-- The number of days that a range touches. -/
def dayCount (start endAt : Instant) : Nat :=
  (dateOf (endAt - 1) - dateOf start + 1).toNat

/-- The cursors of the chunks of a range. -/
def dayChunks (start endAt : Instant) : List Instant :=
  (List.range (dayCount start endAt)).map (boundary start endAt)

theorem boundary_zero (h : start < endAt) : boundary start endAt 0 = start := by
  simp only [boundary, dateOf, microsecondsPerDay, Instant] at *
  omega

theorem boundary_lt_iff (h : start < endAt) (i : Nat) :
    boundary start endAt i < endAt ↔ i < dayCount start endAt := by
  simp only [boundary, dayCount, dateOf, microsecondsPerDay, Instant] at *
  omega

theorem boundary_mono (i j : Nat) (h : i ≤ j) :
    boundary start endAt i ≤ boundary start endAt j := by
  simp only [boundary, dateOf, microsecondsPerDay, Instant] at *
  omega

theorem boundary_lt_succ {i : Nat} (hi : boundary start endAt i < endAt) :
    boundary start endAt i < boundary start endAt (i + 1) := by
  simp only [boundary, dateOf, microsecondsPerDay, Instant] at *
  omega

/-- A chunk ends where that of the next day begins. -/
theorem chunkEnd_boundary {i : Nat} (hi : boundary start endAt i < endAt) :
    chunkEnd (boundary start endAt i) endAt = boundary start endAt (i + 1) := by
  simp only [chunkEnd, nextMidnight, boundary, dateOf, microsecondsPerDay, Instant] at *
  omega

theorem dateOf_boundary {i : Nat} (hi : boundary start endAt i < endAt) :
    dateOf (boundary start endAt i) = dateOf start + i := by
  simp only [boundary, dateOf, microsecondsPerDay, Instant, Date] at hi ⊢
  omega

/-- A chunk lies in one day. -/
theorem dateOf_of_chunk {cursor time : Instant} (h : cursor < endAt) (hlower : cursor ≤ time)
    (hupper : time < chunkEnd cursor endAt) : dateOf time = dateOf cursor := by
  simp only [chunkEnd, nextMidnight, dateOf, microsecondsPerDay, Instant, Date] at *
  omega

end Chunks

section Access

variable {chunk : BackfillChunk} {existing : DeltaTable} {P : OfflineRow → Bool}

/-- A row in the range of a chunk lies in the partition of its date. -/
theorem eventDate_of_inside {row : OfflineRow} (h : chunk.outsideRange row = false) :
    row.eventDate = chunk.date := by
  obtain ⟨hstart, hend⟩ := Bool.or_eq_false_iff.mp h
  rw [row.eventDate_eq, BackfillChunk.date]
  exact dateOf_of_chunk chunk.cursor_lt (Int.not_lt.mp (of_decide_eq_false hstart))
    (Int.not_le.mp (of_decide_eq_false hend))

theorem output_outside (hP : ∀ row, P row = true → chunk.outsideRange row = true) :
    chunk.output.filter P = [] := by
  rw [List.filter_eq_nil_iff]
  intro row hrow hrowP
  have houtside := hP row hrowP
  rw [BackfillChunk.outsideRange_of_output hrow] at houtside
  cases houtside

/-- An overwrite keeps the rows outside the range of its chunk. -/
theorem overwrite_outside (hP : ∀ row, P row = true → chunk.outsideRange row = true) :
    ((OfflineStore.overwritePartition (some existing) (chunk.replacement existing)
      chunk.date).rows.filter P).Perm (existing.rows.filter P) := by
  have hkept : (existing.rows.filter fun row => decide (row.eventDate = chunk.date) &&
      chunk.outsideRange row).filter P =
        (existing.rows.filter P).filter fun row => decide (row.eventDate = chunk.date) := by
    rw [List.filter_filter, List.filter_filter]
    apply List.filter_congr
    intro row hrow
    cases hrowP : P row with
    | false => simp
    | true => simp [hP row hrowP]
  have hother : (existing.rows.filter fun row => decide (row.eventDate ≠ chunk.date)).filter P =
      (existing.rows.filter P).filter fun row => !decide (row.eventDate = chunk.date) := by
    rw [List.filter_filter, List.filter_filter]
    exact List.filter_congr fun row hrow => by rw [decide_not, Bool.and_comm]
  rw [OfflineStore.overwritePartition, BackfillChunk.replacement, BackfillChunk.preserved,
    OfflineStore.load_some, List.filter_append, List.filter_append, output_outside hP,
    List.append_nil, hkept, hother]
  exact List.perm_append_comm.trans (List.filter_append_perm _ _)

theorem filter_output (chunk : BackfillChunk) :
    chunk.output.filter (fun row => !chunk.outsideRange row) = chunk.output := by
  rw [List.filter_eq_self]
  intro row hrow
  rw [BackfillChunk.outsideRange_of_output hrow]
  rfl

/-- An overwrite leaves the output of its chunk in the range. -/
theorem overwrite_inside :
    (OfflineStore.overwritePartition (some existing) (chunk.replacement existing)
      chunk.date).rows.filter (fun row => !chunk.outsideRange row) = chunk.output := by
  have hother : (existing.rows.filter fun row => decide (row.eventDate ≠ chunk.date)).filter
      (fun row => !chunk.outsideRange row) = [] := by
    rw [List.filter_eq_nil_iff]
    intro row hrow hinside
    have hdate := of_decide_eq_true (List.mem_filter.mp hrow).2
    exact hdate (eventDate_of_inside (Bool.not_eq_true' _ ▸ hinside))
  have hkept : (existing.rows.filter fun row => decide (row.eventDate = chunk.date) &&
      chunk.outsideRange row).filter (fun row => !chunk.outsideRange row) = [] := by
    rw [List.filter_eq_nil_iff]
    intro row hrow hinside
    have houtside := (Bool.and_eq_true_iff.mp (List.mem_filter.mp hrow).2).2
    rw [houtside] at hinside
    cases hinside
  rw [OfflineStore.overwritePartition, BackfillChunk.replacement, BackfillChunk.preserved,
    OfflineStore.load_some, List.filter_append, List.filter_append, hother, hkept,
    List.nil_append, List.nil_append]
  exact filter_output chunk

/-- What an attempt knows about the table of the view between two accesses to it. -/
def AccessSound (chunk : BackfillChunk) (view : Option DeltaTable) : BackfillChunk.Stage → Prop
  | .loading => True
  | .overwriting existing => view = some existing
  | .creating => view = none
  | .written => ((OfflineStore.load view).filter fun row => !chunk.outsideRange row) = chunk.output

/-- An access keeps the rows outside the range of its chunk; the last one leaves its output. -/
theorem access_sound {view view' : Option DeltaTable} {access next : BackfillChunk.Stage}
    (h : AccessSound chunk view access) (hmade : chunk.advance view access = (view', next)) :
    AccessSound chunk view' next ∧
      ∀ P : OfflineRow → Bool, (∀ row, P row = true → chunk.outsideRange row = true) →
        ((OfflineStore.load view').filter P).Perm ((OfflineStore.load view).filter P) := by
  cases access with
  | loading =>
      cases view with
      | none =>
          obtain ⟨rfl, rfl⟩ := Prod.mk.inj hmade
          exact ⟨rfl, fun P hP => .refl _⟩
      | some existing =>
          obtain ⟨rfl, rfl⟩ := Prod.mk.inj hmade
          exact ⟨rfl, fun P hP => .refl _⟩
  | overwriting existing =>
      obtain rfl : view = some existing := h
      obtain ⟨rfl, rfl⟩ := Prod.mk.inj hmade
      exact ⟨overwrite_inside, fun P hP => overwrite_outside hP⟩
  | creating =>
      obtain rfl : view = none := h
      rw [BackfillChunk.advance] at hmade
      split at hmade
      · rename_i hempty
        obtain ⟨rfl, rfl⟩ := Prod.mk.inj hmade
        exact ⟨(List.isEmpty_iff.mp hempty).symm, fun P hP => .refl _⟩
      · obtain ⟨rfl, rfl⟩ := Prod.mk.inj hmade
        refine ⟨filter_output chunk, fun P hP => ?_⟩
        rw [OfflineStore.load_some, OfflineStore.append_rows, OfflineStore.load_none,
          List.nil_append, output_outside hP, List.filter_nil]
  | written =>
      obtain ⟨rfl, rfl⟩ := Prod.mk.inj hmade
      exact ⟨h, fun P hP => .refl _⟩

end Access

section Rows

variable {settings : Settings} {db db' : Database} {job job' row : JobRecord} {token : Uuid}
variable {now : Instant}

/-- What a checkpoint writes, and to which row. -/
theorem commitCheckpoints_row {checkpoints : List Checkpoint}
    (h : commitCheckpoints db job token now checkpoints = (db', .ok job')) :
    ∃ row, db.jobs.find? job.id = some row ∧ db'.jobs.find? job.id = some job' ∧
      job' = { row with checkpoints := checkpoints } := by
  have hstored := commitCheckpoints_stored h
  unfold commitCheckpoints at h
  rcases lease_cases db.jobs job.id token now with
    ⟨row, hrow, -, hcount, hupdate⟩ | ⟨hcount, -⟩
  · rw [if_neg hcount, hupdate] at h
    obtain ⟨rfl, -⟩ := Prod.mk.inj h
    refine ⟨row, hrow, hstored, ?_⟩
    rw [Table.find?_modify_self, hrow, Option.map_some] at hstored
    exact (Option.some.inj hstored).symm
  · rw [if_pos hcount] at h
    cases (Prod.mk.inj h).2

/-- What the success of a backfill writes, and to which row. -/
theorem finalizeSuccess_row {resultMetadata : Option ResultMetadata} (hkind : job.kind = .backfill)
    (h : finalizeSuccess settings db job token now none resultMetadata = (db', .ok job')) :
    ∃ row, db.jobs.find? job.id = some row ∧
      db'.jobs.find? job.id =
        some ((setSucceeded settings job now none resultMetadata).set row) := by
  have hplain : job.incremental? = none := by
    rw [JobRecord.incremental?, hkind]
    rfl
  unfold finalizeSuccess at h
  rw [hplain, hkind] at h
  rcases lease_cases db.jobs job.id token now with
    ⟨row, hrow, -, hcount, hupdate⟩ | ⟨hcount, -⟩
  · rw [if_neg hcount, hupdate] at h
    obtain ⟨rfl, -⟩ := Prod.mk.inj h
    refine ⟨row, hrow, ?_⟩
    rw [if_neg nofun, Table.find?_modify_self, hrow, Option.map_some]
  · rw [if_pos hcount] at h
    cases (Prod.mk.inj h).2

/-- A failure writes to the row of its job or leaves it. -/
theorem finalizeFailure_row {exc : PyException} {error : String}
    {resultMetadata : Option ResultMetadata} (hrow : db.jobs.find? job.id = some row) :
    ∃ row', (finalizeFailure settings db job token now exc error resultMetadata).jobs.find?
        job.id = some row' ∧
      (row' = row ∨ row' = (setFailed settings job exc now error resultMetadata).set row) := by
  unfold finalizeFailure
  rcases lease_cases db.jobs job.id token now with
    ⟨owned, -, -, hcount, hupdate⟩ | ⟨hcount, -⟩
  · refine ⟨_, ?_, Or.inr rfl⟩
    have hmodified : (db.jobs.modify job.id
        (setFailed settings job exc now error resultMetadata)).find? job.id =
          some ((setFailed settings job exc now error resultMetadata).set row) := by
      rw [Table.find?_modify_self, hrow, Option.map_some]
    rw [if_neg hcount, hupdate]
    dsimp only
    split
    · exact hmodified
    · rw [releaseIncrementalReservation_jobs]
      exact hmodified
  · rw [if_pos hcount]
    exact ⟨row, hrow, Or.inl rfl⟩

end Rows

section Summaries

variable (d : BackfillDeployment) (policy : QualityPolicy)

/-- The summary after the chunks that have been committed. -/
def summaryOf (committed : List ChunkPass) : DataQualitySummary :=
  committed.foldl (fun summary pass => summary.add policy (pass.validation d))
    (emptySummary policy)

/-- The checkpoints of the chunks that have been committed after others. -/
def checkpointsFrom (summary : DataQualitySummary) : List ChunkPass → List Checkpoint
  | [] => []
  | pass :: rest =>
      let next := summary.add policy (pass.validation d)
      .backfill pass.cursor next :: checkpointsFrom next rest

def checkpointsOf (committed : List ChunkPass) : List Checkpoint :=
  checkpointsFrom d policy (emptySummary policy) committed

variable {d policy}

theorem checkpointsFrom_append (summary : DataQualitySummary) (committed : List ChunkPass)
    (pass : ChunkPass) :
    checkpointsFrom d policy summary (committed ++ [pass]) =
      checkpointsFrom d policy summary committed ++
        [.backfill pass.cursor ((committed.foldl
          (fun summary pass => summary.add policy (pass.validation d)) summary).add policy
            (pass.validation d))] := by
  induction committed generalizing summary with
  | nil => rfl
  | cons first rest ih =>
      rw [List.cons_append, checkpointsFrom, ih, checkpointsFrom, List.foldl_cons, List.cons_append]

theorem summaryOf_append (committed : List ChunkPass) (pass : ChunkPass) :
    summaryOf d policy (committed ++ [pass]) =
      (summaryOf d policy committed).add policy (pass.validation d) :=
  List.foldl_concat _ _ _ _

theorem checkpointsOf_append (committed : List ChunkPass) (pass : ChunkPass) :
    checkpointsOf d policy (committed ++ [pass]) =
      checkpointsOf d policy committed ++
        [.backfill pass.cursor (summaryOf d policy (committed ++ [pass]))] := by
  rw [summaryOf_append]
  exact checkpointsFrom_append _ _ _

/-- Resumption finds the summary of the committed chunks. -/
theorem qualitySummary_checkpointsOf (committed : List ChunkPass) :
    qualitySummary (checkpointsOf d policy committed) policy = summaryOf d policy committed := by
  induction committed using List.reverseRecOn with
  | nil => rfl
  | append_singleton earlier pass ih =>
      rw [checkpointsOf_append, qualitySummary, List.reverse_append, List.reverse_singleton,
        List.singleton_append, List.findSome?_cons, Option.getD_some]

/-- Resumption recognises the committed chunks. -/
theorem hasBackfillCheckpoint_checkpointsOf (committed : List ChunkPass) (cursor : Instant) :
    hasBackfillCheckpoint (checkpointsOf d policy committed) cursor = true ↔
      cursor ∈ committed.map (·.cursor) := by
  induction committed using List.reverseRecOn with
  | nil => simp [checkpointsOf, checkpointsFrom, hasBackfillCheckpoint]
  | append_singleton earlier pass ih =>
      rw [checkpointsOf_append, hasBackfillCheckpoint, List.any_append, Bool.or_eq_true,
        ← hasBackfillCheckpoint, ih, List.map_append, List.mem_append]
      simp [eq_comm]

end Summaries

theorem backfillPlan_range {store : RegistryStore} {featureView : String} {start endAt : Instant}
    {plan : BackfillPlan} (h : backfillPlan store (.range featureView start endAt) = .ok plan) :
    plan.start = start ∧ plan.endAt = endAt := by
  simp only [backfillPlan, bind, Except.bind] at h
  split at h
  · cases h
  · split at h
    · cases h
    · split at h
      · cases h
      · rw [← Except.ok.inj h]
        exact ⟨rfl, rfl⟩

namespace BackfillJob

variable (s : BackfillJob)

/-- Where the chunk after the committed ones begins. -/
def reached (committed : List ChunkPass) : Instant :=
  boundary s.plan.start s.plan.endAt committed.length

def summary (committed : List ChunkPass) : DataQualitySummary :=
  summaryOf s.deployment s.plan.policy committed

/-- A pass of the job, accepted under its policy. -/
structure PassSound (pass : ChunkPass) : Prop where
  plan : pass.plan = s.plan
  accepted : s.plan.policy = .reject → (pass.validation s.deployment).invalidRowIndexes = []

/-- The committed chunks are the first ones of the range, in order. -/
structure Chained (committed : List ChunkPass) : Prop where
  cursors : committed.map (·.cursor) =
    (List.range committed.length).map (boundary s.plan.start s.plan.endAt)
  passes : ∀ pass ∈ committed, s.PassSound pass

/-- The stored row has the checkpoints of the committed chunks; a success has them all. -/
structure RowSound (committed : List ChunkPass) (row : JobRecord) : Prop where
  kind : row.kind = .backfill
  payload : row.payload = s.job.payload
  checkpoints : row.checkpoints = checkpointsOf s.deployment s.plan.policy committed
  succeeded : row.status = .succeeded → s.plan.endAt ≤ s.reached committed ∧
    row.resultMetadata = some (.quality (s.summary committed))

/-- The next chunk to be committed. -/
structure SlotSound (committed : List ChunkPass) (slot : ChunkSlot) : Prop where
  plan : slot.plan = s.plan
  cursor : slot.cursor = s.reached committed
  summary : slot.summary = s.summary committed

/-- What an attempt knows at each stage. -/
def StageSound (committed : List ChunkPass) (view : Option DeltaTable) : BackfillStage → Prop
  | .looping plan cursor summary => plan = s.plan ∧ summary = s.summary committed ∧
      ∃ i ≤ committed.length, cursor = boundary s.plan.start s.plan.endAt i
  | .requiringOwnership slot | .evaluating slot => s.SlotSound committed slot
  | .confirmingOwnership pass | .quarantining pass =>
      s.SlotSound committed pass.toChunkSlot ∧ s.PassSound pass
  | .accessing pass access => s.SlotSound committed pass.toChunkSlot ∧ s.PassSound pass ∧
      AccessSound (pass.chunk s.deployment) view access
  | .checkpointing pass => s.SlotSound committed pass.toChunkSlot ∧ s.PassSound pass ∧
      AccessSound (pass.chunk s.deployment) view .written
  | .finalizing summary => summary = s.summary committed ∧ s.plan.endAt ≤ s.reached committed
  | .starting | .reading | .failing _ _ | .ended => True

/-- The copy of the worker is as current as the stored row. -/
structure AttemptSound (committed : List ChunkPass) (view : Option DeltaTable)
    (a : BackfillAttempt) : Prop where
  id : a.job.id = s.job.id
  kind : a.job.kind = .backfill
  payload : a.job.payload = s.job.payload
  checkpoints : a.job.checkpoints = checkpointsOf s.deployment s.plan.policy committed
  stage : s.StageSound committed view a.stage

/-- The rows before and after the range. -/
def outside (row : OfflineRow) : Bool :=
  decide (row.eventTimestamp < s.plan.start) || decide (s.plan.endAt ≤ row.eventTimestamp)

/-- The table has the rows of each committed chunk, and outside the range those it had. -/
structure ViewSound (committed : List ChunkPass) (view : Option DeltaTable) : Prop where
  outside : ((OfflineStore.load view).filter s.outside).Perm
    ((OfflineStore.load s.initial).filter s.outside)
  chunks : ∀ pass ∈ committed, ((OfflineStore.load view).filter fun row =>
    !(pass.chunk s.deployment).outsideRange row).Perm (pass.kept s.deployment)

structure Sound (w : BackfillWorld) : Prop where
  row : ∃ row, w.db.jobs.find? s.job.id = some row ∧ s.RowSound w.committed row
  chained : s.Chained w.committed
  view : s.ViewSound w.committed w.view
  attempt : ∀ a, w.attempt = some a → s.AttemptSound w.committed w.view a

variable {s} {committed : List ChunkPass} {view : Option DeltaTable} {a : BackfillAttempt}

theorem plan_range : s.plan.start = s.request.start ∧ s.plan.endAt = s.request.endAt :=
  backfillPlan_range (s.payload ▸ s.planned)

theorem start_lt : s.plan.start < s.plan.endAt := by
  rw [plan_range.1, plan_range.2]
  exact s.request.valid_range

theorem beginning_sound : s.Sound s.beginning where
  row := ⟨s.job, s.stored, s.kind, rfl, s.untouched.1, fun h => absurd h s.untouched.2⟩
  chained := ⟨by rfl, by simp [beginning]⟩
  view := ⟨.refl _, by simp [beginning]⟩
  attempt := by simp [beginning]

theorem AttemptSound.goto (h : s.AttemptSound committed view a) {view' : Option DeltaTable}
    {stage : BackfillStage} (hstage : s.StageSound committed view' stage) :
    s.AttemptSound committed view' (a.goto stage) :=
  ⟨h.id, h.kind, h.payload, h.checkpoints, hstage⟩

theorem AttemptSound.stopped (h : s.AttemptSound committed view a) {view' : Option DeltaTable}
    {stage : BackfillStage}
    (hstage : stage = .ended ∨ ∃ exc summary, stage = .failing exc summary) :
    s.AttemptSound committed view' (a.goto stage) := by
  apply h.goto
  rcases hstage with rfl | ⟨exc, summary, rfl⟩
  · trivial
  · trivial

/-- The committed chunks begin before the end of the range. -/
theorem Chained.before (h : s.Chained committed) {i : Nat} (hi : i < committed.length) :
    boundary s.plan.start s.plan.endAt i < s.plan.endAt := by
  have hmem : boundary s.plan.start s.plan.endAt i ∈ committed.map (·.cursor) := by
    rw [h.cursors]
    exact List.mem_map.mpr ⟨i, List.mem_range.mpr hi, rfl⟩
  obtain ⟨pass, hpass, hcursor⟩ := List.mem_map.mp hmem
  rw [← hcursor, ← (h.passes pass hpass).plan]
  exact pass.cursor_lt

/-- The cursor of a loop has a checkpoint exactly if its chunk has been committed. -/
theorem Chained.known_iff (h : s.Chained committed) {i : Nat} (hi : i ≤ committed.length)
    (hbefore : boundary s.plan.start s.plan.endAt i < s.plan.endAt) :
    hasBackfillCheckpoint (checkpointsOf s.deployment s.plan.policy committed)
      (boundary s.plan.start s.plan.endAt i) = true ↔ i < committed.length := by
  rw [hasBackfillCheckpoint_checkpointsOf, h.cursors, List.mem_map]
  constructor
  · rintro ⟨j, hj, hsame⟩
    have hlt := List.mem_range.mp hj
    by_contra hge
    have hnext := boundary_lt_succ (hsame ▸ hbefore)
    exact absurd (hnext.trans_le (boundary_mono (j + 1) i (by omega))) (hsame ▸ lt_irrefl _)
  · exact fun hlt => ⟨i, List.mem_range.mpr hlt, rfl⟩

section Statements

variable {w : BackfillWorld} {now : Instant} {loaded : Except PyException ArrowTable}
variable {slot : ChunkSlot} {pass : ChunkPass}

theorem SlotSound.before (h : s.SlotSound committed slot) :
    s.reached committed < s.plan.endAt := by
  rw [← h.cursor, ← h.plan]
  exact slot.cursor_lt

/-- A chunk to be committed ends where the next one begins. -/
theorem SlotSound.chunkEnd_eq (h : s.SlotSound committed slot) :
    slot.chunkEnd = boundary s.plan.start s.plan.endAt (committed.length + 1) := by
  rw [ChunkSlot.chunkEnd, h.cursor, h.plan]
  exact chunkEnd_boundary h.before

/-- The rows outside the range of the job are outside the range of each chunk. -/
theorem SlotSound.outside_range (h : s.SlotSound committed pass.toChunkSlot) (row : OfflineRow)
    (houtside : s.outside row = true) : (pass.chunk s.deployment).outsideRange row = true := by
  have hend : chunkEnd pass.cursor pass.plan.endAt ≤ s.plan.endAt := by
    have hchunk := h.chunkEnd_eq
    rw [ChunkSlot.chunkEnd] at hchunk
    rw [hchunk]
    exact max_le start_lt.le (min_le_left _ _)
  have hstart : s.plan.start ≤ pass.cursor := by
    rw [h.cursor]
    exact le_max_left _ _
  rw [outside, Bool.or_eq_true, decide_eq_true_eq, decide_eq_true_eq] at houtside
  rw [BackfillChunk.outsideRange, Bool.or_eq_true, decide_eq_true_eq, decide_eq_true_eq]
  exact houtside.imp (fun hlt => hlt.trans_le hstart) fun hle => hend.trans hle

/-- So are the rows of the chunks that have been committed. -/
theorem SlotSound.outside_chunk (h : s.SlotSound committed pass.toChunkSlot)
    (hchained : s.Chained committed) {earlier : ChunkPass} (hearlier : earlier ∈ committed)
    (row : OfflineRow)
    (hinside : (!(earlier.chunk s.deployment).outsideRange row) = true) :
    (pass.chunk s.deployment).outsideRange row = true := by
  have hmem : earlier.cursor ∈ committed.map (·.cursor) := List.mem_map.mpr ⟨earlier, hearlier, rfl⟩
  rw [hchained.cursors] at hmem
  obtain ⟨j, hj, hcursor⟩ := List.mem_map.mp hmem
  have hplan := (hchained.passes earlier hearlier).plan
  have hearlierEnd : chunkEnd earlier.cursor earlier.plan.endAt ≤ pass.cursor := by
    have hlt := earlier.cursor_lt
    rw [hplan, ← hcursor] at hlt
    rw [hplan, ← hcursor, chunkEnd_boundary hlt, h.cursor]
    exact boundary_mono (j + 1) committed.length (List.mem_range.mp hj)
  rw [Bool.not_eq_true', BackfillChunk.outsideRange, Bool.or_eq_false_iff] at hinside
  have hbelow : row.eventTimestamp < chunkEnd earlier.cursor earlier.plan.endAt :=
    Int.not_le.mp (of_decide_eq_false hinside.2)
  rw [BackfillChunk.outsideRange, Bool.or_eq_true]
  exact Or.inl (decide_eq_true (hbelow.trans_le hearlierEnd))

/-- A committed chunk prolongs the chain. -/
theorem Chained.append (h : s.Chained committed) (hslot : s.SlotSound committed pass.toChunkSlot)
    (hpass : s.PassSound pass) : s.Chained (committed ++ [pass]) where
  cursors := by
    rw [List.map_append, h.cursors, List.length_append, List.length_singleton, List.range_succ,
      List.map_append, List.map_singleton, List.map_singleton, hslot.cursor, reached]
  passes := by
    intro other hother
    cases List.mem_append.mp hother with
    | inl hearlier => exact h.passes other hearlier
    | inr hlast =>
        obtain rfl := List.mem_singleton.mp hlast
        exact hpass

theorem SlotSound.nextSummary (h : s.SlotSound committed pass.toChunkSlot) :
    pass.nextSummary s.deployment = s.summary (committed ++ [pass]) := by
  rw [ChunkPass.nextSummary, h.summary, h.plan]
  exact (summaryOf_append committed pass).symm

/-- A statement that writes nothing leaves a sound state, if it leaves a sound attempt. -/
theorem Sound.moved (h : s.Sound w) {next : BackfillAttempt} {stage : BackfillStage}
    (hcommits : commits stage next.stage w.committed = w.committed)
    (hnext : s.AttemptSound w.committed w.view next) :
    s.Sound { w with attempt := some next, committed := commits stage next.stage w.committed } := by
  rw [hcommits]
  refine ⟨h.row, h.chained, h.view, fun a ha => ?_⟩
  obtain rfl := Option.some.inj ha
  exact hnext

/-- An access to the view keeps what it holds of the other chunks and outside the range. -/
theorem Sound.accessed (h : s.Sound w) (hattempt : w.attempt = some a) {view : Option DeltaTable}
    {access next : BackfillChunk.Stage} (hstage : a.stage = .accessing pass access)
    (hmade : (pass.chunk s.deployment).advance w.view access = (view, next)) :
    s.ViewSound w.committed view ∧
      s.AttemptSound w.committed view (a.goto (pass.afterAccess next)) := by
  have ha := h.attempt a hattempt
  have hsound := ha.stage
  rw [hstage] at hsound
  obtain ⟨hslot, hpass, haccess⟩ := hsound
  obtain ⟨hnext, hkeeps⟩ := access_sound haccess hmade
  refine ⟨⟨(hkeeps _ hslot.outside_range).trans h.view.outside, ?_⟩, ha.goto ?_⟩
  · intro earlier hearlier
    exact (hkeeps _ (hslot.outside_chunk h.chained hearlier)).trans (h.view.chunks earlier hearlier)
  · cases next with
    | written => exact ⟨hslot, hpass, hnext⟩
    | loading | overwriting | creating => exact ⟨hslot, hpass, hnext⟩

/-- A checkpoint commits its chunk. -/
theorem Sound.checkpointed (h : s.Sound w) (hattempt : w.attempt = some a) {db : Database}
    {job : JobRecord} (hstage : a.stage = .checkpointing pass)
    (hcommit : commitCheckpoints w.db a.job a.token now
      (a.job.checkpoints ++ [.backfill pass.cursor (pass.nextSummary s.deployment)]) =
        (db, .ok job)) :
    s.Sound
      { w with
        db := db
        attempt := some
          ⟨job, a.token, .looping pass.plan pass.chunkEnd (pass.nextSummary s.deployment)⟩
        committed := w.committed ++ [pass] } := by
  have ha := h.attempt a hattempt
  have hsound := ha.stage
  rw [hstage] at hsound
  obtain ⟨hslot, hpass, hwritten⟩ := hsound
  obtain ⟨row, hrow, hrowSound⟩ := h.row
  obtain ⟨stored, hstored, hcommitted, rfl⟩ := commitCheckpoints_row hcommit
  rw [ha.id] at hstored hcommitted
  obtain rfl := Option.some.inj (hrow.symm.trans hstored)
  have hcheckpoints : a.job.checkpoints ++
      [.backfill pass.cursor (pass.nextSummary s.deployment)] =
        checkpointsOf s.deployment s.plan.policy (w.committed ++ [pass]) := by
    rw [checkpointsOf_append, ha.checkpoints, hslot.nextSummary]
    rfl
  have hlength : w.committed.length + 1 ≤ (w.committed ++ [pass]).length := by simp
  have hid : row.id = s.job.id := Table.key_of_find? hrow
  refine ⟨⟨_, hcommitted, hrowSound.kind, hrowSound.payload, hcheckpoints, fun hsucceeded => ?_⟩,
    h.chained.append hslot hpass, ⟨h.view.outside, ?_⟩, fun b hb => ?_⟩
  · exact absurd hslot.before (not_lt.mpr (hrowSound.succeeded hsucceeded).1)
  · intro other hother
    cases List.mem_append.mp hother with
    | inl hearlier => exact h.view.chunks other hearlier
    | inr hlast =>
        obtain rfl := List.mem_singleton.mp hlast
        exact .of_eq hwritten
  · obtain rfl := Option.some.inj hb
    exact ⟨hid, hrowSound.kind, hrowSound.payload, hcheckpoints, hslot.plan, hslot.nextSummary,
      w.committed.length + 1, hlength, hslot.chunkEnd_eq⟩

/-- A success reports the summary of all chunks. -/
theorem Sound.succeeded (h : s.Sound w) (hattempt : w.attempt = some a) {db : Database}
    {job : JobRecord} {summary : DataQualitySummary} (hstage : a.stage = .finalizing summary)
    (hcommit : finalizeSuccess s.deployment.settings w.db a.job a.token now none
      (some (.quality summary)) = (db, .ok job)) :
    s.Sound { w with db := db, attempt := some ⟨job, a.token, .ended⟩ } := by
  have ha := h.attempt a hattempt
  have hsound := ha.stage
  rw [hstage] at hsound
  obtain ⟨hsummary, hreached⟩ := hsound
  obtain ⟨row, hrow, hrowSound⟩ := h.row
  obtain ⟨stored, hstored, hcommitted⟩ := finalizeSuccess_row ha.kind hcommit
  have hjob := finalizeSuccess_stored hcommit
  rw [ha.id] at hstored hcommitted hjob
  obtain rfl := Option.some.inj (hrow.symm.trans hstored)
  refine ⟨⟨_, hcommitted, hrowSound.kind, hrowSound.payload, hrowSound.checkpoints,
    fun _ => ⟨hreached, by rw [← hsummary]; rfl⟩⟩, h.chained, h.view, fun b hb => ?_⟩
  obtain rfl := Option.some.inj hb
  rw [← Option.some.inj (hcommitted.symm.trans hjob)]
  have hid : row.id = s.job.id := Table.key_of_find? hrow
  exact ⟨hid, hrowSound.kind, hrowSound.payload, hrowSound.checkpoints, trivial⟩

/-- A failure leaves what has been committed. -/
theorem Sound.failed (h : s.Sound w) (hattempt : w.attempt = some a) (exc : PyException)
    (resultMetadata : Option ResultMetadata) :
    s.Sound
      { w with
        db := finalizeFailure s.deployment.settings w.db a.job a.token now exc exc.message
          resultMetadata
        attempt := some (a.goto .ended) } := by
  have ha := h.attempt a hattempt
  obtain ⟨row, hrow, hrowSound⟩ := h.row
  have hstored : w.db.jobs.find? a.job.id = some row := ha.id.symm ▸ hrow
  obtain ⟨row', hrow', hcases⟩ :
      ∃ row', (finalizeFailure s.deployment.settings w.db a.job a.token now exc exc.message
          resultMetadata).jobs.find? a.job.id = some row' ∧
        (row' = row ∨ row' = (setFailed s.deployment.settings a.job exc now exc.message
          resultMetadata).set row) := finalizeFailure_row hstored
  rw [ha.id] at hrow'
  refine ⟨⟨row', hrow', ?_⟩, h.chained, h.view, fun b hb => ?_⟩
  · rcases hcases with rfl | rfl
    · exact hrowSound
    · exact ⟨hrowSound.kind, hrowSound.payload, hrowSound.checkpoints,
        fun hsucceeded => absurd hsucceeded (failureStatus_ne (by decide))⟩
  · obtain rfl := Option.some.inj hb
    exact ha.goto trivial

/-- Every statement of the attempt leaves a sound state. -/
theorem Sound.statement (h : s.Sound w) (hattempt : w.attempt = some a) {stores : BackfillStores}
    {next : BackfillAttempt}
    (hstatement : BackfillStatement s.deployment w.toBackfillStores a now loaded stores next) :
    s.Sound
      { toBackfillStores := stores
        attempt := some next
        committed := commits a.stage next.stage w.committed } := by
  have ha := h.attempt a hattempt
  have hstage := ha.stage
  cases hstatement with
  | stopped stage hstopped =>
      refine h.moved ?_ (ha.stopped hstopped)
      rcases hstopped with rfl | ⟨exc, summary, rfl⟩
      · cases a.stage <;> rfl
      · cases a.stage <;> rfl
  | checked stage =>
      rw [stage]
      exact h.moved rfl (ha.goto trivial)
  | @read plan stage planned =>
      rw [stage]
      rw [ha.payload] at planned
      obtain rfl : plan = s.plan := Except.ok.inj (planned.symm.trans s.planned)
      refine h.moved rfl (ha.goto ⟨rfl, ?_, 0, Nat.zero_le _, (boundary_zero start_lt).symm⟩)
      rw [ha.checkpoints]
      exact qualitySummary_checkpointsOf w.committed
  | skipped stage before known =>
      rw [stage] at hstage ⊢
      obtain ⟨rfl, hsummary, i, hi, rfl⟩ := hstage
      rw [ha.checkpoints, h.chained.known_iff hi before] at known
      exact h.moved rfl (ha.goto ⟨rfl, hsummary, i + 1, known, chunkEnd_boundary before⟩)
  | entered slot stage unknown =>
      rw [stage] at hstage ⊢
      obtain ⟨hplan, hsummary, i, hi, hcursor⟩ := hstage
      have hbefore := slot.cursor_lt
      rw [hplan, hcursor] at hbefore
      have hlast : ¬i < w.committed.length := by
        rw [← h.chained.known_iff hi hbefore, ← hcursor, ← ha.checkpoints, unknown]
        exact nofun
      obtain rfl : i = w.committed.length := by omega
      exact h.moved rfl (ha.goto ⟨hplan, hcursor, hsummary⟩)
  | finished stage ended =>
      rw [stage] at hstage ⊢
      obtain ⟨rfl, hsummary, i, hi, rfl⟩ := hstage
      exact h.moved rfl (ha.goto ⟨hsummary, ended.trans (boundary_mono i _ hi)⟩)
  | required stage =>
      rw [stage] at hstage ⊢
      exact h.moved rfl (ha.goto hstage)
  | evaluated stage found validated accepted =>
      rw [stage] at hstage ⊢
      exact h.moved rfl (ha.goto ⟨hstage, hstage.plan, fun hpolicy =>
        accepted (hstage.plan ▸ hpolicy)⟩)
  | @confirmed pass stage =>
      rw [stage] at hstage ⊢
      by_cases hpolicy : pass.plan.policy = .quarantine
      · rw [if_pos hpolicy]
        exact h.moved rfl (ha.goto hstage)
      · rw [if_neg hpolicy]
        exact h.moved rfl (ha.goto ⟨hstage.1, hstage.2, trivial⟩)
  | quarantined stage =>
      rw [stage] at hstage ⊢
      refine ⟨h.row, h.chained, h.view, fun b hb => ?_⟩
      obtain rfl := Option.some.inj hb
      exact ha.goto ⟨hstage.1, hstage.2, trivial⟩
  | accessed stage made =>
      rw [stage]
      obtain ⟨hview, hnext⟩ := h.accessed hattempt stage made
      refine ⟨h.row, h.chained, hview, fun b hb => ?_⟩
      obtain rfl := Option.some.inj hb
      exact hnext
  | checkpointed stage commit =>
      rw [stage]
      exact h.checkpointed hattempt stage commit
  | succeeded stage commit =>
      rw [stage]
      exact h.succeeded hattempt stage commit
  | failed stage =>
      rw [stage]
      exact h.failed hattempt _ _

theorem keepsJob_row {db db' : Database} {row : JobRecord} (h : keepsJob s.job.id db db' = true)
    (hrow : db.jobs.find? s.job.id = some row) :
    ∃ row', db'.jobs.find? s.job.id = some row' ∧ row'.kind = row.kind ∧
      row'.payload = row.payload ∧ row'.checkpoints = row.checkpoints ∧
      (row'.status = .succeeded →
        row.status = .succeeded ∧ row'.resultMetadata = row.resultMetadata) := by
  rw [keepsJob, hrow, Option.all_some, Option.any_eq_true] at h
  obtain ⟨row', hrow', hkeeps⟩ := h
  simp only [Bool.and_eq_true, decide_eq_true_eq] at hkeeps
  exact ⟨row', hrow', hkeeps.1.1.1, hkeeps.1.1.2, hkeeps.1.2, hkeeps.2⟩

theorem step_sound (w : BackfillWorld) (action : BackfillAction) (h : s.Sound w) :
    s.Sound (s.step w action) := by
  obtain ⟨row, hrow, hrowSound⟩ := h.row
  cases action with
  | interfere db =>
      rw [step]
      split
      · rename_i hkeeps
        obtain ⟨row', hrow', hkind, hpayload, hcheckpoints, hsucceeded⟩ := keepsJob_row hkeeps hrow
        refine ⟨⟨row', hrow', hkind.trans hrowSound.kind, hpayload.trans hrowSound.payload,
          hcheckpoints.trans hrowSound.checkpoints, fun hstatus => ?_⟩, h.chained, h.view,
        h.attempt⟩
        obtain ⟨hstatus', hmetadata⟩ := hsucceeded hstatus
        rw [hmetadata]
        exact hrowSound.succeeded hstatus'
      · exact h
  | begin token =>
      rw [step, hrow, Option.map_some]
      refine ⟨⟨row, hrow, hrowSound⟩, h.chained, h.view, fun a ha => ?_⟩
      obtain rfl := Option.some.inj ha
      exact ⟨Table.key_of_find? hrow, hrowSound.kind, hrowSound.payload, hrowSound.checkpoints,
        trivial⟩
  | statement now loaded =>
      rw [step]
      cases hattempt : w.attempt with
      | none => exact h
      | some a => exact h.statement hattempt a.advance_statement
  | raise exc =>
      rw [step]
      refine ⟨⟨row, hrow, hrowSound⟩, h.chained, h.view, fun a ha => ?_⟩
      obtain ⟨attempt, hattempt, rfl⟩ := Option.map_eq_some_iff.mp ha
      obtain ⟨stage, hgoto, hstopped⟩ := attempt.raise_goto exc
      rw [hgoto]
      exact (h.attempt attempt hattempt).stopped hstopped

theorem run_sound (actions : List BackfillAction) : s.Sound (s.run actions) :=
  Execution.invariant step_sound beginning_sound actions

end Statements

end BackfillJob

end FeatureStore
