import FeatureStore.BackfillResume

/-!
# The quarantine table of a backfill

Invalid rows are written before the view and before the checkpoint. Where an attempt finds none,
it writes nothing, so the rows of an earlier attempt stay. Otherwise the table holds the invalid
rows of what was committed.
-/

namespace FeatureStore

open Relational

/-- The rows of a quarantine table. -/
def quarantineRows (table : Option (List QuarantinedRow)) : List OfflineRow :=
  (table.getD []).map (·.row)

/-- The rows of a date. -/
def rowsOn (date : Date) (rows : List OfflineRow) : List OfflineRow :=
  rows.filter fun row => decide (row.eventDate = date)

section Batch

variable {d : BackfillDeployment} {pass : ChunkPass} {table : Option (List QuarantinedRow)}

def ChunkPass.invalidRows (d : BackfillDeployment) (pass : ChunkPass) : List OfflineRow :=
  pass.rows.filter fun row => !pass.isValid d row

theorem ChunkPass.eventDate_eq {row : OfflineRow} (h : row ∈ pass.rows) :
    row.eventDate = (pass.chunk d).date := by
  obtain ⟨hlower, hupper⟩ := pass.inRange row h
  rw [row.eventDate_eq]
  exact dateOf_of_chunk pass.cursor_lt hlower hupper

/-- The rows of another date stay, and those of the chunk's date give way, if there are any to
take their place. -/
theorem quarantineRows_batch :
    quarantineRows (quarantineBatch table pass.rows (pass.validation d) (pass.chunk d).date) =
      if pass.invalidRows d = [] then quarantineRows table
      else (quarantineRows table).filter
          (fun row => decide (row.eventDate ≠ (pass.chunk d).date)) ++ pass.invalidRows d := by
  have hrows : (quarantinedRows pass.rows (pass.validation d)).map (·.row) = pass.invalidRows d :=
    quarantinedRows_rows
  have hnone : (pass.validation d).invalidRowIndexes = [] ↔ pass.invalidRows d = [] := by
    rw [← List.length_eq_zero_iff, ← List.length_eq_zero_iff (l := pass.invalidRows d),
      ChunkPass.validation, invalidRowIndexes_length]
    rfl
  unfold quarantineBatch
  by_cases hinvalid : pass.invalidRows d = []
  · rw [if_pos (hnone.mpr hinvalid), if_pos hinvalid]
  · rw [if_neg (mt hnone.mp hinvalid), if_neg hinvalid]
    cases table with
    | none =>
        rw [quarantineRows, Option.getD_some, hrows]
        rfl
    | some stored =>
        rw [quarantineRows, Option.getD_some, List.map_append, hrows, quarantineRows,
          Option.getD_some, List.filter_map]
        rfl

theorem rowsOn_invalidRows :
    rowsOn (pass.chunk d).date (pass.invalidRows d) = pass.invalidRows d := by
  rw [rowsOn, List.filter_eq_self]
  intro row hrow
  exact decide_eq_true (ChunkPass.eventDate_eq (List.mem_filter.mp hrow).1)

/-- After a batch the table holds the invalid rows for its date, unless there are none while the
table has rows of the date. -/
theorem rowsOn_batch
    (h : pass.invalidRows d = [] → rowsOn (pass.chunk d).date (quarantineRows table) = []) :
    rowsOn (pass.chunk d).date (quarantineRows
      (quarantineBatch table pass.rows (pass.validation d) (pass.chunk d).date)) =
        pass.invalidRows d := by
  rw [quarantineRows_batch]
  by_cases hinvalid : pass.invalidRows d = []
  · rw [if_pos hinvalid, h hinvalid, hinvalid]
  · have hothers : rowsOn (pass.chunk d).date ((quarantineRows table).filter fun row =>
        decide (row.eventDate ≠ (pass.chunk d).date)) = [] := by
      rw [rowsOn, List.filter_eq_nil_iff]
      intro row hrow hdate
      exact of_decide_eq_true (List.mem_filter.mp hrow).2 (of_decide_eq_true hdate)
    rw [if_neg hinvalid, rowsOn, List.filter_append, ← rowsOn, hothers, ← rowsOn,
      rowsOn_invalidRows, List.nil_append]

theorem rowsOn_batch_other {date : Date} (hdate : date ≠ (pass.chunk d).date) :
    rowsOn date (quarantineRows
      (quarantineBatch table pass.rows (pass.validation d) (pass.chunk d).date)) =
        rowsOn date (quarantineRows table) := by
  rw [quarantineRows_batch]
  split
  · rfl
  · have hnone : rowsOn date (pass.invalidRows d) = [] := by
      rw [rowsOn, List.filter_eq_nil_iff]
      intro row hrow hsame
      have hrowDate := ChunkPass.eventDate_eq (d := d) (List.mem_filter.mp hrow).1
      exact hdate ((of_decide_eq_true hsame).symm.trans hrowDate)
    rw [rowsOn, List.filter_append, ← rowsOn, ← rowsOn, hnone, List.append_nil, rowsOn, rowsOn,
      List.filter_filter]
    apply List.filter_congr
    intro row hrow
    by_cases hrowDate : row.eventDate = date
    · simp [hrowDate, hdate]
    · simp [hrowDate]

theorem mem_batch {row : OfflineRow}
    (h : row ∈ quarantineRows
      (quarantineBatch table pass.rows (pass.validation d) (pass.chunk d).date)) :
    row ∈ quarantineRows table ∨ row ∈ pass.invalidRows d := by
  rw [quarantineRows_batch] at h
  split at h
  · exact Or.inl h
  · exact (List.mem_append.mp h).imp (fun hmem => (List.mem_filter.mp hmem).1) id

end Batch

namespace BackfillJob

variable (s : BackfillJob)

/-- The table holds what a pass found invalid, on its date. -/
def Quarantined (table : Option (List QuarantinedRow)) (pass : ChunkPass) : Prop :=
  rowsOn (pass.chunk s.deployment).date (quarantineRows table) = pass.invalidRows s.deployment

/-- Once its batch is written, the invalid rows of a pass are in the table. -/
def Pending (table : Option (List QuarantinedRow)) : BackfillStage → Prop
  | .accessing pass _ | .checkpointing pass => s.Quarantined table pass
  | _ => True

structure QuarantineSound (w : BackfillWorld) : Prop where
  within : ∀ row ∈ quarantineRows w.quarantine,
    s.plan.start ≤ row.eventTimestamp ∧ row.eventTimestamp < s.plan.endAt
  committed : ∀ pass ∈ w.committed, s.Quarantined w.quarantine pass
  pending : ∀ a, w.attempt = some a → s.Pending w.quarantine a.stage

/-- A batch without invalid rows finds no rows of its date in the table. -/
def clearsNothing (w : BackfillWorld) : BackfillAction → Bool
  | .statement _ _ => w.attempt.all fun a =>
      match a.stage with
      | .quarantining pass => !(pass.invalidRows s.deployment).isEmpty ||
          (rowsOn (pass.chunk s.deployment).date (quarantineRows w.quarantine)).isEmpty
      | _ => true
  | .interfere _ | .begin _ | .raise _ => true

variable {s} {w : BackfillWorld} {a : BackfillAttempt} {now : Instant}
variable {loaded : Except PyException ArrowTable} {pass : ChunkPass}

/-- Chunks have different dates. -/
theorem SlotSound.date_ne {committed : List ChunkPass}
    (h : s.SlotSound committed pass.toChunkSlot) (hchained : s.Chained committed)
    {earlier : ChunkPass} (hearlier : earlier ∈ committed) :
    (earlier.chunk s.deployment).date ≠ (pass.chunk s.deployment).date := by
  have hmem : earlier.cursor ∈ committed.map (·.cursor) := List.mem_map.mpr ⟨earlier, hearlier, rfl⟩
  rw [hchained.cursors] at hmem
  obtain ⟨j, hj, hcursor⟩ := List.mem_map.mp hmem
  have hlt := List.mem_range.mp hj
  have hbefore := earlier.cursor_lt
  rw [(hchained.passes earlier hearlier).plan, ← hcursor] at hbefore
  have hdate : dateOf earlier.cursor = dateOf s.plan.start + j := by
    rw [← hcursor, dateOf_boundary hbefore]
  have hdate' : dateOf pass.cursor = dateOf s.plan.start + committed.length := by
    rw [h.cursor, reached, dateOf_boundary h.before]
  change dateOf earlier.cursor ≠ dateOf pass.cursor
  rw [hdate, hdate']
  simp only [Date]
  omega

/-- A row of a pass lies in the range of the job. -/
theorem SlotSound.within {committed : List ChunkPass} (h : s.SlotSound committed pass.toChunkSlot)
    {row : OfflineRow} (hrow : row ∈ pass.rows) :
    s.plan.start ≤ row.eventTimestamp ∧ row.eventTimestamp < s.plan.endAt := by
  obtain ⟨hlower, hupper⟩ := pass.inRange row hrow
  by_contra houtside
  have hrange : s.outside row = true := by
    rw [outside, Bool.or_eq_true, decide_eq_true_eq, decide_eq_true_eq]
    by_cases hstart : s.plan.start ≤ row.eventTimestamp
    · exact Or.inr (not_lt.mp fun hend => houtside ⟨hstart, hend⟩)
    · exact Or.inl (not_le.mp hstart)
  have houtsideChunk := h.outside_range row hrange
  rw [BackfillChunk.outsideRange, Bool.or_eq_true, decide_eq_true_eq, decide_eq_true_eq]
    at houtsideChunk
  exact houtsideChunk.elim (fun hlt => absurd hlower (not_le.mpr hlt))
    fun hle => absurd hupper (not_lt.mpr hle)

theorem beginning_quarantineSound : s.QuarantineSound s.beginning where
  within := by simp [beginning, quarantineRows]
  committed := by simp [beginning]
  pending := by simp [beginning]

/-- A statement that writes no batch and commits nothing. -/
theorem QuarantineSound.moved (h : s.QuarantineSound w) {stores : BackfillStores}
    {next : BackfillAttempt} {stage : BackfillStage}
    (hsame : stores.quarantine = w.quarantine)
    (hcommits : commits stage next.stage w.committed = w.committed)
    (hnext : s.Pending w.quarantine next.stage) :
    s.QuarantineSound
      { toBackfillStores := stores
        attempt := some next
        committed := commits stage next.stage w.committed } := by
  rw [hcommits]
  refine ⟨?_, ?_, fun b hb => ?_⟩
  · rw [hsame]
    exact h.within
  · rw [hsame]
    exact h.committed
  · obtain rfl := Option.some.inj hb
    rw [hsame]
    exact hnext

/-- A batch leaves the rows of other dates, and those that the pass found invalid. -/
theorem QuarantineSound.quarantined (h : s.QuarantineSound w) (hsound : s.Sound w)
    (hattempt : w.attempt = some a) (hstage : a.stage = .quarantining pass)
    (hclear : pass.invalidRows s.deployment = [] →
      rowsOn (pass.chunk s.deployment).date (quarantineRows w.quarantine) = []) :
    s.QuarantineSound
      { w with
        quarantine := quarantineBatch w.quarantine pass.rows (pass.validation s.deployment)
          (pass.chunk s.deployment).date
        attempt := some (a.goto (.accessing pass .loading)) } := by
  have hslot := (hsound.attempt a hattempt).stage
  rw [hstage] at hslot
  refine ⟨fun row hrow => ?_, fun earlier hearlier => ?_, fun b hb => ?_⟩
  · cases mem_batch hrow with
    | inl hbefore => exact h.within row hbefore
    | inr hnew => exact hslot.1.within (List.mem_filter.mp hnew).1
  · exact (rowsOn_batch_other (hslot.1.date_ne hsound.chained hearlier)).trans
      (h.committed earlier hearlier)
  · obtain rfl := Option.some.inj hb
    exact rowsOn_batch hclear

theorem QuarantineSound.statement (h : s.QuarantineSound w) (hsound : s.Sound w)
    (hpolicy : s.plan.policy = .quarantine) (hattempt : w.attempt = some a)
    (hclear : s.clearsNothing w (.statement now loaded) = true) {stores : BackfillStores}
    {next : BackfillAttempt}
    (hstatement : BackfillStatement s.deployment w.toBackfillStores a now loaded stores next) :
    s.QuarantineSound
      { toBackfillStores := stores
        attempt := some next
        committed := commits a.stage next.stage w.committed } := by
  have hpending := h.pending a hattempt
  have hstage := (hsound.attempt a hattempt).stage
  cases hstatement with
  | stopped stage hstopped =>
      rcases hstopped with rfl | ⟨exc, summary, rfl⟩
      · exact h.moved rfl (by cases a.stage <;> rfl) trivial
      · exact h.moved rfl (by cases a.stage <;> rfl) trivial
  | checked stage | read stage | skipped stage | entered _ stage | finished stage | required stage
  | evaluated stage | succeeded stage | failed stage =>
      rw [stage]
      exact h.moved rfl rfl trivial
  | @confirmed pass stage =>
      rw [stage] at hstage ⊢
      rw [if_pos (hstage.2.plan ▸ hpolicy)]
      exact h.moved rfl rfl trivial
  | @quarantined pass stage =>
      rw [stage]
      rw [clearsNothing, hattempt, Option.all_some, stage] at hclear
      refine h.quarantined hsound hattempt stage fun hnone => ?_
      simpa [hnone] using hclear
  | @accessed pass access next view stage made =>
      rw [stage] at hpending ⊢
      refine h.moved rfl rfl ?_
      cases next with
      | written | loading | overwriting | creating => exact hpending
  | @checkpointed pass db job stage commit =>
      rw [stage] at hpending ⊢
      refine ⟨h.within, fun other hother => ?_, fun b hb => ?_⟩
      · cases List.mem_append.mp hother with
        | inl hearlier => exact h.committed other hearlier
        | inr hlast =>
            obtain rfl := List.mem_singleton.mp hlast
            exact hpending
      · obtain rfl := Option.some.inj hb
        trivial

theorem step_quarantineSound (hpolicy : s.plan.policy = .quarantine) (w : BackfillWorld)
    (action : BackfillAction) (h : s.Sound w ∧ s.QuarantineSound w)
    (hclear : s.clearsNothing w action = true) :
    s.Sound (s.step w action) ∧ s.QuarantineSound (s.step w action) := by
  refine ⟨step_sound w action h.1, ?_⟩
  cases action with
  | interfere db =>
      rw [step]
      split
      · exact ⟨h.2.within, h.2.committed, h.2.pending⟩
      · exact h.2
  | begin token =>
      rw [step]
      refine ⟨h.2.within, h.2.committed, fun a ha => ?_⟩
      obtain ⟨job, -, rfl⟩ := Option.map_eq_some_iff.mp ha
      trivial
  | statement now loaded =>
      rw [step]
      cases hattempt : w.attempt with
      | none => exact h.2
      | some a => exact h.2.statement h.1 hpolicy hattempt hclear a.advance_statement
  | raise exc =>
      rw [step]
      refine ⟨h.2.within, h.2.committed, fun a ha => ?_⟩
      obtain ⟨attempt, hattempt, rfl⟩ := Option.map_eq_some_iff.mp ha
      obtain ⟨stage, hgoto, hstopped⟩ := attempt.raise_goto exc
      rw [hgoto]
      rcases hstopped with rfl | ⟨exc, summary, rfl⟩
      · trivial
      · trivial

end BackfillJob

/-- The rows of a table, by their dates. -/
theorem perm_rowsOn {dates : List Date} {rows : List OfflineRow} (hnodup : dates.Nodup)
    (hdates : ∀ row ∈ rows, row.eventDate ∈ dates) :
    rows.Perm (dates.flatMap fun date => rowsOn date rows) := by
  induction dates generalizing rows with
  | nil =>
      cases rows with
      | nil => exact .refl _
      | cons row rest => cases hdates row List.mem_cons_self
  | cons date rest ih =>
      obtain ⟨hfresh, hrest⟩ := List.nodup_cons.mp hnodup
      have hleft : ∀ row ∈ rows.filter (fun row => !decide (row.eventDate = date)),
          row.eventDate ∈ rest := by
        intro row hrow
        obtain ⟨hmem, hne⟩ := List.mem_filter.mp hrow
        exact (List.mem_cons.mp (hdates row hmem)).resolve_left (by simpa using hne)
      have hothers := ih hrest hleft
      have hsame : rest.flatMap (fun other => rowsOn other
          (rows.filter fun row => !decide (row.eventDate = date))) =
            rest.flatMap fun other => rowsOn other rows := by
        apply List.flatMap_congr
        intro other hother
        rw [rowsOn, rowsOn, List.filter_filter]
        apply List.filter_congr
        intro row hrow
        by_cases hrowDate : row.eventDate = other
        · have hne : other ≠ date := fun heq => hfresh (heq ▸ hother)
          simp [hrowDate, hne]
        · simp [hrowDate]
      rw [hsame] at hothers
      exact (List.filter_append_perm _ rows).symm.trans (hothers.append_left _)

namespace BackfillJob

variable {s : BackfillJob} {w : BackfillWorld}

/-- The dates of the committed chunks are distinct. -/
theorem Chained.dates_nodup {committed : List ChunkPass} (h : s.Chained committed) :
    (committed.map fun pass => dateOf pass.cursor).Nodup := by
  have hdates : committed.map (fun pass => dateOf pass.cursor) =
      (List.range committed.length).map fun i =>
        dateOf (boundary s.plan.start s.plan.endAt i) := by
    have hcursors := congrArg (List.map dateOf) h.cursors
    rwa [List.map_map, List.map_map] at hcursors
  rw [hdates]
  apply List.Nodup.map_on _ List.nodup_range
  intro i hi j hj hsame
  rw [dateOf_boundary (h.before (List.mem_range.mp hi)),
    dateOf_boundary (h.before (List.mem_range.mp hj))] at hsame
  simp only [Date] at hsame
  omega

/-- A complete chain has a chunk for the date of each instant in the range. -/
theorem Chained.mem_dates {committed : List ChunkPass} (h : s.Chained committed)
    (hreached : s.plan.endAt ≤ s.reached committed) {time : Instant}
    (hstart : s.plan.start ≤ time) (hend : time < s.plan.endAt) :
    dateOf time ∈ committed.map fun pass => dateOf pass.cursor := by
  have hcursors := h.complete hreached
  have hdates : committed.map (fun pass => dateOf pass.cursor) =
      (dayChunks s.plan.start s.plan.endAt).map dateOf := by
    rw [← hcursors, List.map_map]
    rfl
  have hcount : (dateOf time - dateOf s.plan.start).toNat < dayCount s.plan.start s.plan.endAt := by
    simp only [dayCount, dateOf, microsecondsPerDay, Instant] at *
    omega
  have hbefore := (boundary_lt_iff start_lt _).mpr hcount
  rw [hdates, dayChunks, List.map_map, List.mem_map]
  refine ⟨_, List.mem_range.mpr hcount, ?_⟩
  rw [Function.comp_apply, dateOf_boundary hbefore]
  simp only [dateOf, microsecondsPerDay, Instant, Date] at *
  omega

/-- The quarantine table is that of the committed chunks: on each date the rows that were found
invalid, as many as the result counts, and none that the view has. -/
structure QuarantineMatches (s : BackfillJob) (w : BackfillWorld) (job : JobRecord) : Prop where
  rows : ∀ pass ∈ w.committed, rowsOn (dateOf pass.cursor) (quarantineRows w.quarantine) =
    pass.rows.filter fun row => !pass.isValid s.deployment row
  dates : ∀ row ∈ quarantineRows w.quarantine, ∃ pass ∈ w.committed,
    row.eventDate = dateOf pass.cursor
  count : ∃ summary, job.resultMetadata = some (.quality summary) ∧
    (quarantineRows w.quarantine).length = summary.quarantinedRows
  apart : ∀ row ∈ quarantineRows w.quarantine, row ∉ OfflineStore.load w.view

/-- The invalid rows of a committed chunk are not in the view. -/
theorem Sound.invalid_not_in_view (h : s.Sound w) (hpolicy : s.plan.policy = .quarantine)
    {pass : ChunkPass} (hpass : pass ∈ w.committed) {row : OfflineRow}
    (hrow : row ∈ pass.rows) (hinvalid : pass.isValid s.deployment row = false) :
    row ∉ OfflineStore.load w.view := by
  intro hview
  have hinside : pass.inChunk row = true := by
    obtain ⟨hlower, hupper⟩ := pass.inRange row hrow
    rw [ChunkPass.inChunk, Bool.and_eq_true]
    exact ⟨decide_eq_true hlower, decide_eq_true hupper⟩
  have hrows := h.view.chunks pass hpass
  rw [← ChunkPass.inChunk_eq, ChunkPass.kept_eq, (h.chained.passes pass hpass).plan, hpolicy]
    at hrows
  have hkept := hrows.mem_iff.mp (List.mem_filter.mpr ⟨hview, hinside⟩)
  rw [ChunkPass.policyRows] at hkept
  cases hinvalid.symm.trans (List.mem_filter.mp hkept).2

end BackfillJob

/-- In a run in which no attempt finds a chunk without invalid rows while the quarantine table has
rows of its date, the quarantine table of a job that has succeeded is that of the committed
chunks. -/
theorem quarantine_matches_committed (s : BackfillJob) (hpolicy : s.plan.policy = .quarantine)
    (actions : List BackfillAction)
    (hclear : Execution.Along s.step (fun w action => s.clearsNothing w action = true)
      s.beginning actions)
    (job : JobRecord) (hjob : (s.run actions).db.jobs.find? s.job.id = some job)
    (hsucceeded : job.status = .succeeded) : s.QuarantineMatches (s.run actions) job := by
  have hbeginning : s.Sound s.beginning ∧ s.QuarantineSound s.beginning :=
    ⟨BackfillJob.beginning_sound, BackfillJob.beginning_quarantineSound⟩
  obtain ⟨hsound, hquarantine⟩ : s.Sound (s.run actions) ∧ s.QuarantineSound (s.run actions) :=
    Execution.invariant_of_along (BackfillJob.step_quarantineSound hpolicy) hbeginning hclear
  obtain ⟨row, hrow, hrowSound⟩ := hsound.row
  obtain rfl := Option.some.inj (hrow.symm.trans hjob)
  obtain ⟨hreached, hmetadata⟩ := hrowSound.succeeded hsucceeded
  have hdates : ∀ row ∈ quarantineRows (s.run actions).quarantine,
      row.eventDate ∈ (s.run actions).committed.map fun pass => dateOf pass.cursor := by
    intro row hmem
    obtain ⟨hstart, hend⟩ := hquarantine.within row hmem
    rw [row.eventDate_eq]
    exact hsound.chained.mem_dates hreached hstart hend
  have hperm := perm_rowsOn hsound.chained.dates_nodup hdates
  rw [List.flatMap_map] at hperm
  have hinvalid : (s.run actions).committed.flatMap (fun pass => rowsOn (dateOf pass.cursor)
      (quarantineRows (s.run actions).quarantine)) =
        (s.run actions).committed.flatMap fun pass => pass.invalidRows s.deployment :=
    List.flatMap_congr fun pass hpass => hquarantine.committed pass hpass
  rw [hinvalid] at hperm
  refine ⟨hquarantine.committed, fun row hmem => ?_, ⟨s.summary _, hmetadata, ?_⟩,
    fun row hmem => ?_⟩
  · obtain ⟨pass, hpass, hdate⟩ := List.mem_map.mp (hdates row hmem)
    exact ⟨pass, hpass, hdate.symm⟩
  · obtain ⟨-, -, -, hinvalidRows, hquarantined, -⟩ :=
      summaryOf_totals (d := s.deployment) (s.run actions).committed
    rw [hperm.length_eq, List.length_flatMap]
    exact (hquarantined.trans ((if_pos hpolicy).trans hinvalidRows)).symm
  · obtain ⟨pass, hpass, hrowPass⟩ := List.mem_flatMap.mp (hperm.mem_iff.mp hmem)
    obtain ⟨hrow, hnot⟩ := List.mem_filter.mp hrowPass
    exact hsound.invalid_not_in_view hpolicy hpass hrow (Bool.not_eq_true' _ ▸ hnot)

section Sample

/-- Two attempts that find a reading without a level; the first one dies after its write. -/
def missingLevels : List BackfillAction :=
  sensorActions (reading (.str "e1") .null) (reading (.str "e2") .null)

/-- The last reading without a level is the one in quarantine. -/
theorem missing_level_quarantined : ∃ job,
    (sensorBackfill.run missingLevels).db.jobs.find? 1 = some job ∧
    sensorBackfill.QuarantineMatches (sensorBackfill.run missingLevels) job := by
  have hsucceeded : ((sensorBackfill.run missingLevels).db.jobs.find? 1).any
      (fun job => decide (job.status = .succeeded)) = true := by
    decide +kernel
  obtain ⟨job, hjob, hstatus⟩ := (Option.any_eq_true _ _).mp hsucceeded
  rw [decide_eq_true_eq] at hstatus
  exact ⟨job, hjob, quarantine_matches_committed sensorBackfill rfl missingLevels
    (by decide +kernel) job hjob hstatus⟩

/-- The reading without a level is repaired before the second attempt. -/
def repairedLevel : List BackfillAction :=
  sensorActions (reading (.str "e1") .null) (reading (.str "e1") (.int 5))

/-- The summary that the job has as its result. -/
def summaryOf? (job : JobRecord) : Option DataQualitySummary :=
  match job.resultMetadata with
  | some (.quality summary) => some summary
  | _ => none

/-- The row that the first attempt put into quarantine stays there. -/
theorem repaired_row_stays_quarantined :
    ¬∀ (s : BackfillJob) (actions : List BackfillAction) (job : JobRecord),
      s.plan.policy = .quarantine → (s.run actions).db.jobs.find? s.job.id = some job →
        job.status = .succeeded → s.QuarantineMatches (s.run actions) job := by
  intro h
  have hfacts : ((sensorBackfill.run repairedLevel).db.jobs.find? 1).any (fun job =>
      decide (job.status = .succeeded) && (summaryOf? job).any fun summary =>
        decide (summary.quarantinedRows ≠
          (quarantineRows (sensorBackfill.run repairedLevel).quarantine).length)) = true := by
    decide +kernel
  obtain ⟨job, hjob, hfound⟩ := (Option.any_eq_true _ _).mp hfacts
  obtain ⟨hstatus, hdiffers⟩ := Bool.and_eq_true_iff.mp hfound
  obtain ⟨summary, hmetadata, hlength⟩ :=
    (h sensorBackfill repairedLevel job rfl hjob (of_decide_eq_true hstatus)).count
  have hsummary : summaryOf? job = some summary := by rw [summaryOf?, hmetadata]
  rw [hsummary, Option.any_some] at hdiffers
  exact of_decide_eq_true hdiffers hlength.symm

end Sample

end FeatureStore
