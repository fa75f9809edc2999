import FeatureStore.BackfillResume
import FeatureStore.LatestRow

/-!
# Events of backfilled rows

The batch output may have any text as an event id, or none; the event that a materialization
builds of a row may not. Rows that a scan can return are those that no other row of their entity
and timestamp outranks, and the writes of a backfill settle which ones they are.
-/

namespace FeatureStore

/-- `ROW_NUMBER()` is 1 in the first row of a partition only. -/
def LatestQuery.TakesFirst (query : LatestQuery) : Prop :=
  ∀ rows, ∀ row ∈ query.run rows, ∀ other ∈ rows,
    other.entityValues = row.entityValues → other.rank ≤ row.rank

theorem latestQuery_takesFirst : latestQuery.TakesFirst := by
  intro rows row hrow other hother hentity
  obtain ⟨-, hmax⟩ := LastWriter.isLatest_newest (mem_latestRows.mp hrow)
  exact hmax other (List.mem_filter.mpr ⟨hother, decide_eq_true hentity⟩)

/-- The bounds of `StreamFeatureEvent.event_id`. -/
def OfflineRow.isIdentified (row : OfflineRow) : Bool :=
  row.eventId.any fun eventId => decide (1 ≤ eventId.length ∧ eventId.length ≤ 256)

/-- Two rows of an entity at a time. -/
def OfflineRow.coincides (row other : OfflineRow) : Prop :=
  other.entityValues = row.entityValues ∧ other.eventTimestamp = row.eventTimestamp

instance (row other : OfflineRow) : Decidable (row.coincides other) :=
  inferInstanceAs (Decidable (_ ∧ _))

/-- The rows that no row of their entity and timestamp outranks have event ids within bounds. -/
def leadersIdentified (rows : List OfflineRow) : Bool :=
  rows.all fun row =>
    row.isIdentified || rows.any fun other => decide (row.coincides other ∧ row.rank < other.rank)

/-- Every materialization of the table builds the events of its latest rows. -/
def BuildsEvents (query : LatestQuery) (view : Option DeltaTable) : Prop :=
  ∀ scan : MaterializationScan, view = some scan.source → ∀ row ∈ scan.latest query,
    ∃ event, row.streamEvent scan.plan.viewRef = .ok event

section Leaders

variable {rows others : List OfflineRow} {row : OfflineRow}

theorem leadersIdentified_iff : leadersIdentified rows = true ↔
    ∀ row ∈ rows, (∀ other ∈ rows, row.coincides other → other.rank ≤ row.rank) →
      row.isIdentified = true := by
  rw [leadersIdentified, List.all_eq_true]
  refine forall₂_congr fun row hrow => ?_
  rw [Bool.or_eq_true, List.any_eq_true, or_iff_not_imp_right]
  refine imp_congr_left ?_
  simp only [decide_eq_true_eq, not_exists, not_and, not_lt]

/-- Which rows there are decides, not how many times and in which order. -/
theorem leadersIdentified_congr (h : ∀ row, row ∈ rows ↔ row ∈ others) :
    leadersIdentified rows = leadersIdentified others := by
  rw [Bool.eq_iff_iff, leadersIdentified_iff, leadersIdentified_iff]
  simp only [h]

/-- Rows with one timestamp lie on the same side of a bound on timestamps. -/
theorem leadersIdentified_split (P : Instant → Bool) :
    leadersIdentified rows = true ↔
      leadersIdentified (rows.filter fun row => P row.eventTimestamp) = true ∧
        leadersIdentified (rows.filter fun row => !P row.eventTimestamp) = true := by
  simp only [leadersIdentified_iff, List.mem_filter]
  constructor
  · refine fun h => ⟨fun row hrow hleads => ?_, fun row hrow hleads => ?_⟩
    · refine h row hrow.1 fun other hother hsame => hleads other ⟨hother, ?_⟩ hsame
      rw [hsame.2]
      exact hrow.2
    · refine h row hrow.1 fun other hother hsame => hleads other ⟨hother, ?_⟩ hsame
      rw [hsame.2]
      exact hrow.2
  · rintro ⟨hinside, houtside⟩ row hrow hleads
    cases hP : P row.eventTimestamp with
    | true => exact hinside row ⟨hrow, hP⟩ fun other hother => hleads other hother.1
    | false =>
        refine houtside row ⟨hrow, ?_⟩ fun other hother => hleads other hother.1
        rw [hP]
        rfl

/-- A row gives an event when its id is within bounds. -/
theorem streamEvent_ok_iff (viewRef : String) :
    (∃ event, row.streamEvent viewRef = .ok event) ↔ row.isIdentified = true := by
  rw [OfflineRow.streamEvent.eq_def, OfflineRow.isIdentified]
  cases row.eventId with
  | none => simp
  | some eventId =>
      rw [Option.any_some, decide_eq_true_eq]
      dsimp only
      split
      · rename_i hbounds
        exact iff_of_true ⟨_, rfl⟩ hbounds
      · rename_i hbounds
        refine iff_of_false ?_ hbounds
        split
        · simp
        · simp

/-- The table builds events in every materialization exactly if its leaders are identified. -/
theorem buildsEvents_iff {query : LatestQuery} (hfirst : query.TakesFirst)
    {view : Option DeltaTable} :
    BuildsEvents query view ↔ leadersIdentified (OfflineStore.load view) = true := by
  cases view with
  | none => exact iff_of_true nofun rfl
  | some source =>
      rw [leadersIdentified_iff, OfflineStore.load_some]
      constructor
      · intro h row hrow hleads
        -- The scan of the row's own instant returns a row that it does not outrank.
        let scan : MaterializationScan :=
          ⟨⟨"", .explicit, some row.eventTimestamp, row.eventTimestamp + 1, 0, none, none⟩, source⟩
        have hscanned : row ∈ scan.rows :=
          OfflineStore.mem_loadRange.mpr
            ⟨hrow, fun start hstart => (Option.some.inj hstart).ge, Int.lt_succ _⟩
        obtain ⟨latest, hlatest, hentity, hrank⟩ := query.newest scan.rows row hscanned
        obtain ⟨hmem, hlower, hupper⟩ := OfflineStore.mem_loadRange.mp (query.scanned _ _ hlatest)
        have htimestamp : latest.eventTimestamp = row.eventTimestamp :=
          le_antisymm (Int.le_of_lt_add_one hupper) (hlower _ rfl)
        have hsame := le_antisymm (hleads latest hmem ⟨hentity, htimestamp⟩) hrank
        have hidentified := (streamEvent_ok_iff scan.plan.viewRef).mp (h scan rfl latest hlatest)
        rwa [OfflineRow.isIdentified, (rank_eq_iff.mp hsame).2] at hidentified
      · intro h scan hsource row hrow
        obtain rfl := Option.some.inj hsource
        obtain ⟨hmem, hlower, hupper⟩ := OfflineStore.mem_loadRange.mp (query.scanned _ _ hrow)
        refine (streamEvent_ok_iff _).mpr (h row hmem fun other hother hsame => ?_)
        refine hfirst scan.rows row hrow other ?_ hsame.1
        refine OfflineStore.mem_loadRange.mpr ⟨hother, ?_⟩
        rw [hsame.2]
        exact ⟨hlower, hupper⟩

end Leaders

namespace BackfillJob

variable (s : BackfillJob)

/-- What a write is about to put into the view has identified leaders. -/
def writesIdentified (w : BackfillWorld) : BackfillAction → Bool
  | .statement _ _ => w.attempt.all fun a =>
      match a.stage with
      | .accessing pass (.overwriting existing) =>
          pass.refused s.deployment (.overwriting existing) ||
            leadersIdentified (pass.kept s.deployment)
      | .accessing pass .creating =>
          pass.refused s.deployment .creating || leadersIdentified (pass.kept s.deployment)
      | _ => true
  | .interfere _ | .begin _ | .raise _ => true

variable {s} {w : BackfillWorld} {a : BackfillAttempt} {pass : ChunkPass}

/-- A write settles which rows lead in the range of its chunk, and leaves those outside. -/
theorem leadersIdentified_written {chunk : BackfillChunk} {view view' : Option DeltaTable}
    (hsettled : AccessSound chunk view' .written)
    (houtside : ∀ P : OfflineRow → Bool, (∀ row, P row = true → chunk.outsideRange row = true) →
      ((OfflineStore.load view').filter P).Perm ((OfflineStore.load view).filter P))
    (h : leadersIdentified (OfflineStore.load view) = true) :
    leadersIdentified (OfflineStore.load view') = leadersIdentified chunk.output := by
  let P : Instant → Bool := fun time =>
    decide (time < chunk.cursor) || decide (chunkEnd chunk.cursor chunk.endAt ≤ time)
  have hkept := houtside (fun row => P row.eventTimestamp) fun row hrow => hrow
  have hbefore := ((leadersIdentified_split P).mp h).1
  rw [← leadersIdentified_congr fun row => hkept.mem_iff] at hbefore
  have hinside : ((OfflineStore.load view').filter fun row => !P row.eventTimestamp) =
      chunk.output := hsettled
  rw [Bool.eq_iff_iff, leadersIdentified_split P, hbefore, hinside]
  simp only [true_and]

/-- Only an access writes to the view. -/
theorem view_of_statement {d : BackfillDeployment} {w stores : BackfillStores}
    {a next : BackfillAttempt} {now : Instant} {loaded : Except PyException ArrowTable}
    (h : BackfillStatement d w a now loaded stores next)
    (hstage : ∀ pass access, a.stage ≠ .accessing pass access) : stores.view = w.view := by
  cases h with
  | accessed stage => exact absurd stage (hstage _ _)
  | _ => rfl

theorem accessed_view {d : BackfillDeployment} {w : BackfillStores} {access : BackfillChunk.Stage}
    {now : Instant} {loaded : Except PyException ArrowTable}
    (h : a.stage = .accessing pass access) :
    (a.advance d w now loaded).1.view =
      if pass.refused d access then w.view else ((pass.chunk d).advance w.view access).1 := by
  simp only [BackfillAttempt.advance, h]
  split
  · rfl
  · rfl

theorem creating_written (chunk : BackfillChunk) (view : Option DeltaTable) :
    (chunk.advance view .creating).2 = .written := by
  rw [BackfillChunk.advance]
  split
  · rfl
  · rfl

/-- A statement keeps the leaders identified exactly if what it writes has identified leaders. -/
theorem statement_leaders (hsound : s.Sound w) (hattempt : w.attempt = some a) {now : Instant}
    {loaded : Except PyException ArrowTable}
    (h : leadersIdentified (OfflineStore.load w.view) = true) :
    leadersIdentified (OfflineStore.load
        (a.advance s.deployment w.toBackfillStores now loaded).1.view) =
      s.writesIdentified w (.statement now loaded) := by
  have hstage := (hsound.attempt a hattempt).stage
  rw [writesIdentified, hattempt, Option.all_some]
  cases hcurrent : a.stage with
  | accessing pass access =>
      rw [hcurrent] at hstage
      obtain ⟨hsettled, houtside⟩ := access_sound hstage.2.2
        (Prod.mk.eta (p := (pass.chunk s.deployment).advance w.view access)).symm
      rw [accessed_view hcurrent]
      cases access with
      | loading =>
          cases hview : w.view with
          | none => rfl
          | some existing =>
              rw [hview] at h
              exact h
      | written => exact h
      | overwriting existing =>
          cases hrefused : pass.refused s.deployment (.overwriting existing) with
          | true =>
              rw [if_pos rfl]
              simpa only [hrefused, Bool.true_or] using h
          | false =>
              rw [if_neg Bool.false_ne_true, leadersIdentified_written hsettled houtside h]
              simp only [hrefused, Bool.false_or]
              rfl
      | creating =>
          rw [creating_written] at hsettled
          cases hrefused : pass.refused s.deployment .creating with
          | true =>
              rw [if_pos rfl]
              simpa only [hrefused, Bool.true_or] using h
          | false =>
              rw [if_neg Bool.false_ne_true, leadersIdentified_written hsettled houtside h]
              simp only [hrefused, Bool.false_or]
              rfl
  | _ =>
      rw [view_of_statement a.advance_statement (by simp [hcurrent])]
      exact h

/-- A step keeps the leaders identified exactly if what it writes has identified leaders. -/
theorem step_leaders (w : BackfillWorld) (action : BackfillAction) (hsound : s.Sound w)
    (h : leadersIdentified (OfflineStore.load w.view) = true) :
    leadersIdentified (OfflineStore.load (s.step w action).view) = true ↔
      s.writesIdentified w action = true := by
  cases action with
  | interfere db =>
      rw [step]
      split
      · exact iff_of_true h rfl
      · exact iff_of_true h rfl
  | begin token => exact iff_of_true h rfl
  | statement now loaded =>
      rw [step]
      cases hattempt : w.attempt with
      | none =>
          refine iff_of_true h ?_
          rw [writesIdentified, hattempt]
          rfl
      | some a => exact Bool.eq_iff_iff.mp (statement_leaders hsound hattempt h)
  | raise exc => exact iff_of_true h rfl

end BackfillJob

section Sample

/-- A backfill of one reading. -/
def oneReading (eventId : Value) : List BackfillAction :=
  sensorAttempt sensorJobs 0 11 12 (reading eventId (.int 5))

end Sample

end FeatureStore
