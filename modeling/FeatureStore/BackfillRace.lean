import FeatureStore.Backfill
import FeatureStore.OfflineAppend
import FeatureStore.Library.Execution

/-!
# A backfill chunk against an offline append

Two workers hold leases of different jobs of one view, so all their ownership
checks return; what interleaves are their accesses to the target table. A chunk
writes a whole date partition back from the version that it loaded, and thereby
drops the rows that the append has put into the partition since.
-/

namespace FeatureStore

/-- The access to the target that the append makes next; `done` records what it wrote. -/
inductive AppendPhase
  | loading
  | appending (comparison : Comparison)
  | done (rows : List OfflineRow)

/-- A chunk of one job and a staging table of another. -/
structure BackfillScenario where
  chunk : BackfillChunk
  canonicalRow : OfflineRow → String
  staged : List OfflineRow
  initial : Option DeltaTable

structure BackfillRace where
  table : Option DeltaTable
  backfill : BackfillChunk.Stage
  append : AppendPhase

/-- The rows that the append has written. -/
def BackfillRace.appended (s : BackfillRace) : List OfflineRow :=
  match s.append with
  | .loading | .appending _ => []
  | .done rows => rows

inductive BackfillRaceAction
  | backfill
  | append
deriving DecidableEq

namespace BackfillScenario

variable (r : BackfillScenario)

/-- The next access of `_offline_append` to the target. -/
def advanceAppend (table : Option DeltaTable) : AppendPhase → Option DeltaTable × AppendPhase
  | .loading =>
      match h : unseenRows r.canonicalRow r.staged (OfflineStore.load table) with
      | .error _ => (table, .done [])
      | .ok unseen =>
          (table, if unseen.isEmpty then .done []
            else .appending ⟨r.staged, table, unseen, unseenRows_spec h⟩)
  | .appending comparison =>
      (some (OfflineStore.append table comparison.unseen), .done comparison.unseen)
  | .done rows => (table, .done rows)

def step (s : BackfillRace) : BackfillRaceAction → BackfillRace
  | .backfill =>
      let next := r.chunk.advance s.table s.backfill
      { s with table := next.1, backfill := next.2 }
  | .append =>
      let next := r.advanceAppend s.table s.append
      { s with table := next.1, append := next.2 }

def start : BackfillRace := ⟨r.initial, .loading, .loading⟩

/-- Every row outside the chunk's range that was in the table, or that the append
has written, is in the table. -/
def Preserves (s : BackfillRace) : Prop :=
  ∀ row, row ∈ OfflineStore.load r.initial ∨ row ∈ s.appended →
    r.chunk.outsideRange row = true → row ∈ OfflineStore.load s.table

/-- An overwrite finds the table version that the chunk loaded; or else the append
wrote nothing on the chunk's date outside the chunk's range. -/
def SafeOverwrite (s : BackfillRace) : BackfillRaceAction → Prop
  | .backfill => ∀ existing, s.backfill = .overwriting existing →
      s.table = some existing ∨
        ∀ row ∈ s.appended, row.eventDate = r.chunk.date → r.chunk.outsideRange row = false
  | .append => True

/-- Until the chunk writes, the table is the initial one with the appended rows. -/
structure Unwritten (s : BackfillRace) : Prop where
  rows : OfflineStore.load s.table = OfflineStore.load r.initial ++ s.appended
  comparison : ∀ comparison, s.append = .appending comparison →
    comparison.target = r.initial ∧ s.table = r.initial
  loaded : ∀ existing, s.backfill = .overwriting existing →
    s.table = some existing ∨
      r.initial = some existing ∧ ∀ id ∈ eventIds s.appended, id ∉ eventIds existing.rows
  untouched : s.append = .loading → s.table = r.initial

def Invariant (s : BackfillRace) : Prop := s.backfill ≠ .written → r.Unwritten s

variable {r} {s : BackfillRace}

theorem start_invariant : r.Invariant r.start := by
  intro _
  refine ⟨by simp [start, BackfillRace.appended], ?_, ?_, fun _ => rfl⟩
  · intro comparison h
    cases h
  · intro existing h
    cases h

/-- What the next access of the append does before the chunk has written. -/
theorem Unwritten.append (h : r.Unwritten s) : r.Unwritten (r.step s .append) := by
  cases happend : s.append with
  | done rows =>
      have hsame : r.step s .append = s := by
        cases s
        cases happend
        rfl
      rw [hsame]
      exact h
  | loading =>
      have htable := h.untouched happend
      have hempty : s.appended = [] := by simp [BackfillRace.appended, happend]
      have hphase : (r.step s .append).appended = [] ∧ (r.step s .append).table = s.table ∧
          (r.step s .append).backfill = s.backfill ∧
          ∀ comparison, (r.step s .append).append = .appending comparison →
            comparison.target = s.table := by
        simp only [step, happend, advanceAppend]
        split
        · refine ⟨rfl, rfl, trivial, ?_⟩
          intro _ h
          cases h
        · rename_i unseen hunseen
          by_cases hnone : unseen.isEmpty = true
          · simp [hnone, BackfillRace.appended]
          · simp only [hnone, Bool.false_eq_true, if_false, BackfillRace.appended, true_and]
            intro comparison hcomparison
            cases hcomparison
            rfl
      obtain ⟨hnothing, htable', hbackfill, htarget⟩ := hphase
      refine ⟨?_, ?_, ?_, fun _ => htable'.trans htable⟩
      · rw [htable', hnothing, ← hempty]
        exact h.rows
      · intro comparison hcomparison
        exact ⟨(htarget comparison hcomparison).trans htable, htable'.trans htable⟩
      · intro existing hexisting
        rw [htable', hnothing, ← hempty]
        exact h.loaded existing (hbackfill ▸ hexisting)
  | appending comparison =>
      obtain ⟨htarget, htable⟩ := h.comparison comparison happend
      have hstep : r.step s .append =
          ⟨some (OfflineStore.append s.table comparison.unseen), s.backfill,
            .done comparison.unseen⟩ := by
        simp [step, happend, advanceAppend]
      rw [hstep]
      refine ⟨?_, ?_, ?_, ?_⟩
      · rw [OfflineStore.load_some, OfflineStore.append_rows, htable]
        rfl
      · intro _ h
        cases h
      · intro existing hexisting
        -- The comparison saw the table that the chunk loaded.
        have hinitial : r.initial = some existing := by
          rcases h.loaded existing hexisting with hsame | ⟨hinitial, _⟩
          · exact htable.symm.trans hsame
          · exact hinitial
        refine Or.inr ⟨hinitial, fun id hid => ?_⟩
        have habsent := comparison.spec.absent id hid
        rwa [htarget, hinitial] at habsent
      · intro h
        cases h

/-- A load by the chunk keeps the relation between the two jobs. -/
theorem Unwritten.backfill (h : r.Unwritten s)
    (hnext : (r.step s .backfill).backfill ≠ .written) : r.Unwritten (r.step s .backfill) := by
  cases hstage : s.backfill with
  | loading =>
      have htable : (r.step s .backfill).table = s.table := by
        simp only [step, hstage, BackfillChunk.advance]
        split <;> rfl
      refine ⟨by rw [htable]; exact h.rows, by rw [htable]; exact h.comparison, ?_,
        by rw [htable]; exact h.untouched⟩
      intro existing hexisting
      refine Or.inl (htable.trans ?_)
      simp only [step, hstage, BackfillChunk.advance] at hexisting
      split at hexisting
      · cases hexisting
        assumption
      · cases hexisting
  | overwriting existing =>
      exact absurd (by simp [step, hstage, BackfillChunk.advance]) hnext
  | creating =>
      refine absurd ?_ hnext
      simp only [step, hstage, BackfillChunk.advance]
      split <;> rfl
  | written => exact absurd (by simp [step, hstage, BackfillChunk.advance]) hnext

theorem step_invariant (s : BackfillRace) (action : BackfillRaceAction) (h : r.Invariant s) :
    r.Invariant (r.step s action) := by
  intro hnext
  cases action with
  | append => exact Unwritten.append (h hnext)
  | backfill =>
      refine Unwritten.backfill (h fun hwritten => hnext ?_) hnext
      simp [step, hwritten, BackfillChunk.advance]

/-- An append keeps every row, and its own rows are in the table afterwards. -/
theorem preserves_append (h : r.Preserves s) : r.Preserves (r.step s .append) := by
  cases happend : s.append with
  | done rows =>
      have hsame : r.step s .append = s := by
        cases s
        cases happend
        rfl
      rwa [hsame]
  | loading =>
      have hphase : (r.step s .append).appended = [] ∧
          (r.step s .append).table = s.table := by
        simp only [step, happend, advanceAppend]
        split
        · exact ⟨rfl, rfl⟩
        · split <;> exact ⟨rfl, rfl⟩
      rintro row (hinitial | happended) houtside
      · rw [hphase.2]
        exact h row (Or.inl hinitial) houtside
      · simp [hphase.1] at happended
  | appending comparison =>
      have hstep : r.step s .append =
          ⟨some (OfflineStore.append s.table comparison.unseen), s.backfill,
            .done comparison.unseen⟩ := by
        simp [step, happend, advanceAppend]
      rw [hstep]
      rintro row (hinitial | happended) houtside
      · exact List.mem_append_left _ (h row (Or.inl hinitial) houtside)
      · exact List.mem_append_right _ happended

/-- An overwrite keeps every row outside the range exactly if it is safe. -/
theorem preserves_overwrite (h : r.Unwritten s) (hkeeps : r.Preserves s) {existing : DeltaTable}
    (hstage : s.backfill = .overwriting existing) :
    r.Preserves (r.step s .backfill) ↔ r.SafeOverwrite s .backfill := by
  have hstep : r.step s .backfill =
      ⟨some (OfflineStore.overwritePartition s.table (r.chunk.replacement existing)
        r.chunk.date), .written, s.append⟩ := by
    simp [step, hstage, BackfillChunk.advance]
  rw [hstep]
  constructor
  · intro hafter existing' hexisting'
    cases hstage.symm.trans hexisting'
    rcases h.loaded existing hstage with hsame | ⟨_, habsent⟩
    · exact Or.inl hsame
    · refine Or.inr fun row hrow hdate => ?_
      by_contra houtside
      rw [Bool.not_eq_false] at houtside
      have hmem := hafter row (Or.inr hrow) houtside
      rw [OfflineStore.load_some, BackfillChunk.mem_overwrite houtside] at hmem
      rcases hmem with ⟨_, hne⟩ | ⟨hexisting, _⟩
      · exact hne hdate
      · exact habsent _ (idText_mem_eventIds hrow) (idText_mem_eventIds hexisting)
  · intro hsafe row hrow houtside
    rw [OfflineStore.load_some, BackfillChunk.mem_overwrite houtside]
    have htable := hkeeps row hrow houtside
    by_cases hdate : row.eventDate = r.chunk.date
    · refine Or.inr ⟨?_, hdate⟩
      rcases hsafe existing hstage with hsame | hinside
      · rwa [hsame] at htable
      · rcases h.loaded existing hstage with hsame | ⟨hinitial, _⟩
        · rwa [hsame] at htable
        · rcases hrow with hbefore | happended
          · rwa [hinitial] at hbefore
          · rw [hinside row happended hdate] at houtside
            cases houtside
    · exact Or.inl ⟨htable, hdate⟩

theorem preserves_step (h : r.Invariant s) (hkeeps : r.Preserves s)
    (action : BackfillRaceAction) :
    r.Preserves (r.step s action) ↔ r.SafeOverwrite s action := by
  cases action with
  | append => exact ⟨fun _ => trivial, fun _ => preserves_append hkeeps⟩
  | backfill =>
      cases hstage : s.backfill with
      | overwriting existing =>
          exact preserves_overwrite (h (by simp [hstage])) hkeeps hstage
      | loading =>
          refine ⟨fun _ existing hexisting => ?_, fun _ => ?_⟩
          · cases hstage.symm.trans hexisting
          · have htable : (r.step s .backfill).table = s.table := by
              simp only [step, hstage, BackfillChunk.advance]
              split <;> rfl
            intro row hrow houtside
            rw [htable]
            exact hkeeps row hrow houtside
      | creating =>
          refine ⟨fun _ existing hexisting => ?_, fun _ => ?_⟩
          · cases hstage.symm.trans hexisting
          · intro row hrow houtside
            have hmem := hkeeps row hrow houtside
            simp only [step, hstage, BackfillChunk.advance]
            split
            · exact hmem
            · exact List.mem_append_left _ hmem
      | written =>
          refine ⟨fun _ existing hexisting => ?_, fun _ => ?_⟩
          · cases hstage.symm.trans hexisting
          · have hsame : r.step s .backfill = s := by
              cases s
              cases hstage
              rfl
            rwa [hsame]

/-- In every interleaving, rows outside the chunk's range survive throughout the
run exactly if every overwrite of the run is safe. -/
theorem preserves_iff (r : BackfillScenario) (actions : List BackfillRaceAction) :
    Execution.Along r.step (fun s action => r.Preserves (r.step s action)) r.start actions ↔
      Execution.Along r.step r.SafeOverwrite r.start actions := by
  refine Execution.along_iff step_invariant
    (fun _ action h hkeeps => preserves_step h hkeeps action) start_invariant ?_
  rintro row (hinitial | happended) _
  · exact hinitial
  · cases happended

/-- The chunk covers the first ten microseconds of a day, and one event of the
twentieth is staged. -/
def sampleScenario : BackfillScenario where
  chunk := ⟨0, 10, [], by decide, by simp⟩
  canonicalRow := OfflineRow.idText
  staged := [⟨[], 20, some "event", [], 0, rfl⟩]
  initial := some ⟨[], 0⟩

/-- The append lands between the load and the overwrite, and its row is lost. -/
theorem lost_append :
    ¬∀ (r : BackfillScenario) (actions : List BackfillRaceAction),
      Execution.Along r.step (fun s action => r.Preserves (r.step s action)) r.start
        actions := by
  intro h
  have hrun := h sampleScenario [.backfill, .append, .append, .backfill]
  have hlost := hrun.2.2.2.1 ⟨[], 20, some "event", [], 0, rfl⟩ (Or.inr (.head _)) rfl
  cases hlost

end BackfillScenario

end FeatureStore
