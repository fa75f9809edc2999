import FeatureStore.OfflineAppend
import FeatureStore.Library.Execution

/-!
# Overlapping attempts of one append job

An attempt checks its lease before the Delta append, but the append itself
carries no token: an attempt that is paused past its lease still writes the rows
it selected, although another attempt has written them since. The target holds
each staged event at most once in exactly the runs in which every append finds
the table version that it was computed from.
-/

namespace FeatureStore

open Relational

/-- One append job: its view, its staging table and the target before any attempt. -/
structure AppendScenario where
  config : Config
  canonicalRow : OfflineRow → String
  jobId : Uuid
  featureView : String
  stagingUri : StagingUri
  staged : List OfflineRow
  initial : Option DeltaTable

/-- The stores, and the attempts of the job so far. -/
structure AppendRace where
  warehouse : Warehouse
  attempts : List Attempt

/-- A database transaction of any process, the next statement of an attempt, or an
exception in it. -/
inductive RaceAction
  | call (call : Call)
  | statement (k : Nat) (now : Instant)
  | raise (k : Nat) (exc : PyException)

namespace AppendScenario

variable (r : AppendScenario)

/-- The attempt that a transaction starts, if it claims the job. -/
def started (db : Database) (call : Call) : List Attempt :=
  ((claimedAttempt? r.config db call).filter fun a => decide (a.job.id = r.jobId)).toList

def step (s : AppendRace) : RaceAction → AppendRace
  | .call call =>
      { warehouse := { s.warehouse with db := call.apply r.config s.warehouse.db }
        attempts := s.attempts ++ r.started s.warehouse.db call }
  | .statement k now =>
      match s.attempts[k]? with
      | none => s
      | some a =>
          let next := a.advance r.config r.canonicalRow s.warehouse now
          ⟨next.1, s.attempts.set k next.2⟩
  | .raise k exc =>
      match s.attempts[k]? with
      | none => s
      | some a => { s with attempts := s.attempts.set k (a.raise exc) }

/-- The job is stored, with its view and its staging table. -/
def JobStored (db : Database) : Prop :=
  ∃ row, db.jobs.find? r.jobId = some row ∧
    row.payload = .offlineAppend r.featureView r.stagingUri

/-- Each staged event is in the target at most once. -/
def AtMostOnce (table : Option DeltaTable) : Prop :=
  ∀ id ∈ eventIds r.staged, (eventIds (OfflineStore.load table)).count id ≤ 1

instance (table : Option DeltaTable) : Decidable (r.AtMostOnce table) := by
  unfold AtMostOnce
  infer_instance

/-- No attempt has started; the job, its staging table and its target exist, and
the target holds no staged event twice. -/
structure Ready (s : AppendRace) : Prop where
  attempts : s.attempts = []
  job : r.JobStored s.warehouse.db
  staging : (s.warehouse.staging r.stagingUri).map (·.rows) = some r.staged
  target : s.warehouse.views r.featureView = r.initial
  once : r.AtMostOnce r.initial

/-- An append finds the target at the version that its unseen rows were computed from. -/
def UpToDate (s : AppendRace) : RaceAction → Prop
  | .statement k _ => ∀ a comparison, s.attempts[k]? = some a →
      a.stage = .appending comparison →
      s.warehouse.views r.featureView = comparison.target
  | .call _ | .raise _ _ => True

/-- The rows that attempts select before any append has landed. -/
def missingRows : List OfflineRow :=
  match unseenRows r.canonicalRow r.staged (OfflineStore.load r.initial) with
  | .ok unseen => unseen
  | .error _ => []

/-- A comparison made before any append has landed, with something to append. -/
structure FirstComparison (comparison : Comparison) : Prop where
  target : comparison.target = r.initial
  selected : unseenRows r.canonicalRow r.staged (OfflineStore.load r.initial) =
    .ok comparison.unseen
  nonempty : comparison.unseen ≠ []

def StageSound : AppendStage → Prop
  | .loadingTarget rows => rows = r.staged
  | .confirmingOwnership comparison | .appending comparison => r.FirstComparison comparison
  | .starting | .requiringOwnership | .loadingStaging | .checkpointing _ | .finalizing _
  | .cleaning | .failing _ | .ended => True

structure AttemptSound (a : Attempt) : Prop where
  id : a.job.id = r.jobId
  payload : a.job.payload = .offlineAppend r.featureView r.stagingUri
  stage : r.StageSound a.stage

/-- The target after `n` appends: the missing rows, `n` times. -/
structure Landed (n : Nat) (table : Option DeltaTable) : Prop where
  rows : OfflineStore.load table =
    OfflineStore.load r.initial ++ (List.replicate n r.missingRows).flatten
  untouched : n = 0 → table = r.initial
  nonempty : n ≠ 0 → r.missingRows ≠ []

/-- The stores after `n` appends of the job have landed. -/
structure StoresAfter (n : Nat) (w : Warehouse) : Prop where
  job : r.JobStored w.db
  staging : ∀ table, w.staging r.stagingUri = some table → table.rows = r.staged
  target : r.Landed n (w.views r.featureView)

structure Invariant (s : AppendRace) : Prop where
  stores : ∃ n, r.StoresAfter n s.warehouse
  attempts : ∀ a ∈ s.attempts, r.AttemptSound a

variable {r}

theorem FirstComparison.unseen_eq {comparison : Comparison}
    (h : r.FirstComparison comparison) : comparison.unseen = r.missingRows := by
  rw [missingRows, h.selected]

theorem missingRows_spec (h : r.missingRows ≠ []) :
    UnseenSpec r.staged (OfflineStore.load r.initial) r.missingRows := by
  unfold missingRows at h ⊢
  split at h
  · rename_i unseen hunseen
    exact unseenRows_spec hunseen
  · exact absurd rfl h

namespace Landed

variable {n : Nat} {table : Option DeltaTable}

theorem count_eq (h : r.Landed n table) (id : String) :
    (eventIds (OfflineStore.load table)).count id =
      (eventIds (OfflineStore.load r.initial)).count id +
        n * (eventIds r.missingRows).count id := by
  rw [h.rows, eventIds_append, List.count_append]
  congr 1
  rw [eventIds, List.map_flatten, List.count_flatten]
  simp [eventIds]

/-- After an append every staged event is in the target. -/
theorem complete (h : r.Landed n table) (hn : n ≠ 0) :
    ∀ id ∈ eventIds r.staged, id ∈ eventIds (OfflineStore.load table) := by
  intro id hid
  rw [← List.count_pos_iff, h.count_eq]
  rcases (missingRows_spec (h.nonempty hn)).complete id hid with hinitial | hmissing
  · have hpos := List.count_pos_iff.mpr hinitial
    omega
  · have hpos := Nat.mul_pos (Nat.pos_of_ne_zero hn) (List.count_pos_iff.mpr hmissing)
    omega

/-- Each staged event is in the target at most once as long as one append has landed. -/
theorem atMostOnce_iff (h : r.Landed n table) (hinitial : r.AtMostOnce r.initial) :
    r.AtMostOnce table ↔ n ≤ 1 := by
  constructor
  · intro honce
    by_contra hn
    have hspec := missingRows_spec (h.nonempty (by omega))
    obtain ⟨row, rest, hrows⟩ := List.exists_cons_of_ne_nil (h.nonempty (by omega))
    have hrow : row ∈ r.missingRows := by simp [hrows]
    have hcount := honce row.idText (idText_mem_eventIds (hspec.staged row hrow))
    rw [h.count_eq] at hcount
    have hpos : 0 < (eventIds r.missingRows).count row.idText :=
      List.count_pos_iff.mpr (idText_mem_eventIds hrow)
    have htwice := Nat.mul_le_mul (show 2 ≤ n by omega) hpos
    omega
  · intro hn id hid
    rw [h.count_eq]
    rcases Nat.eq_zero_or_pos n with rfl | hpos
    · simpa using hinitial id hid
    · have hspec := missingRows_spec (h.nonempty (by omega))
      have hone : n = 1 := by omega
      subst hone
      by_cases hmissing : id ∈ eventIds r.missingRows
      · rw [List.count_eq_zero_of_not_mem (hspec.absent id hmissing),
          List.count_eq_one_of_mem hspec.nodup hmissing]
      · rw [List.count_eq_zero_of_not_mem hmissing]
        simpa using hinitial id hid

/-- A comparison that finds something to append was made before any append. -/
theorem zero_of_unseen (h : r.Landed n table) {unseen : List OfflineRow}
    (hunseen : unseenRows r.canonicalRow r.staged (OfflineStore.load table) = .ok unseen)
    (hne : unseen ≠ []) : n = 0 := by
  by_contra hn
  have hspec := unseenRows_spec hunseen
  obtain ⟨row, rest, hrows⟩ := List.exists_cons_of_ne_nil hne
  have hrow : row ∈ unseen := by simp [hrows]
  exact hspec.absent _ (idText_mem_eventIds hrow)
    (h.complete hn _ (idText_mem_eventIds (hspec.staged row hrow)))

/-- The target is still the initial table exactly if no append has landed. -/
theorem eq_initial_iff (h : r.Landed n table) : table = r.initial ↔ n = 0 := by
  constructor
  · intro heq
    by_contra hn
    have hlength := congrArg List.length h.rows
    have hpos := List.length_pos_iff.mpr (h.nonempty hn)
    have hmul := Nat.mul_pos (Nat.pos_of_ne_zero hn) hpos
    simp only [heq, List.length_append, List.length_flatten, List.map_replicate,
      List.sum_replicate_nat] at hlength
    omega
  · exact h.untouched

theorem append (h : r.Landed n table) {comparison : Comparison}
    (hfirst : r.FirstComparison comparison) :
    r.Landed (n + 1) (some (OfflineStore.append table comparison.unseen)) where
  rows := by
    rw [OfflineStore.load_some, OfflineStore.append_rows, h.rows, hfirst.unseen_eq,
      List.replicate_succ', List.flatten_append]
    simp
  untouched := fun hn => absurd hn (by omega)
  nonempty := fun _ => hfirst.unseen_eq ▸ hfirst.nonempty

end Landed

theorem JobStored.apply {db : Database} (h : r.JobStored db) (call : Call) :
    r.JobStored (call.apply r.config db) := by
  obtain ⟨row, hrow, hpayload⟩ := h
  obtain ⟨row', hrow', _, hkept⟩ := (call.commit r.config db).job_kept hrow
  exact ⟨row', hrow', hkept.trans hpayload⟩

theorem StoresAfter.apply {n : Nat} {w : Warehouse} (h : r.StoresAfter n w) (call : Call) :
    r.StoresAfter n { w with db := call.apply r.config w.db } :=
  ⟨h.job.apply call, h.staging, h.target⟩

theorem AttemptSound.goto {a : Attempt} {stage : AppendStage} (ha : r.AttemptSound a)
    (hstage : r.StageSound stage) : r.AttemptSound (a.goto stage) :=
  ⟨ha.id, ha.payload, hstage⟩

theorem AttemptSound.raise {a : Attempt} (ha : r.AttemptSound a) (exc : PyException) :
    r.AttemptSound (a.raise exc) := by
  obtain ⟨hjob, hstage⟩ := a.raise_cases exc
  refine ⟨hjob ▸ ha.id, hjob ▸ ha.payload, ?_⟩
  rcases hstage with hstage | hstage <;> rw [hstage] <;> trivial

/-- A refreshed copy of the job still names its view and its staging table. -/
theorem AttemptSound.refreshed {a : Attempt} {db : Database} (ha : r.AttemptSound a)
    (hjob : r.JobStored db) {job : JobRecord} (hstored : db.jobs.find? a.job.id = some job)
    {stage : AppendStage} (hstage : r.StageSound stage) :
    r.AttemptSound ⟨job, a.token, stage⟩ := by
  obtain ⟨row, hrow, hpayload⟩ := hjob
  rw [ha.id] at hstored
  cases hstored.symm.trans hrow
  exact ⟨Table.key_of_find? hstored, hpayload, hstage⟩

theorem AttemptSound.payload? {a : Attempt} (ha : r.AttemptSound a) :
    a.job.payload.offlineAppend? = some (r.featureView, r.stagingUri) := by
  rw [ha.payload]
  rfl

/-- A statement of a sound attempt keeps the stores as they were after `n` appends,
unless it is the append itself, whose comparison then found no append. -/
theorem Statement.race {w w' : Warehouse} {a a' : Attempt} {n : Nat} {now : Instant}
    (h : Statement r.config r.canonicalRow w a now w' a') (ha : r.AttemptSound a)
    (hw : r.StoresAfter n w) :
    r.AttemptSound a' ∧
      (r.StoresAfter n w' ∧ (∀ comparison, a.stage ≠ .appending comparison) ∨
        r.StoresAfter (n + 1) w' ∧
          ∃ comparison, a.stage = .appending comparison ∧ comparison.target = r.initial) := by
  have hstage := ha.stage
  cases h with
  | stopped stage stopped unwritten =>
      refine ⟨ha.goto ?_, Or.inl ⟨hw, fun comparison happending => ?_⟩⟩
      · rcases stopped with rfl | ⟨exc, rfl⟩ <;> trivial
      · cases ha.payload?.symm.trans (unwritten comparison happending)
  | checked stage | required stage =>
      exact ⟨ha.goto trivial, Or.inl ⟨hw, by simp [stage]⟩⟩
  | loadedStaging stage payload found =>
      cases ha.payload?.symm.trans payload
      exact ⟨ha.goto (hw.staging _ found), Or.inl ⟨hw, by simp [stage]⟩⟩
  | compared comparison stage payload target selected =>
      cases ha.payload?.symm.trans payload
      rw [stage] at hstage
      rw [show comparison.staged = r.staged from hstage] at selected
      refine ⟨ha.goto ?_, Or.inl ⟨hw, by simp [stage]⟩⟩
      split
      · trivial
      · rename_i hne
        have hinitial := hw.target.untouched (hw.target.zero_of_unseen selected hne)
        exact ⟨target.trans hinitial, by rw [← hinitial]; exact selected, hne⟩
  | confirmed stage owned =>
      rw [stage] at hstage
      exact ⟨ha.goto hstage, Or.inl ⟨hw, by simp [stage]⟩⟩
  | @appended _ _ comparison stage payload =>
      cases ha.payload?.symm.trans payload
      rw [stage] at hstage
      refine ⟨ha.goto trivial, Or.inr ⟨⟨hw.job, hw.staging, ?_⟩, comparison, stage,
        hstage.target⟩⟩
      simp only [Function.update_self]
      exact hw.target.append hstage
  | @checkpointed _ checkpoints _ _ stage commit =>
      have hjob := hw.job.apply (.commitCheckpoints a.job a.token now checkpoints)
      rw [Call.apply, commit] at hjob
      exact ⟨ha.refreshed hjob (commitCheckpoints_stored commit) trivial,
        Or.inl ⟨⟨hjob, hw.staging, hw.target⟩, by simp [stage]⟩⟩
  | finalized stage commit =>
      have hjob := hw.job.apply (.finalizeSuccess a.job a.token now none none)
      rw [Call.apply, commit] at hjob
      exact ⟨ha.refreshed hjob (finalizeSuccess_stored commit) trivial,
        Or.inl ⟨⟨hjob, hw.staging, hw.target⟩, by simp [stage]⟩⟩
  | cleaned stage payload =>
      cases ha.payload?.symm.trans payload
      refine ⟨ha.goto trivial, Or.inl ⟨⟨hw.job, ?_, hw.target⟩, by simp [stage]⟩⟩
      intro table htable
      simp only [Function.update_self] at htable
      cases htable
  | @failed exc stage =>
      exact ⟨ha.goto trivial, Or.inl
        ⟨hw.apply (.finalizeFailure a.job a.token now exc exc.message none), by simp [stage]⟩⟩

/-- A started attempt holds a copy of the stored job. -/
theorem started_sound {db : Database} (hjob : r.JobStored db) (call : Call) :
    ∀ a ∈ r.started db call, r.AttemptSound a := by
  intro a ha
  have hclaimed : claimedAttempt? r.config db call = some a ∧ a.job.id = r.jobId := by
    simpa [started, Option.filter_eq_some_iff] using ha
  obtain ⟨hattempt, hid⟩ := hclaimed
  unfold claimedAttempt? at hattempt
  split at hattempt
  · rename_i owner now locked token
    split at hattempt
    · rename_i job hjob'
      split at hattempt
      · cases hattempt
        obtain ⟨hstored, _⟩ := claimPass_claimed hjob'
        obtain ⟨row, hrow, hpayload⟩ := hjob.apply (.claimPass owner now locked token)
        cases (hid ▸ hstored).symm.trans hrow
        exact ⟨hid, hpayload, trivial⟩
      · cases hattempt
    · cases hattempt
    · cases hattempt
  all_goals cases hattempt

/-- What a step lands: nothing, or an append whose comparison found no append. -/
theorem Invariant.step_cases {s : AppendRace} (h : r.Invariant s) (action : RaceAction) :
    ∃ n, r.StoresAfter n s.warehouse ∧ (∀ a ∈ (r.step s action).attempts, r.AttemptSound a) ∧
      (r.StoresAfter n (r.step s action).warehouse ∧ r.UpToDate s action ∨
        r.StoresAfter (n + 1) (r.step s action).warehouse ∧
          (r.UpToDate s action ↔ s.warehouse.views r.featureView = r.initial)) := by
  obtain ⟨n, hstores⟩ := h.stores
  refine ⟨n, hstores, ?_⟩
  have hset : ∀ {k a}, r.AttemptSound a → ∀ b ∈ s.attempts.set k a, r.AttemptSound b := by
    intro k a ha b hb
    rcases List.mem_or_eq_of_mem_set hb with hold | rfl
    · exact h.attempts b hold
    · exact ha
  cases action with
  | call call =>
      refine ⟨?_, Or.inl ⟨hstores.apply call, trivial⟩⟩
      intro a ha
      rcases List.mem_append.mp ha with hold | hnew
      · exact h.attempts a hold
      · exact started_sound hstores.job call a hnew
  | raise k exc =>
      cases hk : s.attempts[k]? with
      | none =>
          simp only [step, hk]
          exact ⟨h.attempts, Or.inl ⟨hstores, trivial⟩⟩
      | some a =>
          simp only [step, hk]
          exact ⟨hset ((h.attempts a (List.mem_of_getElem? hk)).raise exc),
            Or.inl ⟨hstores, trivial⟩⟩
  | statement k now =>
      cases hk : s.attempts[k]? with
      | none =>
          simp only [step, hk]
          exact ⟨h.attempts, Or.inl ⟨hstores, by simp [UpToDate, hk]⟩⟩
      | some a =>
          simp only [step, UpToDate, hk]
          have hstatement : Statement r.config r.canonicalRow s.warehouse a now _ _ :=
            Attempt.advance_statement
          obtain ⟨ha, hcases⟩ :=
            Statement.race hstatement (h.attempts a (List.mem_of_getElem? hk)) hstores
          refine ⟨hset ha, ?_⟩
          rcases hcases with ⟨hsame, hnot⟩ | ⟨hlanded, comparison, hstage, htarget⟩
          · refine Or.inl ⟨hsame, ?_⟩
            rintro b comparison hb hstage
            cases hb
            exact absurd hstage (hnot comparison)
          · refine Or.inr ⟨hlanded, ?_⟩
            constructor
            · intro hfresh
              exact (hfresh a comparison rfl hstage).trans htarget
            · rintro hinitial b comparison' hb hstage'
              cases hb
              cases hstage.symm.trans hstage'
              exact hinitial.trans htarget.symm

theorem step_invariant (s : AppendRace) (action : RaceAction) (h : r.Invariant s) :
    r.Invariant (r.step s action) := by
  obtain ⟨n, _, hattempts, ⟨hsame, _⟩ | ⟨hlanded, _⟩⟩ := h.step_cases action
  · exact ⟨⟨n, hsame⟩, hattempts⟩
  · exact ⟨⟨n + 1, hlanded⟩, hattempts⟩

theorem Ready.invariant {s : AppendRace} (h : r.Ready s) : r.Invariant s where
  stores := by
    refine ⟨0, h.job, ?_, by simp [h.target], fun _ => h.target, by simp⟩
    intro table htable
    have hrows := h.staging
    rw [htable] at hrows
    exact Option.some.inj hrows
  attempts := by
    rw [h.attempts]
    simp

/-- A step keeps each staged event at most once exactly if it is up to date. -/
theorem Invariant.atMostOnce_step {s : AppendRace} (h : r.Invariant s)
    (hinitial : r.AtMostOnce r.initial)
    (honce : r.AtMostOnce (s.warehouse.views r.featureView)) (action : RaceAction) :
    r.AtMostOnce ((r.step s action).warehouse.views r.featureView) ↔ r.UpToDate s action := by
  obtain ⟨n, hstores, _, ⟨hsame, hfresh⟩ | ⟨hlanded, hfresh⟩⟩ := h.step_cases action
  · have hn := (hstores.target.atMostOnce_iff hinitial).mp honce
    exact ⟨fun _ => hfresh, fun _ => (hsame.target.atMostOnce_iff hinitial).mpr hn⟩
  · rw [hfresh, hstores.target.eq_initial_iff, hlanded.target.atMostOnce_iff hinitial]
    omega

/-- Every staged event is in the target at most once throughout a run, exactly if
every append of the run finds the table version that it was computed from. -/
theorem at_most_once_iff (r : AppendScenario) (s : AppendRace) (hready : r.Ready s)
    (actions : List RaceAction) :
    Execution.Along r.step (fun s action =>
        r.AtMostOnce ((r.step s action).warehouse.views r.featureView)) s actions ↔
      Execution.Along r.step r.UpToDate s actions :=
  Execution.along_iff (P := fun s => r.AtMostOnce (s.warehouse.views r.featureView))
    step_invariant (fun _ action h honce => h.atMostOnce_step hready.once honce action)
    hready.invariant (by rw [hready.target]; exact hready.once)

/-- One staged event for a view without a table. -/
def sampleScenario : AppendScenario where
  config := defaultConfig
  canonicalRow := OfflineRow.idText
  jobId := 1
  featureView := "driver_stats@1"
  stagingUri := ⟨"driver_stats@1", 9⟩
  staged := [⟨[], 0, some "event", [], 0, dateOf_zero⟩]
  initial := none

def sampleRace : AppendRace where
  warehouse :=
    { db := (stageBatch {} .empty "driver_stats@1" ⟨"driver_stats@1", 9⟩ [] 1 0).1
      staging := fun _ => some ⟨sampleScenario.staged, 0⟩
      views := fun _ => none }
  attempts := []

theorem sampleRace_ready : sampleScenario.Ready sampleRace where
  attempts := rfl
  job := ⟨_, rfl, rfl⟩
  staging := rfl
  target := rfl
  once := by decide

/-- Two attempts up to their `append`: the first is paused there until its lease
has expired and the second has reclaimed the job. -/
def pausedRun : List RaceAction :=
  [.call (.claimPass "first" 0 [] 11)] ++ List.replicate 5 (.statement 0 0) ++
    [.call (.claimPass "second" (seconds 30) [] 12)] ++
      List.replicate 5 (.statement 1 (seconds 30))

/-- Both paused attempts append the staged event. -/
theorem duplicate_append :
    ¬∀ (r : AppendScenario) (s : AppendRace), r.Ready s → ∀ actions,
      Execution.Along r.step (fun s action =>
        r.AtMostOnce ((r.step s action).warehouse.views r.featureView)) s actions := by
  intro h
  have hrun := h sampleScenario sampleRace sampleRace_ready
    (pausedRun ++ [.statement 1 (seconds 30), .statement 0 (seconds 31)])
  exact absurd hrun (by decide)

/-- The first attempt dies after its append; the second finds the event there. -/
theorem at_most_once_iff_after_crash :
    Execution.Along sampleScenario.step sampleScenario.UpToDate sampleRace
      ([.call (.claimPass "first" 0 [] 11)] ++ List.replicate 6 (.statement 0 0) ++
        [.call (.claimPass "second" (seconds 30) [] 12)] ++
          List.replicate 7 (.statement 1 (seconds 30))) :=
  (at_most_once_iff sampleScenario sampleRace sampleRace_ready _).mp (by decide)

end AppendScenario

end FeatureStore
