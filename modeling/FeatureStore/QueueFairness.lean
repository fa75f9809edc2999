import FeatureStore.ClaimNext
import FeatureStore.JobRows
import Mathlib.Algebra.Order.BigOperators.Group.List

/-!
# Waiting jobs are overtaken boundedly often

`claim_next` takes the first eligible job of the queue whose row no other worker has locked. A job
that waits is passed over only for jobs before it, and each of these is taken at most once for
each attempt that it has left and once to be exhausted.
-/

namespace FeatureStore

open Relational

namespace JobRecord

/-- The job comes before another one in the queue. -/
def precedes (a b : JobRecord) : Bool := decide (a.queueOrder b) && decide (a.id ≠ b.id)

/-- How often passes of `claim_next` can still take the job: for its attempts left, and to exhaust
it. -/
def turnsLeft (row : JobRecord) : Nat :=
  if row.status.isActive then (row.maxAttempts - row.attemptCount).toNat + 1 else 0

end JobRecord

/-- The turns left of the jobs before another one. -/
def turnsBefore (jobs : JobTable) (row : JobRecord) : Nat :=
  ((jobs.select fun other => other.precedes row).map (·.turnsLeft)).sum

/-- A pass of `claim_next` at which the job can be taken. -/
def waitsAt (jobId : Uuid) (s : JobSystem) : JobAction → Bool
  | .call (.claimPass owner now locked token) =>
      decide (s.Admits (.claimPass owner now locked token)) &&
        (s.db.jobs.find? jobId).any fun row => row.eligible now && !locked.contains row.id
  | _ => false

/-- A pass of `claim_next` at which the job can be taken and is left as it is. -/
def overtakes (config : Config) (jobId : Uuid) (s : JobSystem) (action : JobAction) : Bool :=
  waitsAt jobId s action &&
    decide ((s.step config action).db.jobs.find? jobId = s.db.jobs.find? jobId)

/-- No job before the given one becomes active: none is submitted or retried there. -/
def KeepsPlace (config : Config) (row : JobRecord) (s : JobSystem) (action : JobAction) : Prop :=
  ∀ after ∈ (s.step config action).db.jobs.rows, after.precedes row = true →
    after.status.isActive = true →
      ∃ before ∈ s.db.jobs.rows, before.id = after.id ∧ before.status.isActive = true

instance decidableKeepsPlace (config : Config) (row : JobRecord) (s : JobSystem)
    (action : JobAction) : Decidable (KeepsPlace config row s action) := by
  unfold KeepsPlace
  infer_instance

section Turns

variable {config : Config} {s : JobSystem} {action : JobAction} {row row' candidate : JobRecord}

theorem JobRecord.turnsLeft_of_inactive (h : row.status.isActive = false) : row.turnsLeft = 0 := by
  rw [turnsLeft, h, if_neg Bool.false_ne_true]

theorem JobRecord.turnsLeft_of_active (h : row.status.isActive = true) :
    row.turnsLeft = (row.maxAttempts - row.attemptCount).toNat + 1 := by
  rw [turnsLeft, if_pos h]

theorem RowStep.createdAt_eq (h : RowStep config s action row row') :
    row'.createdAt = row.createdAt := by
  cases h <;> rfl

theorem RowStep.id_eq (h : RowStep config s action row row') : row'.id = row.id := by
  cases h <;> rfl

/-- A row that does not become active gets no further turns. -/
theorem RowStep.turnsLeft_le (h : RowStep config s action row row')
    (hactive : row'.status.isActive = true → row.status.isActive = true) :
    row'.turnsLeft ≤ row.turnsLeft := by
  have hrunning : ∀ {token now}, row.ownedBy token now = true → row.status.isActive = true := by
    intro token now howned
    rw [JobRecord.running_of_ownedBy howned]
    rfl
  cases h with
  | kept | renewed | checkpointed | cleaned => exact Nat.le_refl _
  | cancelled | exhausted | succeeded =>
      rw [JobRecord.turnsLeft_of_inactive (by rfl)]
      exact Nat.zero_le _
  | retried _ _ _ hresettable =>
      have hinactive : row.status.isActive = false := by
        revert hresettable
        cases row.status <;> simp [JobStatus.isResettable, JobStatus.isActive]
      rw [hactive rfl] at hinactive
      cases hinactive
  | claimed owner now locked token _ heligible =>
      rw [JobRecord.turnsLeft_of_active (JobRecord.isActive_of_eligible heligible),
        JobRecord.turnsLeft_of_active (by rfl)]
      simp only [setClaimed, setJob]
      omega
  | failed job token now exc error metadata _ _ howned =>
      rw [JobRecord.turnsLeft_of_active (hrunning howned), JobRecord.turnsLeft]
      split
      · exact Nat.le_refl _
      · exact Nat.zero_le _

/-- The pass that takes a row uses one of its turns. -/
theorem claimPass_turn {settings : Settings} {db : Database} {owner : String} {now : Instant}
    {locked : List Uuid} {token : Uuid} (h : claimCandidate db locked now = some candidate) :
    ∃ after, (claimPass settings db owner now locked token).1.jobs.find? candidate.id =
      some after ∧ after.turnsLeft < candidate.turnsLeft := by
  obtain ⟨hstored, heligible⟩ := claimCandidate_stored h
  rw [JobRecord.turnsLeft_of_active (JobRecord.isActive_of_eligible heligible)]
  by_cases hspent : candidate.maxAttempts ≤ candidate.attemptCount
  · refine ⟨(setExhausted settings candidate now).set candidate, ?_, Nat.succ_pos _⟩
    obtain ⟨hcount, hupdate⟩ := Table.update_hit
      (fun row : JobRecord => row.eligible now && decide (row.maxAttempts ≤ row.attemptCount))
      hstored (by simp [heligible, hspent])
    simp only [claimPass, h, if_pos hspent, if_neg hcount, hupdate,
      releaseIncrementalReservation_jobs, Table.find?_modify_self, hstored, Option.map_some]
  · have hleft : (candidate.attemptCount : Int) < candidate.maxAttempts := by omega
    refine ⟨(setClaimed settings candidate owner token now).set candidate, ?_, ?_⟩
    · obtain ⟨hcount, hupdate⟩ := Table.update_hit
        (fun row : JobRecord =>
          row.eligible now && decide ((row.attemptCount : Int) < row.maxAttempts))
        hstored (by simp [heligible, hleft])
      simp only [claimPass, h, if_neg hspent, if_neg hcount, hupdate, Table.find?_modify_self,
        hstored, Option.map_some]
    · rw [JobRecord.turnsLeft_of_active (by rfl)]
      simp only [setClaimed, setJob]
      omega

end Turns

/-- The turns left of a stored job. -/
def turnsOf (jobs : JobTable) (id : Uuid) : Nat := (jobs.find? id).elim 0 (·.turnsLeft)

/-- The job stays where it is in the queue, behind the listed jobs. -/
structure InQueue (row : JobRecord) (ahead : List Uuid) (s : JobSystem) : Prop where
  stored : ∃ current, s.db.jobs.find? row.id = some current ∧ current.createdAt = row.createdAt
  listed : ∀ {id other}, s.db.jobs.find? id = some other → other.precedes row = true →
    other.status.isActive = true → id ∈ ahead
  ahead : ∀ id ∈ ahead, ∃ other, s.db.jobs.find? id = some other ∧ other.precedes row = true

section Queue

variable {config : Config} {s : JobSystem} {action : JobAction} {row : JobRecord}
  {ahead : List Uuid}

theorem JobRecord.precedes_congr {a a' b b' : JobRecord} (ha : a'.createdAt = a.createdAt)
    (hida : a'.id = a.id) (hb : b'.createdAt = b.createdAt) (hidb : b'.id = b.id) :
    a'.precedes b' = a.precedes b := by
  simp only [precedes, queueOrder, ha, hida, hb, hidb]

theorem InQueue.step (h : InQueue row ahead s) (hplace : KeepsPlace config row s action) :
    InQueue row ahead (s.step config action) where
  stored := by
    obtain ⟨current, hcurrent, hcreated⟩ := h.stored
    obtain ⟨after, hafter, hstep⟩ := JobSystem.step_row config action hcurrent
    exact ⟨after, hafter, hstep.createdAt_eq.trans hcreated⟩
  listed := by
    intro id other hother hprecedes hactive
    obtain ⟨before, hbefore, hid, hbeforeActive⟩ :=
      hplace other (Table.mem_of_find? hother) hprecedes hactive
    have hstored := Table.find?_of_mem hbefore
    rw [hid, Table.key_of_find? hother] at hstored
    obtain ⟨after, hafter, hstep⟩ := JobSystem.step_row config action hstored
    obtain rfl := Option.some.inj (hafter.symm.trans hother)
    refine h.listed hstored ?_ hbeforeActive
    rwa [JobRecord.precedes_congr hstep.createdAt_eq hstep.id_eq rfl rfl] at hprecedes
  ahead := by
    intro id hid
    obtain ⟨other, hother, hprecedes⟩ := h.ahead id hid
    obtain ⟨after, hafter, hstep⟩ := JobSystem.step_row config action hother
    refine ⟨after, hafter, ?_⟩
    rwa [JobRecord.precedes_congr hstep.createdAt_eq hstep.id_eq rfl rfl]

/-- No step gives further turns to the jobs ahead. -/
theorem InQueue.turnsOf_le (h : InQueue row ahead s) (hplace : KeepsPlace config row s action) :
    ∀ id ∈ ahead, turnsOf (s.step config action).db.jobs id ≤ turnsOf s.db.jobs id := by
  intro id hid
  obtain ⟨other, hother, hprecedes⟩ := h.ahead id hid
  obtain ⟨after, hafter, hstep⟩ := JobSystem.step_row config action hother
  rw [turnsOf, turnsOf, hafter, hother]
  refine hstep.turnsLeft_le fun hactive => ?_
  have hlater : after.precedes row = true := by
    rwa [JobRecord.precedes_congr hstep.createdAt_eq hstep.id_eq rfl rfl]
  obtain ⟨before, hbefore, hsame, hbeforeActive⟩ :=
    hplace after (Table.mem_of_find? hafter) hlater hactive
  have hstored := Table.find?_of_mem hbefore
  rw [hsame, hstep.id_eq, Table.key_of_find? hother, hother] at hstored
  obtain rfl := Option.some.inj hstored
  exact hbeforeActive

/-- A pass that overtakes the job takes one of the jobs ahead. -/
theorem InQueue.turnsOf_lt (h : InQueue row ahead s)
    (hovertakes : overtakes config row.id s action = true) :
    ∃ id ∈ ahead, turnsOf (s.step config action).db.jobs id < turnsOf s.db.jobs id := by
  obtain ⟨current, hcurrent, hcreated⟩ := h.stored
  obtain ⟨hwaits, hsame⟩ := Bool.and_eq_true_iff.mp hovertakes
  rw [decide_eq_true_eq, hcurrent] at hsame
  unfold waitsAt at hwaits
  split at hwaits
  · rename_i owner now locked token
    rw [hcurrent, Option.any_some, Bool.and_eq_true, decide_eq_true_eq] at hwaits
    obtain ⟨hadmits, hselectable⟩ := hwaits
    have hstep : (s.step config (.call (.claimPass owner now locked token))).db =
        (claimPass config.settings s.db owner now locked token).1 := by
      rw [JobSystem.step, if_pos hadmits]
      rfl
    rw [hstep] at hsame ⊢
    cases hcandidate : claimCandidate s.db locked now with
    | none =>
        have hfalse := Table.selectFirst_eq_none_iff.mp hcandidate current
          (Table.mem_of_find? hcurrent)
        rw [hselectable] at hfalse
        cases hfalse
    | some candidate =>
        obtain ⟨after, hafter, hless⟩ :=
          @claimPass_turn candidate config.settings s.db owner now locked token hcandidate
        obtain ⟨hstored, heligible⟩ := claimCandidate_stored hcandidate
        have horder : candidate.queueOrder current :=
          Table.selectFirst_le hcandidate (Table.mem_of_find? hcurrent) hselectable
        have hid : current.id = row.id := Table.key_of_find? hcurrent
        have hne : candidate.id ≠ row.id := by
          intro heq
          rw [heq] at hstored hafter
          obtain rfl := Option.some.inj (hstored.symm.trans hcurrent)
          obtain rfl := Option.some.inj (hafter.symm.trans hsame)
          exact Nat.lt_irrefl _ hless
        have hprecedes : candidate.precedes row = true := by
          have hsame : candidate.precedes current = candidate.precedes row :=
            JobRecord.precedes_congr rfl rfl hcreated hid
          rw [← hsame]
          simp [JobRecord.precedes, horder, hid, hne]
        refine ⟨candidate.id, h.listed hstored hprecedes
          (JobRecord.isActive_of_eligible heligible), ?_⟩
        rw [turnsOf, turnsOf, hafter, hstored]
        exact hless
  · cases hwaits

end Queue

/-- The jobs before another one, by their ids. -/
theorem turnsBefore_eq (jobs : JobTable) (row : JobRecord) :
    turnsBefore jobs row =
      (((jobs.select fun other => other.precedes row).map (·.id)).map (turnsOf jobs)).sum := by
  rw [turnsBefore, List.map_map]
  congr 1
  apply List.map_congr_left
  intro other hother
  rw [Function.comp_apply, turnsOf, Table.find?_of_mem ((Table.mem_select _ _ _).mp hother).1]
  rfl

/-- As long as no job before it becomes active, a job is passed over at most once for each turn
left of the jobs before it; any other pass at which it can be taken claims it or exhausts it. -/
theorem overtaken_boundedly (config : Config) (s : JobSystem) (row : JobRecord)
    (hrow : s.db.jobs.find? row.id = some row) (actions : List JobAction)
    (hplace : Execution.Along (JobSystem.step config) (KeepsPlace config row) s actions) :
    Execution.count (JobSystem.step config) (overtakes config row.id) s actions ≤
        turnsBefore s.db.jobs row ∧
      Execution.Along (JobSystem.step config) (fun s action =>
        waitsAt row.id s action = true → overtakes config row.id s action = false →
          ∃ current after, s.db.jobs.find? row.id = some current ∧
            (s.step config action).db.jobs.find? row.id = some after ∧
            ((∃ owner token now,
              after = (setClaimed config.settings current owner token now).set current) ∨
            ∃ now, after = (setExhausted config.settings current now).set current))
        s actions := by
  let ahead := (s.db.jobs.select fun other => other.precedes row).map (·.id)
  have hqueue : InQueue row ahead s := by
    refine ⟨⟨row, hrow, rfl⟩, fun {id other} hother hprecedes _ => ?_, fun id hid => ?_⟩
    · refine List.mem_map.mpr ⟨other, ?_, Table.key_of_find? hother⟩
      exact (Table.mem_select _ _ _).mpr ⟨Table.mem_of_find? hother, hprecedes⟩
    · obtain ⟨other, hother, rfl⟩ := List.mem_map.mp hid
      rw [Table.mem_select] at hother
      exact ⟨other, Table.find?_of_mem hother.1, hother.2⟩
  constructor
  · have hcount := Execution.count_add_le (I := InQueue row ahead)
      (m := fun s => (ahead.map (turnsOf s.db.jobs)).sum)
      (p := overtakes config row.id)
      (fun _ _ h hplace => h.step hplace)
      (fun s action h hplace => by
        cases hovertakes : overtakes config row.id s action with
        | false =>
            rw [Bool.toNat_false, Nat.zero_add]
            exact List.sum_le_sum (h.turnsOf_le hplace)
        | true =>
            rw [Bool.toNat_true, Nat.add_comm]
            exact List.sum_lt_sum _ _ (h.turnsOf_le hplace) (h.turnsOf_lt hovertakes))
      hqueue hplace
    rw [turnsBefore_eq]
    exact le_trans (Nat.le_add_right _ _) hcount
  · apply Execution.along_of (fun _ _ h hplace => InQueue.step h hplace) ?_ hqueue hplace
    intro s action h _ hwaits hnot
    obtain ⟨current, hcurrent, -⟩ := h.stored
    obtain ⟨after, hafter, hstep⟩ := JobSystem.step_row config action hcurrent
    refine ⟨current, after, hcurrent, hafter, ?_⟩
    have hchanged : after ≠ current := by
      rintro rfl
      rw [overtakes, hwaits, hafter, hcurrent] at hnot
      simp at hnot
    cases hstep with
    | kept => exact absurd rfl hchanged
    | claimed owner now locked token => exact Or.inl ⟨owner, token, now, rfl⟩
    | exhausted owner now => exact Or.inr ⟨now, rfl⟩
    | cancelled | retried | renewed | checkpointed | succeeded | failed | cleaned => cases hwaits

/-- A backfill waits behind another one that has used up all but its last attempt. -/
def queuedBackfills : JobSystem :=
  let job : Uuid → Instant → JobRecord := fun id createdAt =>
    newJobRecord defaultConfig.settings id .backfill (.range "account_stats@1.0.0" 0 86400000000)
      none createdAt
  { JobSystem.initial with
    db := { Database.empty with
      jobs := ⟨[{ job 1 0 with attemptCount := 2 }, job 2 5], by decide, by decide⟩ } }

/-- The first backfill is claimed and then exhausted before the second one is claimed. -/
def queuedClaims : List JobAction :=
  [.call (.claimPass "worker-a" 10 [] 100), .call (.claimPass "worker-b" 20 [1] 101),
    .call (.claimPass "worker-a" 90000000 [] 102), .call (.claimPass "worker-a" 90000000 [] 103)]

theorem queued_backfill_overtaken :
    ∃ row : JobRecord, queuedBackfills.db.jobs.find? 2 = some row ∧
      (Execution.count (JobSystem.step defaultConfig) (overtakes defaultConfig row.id)
          queuedBackfills queuedClaims ≤ turnsBefore queuedBackfills.db.jobs row ∧
        Execution.Along (JobSystem.step defaultConfig) (fun s action =>
          waitsAt row.id s action = true → overtakes defaultConfig row.id s action = false →
            ∃ current after, s.db.jobs.find? row.id = some current ∧
              (s.step defaultConfig action).db.jobs.find? row.id = some after ∧
              ((∃ owner token now, after =
                (setClaimed defaultConfig.settings current owner token now).set current) ∨
              ∃ now, after = (setExhausted defaultConfig.settings current now).set current))
          queuedBackfills queuedClaims) :=
  ⟨_, rfl, overtaken_boundedly defaultConfig queuedBackfills _ rfl queuedClaims
    (by decide +kernel)⟩

end FeatureStore
