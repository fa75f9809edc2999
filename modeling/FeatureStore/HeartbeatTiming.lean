import FeatureStore.JobRows

/-!
# Leases under heartbeats

While a worker executes a job, the thread `worker._heartbeat` renews the lease in rounds. A round
waits and then runs one transaction, which may raise; the thread goes on until a round finds the
lease lost. If the rounds come in time, only a cancellation or the worker itself ends the lease.
-/

namespace FeatureStore

open Relational

/-- What the rounds of the thread and the clocks of the workers keep to, in microseconds. -/
structure HeartbeatTiming where
  /-- `job_heartbeat_seconds`, the wait of a round. -/
  wait : Int
  /-- How much longer than its wait a round takes at most. -/
  delay : Int
  /-- How many rounds raise in a row at most. -/
  misses : Nat
  /-- How far the clock of a worker is off at most. -/
  skew : Int

/-- The time between the ends of two rounds. -/
def HeartbeatTiming.round (timing : HeartbeatTiming) : Int := timing.wait + timing.delay

/-- A clock shows `now` at a time. -/
def HeartbeatTiming.Shows (timing : HeartbeatTiming) (now time : Instant) : Prop :=
  time - timing.skew ≤ now ∧ now ≤ time + timing.skew

/-- The lease outlasts the rounds that may raise and the one after them. -/
def HeartbeatTiming.Fits (timing : HeartbeatTiming) (settings : Settings) : Prop :=
  0 ≤ timing.round ∧
    (timing.misses + 1) * timing.round + 2 * timing.skew < seconds settings.jobLeaseSeconds

instance (timing : HeartbeatTiming) (settings : Settings) : Decidable (timing.Fits settings) := by
  unfold HeartbeatTiming.Fits
  infer_instance

instance (timing : HeartbeatTiming) (now time : Instant) : Decidable (timing.Shows now time) := by
  unfold HeartbeatTiming.Shows
  infer_instance

/-- The jobs, with the time and the thread of one attempt: when its last round ended, how many
rounds have raised since the last one that renewed the lease, and whether it is still running. -/
structure WatchedSystem where
  jobs : JobSystem
  time : Instant
  lastRound : Instant
  missed : Nat
  active : Bool

/-- A round of the thread renews the lease by its worker's clock, or raises; everything else is an
action of the job system. -/
inductive WatchedAction
  | beat (time now : Instant)
  | miss (time : Instant)
  | other (time : Instant) (action : JobAction)

def WatchedAction.time : WatchedAction → Instant
  | .beat time _ => time
  | .miss time => time
  | .other time _ => time

namespace WatchedSystem

/-- The thread is started when its worker has claimed the job. -/
def start (jobs : JobSystem) (time : Instant) : WatchedSystem := ⟨jobs, time, time, 0, true⟩

def step (config : Config) (jobId token : Uuid) (s : WatchedSystem) : WatchedAction → WatchedSystem
  | .beat time now =>
      if s.active then
        { jobs := s.jobs.step config (.call (.heartbeat jobId token now))
          time := time
          lastRound := time
          missed := 0
          active := (heartbeat config.settings s.jobs.db jobId token now).2 }
      else s
  | .miss time =>
      if s.active then { s with time := time, lastRound := time, missed := s.missed + 1 } else s
  | .other time action => { s with jobs := s.jobs.step config action, time := time }

def run (config : Config) (jobId token : Uuid) (s : WatchedSystem) (actions : List WatchedAction) :
    WatchedSystem :=
  Execution.run (step config jobId token) s actions

end WatchedSystem

/-- The action ends the lease on purpose, or presents its token in place of the thread. -/
def JobAction.disturbs (jobId token : Uuid) : JobAction → Bool
  | .call (.cancel id _) => decide (id = jobId)
  | .call (.heartbeat _ presented _) => decide (presented = token)
  | .call (.finalizeSuccess _ presented _ _ _) => decide (presented = token)
  | .call (.finalizeFailure _ presented _ _ _ _) => decide (presented = token)
  | _ => false

/-- The clock by which a worker looks for expired leases. -/
def JobAction.claimClock? : JobAction → Option Instant
  | .call (.claimPass _ now _ _) => some now
  | _ => none

/-- The rounds come in time and do not raise too often in a row, clocks are right up to the skew,
and nobody ends the lease on purpose. -/
def Prompt (timing : HeartbeatTiming) (jobId token : Uuid) (s : WatchedSystem)
    (action : WatchedAction) : Prop :=
  (s.time ≤ action.time ∧ action.time ≤ s.lastRound + timing.round) ∧
    match action with
    | .beat time now => timing.Shows now time
    | .miss _ => s.missed < timing.misses
    | .other time action =>
        action.disturbs jobId token = false ∧ ∀ now ∈ action.claimClock?, timing.Shows now time

instance (timing : HeartbeatTiming) (jobId token : Uuid) (s : WatchedSystem)
    (action : WatchedAction) : Decidable (Prompt timing jobId token s action) := by
  unfold Prompt
  cases action <;> infer_instance

/-- The row is leased under the token to the worker that claimed it, for the attempt that it
began, until `expiresAt` at least. -/
structure JobRecord.HeldUntil (row job : JobRecord) (token : Uuid) (expiresAt : Instant) :
    Prop where
  running : row.status = .running
  leaseToken : row.leaseToken = some token
  workerId : row.workerId = job.workerId
  attemptCount : row.attemptCount = job.attemptCount
  expires : ∃ time, row.leaseExpiresAt = some time ∧ expiresAt ≤ time

section Rows

variable {config : Config} {s : JobSystem} {row row' job : JobRecord} {token : Uuid}
  {expiresAt now : Instant}

theorem JobRecord.HeldUntil.owned (h : row.HeldUntil job token expiresAt) (hnow : now < expiresAt) :
    row.ownedBy token now = true := by
  obtain ⟨time, htime, hle⟩ := h.expires
  have hlt : now < time := lt_of_lt_of_le hnow hle
  simp [JobRecord.ownedBy, h.running, h.leaseToken, htime, hlt]

theorem JobRecord.HeldUntil.not_eligible (h : row.HeldUntil job token expiresAt)
    (hnow : now < expiresAt) : row.eligible now = false := by
  obtain ⟨time, htime, hle⟩ := h.expires
  have hlt : now < time := lt_of_lt_of_le hnow hle
  simp [JobRecord.eligible, h.running, isDue, htime, hlt]

theorem JobRecord.token_of_ownedBy {presented : Uuid} (h : row.ownedBy presented now = true) :
    row.leaseToken = some presented := by
  simp only [JobRecord.ownedBy, Bool.and_eq_true, decide_eq_true_eq] at h
  exact h.1.2

/-- An undisturbed action keeps a lease that has not expired at the clock of its claims. -/
theorem RowStep.heldUntil {action : JobAction} (h : RowStep config s action row row')
    (hheld : row.HeldUntil job token expiresAt) (hid : row.id = job.id)
    (hplain : action.disturbs job.id token = false)
    (hclock : ∀ now ∈ action.claimClock?, now < expiresAt) :
    row'.HeldUntil job token expiresAt := by
  have hpresented : ∀ {presented : Uuid} {now : Instant}, row.ownedBy presented now = true →
      presented = token := fun howned =>
    Option.some.inj ((JobRecord.token_of_ownedBy howned).symm.trans hheld.leaseToken)
  cases h with
  | kept => exact hheld
  | cancelled => simp [JobAction.disturbs, hid] at hplain
  | retried _ _ _ hresettable =>
      rw [hheld.running] at hresettable
      cases hresettable
  | exhausted owner now locked fresh heligible | claimed owner now locked fresh _ heligible =>
      rw [hheld.not_eligible (hclock now rfl)] at heligible
      cases heligible
  | renewed presented now howned =>
      simp [JobAction.disturbs, hpresented howned] at hplain
  | checkpointed => exact { hheld with }
  | succeeded _ presented _ _ _ _ _ howned | failed _ presented _ _ _ _ _ _ howned =>
      simp [JobAction.disturbs, hpresented howned] at hplain
  | cleaned locked now hexpired =>
      simp [cleanupGuard, hheld.running, JobStatus.isTerminal] at hexpired

/-- A heartbeat in time renews the lease and says so. -/
theorem heartbeat_renews {jobId : Uuid} (hrow : s.db.jobs.find? jobId = some row)
    (howned : row.ownedBy token now = true) :
    (heartbeat config.settings s.db jobId token now).2 = true ∧
      (s.step config (.call (.heartbeat jobId token now))).db.jobs.find? jobId =
        some ((setRenewed config.settings now).set row) := by
  have hhit := Table.update_hit (fun row : JobRecord => row.ownedBy token now) hrow howned
  have hadmits : s.Admits (.heartbeat jobId token now) :=
    ⟨rfl, List.forall_mem_nil _, by simp [Call.copy?], by simp [Call.input?]⟩
  constructor
  · exact decide_eq_true hhit.1
  · rw [JobSystem.step, if_pos hadmits]
    change (s.db.jobs.update (leaseGuard jobId token now) _).find? jobId = _
    rw [show s.db.jobs.update (leaseGuard jobId token now) (setRenewed config.settings now) =
      s.db.jobs.modify jobId (setRenewed config.settings now) from hhit.2 _,
      Table.find?_modify_self, hrow]
    rfl

end Rows

/-- The thread is running, and the lease lasts for what its rounds since the last renewal and
those that may still raise can take. -/
structure WatchedSystem.Held (timing : HeartbeatTiming) (settings : Settings) (job : JobRecord)
    (token : Uuid) (s : WatchedSystem) : Prop where
  active : s.active = true
  missed : s.missed ≤ timing.misses
  leased : ∃ row, s.jobs.db.jobs.find? job.id = some row ∧
    row.HeldUntil job token
      (s.lastRound + seconds settings.jobLeaseSeconds - timing.skew - s.missed * timing.round)

namespace WatchedSystem

variable {config : Config} {timing : HeartbeatTiming} {job : JobRecord} {token : Uuid}
  {s : WatchedSystem}

/-- A clock that is right up to the skew does not reach the end of the lease before the next
round is due. -/
theorem clock_lt (hfits : timing.Fits config.settings) (hmissed : s.missed ≤ timing.misses)
    {now : Instant} (hnow : now ≤ s.lastRound + timing.round + timing.skew) :
    now < s.lastRound + seconds config.settings.jobLeaseSeconds - timing.skew -
      s.missed * timing.round := by
  have hle : s.missed * timing.round ≤ timing.misses * timing.round :=
    Int.mul_le_mul_of_nonneg_right (Int.ofNat_le.mpr hmissed) hfits.1
  have hlasts := hfits.2
  rw [add_one_mul] at hlasts
  simp only [Instant] at *
  omega

theorem Held.step (hfits : timing.Fits config.settings) {action : WatchedAction}
    (h : s.Held timing config.settings job token)
    (hprompt : Prompt timing job.id token s action) :
    (s.step config job.id token action).Held timing config.settings job token := by
  obtain ⟨row, hrow, hheld⟩ := h.leased
  obtain ⟨⟨hlater, hdue⟩, hprompt⟩ := hprompt
  cases action with
  | beat time now =>
      obtain ⟨hslow, hfast⟩ := hprompt
      have hnow : now ≤ s.lastRound + timing.round + timing.skew := by
        simp only [WatchedAction.time, Instant] at *
        omega
      have howned := hheld.owned (clock_lt hfits h.missed hnow)
      obtain ⟨hbeat, hafter⟩ := @heartbeat_renews config s.jobs row token now job.id hrow howned
      rw [WatchedSystem.step, if_pos h.active]
      refine ⟨hbeat, Nat.zero_le _, _, hafter, hheld.running, hheld.leaseToken, hheld.workerId,
        hheld.attemptCount, _, rfl, ?_⟩
      simp only [Instant] at *
      omega
  | miss time =>
      rw [WatchedSystem.step, if_pos h.active]
      refine ⟨h.active, hprompt, row, hrow, { hheld with expires := ?_ }⟩
      obtain ⟨expiresAt, hexpires, hle⟩ := hheld.expires
      refine ⟨expiresAt, hexpires, le_trans ?_ hle⟩
      have hsum : ((s.missed + 1 : Nat) : Int) * timing.round =
          s.missed * timing.round + timing.round := by rw [Nat.cast_succ, add_one_mul]
      simp only [WatchedAction.time, Instant, hsum] at *
      omega
  | other time action =>
      obtain ⟨hplain, hclock⟩ := hprompt
      obtain ⟨row', hrow', hstep⟩ := JobSystem.step_row config action hrow
      refine ⟨h.active, h.missed, row', hrow',
        hstep.heldUntil hheld (Table.key_of_find? hrow) hplain fun now hnow => ?_⟩
      apply clock_lt hfits h.missed
      have hfast := (hclock now hnow).2
      simp only [WatchedAction.time, Instant] at *
      omega

/-- The lease of a claim lasts for one lease time from then. -/
theorem start_held {owner : String} {now time : Instant} {locked : List Uuid} {jobs : JobSystem}
    (hadmits : jobs.Admits (.claimPass owner now locked token))
    (hclaimed : (claimPass config.settings jobs.db owner now locked token).2 = .claimed job)
    (hshows : timing.Shows now time) :
    (start (jobs.step config (.call (.claimPass owner now locked token))) time).Held timing
      config.settings job token := by
  obtain ⟨hrow, htoken, hrunning⟩ := claimPass_claimed hclaimed
  obtain ⟨before, -, -, -, hset⟩ := JobSystem.claimPass_taken hclaimed
  have hexpires : job.leaseExpiresAt = some (now + seconds config.settings.jobLeaseSeconds) := by
    rw [hset]
    rfl
  refine ⟨rfl, Nat.zero_le _, job, ?_, hrunning, htoken, rfl, rfl, _, hexpires, ?_⟩
  · rw [start, JobSystem.step, if_pos hadmits]
    exact hrow
  · have hslow := hshows.1
    simp only [start, Instant, Nat.cast_zero, zero_mul] at *
    omega

end WatchedSystem

/-- While the rounds of its thread come in time and nobody ends the lease on purpose, the worker
that has claimed a job keeps it: the thread goes on, no other worker claims the job, and by every
clock that is right up to the skew the worker owns it. -/
theorem lease_kept_by_heartbeats (config : Config) (timing : HeartbeatTiming)
    (hfits : timing.Fits config.settings) (before : List JobAction) {owner : String}
    {now time : Instant} {locked : List Uuid} {token : Uuid} (job : JobRecord)
    (hadmits : (JobSystem.run config before).Admits (.claimPass owner now locked token))
    (hclaimed : (claimPass config.settings (JobSystem.run config before).db owner now locked
      token).2 = .claimed job)
    (hshows : timing.Shows now time) (actions : List WatchedAction)
    (hprompt : Execution.Along (WatchedSystem.step config job.id token) (Prompt timing job.id token)
      (.start (JobSystem.run config (before ++ [.call (.claimPass owner now locked token)])) time)
      actions) :
    let s := WatchedSystem.run config job.id token
      (.start (JobSystem.run config (before ++ [.call (.claimPass owner now locked token)])) time)
      actions
    s.active = true ∧
      (∃ row, s.jobs.db.jobs.find? job.id = some row ∧ row.workerId = some owner ∧
        row.attemptCount = job.attemptCount) ∧
      ∀ clock, clock ≤ s.lastRound + timing.round + timing.skew →
        owns s.jobs.db job.id token clock = true := by
  intro s
  obtain ⟨_, -, -, -, hset⟩ := JobSystem.claimPass_taken hclaimed
  have hheld : s.Held timing config.settings job token := by
    apply Execution.invariant_of_along (fun _ _ => WatchedSystem.Held.step hfits) ?_ hprompt
    rw [JobSystem.run, Execution.run_append]
    exact WatchedSystem.start_held hadmits hclaimed hshows
  obtain ⟨row, hrow, hleased⟩ := hheld.leased
  refine ⟨hheld.active, ⟨row, hrow, ?_, hleased.attemptCount⟩, fun clock hclock => ?_⟩
  · rw [hleased.workerId, hset]
    rfl
  · rw [owns, hrow]
    exact hleased.owned (WatchedSystem.clock_lt hfits hheld.missed hclock)

/-- The default settings outlast one round that raises. -/
def defaultTiming : HeartbeatTiming := ⟨10000000, 2000000, 1, 1000000⟩

/-- A backfill as its worker has claimed it. -/
def watchedJob : JobRecord :=
  { newJobRecord defaultConfig.settings 1 .backfill (.range "account_stats@1.0.0" 0 86400000000)
      none 0 with
    status := .running, attemptCount := 1, startedAt := some 0, workerId := some "worker-a",
    leaseToken := some 10, leaseExpiresAt := some 30000000, lastHeartbeatAt := some 0 }

/-- The second round raises, and another worker looks for jobs. -/
def watchedBackfill : List WatchedAction :=
  [.other 3000000 (.call (.claimPass "worker-b" 4000000 [] 11)), .beat 11000000 10500000,
    .miss 22000000, .other 33000000 (.call (.claimPass "worker-b" 34000000 [] 12)),
    .beat 34000000 33000000]

theorem watched_backfill_kept :
    let s := WatchedSystem.run defaultConfig 1 10
      (.start (JobSystem.run defaultConfig (abandonedBackfill.take 2)) 0) watchedBackfill
    s.active = true ∧
      (∃ row, s.jobs.db.jobs.find? 1 = some row ∧ row.workerId = some "worker-a" ∧
        row.attemptCount = 1) ∧
      ∀ clock, clock ≤ s.lastRound + 12000000 + 1000000 → owns s.jobs.db 1 10 clock = true :=
  lease_kept_by_heartbeats defaultConfig defaultTiming (by decide) (abandonedBackfill.take 1)
    watchedJob (by decide) (by decide) (by decide) watchedBackfill (by decide +kernel)

end FeatureStore
