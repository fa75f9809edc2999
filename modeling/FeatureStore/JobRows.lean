import FeatureStore.JobSystem
import FeatureStore.LeaseFencing

/-!
# Consistent job rows and bounded attempts

Which columns of a job are set follows from its status, in every state that workers and
clients reach. A worker decides a failure from its copy of the job; as long as it holds
the lease, the copy has the attempt counters of the stored row, so that the attempts of a
job between two retries stay within its budget.
-/

namespace FeatureStore

open Relational

/-- The columns that are set under each status. -/
structure JobRecord.Consistent (row : JobRecord) : Prop where
  leaseToken : row.leaseToken.isSome = true ↔ row.status = .running
  workerId : row.workerId.isSome = true ↔ row.status = .running
  leaseExpiresAt : row.leaseExpiresAt.isSome = true ↔ row.status = .running
  lastHeartbeatAt : row.lastHeartbeatAt.isSome = true ↔ row.status = .running
  nextAttemptAt : row.nextAttemptAt.isSome = true ↔ row.status = .retrying
  finishedAt : row.finishedAt.isSome = true ↔ row.status.isTerminal = true
  artifactExpiresAt : row.artifactExpiresAt.isSome = true ↔
    row.kind = .historicalQuery ∧ row.status.isTerminal = true
  resultUri : row.resultUri.isSome = true → row.status = .succeeded
  resultMetadata : row.resultMetadata.isSome = true →
    row.status = .succeeded ∨ row.status = .failed
  error : row.status = .failed ∨ row.status = .exhausted → row.error.isSome = true
  failureKind : row.status = .failed ∨ row.status = .exhausted → row.failureKind.isSome = true
  succeeded : row.status = .succeeded → row.error = none ∧ row.failureKind = none

theorem newJobRecord_consistent (settings : Settings) (id : Uuid) (kind : JobKind)
    (payload : JobPayload) (artifactUri : Option String) (now : Instant) :
    (newJobRecord settings id kind payload artifactUri now).Consistent := by
  constructor <;> simp [newJobRecord, JobStatus.isTerminal]

theorem JobStatus.isTerminal_eq (status : JobStatus) : status.isTerminal = !status.isActive := by
  cases status <;> rfl

section Steps

variable {config : Config} {s : JobSystem} {action : JobAction} {row row' : JobRecord}

theorem RowStep.kind_eq (h : RowStep config s action row row') : row'.kind = row.kind := by
  cases h <;> rfl

/-- A lease under a token drawn before is kept with the attempts of its row. -/
theorem RowStep.lease_kept (h : RowStep config s action row row') {token : Uuid}
    (htoken : row'.leaseToken = some token) (hdrawn : token ∈ s.drawn) :
    row.leaseToken = some token ∧ row'.attemptCount = row.attemptCount ∧
      row'.maxAttempts = row.maxAttempts := by
  cases h with
  | kept | renewed | checkpointed | cleaned => exact ⟨htoken, rfl, rfl⟩
  | claimed owner now locked fresh hfresh =>
      obtain rfl := Option.some.inj htoken
      exact absurd hdrawn hfresh
  | cancelled | retried | exhausted | succeeded | failed => cases htoken

theorem JobRecord.Consistent.of_active (h : row.Consistent) (hactive : row.status.isActive = true) :
    row.finishedAt = none ∧ row.artifactExpiresAt = none ∧ row.resultUri = none ∧
      row.resultMetadata = none := by
  have hopen : ¬row.status.isTerminal = true := by
    rw [JobStatus.isTerminal_eq, hactive]
    exact nofun
  refine ⟨?_, ?_, ?_, ?_⟩
  · exact Option.not_isSome_iff_eq_none.mp fun hsome => hopen (h.finishedAt.mp hsome)
  · exact Option.not_isSome_iff_eq_none.mp fun hsome => hopen (h.artifactExpiresAt.mp hsome).2
  · apply Option.not_isSome_iff_eq_none.mp
    intro hsome
    rw [h.resultUri hsome] at hopen
    exact hopen rfl
  · apply Option.not_isSome_iff_eq_none.mp
    intro hsome
    cases h.resultMetadata hsome with
    | inl hstatus =>
        rw [hstatus] at hopen
        exact hopen rfl
    | inr hstatus =>
        rw [hstatus] at hopen
        exact hopen rfl

/-- Only historical queries have artifacts that expire. -/
theorem JobRecord.Consistent.of_plain (h : row.Consistent) (hkind : row.kind ≠ .historicalQuery) :
    row.artifactExpiresAt = none :=
  Option.not_isSome_iff_eq_none.mp fun hsome => hkind (h.artifactExpiresAt.mp hsome).1

theorem JobRecord.isActive_of_eligible {now : Instant} (h : row.eligible now = true) :
    row.status.isActive = true := by
  unfold JobRecord.eligible at h
  split at h <;> simp_all [JobStatus.isActive]

theorem JobRecord.running_of_ownedBy {token : Uuid} {now : Instant}
    (h : row.ownedBy token now = true) : row.status = .running := by
  simp only [JobRecord.ownedBy, Bool.and_eq_true, decide_eq_true_eq] at h
  exact h.1.1

theorem failureStatus_cases (job : JobRecord) (exc : PyException) :
    failureStatus job exc = .failed ∨ failureStatus job exc = .exhausted ∨
      failureStatus job exc = .retrying := by
  unfold failureStatus
  split
  · exact Or.inl rfl
  · split
    · exact Or.inr (Or.inl rfl)
    · exact Or.inr (Or.inr rfl)

/-- A failure has one of three statuses. -/
theorem failureStatus_ne {job : JobRecord} {exc : PyException} {status : JobStatus}
    (h : status ∉ [.failed, .exhausted, .retrying]) : failureStatus job exc ≠ status := by
  rintro rfl
  apply h
  rcases failureStatus_cases job exc with hstatus | hstatus | hstatus <;> simp [hstatus]

/-- The end of a job sets the expiry of its artifacts when it is a historical query. -/
theorem expiry_isSome_iff (hplain : row.kind ≠ .historicalQuery → row.artifactExpiresAt = none)
    (expiry : Instant) :
    (if row.kind = .historicalQuery then some expiry else row.artifactExpiresAt).isSome = true ↔
      row.kind = .historicalQuery := by
  split
  · rename_i hkind
    exact iff_of_true rfl hkind
  · rename_i hkind
    rw [hplain hkind]
    exact iff_of_false nofun hkind

/-- Every action keeps the rows consistent, if workers copied consistent rows. -/
theorem RowStep.consistent (h : RowStep config s action row row') (hrow : row.Consistent)
    (hcopies : ∀ token job, (token, job) ∈ s.copies → job.id = row.id →
      job.Consistent ∧ row.kind = job.kind) : row'.Consistent := by
  cases h with
  | kept => exact hrow
  | cancelled now hactive =>
      obtain ⟨-, -, huri, hmetadata⟩ := hrow.of_active hactive
      have hexpires := expiry_isSome_iff hrow.of_plain (retainUntil config.settings now)
      constructor <;>
        simp [setCancelled, setJob, JobRecord.unleased, JobStatus.isTerminal, huri, hmetadata]
      exact hexpires
  | retried => constructor <;> simp [setRetried, setJob, JobRecord.unleased, JobStatus.isTerminal]
  | exhausted owner now locked token heligible =>
      obtain ⟨-, -, huri, hmetadata⟩ :=
        hrow.of_active (JobRecord.isActive_of_eligible heligible)
      have hexpires := expiry_isSome_iff hrow.of_plain (retainUntil config.settings now)
      constructor <;>
        simp [setExhausted, setJob, JobRecord.unleased, JobStatus.isTerminal, huri, hmetadata]
      · exact hexpires
      · split <;> rfl
  | claimed owner now locked token hfresh heligible =>
      obtain ⟨hfinished, hexpiry, huri, hmetadata⟩ :=
        hrow.of_active (JobRecord.isActive_of_eligible heligible)
      constructor <;> simp [setClaimed, setJob, JobStatus.isTerminal, hexpiry, huri, hmetadata]
  | renewed token now howned =>
      have hrunning := JobRecord.running_of_ownedBy howned
      exact { hrow with
        leaseExpiresAt := iff_of_true rfl hrunning
        lastHeartbeatAt := iff_of_true rfl hrunning }
  | checkpointed => exact { hrow with }
  | succeeded job token now uri metadata hcopied hsame howned =>
      obtain ⟨hjob, hkind⟩ := hcopies token job hcopied hsame
      have hexpires := expiry_isSome_iff hjob.of_plain (retainUntil config.settings now)
      constructor <;> simp [setSucceeded, setJob, JobRecord.unleased, JobStatus.isTerminal]
      rw [hkind]
      exact hexpires
  | failed job token now exc error metadata hcopied hsame howned hreported =>
      obtain ⟨-, hkind⟩ := hcopies token job hcopied hsame
      obtain ⟨-, -, huri, -⟩ := hrow.of_active (by rw [JobRecord.running_of_ownedBy howned]; rfl)
      have hmetadata : metadata.isSome = true → failureStatus job exc = .failed := by
        intro hsome
        have hquality : exc.cls = .dataQuality := hreported.resolve_left fun hnone => by
          rw [hnone] at hsome
          cases hsome
        rw [failureStatus, if_pos (by rw [PyException.isTerminalFailure, hquality])]
      rcases failureStatus_cases job exc with hstatus | hstatus | hstatus
      · constructor <;> simp [setFailed, setJob, JobRecord.unleased, JobStatus.isTerminal, hstatus,
          huri, hkind]
      · constructor <;> simp [setFailed, setJob, JobRecord.unleased, JobStatus.isTerminal, hstatus,
          huri, hkind]
        simpa [hstatus] using hmetadata
      · constructor <;> simp [setFailed, setJob, JobRecord.unleased, JobStatus.isTerminal, hstatus,
          huri, hkind]
        simpa [hstatus] using hmetadata
  | cleaned => exact { hrow with }

end Steps

/-- A copy of a job under a token: the row has its kind, and has its attempt counters while
it is leased under the token. -/
structure CopyOf (token : Uuid) (job row : JobRecord) : Prop where
  kind : row.kind = job.kind
  attempts : row.leaseToken = some token →
    row.attemptCount = job.attemptCount ∧ row.maxAttempts = job.maxAttempts

/-- Stored rows and copies are consistent, copies are of stored rows, and the tokens of
leases and copies have been drawn. -/
structure JobSystem.Sound (s : JobSystem) : Prop where
  consistent : ∀ {jobId row}, s.db.jobs.find? jobId = some row → row.Consistent
  leased : ∀ {jobId row token}, s.db.jobs.find? jobId = some row →
    row.leaseToken = some token → token ∈ s.drawn
  copied : ∀ {token job}, (token, job) ∈ s.copies → token ∈ s.drawn ∧ job.Consistent ∧
    ∃ row, s.db.jobs.find? job.id = some row ∧ CopyOf token job row

namespace JobSystem

variable {config : Config} {s : JobSystem} {action : JobAction} {token : Uuid} {job : JobRecord}

theorem initial_sound : initial.Sound :=
  ⟨nofun, nofun, nofun⟩

theorem step_drawn (h : token ∈ s.drawn) : token ∈ (s.step config action).drawn := by
  cases action with
  | call call =>
      rw [step]
      split
      · exact List.mem_append_right _ h
      · exact h
  | refresh _ jobId =>
      rw [step]
      split
      · exact h
      · split <;> exact h
  | updateRetry client =>
      rw [step]
      split <;> exact h
  | checkRetry | cleanup => exact h

/-- A new copy is the stored row, under a token that has been drawn. -/
theorem step_copies (hsound : s.Sound) (h : (token, job) ∈ (s.step config action).copies) :
    (token, job) ∈ s.copies ∨ token ∈ (s.step config action).drawn ∧
      (s.step config action).db.jobs.find? job.id = some job := by
  cases action with
  | call call =>
      rw [step] at h ⊢
      split at h
      · rw [if_pos ‹_›]
        refine (List.mem_append.mp h).symm.imp_right fun hnew => ?_
        cases call with
        | claimPass owner now locked fresh =>
            simp only [Call.claimed] at hnew
            split at hnew
            · rename_i claimed hclaimed
              obtain ⟨rfl, rfl⟩ := Prod.mk.inj (List.mem_singleton.mp hnew)
              exact ⟨List.mem_cons_self, (claimPass_claimed hclaimed).1⟩
            · cases hnew
            · cases hnew
        | _ => cases hnew
      · exact Or.inl h
  | refresh token' jobId =>
      rw [step] at h ⊢
      cases hrow : s.db.jobs.find? jobId with
      | none =>
          simp only [hrow] at h
          exact Or.inl h
      | some row =>
          simp only [hrow] at h ⊢
          split at h
          · rename_i hany
            refine (List.mem_cons.mp h).symm.imp_right fun hnew => ?_
            obtain ⟨rfl, rfl⟩ := Prod.mk.inj hnew
            obtain ⟨copy, hcopy, heq⟩ := List.any_eq_true.mp hany
            simp only [Bool.and_eq_true, decide_eq_true_eq] at heq
            rw [if_pos hany, Table.key_of_find? hrow, ← heq.1]
            exact ⟨(hsound.copied hcopy).1, hrow⟩
          · exact Or.inl h
  | updateRetry client =>
      rw [step] at h
      split at h <;> exact Or.inl h
  | checkRetry | cleanup => exact Or.inl h

theorem step_consistent (hsound : s.Sound) {jobId : Uuid} {row : JobRecord}
    (h : (s.step config action).db.jobs.find? jobId = some row) : row.Consistent := by
  cases hbefore : s.db.jobs.find? jobId with
  | none =>
      obtain ⟨_, kind, payload, uri, now, -, -, rfl, -⟩ := step_new hbefore h
      exact newJobRecord_consistent ..
  | some before =>
      obtain ⟨after, hafter, hstep⟩ := step_row config action hbefore
      obtain rfl := Option.some.inj (hafter.symm.trans h)
      apply hstep.consistent (hsound.consistent hbefore)
      intro token job hcopied hsame
      obtain ⟨-, hjob, stored, hstored, hcopy⟩ := hsound.copied hcopied
      rw [hsame, Table.key_of_find? hbefore, hbefore] at hstored
      obtain rfl := Option.some.inj hstored
      exact ⟨hjob, hcopy.kind⟩

theorem step_leased (hsound : s.Sound) {jobId : Uuid} {row : JobRecord}
    (h : (s.step config action).db.jobs.find? jobId = some row)
    (htoken : row.leaseToken = some token) : token ∈ (s.step config action).drawn := by
  cases hbefore : s.db.jobs.find? jobId with
  | none =>
      obtain ⟨_, kind, payload, uri, now, -, -, rfl, -⟩ := step_new hbefore h
      cases htoken
  | some before =>
      obtain ⟨after, hafter, hstep⟩ := step_row config action hbefore
      obtain rfl := Option.some.inj (hafter.symm.trans h)
      cases hstep with
      | kept | renewed | checkpointed | cleaned => exact step_drawn (hsound.leased hbefore htoken)
      | claimed owner now locked fresh =>
          obtain rfl := Option.some.inj htoken
          rw [step] at h ⊢
          split at h
          · rw [if_pos ‹_›]
            exact List.mem_cons_self
          · rw [if_neg ‹_›]
            exact hsound.leased h rfl
      | cancelled | retried | exhausted | succeeded | failed => cases htoken

theorem step_sound (hsound : s.Sound) : (s.step config action).Sound where
  consistent := step_consistent hsound
  leased := step_leased hsound
  copied := by
    intro token job hcopied
    cases step_copies hsound hcopied with
    | inr hnew =>
        refine ⟨hnew.1, step_consistent hsound hnew.2, job, hnew.2, rfl, fun _ => ⟨rfl, rfl⟩⟩
    | inl hold =>
        obtain ⟨hdrawn, hjob, row, hrow, hcopy⟩ := hsound.copied hold
        obtain ⟨row', hrow', hstep⟩ := step_row config action hrow
        refine ⟨step_drawn hdrawn, hjob, row', hrow', hstep.kind_eq.trans hcopy.kind, ?_⟩
        intro htoken
        obtain ⟨hbefore, hcount, hmax⟩ := hstep.lease_kept htoken hdrawn
        rw [hcount, hmax]
        exact hcopy.attempts hbefore

theorem run_sound (config : Config) (actions : List JobAction) : (run config actions).Sound :=
  Execution.invariant (fun _ _ => step_sound) initial_sound actions

end JobSystem

/-- An action keeps a final status, unless it is the retry of a job that has not succeeded, which
makes the job pending. -/
theorem RowStep.final_status {config : Config} {s : JobSystem} {action : JobAction}
    {row row' : JobRecord} (h : RowStep config s action row row')
    (hfinal : row.status.isTerminal = true) :
    row'.status = row.status ∨
      row.status ≠ .succeeded ∧ row'.status = .pending ∧
        ∃ client job now, action = .updateRetry client ∧
          s.retries client = some (job, now) ∧ job.id = row.id := by
  have hopen : ¬row.status.isActive = true := by
    rw [JobStatus.isTerminal_eq] at hfinal
    simpa using hfinal
  cases h with
  | kept | checkpointed | renewed | cleaned => exact Or.inl rfl
  | cancelled _ hactive => exact absurd hactive hopen
  | exhausted _ _ _ _ heligible | claimed _ _ _ _ _ heligible =>
      exact absurd (JobRecord.isActive_of_eligible heligible) hopen
  | succeeded _ _ _ _ _ _ _ howned | failed _ _ _ _ _ _ _ _ howned =>
      rw [JobRecord.running_of_ownedBy howned] at hopen
      exact absurd rfl hopen
  | retried client hchecked hsame hresettable hcommitted =>
      refine Or.inr ⟨?_, rfl, client, _, _, rfl, hchecked, hsame⟩
      intro hstatus
      rw [hstatus] at hresettable
      cases hresettable

/-- In every state that is reached the columns of every job fit its status; no step removes
a job, and a final status is left only by a retry, to pending, and never when the job has
succeeded. -/
theorem job_rows_consistent (config : Config) (actions : List JobAction) :
    (∀ row ∈ (JobSystem.run config actions).db.jobs.rows, row.Consistent) ∧
      ∀ (action : JobAction) (jobId : Uuid) (row : JobRecord),
        (JobSystem.run config actions).db.jobs.find? jobId = some row →
        ∃ row', ((JobSystem.run config actions).step config action).db.jobs.find? jobId =
            some row' ∧
          (row.status.isTerminal = true → row'.status = row.status ∨
            row.status ≠ .succeeded ∧ row'.status = .pending ∧
              ∃ client job now, action = .updateRetry client ∧
                (JobSystem.run config actions).retries client = some (job, now) ∧
                job.id = jobId) := by
  constructor
  · intro row hrow
    exact (JobSystem.run_sound config actions).consistent (Table.find?_of_mem hrow)
  · intro action jobId row hrow
    obtain ⟨row', hrow', hstep⟩ := JobSystem.step_row config action hrow
    refine ⟨row', hrow', fun hfinal => ?_⟩
    rw [← Table.key_of_find? hrow]
    exact hstep.final_status hfinal

/-- The attempt counters of a row, under the budget of the settings. -/
structure JobRecord.Budgeted (settings : Settings) (row : JobRecord) : Prop where
  budget : row.maxAttempts = settings.jobMaxAttempts
  bounded : (row.attemptCount : Int) ≤ row.maxAttempts
  waiting : row.status = .pending ∨ row.status = .retrying →
    (row.attemptCount : Int) < row.maxAttempts
  running : row.status = .running → 1 ≤ row.attemptCount

theorem RowStep.budgeted {config : Config} {s : JobSystem} {action : JobAction}
    {row row' : JobRecord} (h : RowStep config s action row row')
    (hbudget : 1 ≤ config.settings.jobMaxAttempts) (hrow : row.Budgeted config.settings)
    (hcopies : ∀ token job, (token, job) ∈ s.copies → job.id = row.id →
      row.leaseToken = some token →
        row.attemptCount = job.attemptCount ∧ row.maxAttempts = job.maxAttempts) :
    row'.Budgeted config.settings := by
  cases h with
  | kept | renewed | checkpointed | cleaned => exact { hrow with }
  | cancelled | exhausted | succeeded =>
      exact ⟨hrow.budget, hrow.bounded, fun h => (h.elim nofun nofun), nofun⟩
  | retried =>
      have hpositive : (0 : Int) < config.settings.jobMaxAttempts := by omega
      exact ⟨rfl, hpositive.le, fun _ => hpositive, nofun⟩
  | claimed owner now locked token hfresh heligible hlt =>
      refine ⟨hrow.budget, ?_, fun h => (h.elim nofun nofun), fun _ => Nat.le_add_left ..⟩
      change ((row.attemptCount + 1 : Nat) : Int) ≤ row.maxAttempts
      omega
  | failed job token now exc error metadata hcopied hsame howned =>
      obtain ⟨hcount, hmax⟩ := hcopies token job hcopied hsame
        (JobRecord.ownedBy_iff.mp howned).1
      refine ⟨hrow.budget, hrow.bounded, fun h => ?_, fun h => ?_⟩
      · have hretrying : failureStatus job exc = .retrying :=
          h.resolve_left (failureStatus_ne (by decide))
        change (row.attemptCount : Int) < row.maxAttempts
        rw [hcount, hmax]
        unfold failureStatus at hretrying
        split at hretrying
        · cases hretrying
        · split at hretrying
          · cases hretrying
          · omega
      · exact absurd h (failureStatus_ne (by decide))

namespace JobSystem

variable {config : Config} {s : JobSystem} {action : JobAction} {jobId : Uuid}

/-- The action claims the job. -/
def claims (s : JobSystem) (config : Config) (jobId : Uuid) : JobAction → Bool
  | .call call => decide (s.Admits call) &&
      (call.claimed config s.db).any fun copy => decide (copy.2.id = jobId)
  | .refresh _ _ | .checkRetry _ _ _ | .updateRetry _ | .cleanup _ _ => false

/-- The action is a successful retry of the job. -/
def resets (s : JobSystem) (config : Config) (jobId : Uuid) : JobAction → Bool
  | .updateRetry client => (s.retries client).any fun retry =>
      decide (retry.1.id = jobId) &&
        (FeatureStore.updateRetry config.settings s.db retry.1 retry.2).2.isOk
  | .call _ | .refresh _ _ | .checkRetry _ _ _ | .cleanup _ _ => false

/-- Sound, with every row within its budget. -/
structure Budgeted (s : JobSystem) (config : Config) : Prop where
  sound : s.Sound
  rows : ∀ {jobId row}, s.db.jobs.find? jobId = some row → row.Budgeted config.settings

theorem step_budgeted (hbudget : 1 ≤ config.settings.jobMaxAttempts) (h : s.Budgeted config) :
    (s.step config action).Budgeted config where
  sound := step_sound h.sound
  rows := by
    intro jobId row hrow
    cases hbefore : s.db.jobs.find? jobId with
    | none =>
        obtain ⟨_, kind, payload, uri, now, -, -, rfl, -⟩ := step_new hbefore hrow
        have hpositive : (0 : Int) < config.settings.jobMaxAttempts := by omega
        exact ⟨rfl, hpositive.le, fun _ => hpositive, nofun⟩
    | some before =>
        obtain ⟨after, hafter, hstep⟩ := step_row config action hbefore
        obtain rfl := Option.some.inj (hafter.symm.trans hrow)
        apply hstep.budgeted hbudget (h.rows hbefore)
        intro token job hcopied hsame
        obtain ⟨-, -, stored, hstored, hcopy⟩ := h.sound.copied hcopied
        rw [hsame, Table.key_of_find? hbefore, hbefore] at hstored
        obtain rfl := Option.some.inj hstored
        exact hcopy.attempts

/-- The attempts made for a job since its last retry. -/
def attempts (s : JobSystem) (jobId : Uuid) : Nat :=
  (s.db.jobs.find? jobId).elim 0 (·.attemptCount)

/-- A claim takes a row that is due, within its budget. -/
theorem claimPass_taken {settings : Settings} {db : Database} {owner : String} {now : Instant}
    {locked : List Uuid} {token : Uuid} {job : JobRecord}
    (h : (claimPass settings db owner now locked token).2 = .claimed job) :
    ∃ row, db.jobs.find? job.id = some row ∧ row.eligible now = true ∧
      (row.attemptCount : Int) < row.maxAttempts ∧
        job = (setClaimed settings row owner token now).set row := by
  unfold claimPass at h
  cases hcandidate : claimCandidate db locked now with
  | none =>
      rw [hcandidate] at h
      cases h
  | some candidate =>
      obtain ⟨hstored, heligible⟩ := claimCandidate_stored hcandidate
      rw [hcandidate] at h
      dsimp only at h
      split at h
      · split at h <;> cases h
      · rename_i hbudget
        have hlt : (candidate.attemptCount : Int) < candidate.maxAttempts := by omega
        obtain ⟨hcount, hupdate⟩ := Table.update_hit
          (fun row : JobRecord =>
            row.eligible now && decide ((row.attemptCount : Int) < row.maxAttempts))
          hstored (by simp [heligible, hlt])
        rw [if_neg hcount, hupdate, Table.find?_modify_self, hstored] at h
        cases h
        exact ⟨candidate, hstored, heligible, hlt, rfl⟩

/-- A claim is a pass of `claim_next` that returns the job. -/
theorem claims_iff : s.claims config jobId action = true ↔
    ∃ owner now locked token job, action = .call (.claimPass owner now locked token) ∧
      s.Admits (.claimPass owner now locked token) ∧ job.id = jobId ∧
      (claimPass config.settings s.db owner now locked token).2 = .claimed job := by
  constructor
  · intro h
    cases action with
    | call call =>
        simp only [claims, Bool.and_eq_true, decide_eq_true_eq, List.any_eq_true] at h
        obtain ⟨hadmits, copy, hcopy, hid⟩ := h
        cases call with
        | claimPass owner now locked token =>
            simp only [Call.claimed] at hcopy
            split at hcopy
            · rename_i job hclaimed
              rw [List.mem_singleton.mp hcopy] at hid
              exact ⟨owner, now, locked, token, job, rfl, hadmits, hid, hclaimed⟩
            · cases hcopy
            · cases hcopy
        | _ => cases hcopy
    | _ => cases h
  · rintro ⟨owner, now, locked, token, job, rfl, hadmits, hid, hclaimed⟩
    simp [claims, Call.claimed, hadmits, hclaimed, hid]

/-- A claim makes one more attempt. -/
theorem attempts_claims (h : s.claims config jobId action = true) :
    (s.step config action).attempts jobId = s.attempts jobId + 1 := by
  obtain ⟨owner, now, locked, token, job, rfl, hadmits, rfl, hclaimed⟩ := claims_iff.mp h
  obtain ⟨row, hrow, -, -, hjob⟩ := claimPass_taken hclaimed
  have hafter : (s.step config (.call (.claimPass owner now locked token))).db.jobs.find? job.id =
      some job := by
    rw [step, if_pos hadmits]
    exact (claimPass_claimed hclaimed).1
  rw [attempts, attempts, hafter, hrow, hjob]
  rfl

/-- Only a successful retry takes attempts back. -/
theorem attempts_step (hresets : s.resets config jobId action = false) :
    s.attempts jobId + (s.claims config jobId action).toNat ≤
      (s.step config action).attempts jobId := by
  cases hclaims : s.claims config jobId action with
  | true => exact (attempts_claims hclaims).ge
  | false =>
      rw [attempts, attempts]
      cases hrow : s.db.jobs.find? jobId with
      | none => exact Nat.zero_le _
      | some row =>
          obtain ⟨row', hrow', hstep⟩ := step_row config action hrow
          rw [hrow']
          change row.attemptCount ≤ row'.attemptCount
          cases hstep with
          | claimed => exact Nat.le_succ _
          | retried client hchecked hsame hresettable hcommitted =>
              rw [Table.key_of_find? hrow] at hsame
              simp [resets, hchecked, hsame, hcommitted] at hresets
          | _ => exact Nat.le_refl _

/-- Between two retries of a job there are at most as many claims as its budget has. -/
theorem count_claims_le (hbudget : 1 ≤ config.settings.jobMaxAttempts) (h : s.Budgeted config)
    {actions : List JobAction}
    (hresets : Execution.Along (step config)
      (fun s action => s.resets config jobId action = false) s actions) :
    (Execution.count (step config) (fun s action => s.claims config jobId action) s actions : Int) ≤
      config.settings.jobMaxAttempts := by
  have hcount := Execution.add_count_le (I := fun s => s.Budgeted config)
    (p := fun s action => s.claims config jobId action) (m := fun s => s.attempts jobId)
    (fun _ _ => step_budgeted hbudget) (fun _ _ _ => attempts_step) h hresets
  have hafter : (Execution.run (step config) s actions).Budgeted config :=
    Execution.invariant (I := fun s : JobSystem => s.Budgeted config)
      (fun _ _ => step_budgeted hbudget) h actions
  have hbound : ((Execution.run (step config) s actions).attempts jobId : Int) ≤
      config.settings.jobMaxAttempts := by
    rw [attempts]
    cases hrow : (Execution.run (step config) s actions).db.jobs.find? jobId with
    | none => exact (by omega : (0 : Int) ≤ config.settings.jobMaxAttempts)
    | some row =>
        rw [← (hafter.rows hrow).budget]
        exact (hafter.rows hrow).bounded
  have hnat : Execution.count (step config) (fun s action => s.claims config jobId action) s actions
      ≤ (Execution.run (step config) s actions).attempts jobId := by omega
  exact (Int.ofNat_le.mpr hnat).trans hbound

theorem run_budgeted (hbudget : 1 ≤ config.settings.jobMaxAttempts) (actions : List JobAction) :
    (run config actions).Budgeted config :=
  Execution.invariant (I := fun s : JobSystem => s.Budgeted config)
    (fun _ _ => step_budgeted hbudget) ⟨initial_sound, nofun⟩ actions

end JobSystem

/-- A row that is due has waited: its backoff or its lease is over. -/
theorem JobRecord.due_of_eligible {row : JobRecord} {now : Instant} (hrow : row.Consistent)
    (h : row.eligible now = true) :
    row.status = .pending ∨
      (row.status = .retrying ∧ ∃ due, row.nextAttemptAt = some due ∧ due ≤ now) ∨
        row.status = .running ∧ ∃ expiresAt, row.leaseExpiresAt = some expiresAt ∧
          expiresAt ≤ now := by
  unfold JobRecord.eligible at h
  cases hstatus : row.status with
  | pending => exact Or.inl rfl
  | retrying =>
      obtain ⟨due, hdue⟩ := Option.isSome_iff_exists.mp (hrow.nextAttemptAt.mpr hstatus)
      refine Or.inr (Or.inl ⟨rfl, due, hdue, ?_⟩)
      simpa [hstatus, isDue, hdue] using h
  | running =>
      obtain ⟨expiresAt, hexpires⟩ := Option.isSome_iff_exists.mp (hrow.leaseExpiresAt.mpr hstatus)
      refine Or.inr (Or.inr ⟨rfl, expiresAt, hexpires, ?_⟩)
      simpa [hstatus, isDue, hexpires] using h
  | succeeded | failed | exhausted | cancelled => simp [hstatus] at h

/-- With a budget of at least one attempt: waiting jobs have attempts left and running ones
are within the budget; between two retries of a job there are at most as many claims as the
budget has; no claim takes a job before its backoff or its lease is over; and a job whose
attempts are spent is picked only when its lease has expired. -/
theorem attempts_bounded (config : Config) (hbudget : 1 ≤ config.settings.jobMaxAttempts)
    (actions : List JobAction) :
    (∀ row ∈ (JobSystem.run config actions).db.jobs.rows,
      row.maxAttempts = config.settings.jobMaxAttempts ∧
      (row.status = .pending ∨ row.status = .retrying →
        (row.attemptCount : Int) < row.maxAttempts) ∧
      (row.status = .running → 1 ≤ row.attemptCount ∧
        (row.attemptCount : Int) ≤ row.maxAttempts)) ∧
    (∀ (jobId : Uuid) (later : List JobAction),
      Execution.Along (JobSystem.step config)
          (fun s action => s.resets config jobId action = false)
          (JobSystem.run config actions) later →
        (Execution.count (JobSystem.step config) (fun s action => s.claims config jobId action)
          (JobSystem.run config actions) later : Int) ≤ config.settings.jobMaxAttempts) ∧
    (∀ owner now locked token job,
      (claimPass config.settings (JobSystem.run config actions).db owner now locked token).2 =
          .claimed job →
        ∃ row, (JobSystem.run config actions).db.jobs.find? job.id = some row ∧
          (row.status = .pending ∨
            (row.status = .retrying ∧ ∃ due, row.nextAttemptAt = some due ∧ due ≤ now) ∨
              row.status = .running ∧ ∃ expiresAt, row.leaseExpiresAt = some expiresAt ∧
                expiresAt ≤ now)) ∧
    ∀ locked now candidate,
      claimCandidate (JobSystem.run config actions).db locked now = some candidate →
        candidate.maxAttempts ≤ candidate.attemptCount →
          candidate.status = .running ∧ ∃ expiresAt, candidate.leaseExpiresAt = some expiresAt ∧
            expiresAt ≤ now := by
  have hbudgeted := JobSystem.run_budgeted hbudget actions
  refine ⟨?_, ?_, ?_, ?_⟩
  · intro row hrow
    have hfits := hbudgeted.rows (Table.find?_of_mem hrow)
    exact ⟨hfits.budget, hfits.waiting, fun h => ⟨hfits.running h, hfits.bounded⟩⟩
  · intro jobId later hresets
    exact JobSystem.count_claims_le hbudget hbudgeted hresets
  · intro owner now locked token job hclaimed
    obtain ⟨row, hrow, heligible, -⟩ := JobSystem.claimPass_taken hclaimed
    exact ⟨row, hrow, JobRecord.due_of_eligible (hbudgeted.sound.consistent hrow) heligible⟩
  · intro locked now candidate hcandidate hspent
    obtain ⟨hrow, heligible⟩ := claimCandidate_stored hcandidate
    have hwaiting := (hbudgeted.rows hrow).waiting
    rcases JobRecord.due_of_eligible (hbudgeted.sound.consistent hrow) heligible with
      hpending | ⟨hretrying, -⟩ | hrunning
    · have hlt := hwaiting (Or.inl hpending)
      omega
    · have hlt := hwaiting (Or.inr hretrying)
      omega
    · exact hrunning

theorem day_pos : (0 : Instant) < 86400000000 := by
  decide

/-- A backfill whose worker disappears twice. -/
def abandonedBackfill : List JobAction :=
  [.call (.createBackfill ⟨"account_stats@1.0.0", 0, 86400000000, day_pos⟩ 1 0),
    .call (.claimPass "worker-a" 0 [] 10), .call (.heartbeat 1 10 5000000),
    .call (.claimPass "worker-b" 60000000 [] 11)]

theorem abandoned_backfill_bounded :
    (Execution.count (JobSystem.step defaultConfig)
      (fun s action => s.claims defaultConfig 1 action) (JobSystem.run defaultConfig [])
      abandonedBackfill : Int) ≤ 3 :=
  (attempts_bounded defaultConfig (by decide) []).2.1 1 abandonedBackfill (by decide +kernel)

end FeatureStore
