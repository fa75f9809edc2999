import FeatureStore.JobRows

/-!
# Retries that race with cancellations and cleanups

A retry checks the row that it has loaded: a cancelled job qualifies only when it can be
resumed, and no job whose artifacts have expired does. Its UPDATE repeats neither check, so
that what happens to the job in between decides whether they still hold.
-/

namespace FeatureStore

open Relational

/-- The cancelled jobs that `retry` resumes. -/
def JobRecord.isResumable (row : JobRecord) : Bool :=
  decide (row.kind = .historicalQuery) || row.isIncremental

/-- Cancelled jobs that cannot be resumed stay cancelled. -/
def StayCancelled (before after : Database) : Prop :=
  ∀ jobId row, before.jobs.find? jobId = some row → row.isResumable = false →
    row.status = .cancelled → ∃ row', after.jobs.find? jobId = some row' ∧
      row'.isResumable = false ∧ row'.status = .cancelled

/-- The action is no UPDATE of a retry on a cancelled job that cannot be resumed. -/
def SparesCancelled (s : JobSystem) : JobAction → Prop
  | .updateRetry client => ∀ job now, s.retries client = some (job, now) →
      ∀ row, s.db.jobs.find? job.id = some row → row.isResumable = false →
        row.status ≠ .cancelled
  | .call _ | .refresh _ _ | .checkRetry _ _ _ | .cleanup _ _ => True

/-- The retries in flight loaded stored jobs. -/
def JobSystem.RetriesLoaded (s : JobSystem) : Prop :=
  ∀ client job now, s.retries client = some (job, now) →
    ∃ row, s.db.jobs.find? job.id = some row ∧ row.kind = job.kind ∧ row.payload = job.payload

section Steps

variable {config : Config} {s : JobSystem} {action : JobAction} {row row' : JobRecord}

theorem RowStep.payload_eq (h : RowStep config s action row row') :
    row'.payload = row.payload := by
  cases h <;> rfl

theorem RowStep.isResumable_eq (h : RowStep config s action row row') :
    row'.isResumable = row.isResumable := by
  simp only [JobRecord.isResumable, JobRecord.isIncremental, JobRecord.incremental?, h.kind_eq,
    h.payload_eq]

theorem JobSystem.step_retries {client : Nat} {job : JobRecord} {now : Instant}
    (h : (s.step config action).retries client = some (job, now)) :
    s.retries client = some (job, now) ∨ s.db.jobs.find? job.id = some job := by
  cases action with
  | call call =>
      rw [step] at h
      split at h <;> exact Or.inl h
  | refresh token jobId =>
      rw [step] at h
      split at h
      · exact Or.inl h
      · split at h <;> exact Or.inl h
  | checkRetry client' jobId time =>
      simp only [step, Function.update_apply] at h
      split at h
      · unfold checkedRetry at h
        split at h
        · cases h
        · rename_i loaded hloaded
          split at h
          · cases h
          · cases h
            rw [Table.key_of_find? hloaded]
            exact Or.inr hloaded
      · exact Or.inl h
  | updateRetry client' =>
      rw [step] at h
      split at h
      · exact Or.inl h
      · simp only [Function.update_apply] at h
        split at h
        · cases h
        · exact Or.inl h
  | cleanup locked time => exact Or.inl h

theorem JobSystem.initial_retriesLoaded : initial.RetriesLoaded := by
  intro client job now h
  cases h

theorem JobSystem.step_retriesLoaded (h : s.RetriesLoaded) :
    (s.step config action).RetriesLoaded := by
  intro client job now hretry
  have hloaded : ∃ row, s.db.jobs.find? job.id = some row ∧ row.kind = job.kind ∧
      row.payload = job.payload := by
    cases step_retries hretry with
    | inl hold => exact h client job now hold
    | inr hnew => exact ⟨job, hnew, rfl, rfl⟩
  obtain ⟨row, hrow, hkind, hpayload⟩ := hloaded
  obtain ⟨row', hrow', hstep⟩ := step_row config action hrow
  exact ⟨row', hrow', hstep.kind_eq.trans hkind, hstep.payload_eq.trans hpayload⟩

/-- The UPDATE of a retry takes effect on a job that is not incremental whenever its status
is one that it accepts. -/
theorem updateRetry_resets {settings : Settings} {db : Database} {job : JobRecord} {now : Instant}
    (hrow : db.jobs.find? job.id = some row) (hplain : job.incremental? = none)
    (hresettable : row.status.isResettable = true) :
    (updateRetry settings db job now).1 =
      { db with jobs := db.jobs.modify job.id (setRetried settings) } := by
  obtain ⟨hcount, hupdate⟩ :=
    Table.update_hit (fun row : JobRecord => row.status.isResettable) hrow hresettable
  unfold updateRetry reacquire
  simp only [hplain]
  unfold retryUpdate
  dsimp only
  rw [if_neg hcount, hupdate]

theorem isIncremental_eq_of_kept {job : JobRecord} (hkind : row.kind = job.kind)
    (hpayload : row.payload = job.payload) : job.incremental? = row.incremental? := by
  rw [JobRecord.incremental?, JobRecord.incremental?, hkind, hpayload]

theorem step_stayCancelled_iff (h : s.RetriesLoaded) :
    StayCancelled s.db (s.step config action).db ↔ SparesCancelled s action := by
  constructor
  · intro hstay
    cases action with
    | updateRetry client =>
        intro job now hretry row hrow hplain hcancelled
        obtain ⟨row', hrow', -, hstatus⟩ := hstay job.id row hrow hplain hcancelled
        obtain ⟨stored, hstored, hkind, hpayload⟩ := h client job now hretry
        obtain rfl := Option.some.inj (hstored.symm.trans hrow)
        have hincremental : job.incremental? = none := by
          rw [isIncremental_eq_of_kept hkind hpayload]
          simp only [JobRecord.isResumable, JobRecord.isIncremental, Bool.or_eq_false_iff] at hplain
          exact Option.not_isSome_iff_eq_none.mp (Bool.eq_false_iff.mp hplain.2)
        have hreset := @updateRetry_resets stored config.settings s.db job now hstored hincremental
          (by rw [hcancelled]; rfl)
        simp only [JobSystem.step, hretry, hreset, Table.find?_modify_self, hstored] at hrow'
        obtain rfl := Option.some.inj hrow'
        cases hstatus
    | _ => trivial
  · intro hspares jobId row hrow hplain hcancelled
    obtain ⟨row', hrow', hstep⟩ := JobSystem.step_row config action hrow
    refine ⟨row', hrow', hstep.isResumable_eq.trans hplain, ?_⟩
    cases hstep.final_status (by rw [hcancelled]; rfl) with
    | inl hsame => rw [hsame, hcancelled]
    | inr hretried =>
        obtain ⟨-, -, client, job, now, rfl, hretry, hid⟩ := hretried
        rw [Table.key_of_find? hrow] at hid
        exact absurd hcancelled (hspares job now hretry row (hid ▸ hrow) hplain)

end Steps

theorem StayCancelled.refl (db : Database) : StayCancelled db db :=
  fun _ row hrow hplain hcancelled => ⟨row, hrow, hplain, hcancelled⟩

theorem StayCancelled.trans {first second third : Database} (h : StayCancelled first second)
    (h' : StayCancelled second third) : StayCancelled first third := by
  intro jobId row hrow hplain hcancelled
  obtain ⟨row', hrow', hplain', hcancelled'⟩ := h jobId row hrow hplain hcancelled
  exact h' jobId row' hrow' hplain' hcancelled'

/-- Jobs that cannot be resumed stay cancelled from any state of a run to any later one
exactly when no retry of the run updates such a job while it is cancelled. -/
theorem cancelled_final_iff (config : Config) (actions : List JobAction) :
    (∀ first later rest, actions = first ++ later ++ rest →
        StayCancelled (JobSystem.run config first).db (JobSystem.run config (first ++ later)).db) ↔
      Execution.Along (JobSystem.step config) SparesCancelled .initial actions := by
  have hsteps : Execution.Along (JobSystem.step config)
      (fun s action => StayCancelled s.db (s.step config action).db) .initial actions ↔
        Execution.Along (JobSystem.step config) SparesCancelled .initial actions := by
    apply Execution.along_congr (I := JobSystem.RetriesLoaded)
    · exact fun _ _ => JobSystem.step_retriesLoaded
    · exact fun _ _ => step_stayCancelled_iff
    · exact JobSystem.initial_retriesLoaded
  have hrelated := @Execution.along_iff_related _ _ (JobSystem.step config)
    (fun s t => StayCancelled s.db t.db) (fun s => .refl s.db) (fun h h' => h.trans h')
    .initial actions
  rw [← hsteps, hrelated]
  constructor
  · intro h first later rest hsplit
    have hstay := h first later rest hsplit
    rwa [JobSystem.run, JobSystem.run, Execution.run_append] at hstay
  · intro h first later rest hsplit
    rw [JobSystem.run, JobSystem.run, Execution.run_append]
    exact h first later rest hsplit

/-- A client checks a failed backfill for its retry; before the UPDATE another client
retries it and then cancels it. -/
def cancelledRetry : List JobAction :=
  [.call (.createBackfill ⟨"account_stats@1.0.0", 0, 86400000000, day_pos⟩ 1 0),
    .call (.claimPass "worker-a" 0 [] 10),
    .call (.finalizeFailure
      { newJobRecord defaultConfig.settings 1 .backfill
          (.range "account_stats@1.0.0" 0 86400000000) none 0 with
        status := .running, attemptCount := 1, startedAt := some 0, workerId := some "worker-a",
        leaseToken := some 10, leaseExpiresAt := some 30000000, lastHeartbeatAt := some 0 }
      10 1 ⟨.value, "bad row"⟩ "ValueError: bad row" none),
    .checkRetry 0 1 2, .checkRetry 1 1 2, .updateRetry 1, .call (.cancel 1 3), .updateRetry 0]

theorem cancelled_backfill_retried :
    ¬∀ (config : Config) (actions first later rest : List JobAction),
      actions = first ++ later ++ rest →
        StayCancelled (JobSystem.run config first).db
          (JobSystem.run config (first ++ later)).db := by
  intro h
  have hstay :=
    h defaultConfig cancelledRetry (cancelledRetry.take 7) (cancelledRetry.drop 7) [] rfl
  have hbefore : ((JobSystem.run defaultConfig (cancelledRetry.take 7)).db.jobs.find? 1).any
      (fun row => !row.isResumable && decide (row.status = .cancelled)) = true := by
    decide +kernel
  have hafter : ((JobSystem.run defaultConfig
      (cancelledRetry.take 7 ++ cancelledRetry.drop 7)).db.jobs.find? 1).map (·.status) =
        some .pending := by
    decide +kernel
  obtain ⟨row, hrow, hcancelled⟩ := (Option.any_eq_true _ _).mp hbefore
  simp only [Bool.and_eq_true, Bool.not_eq_true', decide_eq_true_eq] at hcancelled
  obtain ⟨row', hrow', -, hstatus⟩ := hstay 1 row hrow hcancelled.1 hcancelled.2
  rw [hrow', Option.map_some, hstatus] at hafter
  cases hafter

/-- The input of every historical query that may still run is in storage. -/
def InputsKept (s : JobSystem) : Prop :=
  ∀ jobId row, s.db.jobs.find? jobId = some row → row.kind = .historicalQuery →
    row.status.isActive = true → jobId ∈ s.inputs

/-- The action is no UPDATE of a retry on a historical query whose artifacts have been
cleaned. -/
def SparesCleaned (s : JobSystem) : JobAction → Prop
  | .updateRetry client => ∀ job now, s.retries client = some (job, now) →
      ∀ row, s.db.jobs.find? job.id = some row → row.kind = .historicalQuery →
        row.status.isResettable = true → row.artifactsCleanedAt = none
  | .call _ | .refresh _ _ | .checkRetry _ _ _ | .cleanup _ _ => True

/-- Cleaned jobs have ended and have no input in storage; retries loaded stored jobs. -/
structure CleanupSound (s : JobSystem) : Prop where
  loaded : s.RetriesLoaded
  cleaned : ∀ {jobId row}, s.db.jobs.find? jobId = some row →
    row.artifactsCleanedAt.isSome = true → row.status.isTerminal = true ∧ jobId ∉ s.inputs

/-- The input of every historical query that has not been cleaned is in storage. -/
def UncleanedKept (s : JobSystem) : Prop :=
  ∀ jobId row, s.db.jobs.find? jobId = some row → row.kind = .historicalQuery →
    row.artifactsCleanedAt = none → jobId ∈ s.inputs

section Cleanup

variable {config : Config} {s : JobSystem} {action : JobAction} {row row' : JobRecord}
  {jobId : Uuid}

/-- A cleaned row has been cleaned before, or is cleaned by the action; it has ended. -/
theorem RowStep.cleaned_cases (h : RowStep config s action row row')
    (hcleaned : row'.artifactsCleanedAt.isSome = true) :
    (row.artifactsCleanedAt.isSome = true ∧
      (row.status.isTerminal = true → row'.status.isTerminal = true)) ∨
      ∃ locked now, action = .cleanup locked now ∧ cleanupGuard locked now row = true ∧
        row'.status = row.status := by
  cases h with
  | retried => cases hcleaned
  | cleaned locked now hexpired => exact Or.inr ⟨locked, now, rfl, hexpired, rfl⟩
  | claimed _ _ _ _ _ heligible =>
      refine Or.inl ⟨hcleaned, fun hterminal => ?_⟩
      rw [JobStatus.isTerminal_eq, JobRecord.isActive_of_eligible heligible] at hterminal
      cases hterminal
  | failed _ _ _ _ _ _ _ _ howned =>
      refine Or.inl ⟨hcleaned, fun hterminal => ?_⟩
      rw [JobRecord.running_of_ownedBy howned] at hterminal
      cases hterminal
  | kept | renewed | checkpointed => exact Or.inl ⟨hcleaned, id⟩
  | cancelled | exhausted | succeeded => exact Or.inl ⟨hcleaned, fun _ => rfl⟩

/-- A row that is not cleaned was not cleaned before, unless a retry has reset it. -/
theorem RowStep.uncleaned_cases (h : RowStep config s action row row')
    (huncleaned : row'.artifactsCleanedAt = none) :
    row.artifactsCleanedAt = none ∨
      ∃ client job now, action = .updateRetry client ∧ s.retries client = some (job, now) ∧
        job.id = row.id ∧ row.status.isResettable = true := by
  cases h with
  | retried client hchecked hsame hresettable =>
      exact Or.inr ⟨client, _, _, rfl, hchecked, hsame, hresettable⟩
  | cleaned => cases huncleaned
  | _ => exact Or.inl huncleaned

theorem cleanupGuard_iff {locked : List Uuid} {now : Instant} :
    cleanupGuard locked now row = true ↔ row.kind = .historicalQuery ∧
      row.status.isTerminal = true ∧ (∃ expiresAt, row.artifactExpiresAt = some expiresAt ∧
        expiresAt ≤ now) ∧ row.artifactsCleanedAt = none ∧ row.id ∉ locked := by
  unfold cleanupGuard
  cases row.artifactExpiresAt <;> simp [and_assoc]

/-- The inputs after a step: those of new historical queries are added, those of the jobs
that a cleanup selects are deleted. -/
theorem JobSystem.mem_inputs_step :
    jobId ∈ (s.step config action).inputs ↔
      (jobId ∈ s.inputs ∧ ∀ locked now, action = .cleanup locked now →
        ∀ row, s.db.jobs.find? jobId = some row → cleanupGuard locked now row = false) ∨
      ∃ call, action = .call call ∧ s.Admits call ∧ call.input? = some jobId := by
  have hkept : (∀ locked now, action ≠ .cleanup locked now) → jobId ∈ s.inputs →
      jobId ∈ s.inputs ∧ ∀ locked now, action = .cleanup locked now →
        ∀ row, s.db.jobs.find? jobId = some row → cleanupGuard locked now row = false :=
    fun hne hmem => ⟨hmem, fun locked now heq => absurd heq (hne locked now)⟩
  have hplain : (∀ locked now, action ≠ .cleanup locked now) → (∀ call, action ≠ .call call) →
      (jobId ∈ s.inputs ↔ (jobId ∈ s.inputs ∧ ∀ locked now, action = .cleanup locked now →
        ∀ row, s.db.jobs.find? jobId = some row → cleanupGuard locked now row = false) ∨
        ∃ call, action = .call call ∧ s.Admits call ∧ call.input? = some jobId) := by
    intro hcleanup hcall
    constructor
    · exact fun hmem => Or.inl (hkept hcleanup hmem)
    · rintro (hold | ⟨call, heq, -⟩)
      · exact hold.1
      · exact absurd heq (hcall call)
  cases action with
  | call call =>
      have hne : ∀ locked now, JobAction.call call ≠ .cleanup locked now := by
        intro locked now heq
        cases heq
      rw [step]
      split
      · rename_i hadmits
        rw [List.mem_append, Option.mem_toList, or_comm]
        constructor
        · exact Or.imp (hkept hne) fun hinput => ⟨call, rfl, hadmits, hinput⟩
        · rintro (hold | ⟨_, heq, -, hinput⟩)
          · exact Or.inl hold.1
          · cases heq
            exact Or.inr hinput
      · rename_i hrejected
        constructor
        · exact fun hmem => Or.inl (hkept hne hmem)
        · rintro (hold | ⟨_, heq, hadmits, -⟩)
          · exact hold.1
          · cases heq
            exact absurd hadmits hrejected
  | cleanup locked now =>
      have hcleaned : jobId ∈ (cleanupExpiredArtifacts s.db locked now).2 ↔
          ∃ row, s.db.jobs.find? jobId = some row ∧ cleanupGuard locked now row = true := by
        simp only [cleanupExpiredArtifacts, List.mem_map, Table.mem_select]
        constructor
        · rintro ⟨row, ⟨hrow, hguard⟩, rfl⟩
          exact ⟨row, Table.find?_of_mem hrow, hguard⟩
        · rintro ⟨row, hrow, hguard⟩
          exact ⟨row, ⟨Table.mem_of_find? hrow, hguard⟩, Table.key_of_find? hrow⟩
      simp only [step, List.mem_filter, Bool.not_eq_true', List.contains_eq_mem,
        decide_eq_false_iff_not, hcleaned]
      constructor
      · rintro ⟨hmem, hfree⟩
        refine Or.inl ⟨hmem, fun _ _ heq row hrow => ?_⟩
        cases heq
        exact Bool.eq_false_iff.mpr fun hguard => hfree ⟨row, hrow, hguard⟩
      · rintro (⟨hmem, hfree⟩ | ⟨_, heq, -⟩)
        · refine ⟨hmem, ?_⟩
          rintro ⟨row, hrow, hguard⟩
          rw [hfree locked now rfl row hrow] at hguard
          cases hguard
        · cases heq
  | refresh token jobId' =>
      have hsame : (s.step config (.refresh token jobId')).inputs = s.inputs := by
        rw [step]
        split
        · rfl
        · split <;> rfl
      rw [hsame]
      apply hplain
      · intro _ _ heq
        cases heq
      · intro _ heq
        cases heq
  | checkRetry client jobId' now =>
      apply hplain
      · intro _ _ heq
        cases heq
      · intro _ heq
        cases heq
  | updateRetry client =>
      have hsame : (s.step config (.updateRetry client)).inputs = s.inputs := by
        rw [step]
        split <;> rfl
      rw [hsame]
      apply hplain
      · intro _ _ heq
        cases heq
      · intro _ heq
        cases heq

theorem JobSystem.step_cleanupSound (h : CleanupSound s) :
    CleanupSound (s.step config action) where
  loaded := step_retriesLoaded h.loaded
  cleaned := by
    intro jobId row' hrow' hcleaned
    cases hrow : s.db.jobs.find? jobId with
    | none =>
        obtain ⟨_, kind, payload, uri, now, -, -, rfl, -⟩ := step_new hrow hrow'
        cases hcleaned
    | some row =>
        obtain ⟨after, hafter, hstep⟩ := step_row config action hrow
        obtain rfl := Option.some.inj (hafter.symm.trans hrow')
        rw [mem_inputs_step, not_or]
        cases hstep.cleaned_cases hcleaned with
        | inl hold =>
            obtain ⟨hterminal, hdeleted⟩ := h.cleaned hrow hold.1
            refine ⟨hold.2 hterminal, fun hmem => hdeleted hmem.1, ?_⟩
            rintro ⟨call, -, hadmits, hinput⟩
            cases hrow.symm.trans (hadmits.2.2.2 jobId hinput)
        | inr hnew =>
            obtain ⟨locked, now, rfl, hguard, hstatus⟩ := hnew
            refine ⟨?_, fun hmem => ?_, ?_⟩
            · rw [hstatus]
              exact (cleanupGuard_iff.mp hguard).2.1
            · rw [hmem.2 locked now rfl row hrow] at hguard
              cases hguard
            · rintro ⟨call, heq, -⟩
              cases heq

theorem insertJob_new {settings : Settings} {db : Database} {id : Uuid} {kind : JobKind}
    {payload : JobPayload} {artifactUri : Option String} {now : Instant}
    (hnone : db.jobs.find? jobId = none)
    (hrow : (insertJob settings db id kind payload artifactUri now).1.jobs.find? jobId =
      some row) : row.kind = kind ∧ jobId = id := by
  unfold insertJob at hrow
  split at hrow
  · rename_i jobs hinsert
    obtain ⟨rfl, hid⟩ := find?_new hinsert hnone hrow
    exact ⟨rfl, hid⟩
  · cases hnone.symm.trans hrow

/-- A new historical query comes from the call that has written its input. -/
theorem JobSystem.input_of_new (hnone : s.db.jobs.find? jobId = none)
    (hrow : (s.step config action).db.jobs.find? jobId = some row)
    (hkind : row.kind = .historicalQuery) :
    ∃ call, action = .call call ∧ s.Admits call ∧ call.input? = some jobId := by
  obtain ⟨call, kind, payload, uri, now, rfl, hadmits, hnew, hsubmission⟩ := step_new hnone hrow
  have hsubmission : call.isSubmission = true := by
    rw [hnew] at hkind
    exact hsubmission.resolve_right fun hne => hne hkind
  refine ⟨call, rfl, hadmits, ?_⟩
  rw [step, if_pos hadmits] at hrow
  cases call with
  | createHistoricalQuery count features warnings uri id time =>
      exact congrArg some (insertJob_new hnone hrow).2.symm
  | createBackfill request id time => cases hkind.symm.trans (insertJob_new hnone hrow).1
  | createMaterialization request id time => cases hkind.symm.trans (insertJob_new hnone hrow).1
  | _ => cases hsubmission

theorem uncleanedKept_step (hkept : UncleanedKept s)
    (hspares : SparesCleaned s action) : UncleanedKept (s.step config action) := by
  intro jobId row' hrow' hkind huncleaned
  rw [JobSystem.mem_inputs_step]
  cases hrow : s.db.jobs.find? jobId with
  | none => exact Or.inr (JobSystem.input_of_new hrow hrow' hkind)
  | some row =>
      obtain ⟨after, hafter, hstep⟩ := JobSystem.step_row config action hrow
      obtain rfl := Option.some.inj (hafter.symm.trans hrow')
      rw [hstep.kind_eq] at hkind
      left
      cases hstep.uncleaned_cases huncleaned with
      | inl hold =>
          refine ⟨hkept jobId row hrow hkind hold, ?_⟩
          rintro locked now rfl stored hstored
          obtain rfl := Option.some.inj hstored
          rw [Bool.eq_false_iff]
          intro hguard
          change (s.db.jobs.update _ _).find? jobId = _ at hafter
          rw [Table.find?_update, hrow, Option.map_some, if_pos hguard] at hafter
          obtain rfl := Option.some.inj hafter
          cases huncleaned
      | inr hretried =>
          obtain ⟨client, job, now, rfl, hretry, hid, hresettable⟩ := hretried
          rw [Table.key_of_find? hrow] at hid
          have hclean := hspares job now hretry row (hid ▸ hrow) hkind hresettable
          exact ⟨hkept jobId row hrow hkind hclean, fun _ _ => nofun⟩

theorem sparesCleaned_of_inputsKept (h : CleanupSound s)
    (hkept : InputsKept (s.step config action)) : SparesCleaned s action := by
  cases action with
  | updateRetry client =>
      intro job now hretry row hrow hkind hresettable
      rw [← Option.not_isSome_iff_eq_none]
      intro hcleaned
      obtain ⟨stored, hstored, hsame, -⟩ := h.loaded client job now hretry
      obtain rfl := Option.some.inj (hstored.symm.trans hrow)
      have hplain : job.incremental? = none := by
        rw [JobRecord.incremental?, ← hsame, hkind]
        rfl
      have hreset := @updateRetry_resets stored config.settings s.db job now hstored hplain
        hresettable
      have hrow' : (s.step config (.updateRetry client)).db.jobs.find? job.id =
          some ((setRetried config.settings).set stored) := by
        simp only [JobSystem.step, hretry, hreset, Table.find?_modify_self, hstored,
          Option.map_some]
      have hmem := hkept job.id _ hrow' hkind rfl
      rw [JobSystem.mem_inputs_step] at hmem
      cases hmem with
      | inl hinput => exact (h.cleaned hstored hcleaned).2 hinput.1
      | inr hnew =>
          obtain ⟨_, heq, -⟩ := hnew
          cases heq
  | _ => trivial

end Cleanup

/-- The inputs of all historical queries that may still run are in storage in every state of
a run exactly when no retry of the run updates a historical query that has been cleaned. -/
theorem inputs_kept_iff (config : Config) (actions : List JobAction) :
    Execution.Along (JobSystem.step config) (fun s action => InputsKept (s.step config action))
        .initial actions ↔
      Execution.Along (JobSystem.step config) SparesCleaned .initial actions := by
  apply Execution.along_iff_of_inductive (I := CleanupSound) (P := InputsKept) (Q := UncleanedKept)
  · exact fun _ _ => JobSystem.step_cleanupSound
  · exact fun _ _ => sparesCleaned_of_inputsKept
  · exact fun _ _ _ => uncleanedKept_step
  · intro s h hkept jobId row hrow hkind hactive
    apply hkept jobId row hrow hkind
    rw [← Option.not_isSome_iff_eq_none]
    intro hcleaned
    have hterminal := (h.cleaned hrow hcleaned).1
    rw [JobStatus.isTerminal_eq, hactive] at hterminal
    cases hterminal
  · refine ⟨JobSystem.initial_retriesLoaded, fun hrow => ?_⟩
    cases hrow
  · intro jobId row hrow
    cases hrow

/-- A client checks a failed query for its retry while the artifacts are kept; a cleanup
deletes them before the UPDATE. -/
def cleanedRetry : List JobAction :=
  let uri := "s3://feature-store/artifacts/jobs/1/input.json"
  [.call (.createHistoricalQuery 1 ["account_stats@1.0.0:amount"] [] uri 1 0),
    .call (.claimPass "worker-a" 0 [] 10),
    .call (.finalizeFailure
      { newJobRecord defaultConfig.settings 1 .historicalQuery
          (.historicalQuery 1 ["account_stats@1.0.0:amount"] []) (some uri) 0 with
        status := .running, attemptCount := 1, startedAt := some 0, workerId := some "worker-a",
        leaseToken := some 10, leaseExpiresAt := some 30000000, lastHeartbeatAt := some 0 }
      10 1 ⟨.value, "bad row"⟩ "ValueError: bad row" none),
    .checkRetry 0 1 86400000000, .cleanup [] 86400000001, .updateRetry 0]

theorem cleaned_query_retried :
    ¬∀ (config : Config) (actions : List JobAction), InputsKept (JobSystem.run config actions) := by
  intro h
  have hkept := h defaultConfig cleanedRetry
  have hrow : ((JobSystem.run defaultConfig cleanedRetry).db.jobs.find? 1).any (fun row =>
      decide (row.kind = .historicalQuery) && row.status.isActive) = true := by
    decide +kernel
  have hinputs : (JobSystem.run defaultConfig cleanedRetry).inputs = [] := by
    decide +kernel
  obtain ⟨row, hfind, hruns⟩ := (Option.any_eq_true _ _).mp hrow
  simp only [Bool.and_eq_true, decide_eq_true_eq] at hruns
  have hmem := hkept 1 row hfind hruns.1 hruns.2
  rw [hinputs] at hmem
  cases hmem

end FeatureStore
