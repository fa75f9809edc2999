import FeatureStore.ResultDownloads
import FeatureStore.RetryRaces

/-!
# Retention of query results

A sweep deletes the results of the queries that have expired. A file lies in the directory of a
stored query, and a swept query has none, but for those of attempts that were paused before their
write and have not ended yet. So after a sweep that skips no locked row, what is in storage has
not expired or belongs to such an attempt.
-/

namespace FeatureStore

open Relational

section Rows

variable {config : Config} {s : JobSystem} {action : JobAction} {row row' : JobRecord}

/-- A row that has been swept after a step has ended, and was swept before or by the step. -/
theorem RowStep.swept_cases (h : RowStep config s action row row')
    (hended : row.artifactsCleanedAt.isSome = true → row.status.isTerminal = true)
    (hswept : row'.artifactsCleanedAt.isSome = true) :
    row'.status.isTerminal = true ∧ (row.artifactsCleanedAt.isSome = true ∨
      ∃ locked now, action = .cleanup locked now ∧ cleanupGuard locked now row = true) := by
  have hactive : row.status.isActive = true → row.artifactsCleanedAt = none := by
    intro hactive
    apply Option.not_isSome_iff_eq_none.mp
    intro hcleaned
    have hterminal := hended hcleaned
    rw [JobStatus.isTerminal_eq, hactive] at hterminal
    cases hterminal
  have hopen : ∀ after : JobRecord, after.artifactsCleanedAt = row.artifactsCleanedAt →
      row.status.isActive = true → ¬after.artifactsCleanedAt.isSome = true := by
    intro after hsame hopen hcleaned
    rw [hsame, hactive hopen] at hcleaned
    cases hcleaned
  cases h with
  | kept => exact ⟨hended hswept, Or.inl hswept⟩
  | cancelled _ hactive => exact absurd hswept (hopen _ rfl hactive)
  | retried => cases hswept
  | exhausted _ _ _ _ heligible | claimed _ _ _ _ _ heligible =>
      exact absurd hswept (hopen _ rfl (JobRecord.isActive_of_eligible heligible))
  | renewed _ _ howned | checkpointed _ _ _ _ _ _ howned | succeeded _ _ _ _ _ _ _ howned
  | failed _ _ _ _ _ _ _ _ howned =>
      refine absurd hswept (hopen _ rfl ?_)
      rw [JobRecord.running_of_ownedBy howned]
      rfl
  | cleaned locked now hguard =>
      exact ⟨(cleanupGuard_iff.mp hguard).2.1, Or.inr ⟨locked, now, rfl, hguard⟩⟩

end Rows

/-- The attempt has written its object and has not published it: it still deletes the object. -/
def AttemptStage.isPending : AttemptStage → Bool
  | .publishing _ _ => true
  | .raised _ written | .cleaning written => written
  | .reading | .checking _ | .joining | .writing _ | .refreshing | .ended => false

/-- The object is of an attempt that has neither published nor deleted it. -/
def AttemptSystem.Pending (root : String) (s : AttemptSystem) (uri : String) : Prop :=
  ∃ token attempt, s.attempts token = some attempt ∧ attempt.uri root token = uri ∧
    attempt.stage.isPending = true

/-- Files lie in the directories of stored queries, and swept queries have ended without any but
those of pending attempts. -/
structure AttemptSystem.Retained (root : String) (s : AttemptSystem) (files : List ResultFile) :
    Prop where
  placed : ∀ file ∈ files, ∃ jobId row, s.jobs.db.jobs.find? jobId = some row ∧
    row.kind = .historicalQuery ∧ inJobPrefix root jobId file.uri = true
  ended : ∀ {jobId row}, s.jobs.db.jobs.find? jobId = some row →
    row.artifactsCleanedAt.isSome = true → row.status.isTerminal = true
  swept : ∀ {jobId row}, s.jobs.db.jobs.find? jobId = some row →
    row.artifactsCleanedAt.isSome = true → ∀ file ∈ files,
      inJobPrefix root jobId file.uri = true → s.Pending root file.uri

/-- Rows are kept, and none is swept between the two states of the jobs. -/
structure JobSystem.KeepsSwept (s t : JobSystem) : Prop where
  kept : ∀ {jobId row}, s.db.jobs.find? jobId = some row →
    ∃ row', t.db.jobs.find? jobId = some row' ∧ row'.kind = row.kind
  swept : ∀ {jobId row'}, t.db.jobs.find? jobId = some row' →
    row'.artifactsCleanedAt.isSome = true → row'.status.isTerminal = true ∧
      ∃ row, s.db.jobs.find? jobId = some row ∧ row.artifactsCleanedAt.isSome = true

namespace JobSystem

variable {s t u : JobSystem}

theorem KeepsSwept.trans (h : s.KeepsSwept t) (h' : t.KeepsSwept u) : s.KeepsSwept u where
  kept := by
    intro jobId row hrow
    obtain ⟨row', hrow', hkind⟩ := h.kept hrow
    obtain ⟨row'', hrow'', hkind'⟩ := h'.kept hrow'
    exact ⟨row'', hrow'', hkind'.trans hkind⟩
  swept := by
    intro jobId row'' hrow'' hcleaned
    obtain ⟨hterminal, row', hrow', hcleaned'⟩ := h'.swept hrow'' hcleaned
    exact ⟨hterminal, (h.swept hrow' hcleaned').2⟩

/-- A row that has been swept after a step was swept before, or is selected by the sweep. -/
theorem swept_step (hended : ∀ {jobId row}, s.db.jobs.find? jobId = some row →
      row.artifactsCleanedAt.isSome = true → row.status.isTerminal = true)
    {config : Config} {action : JobAction} {jobId : Uuid} {row' : JobRecord}
    (hrow' : (s.step config action).db.jobs.find? jobId = some row')
    (hcleaned : row'.artifactsCleanedAt.isSome = true) :
    row'.status.isTerminal = true ∧ ∃ row, s.db.jobs.find? jobId = some row ∧
      (row.artifactsCleanedAt.isSome = true ∨
        ∃ locked now, action = .cleanup locked now ∧ cleanupGuard locked now row = true) := by
  cases hrow : s.db.jobs.find? jobId with
  | none =>
      obtain ⟨_, _, _, _, _, -, -, rfl, -⟩ := step_new hrow hrow'
      cases hcleaned
  | some row =>
      obtain ⟨after, hafter, hstep⟩ := s.step_row config action hrow
      obtain rfl := Option.some.inj (hafter.symm.trans hrow')
      obtain ⟨hterminal, hcause⟩ := hstep.swept_cases (hended hrow) hcleaned
      exact ⟨hterminal, row, rfl, hcause⟩

theorem keepsSwept_step (hended : ∀ {jobId row}, s.db.jobs.find? jobId = some row →
      row.artifactsCleanedAt.isSome = true → row.status.isTerminal = true)
    (config : Config) {action : JobAction} (hplain : ∀ locked now, action ≠ .cleanup locked now) :
    s.KeepsSwept (s.step config action) where
  kept := by
    intro jobId row hrow
    obtain ⟨row', hrow', hstep⟩ := s.step_row config action hrow
    exact ⟨row', hrow', hstep.kind_eq⟩
  swept := by
    intro jobId row' hrow' hcleaned
    obtain ⟨hterminal, row, hrow, hcause⟩ := swept_step hended hrow' hcleaned
    refine ⟨hterminal, row, hrow, hcause.resolve_right ?_⟩
    rintro ⟨locked, now, hsweep, -⟩
    exact hplain locked now hsweep

end JobSystem

namespace AttemptSystem

variable {config : Config} {root : String} {s : AttemptSystem} {files files' : List ResultFile}
  {token : Uuid} {attempt : QueryAttempt}

theorem Retained.keepsSwept (h : s.Retained root files) : s.jobs.KeepsSwept s.jobs where
  kept := fun hrow => ⟨_, hrow, rfl⟩
  swept := fun hrow hcleaned => ⟨h.ended hrow hcleaned, _, hrow, hcleaned⟩

/-- Fewer files are retained as well. -/
theorem Retained.subset (h : s.Retained root files) (hfiles : files' ⊆ files) :
    s.Retained root files' where
  placed := fun file hfile => h.placed file (hfiles hfile)
  ended := h.ended
  swept := fun hrow hcleaned file hfile => h.swept hrow hcleaned file (hfiles hfile)

/-- An attempt moves to another stage with its own file alone, which is pending, or of a query
that has not been swept, or was there before without being pending. -/
theorem Retained.move (h : s.Retained root files) (hattempt : s.attempts token = some attempt)
    (hquery : ∃ row, s.jobs.db.jobs.find? attempt.job.id = some row ∧ row.kind = .historicalQuery)
    {jobs : JobSystem} (hjobs : s.jobs.KeepsSwept jobs) (objects : List String)
    {stage : AttemptStage}
    (hothers : ∀ file ∈ files', file.uri ≠ attempt.uri root token → file ∈ files)
    (hmine : ∀ file ∈ files', file.uri = attempt.uri root token → stage.isPending = true ∨
      (∀ row, jobs.db.jobs.find? attempt.job.id = some row → row.artifactsCleanedAt = none) ∨
        file ∈ files ∧ attempt.stage.isPending = false) :
    (setStage ⟨jobs, objects, s.attempts⟩ token attempt stage).Retained root files' where
  placed := by
    intro file hfile
    by_cases huri : file.uri = attempt.uri root token
    · obtain ⟨row, hrow, hkind⟩ := hquery
      obtain ⟨row', hrow', hsame⟩ := hjobs.kept hrow
      refine ⟨_, row', hrow', hsame.trans hkind, ?_⟩
      rw [huri]
      exact inJobPrefix_resultUri.mpr rfl
    · obtain ⟨jobId, row, hrow, hkind, hinside⟩ := h.placed file (hothers file hfile huri)
      obtain ⟨row', hrow', hsame⟩ := hjobs.kept hrow
      exact ⟨jobId, row', hrow', hsame.trans hkind, hinside⟩
  ended := fun hrow hcleaned => (hjobs.swept hrow hcleaned).1
  swept := by
    intro jobId row' hrow' hcleaned file hfile hinside
    obtain ⟨-, row, hrow, hbefore⟩ := hjobs.swept hrow' hcleaned
    by_cases huri : file.uri = attempt.uri root token
    · rcases hmine file hfile huri with hpending | hopen | ⟨hold, hsettled⟩
      · exact ⟨token, _, Function.update_self .., huri.symm, hpending⟩
      · rw [huri] at hinside
        obtain rfl := inJobPrefix_resultUri.mp hinside
        rw [hopen row' hrow'] at hcleaned
        cases hcleaned
      · obtain ⟨token', attempt', hattempt', heq, hpending⟩ :=
          h.swept hrow hbefore file hold hinside
        obtain rfl := QueryAttempt.uri_inj (heq.trans huri)
        obtain rfl := Option.some.inj (hattempt'.symm.trans hattempt)
        cases hsettled.symm.trans hpending
    · obtain ⟨token', attempt', hattempt', heq, hpending⟩ :=
        h.swept hrow hbefore file (hothers file hfile huri) hinside
      have hne : token' ≠ token := by
        rintro rfl
        obtain rfl := Option.some.inj (hattempt'.symm.trans hattempt)
        exact huri heq.symm
      exact ⟨token', attempt', (Function.update_of_ne hne ..).trans hattempt', heq, hpending⟩

/-- An attempt whose file is not pending, or stays so, moves on without touching it. -/
theorem Retained.stay (h : s.Retained root files) (hattempt : s.attempts token = some attempt)
    (hquery : ∃ row, s.jobs.db.jobs.find? attempt.job.id = some row ∧ row.kind = .historicalQuery)
    {jobs : JobSystem} (hjobs : s.jobs.KeepsSwept jobs) {stage : AttemptStage}
    (hstage : stage.isPending = true ∨ attempt.stage.isPending = false) :
    (setStage ⟨jobs, s.objects, s.attempts⟩ token attempt stage).Retained root files :=
  h.move hattempt hquery hjobs _ (fun _ hfile _ => hfile) fun _ hfile _ =>
    hstage.imp_right fun hsettled => Or.inr ⟨hfile, hsettled⟩

/-- An attempt deletes its file. -/
theorem Retained.discard (h : s.Retained root files) (hattempt : s.attempts token = some attempt)
    (hquery : ∃ row, s.jobs.db.jobs.find? attempt.job.id = some row ∧ row.kind = .historicalQuery)
    (objects : List String) (stage : AttemptStage) :
    (setStage ⟨s.jobs, objects, s.attempts⟩ token attempt stage).Retained root
      (deleteFile files (attempt.uri root token)) :=
  h.move hattempt hquery h.keepsSwept objects
    (fun _ hfile _ => (mem_deleteFile.mp hfile).1)
    fun _ hfile huri => absurd huri (mem_deleteFile.mp hfile).2

/-- A query whose success is finalized has not been swept. -/
theorem not_swept_of_finalizeSuccess {jobs : JobSystem}
    (hended : ∀ {jobId row}, jobs.db.jobs.find? jobId = some row →
      row.artifactsCleanedAt.isSome = true → row.status.isTerminal = true)
    {job : JobRecord} {now : Instant} {uri : String} {result : Option ResultMetadata}
    {updated : JobRecord}
    (hok : (finalizeSuccess config.settings jobs.db job token now (some uri) result).2 =
      .ok updated)
    {row : JobRecord} (hrow : jobs.db.jobs.find? job.id = some row) :
    row.artifactsCleanedAt = none := by
  rcases lease_cases jobs.db.jobs job.id token now with
    ⟨stored, hstored, howned, -⟩ | ⟨hcount, -⟩
  · obtain rfl := Option.some.inj (hstored.symm.trans hrow)
    apply Option.not_isSome_iff_eq_none.mp
    intro hcleaned
    have hterminal := hended hrow hcleaned
    rw [JobRecord.running_of_ownedBy howned] at hterminal
    cases hterminal
  · unfold finalizeSuccess at hok
    rw [if_pos hcount] at hok
    cases hok

/-- The jobs take a step; a sweep deletes the directories of the jobs that it selects. -/
theorem Retained.other (h : s.Retained root files) (config : Config) (action : JobAction)
    (hsweep : ∀ locked now, action = .cleanup locked now → ∀ {jobId row},
      s.jobs.db.jobs.find? jobId = some row → cleanupGuard locked now row = true →
        ∀ file ∈ files, inJobPrefix root jobId file.uri = false) :
    ({ s with jobs := s.jobs.step config action } : AttemptSystem).Retained root files where
  placed := by
    intro file hfile
    obtain ⟨jobId, row, hrow, hquery, hinside⟩ := h.placed file hfile
    obtain ⟨row', hrow', hstep⟩ := s.jobs.step_row config action hrow
    exact ⟨jobId, row', hrow', hstep.kind_eq.trans hquery, hinside⟩
  ended := fun hrow hcleaned => (JobSystem.swept_step h.ended hrow hcleaned).1
  swept := by
    intro jobId row' hrow' hcleaned file hfile hinside
    obtain ⟨-, row, hrow, hcause⟩ := JobSystem.swept_step h.ended hrow' hcleaned
    rcases hcause with hold | ⟨locked, now, hnow, hguard⟩
    · exact h.swept hrow hold file hfile hinside
    · rw [hsweep locked now hnow hrow hguard file hfile] at hinside
      cases hinside

/-- An attempt begins. -/
theorem Retained.begin (h : s.Retained root files) (hnew : s.attempts token = none)
    (job : JobRecord) (stage : AttemptStage) :
    (s.setStage token ⟨job, .ended⟩ stage).Retained root files where
  placed := h.placed
  ended := h.ended
  swept := by
    intro jobId row hrow hcleaned file hfile hinside
    obtain ⟨token', attempt', hattempt', heq, hpending⟩ := h.swept hrow hcleaned file hfile hinside
    have hne : token' ≠ token := by
      rintro rfl
      cases hnew.symm.trans hattempt'
    exact ⟨token', attempt', (Function.update_of_ne hne ..).trans hattempt', heq, hpending⟩

end AttemptSystem

namespace ResultStorage

variable {config : Config} {root : String} {s : ResultStorage}

/-- The directories of the selected jobs are deleted. -/
theorem deleted_of_selected {db : Database} {locked : List Uuid} {now : Instant} {jobId : Uuid}
    {row : JobRecord} (hrow : db.jobs.find? jobId = some row)
    (hguard : cleanupGuard locked now row = true) {files : List ResultFile} {file : ResultFile}
    (hfile : file ∈ (cleanupExpiredArtifacts db locked now).2.foldl (deleteJob root) files) :
    inJobPrefix root jobId file.uri = false := by
  refine (mem_deleteJobs.mp hfile).2 jobId (List.mem_map.mpr ⟨row, ?_, Table.key_of_find? hrow⟩)
  rw [Table.mem_select]
  exact ⟨(Table.find?_some_iff.mp hrow).1, hguard⟩

/-- A state whose files are retained. -/
structure Orderly (root : String) (s : ResultStorage) : Prop where
  attempts : s.attempts.Sound root
  retained : s.attempts.Retained root s.files

theorem Orderly.advance (h : s.Orderly root) {token : Uuid} {attempt : QueryAttempt}
    (hattempt : s.attempts.attempts token = some attempt) (now : Instant) (outcome : Outcome) :
    (s.attempts.advance config root token attempt now outcome).Retained root
      (s.filesAfter root (.advance token now outcome)) := by
  have hquery : ∃ row, s.attempts.jobs.db.jobs.find? attempt.job.id = some row ∧
      row.kind = .historicalQuery := by
    obtain ⟨hcopied, hquery⟩ := h.attempts.claimed hattempt
    obtain ⟨-, -, row, hrow, hcopy⟩ := h.attempts.jobs.copied hcopied
    exact ⟨row, hrow, hcopy.kind.trans hquery⟩
  have hstay : ∀ stage : AttemptStage,
      stage.isPending = true ∨ attempt.stage.isPending = false →
        (s.attempts.setStage token attempt stage).Retained root s.files :=
    fun stage => h.retained.stay hattempt hquery h.retained.keepsSwept
  simp only [filesAfter, hattempt]
  cases hstage : attempt.stage with
  | reading =>
      rw [hstage] at hstay
      simp only [AttemptSystem.advance, hstage]
      split
      · exact hstay _ (Or.inr rfl)
      · split <;> exact hstay _ (Or.inr rfl)
  | checking joined =>
      rw [hstage] at hstay
      simp only [AttemptSystem.advance, hstage]
      split
      · exact hstay _ (Or.inr rfl)
      · split <;> exact hstay _ (Or.inr rfl)
  | joining =>
      rw [hstage] at hstay
      simp only [AttemptSystem.advance, hstage]
      split <;> exact hstay _ (Or.inr rfl)
  | writing rowCount =>
      simp only [AttemptSystem.advance, hstage]
      cases outcome.raised with
      | some exc => exact h.retained.discard hattempt hquery _ _
      | none =>
          refine h.retained.move hattempt hquery h.retained.keepsSwept _ ?_ fun _ _ _ => Or.inl rfl
          intro file hfile hne
          refine (List.mem_cons.mp hfile).resolve_left fun hsame => hne ?_
          rw [hsame]
  | publishing rowCount byteSize =>
      simp only [AttemptSystem.advance, hstage]
      split
      · exact hstay _ (Or.inl rfl)
      · have hjobs : s.attempts.jobs.KeepsSwept (s.attempts.jobs.step config (.call
            (.finalizeSuccess attempt.job token now (some (attempt.uri root token))
              (some (historicalResult attempt.job rowCount byteSize))))) :=
          JobSystem.keepsSwept_step h.retained.ended config fun _ _ hsame => by cases hsame
        split
        · rename_i hok
          refine h.retained.move hattempt hquery hjobs _ (fun _ hfile _ => hfile) fun _ _ _ => ?_
          refine Or.inr (Or.inl fun row' hrow' => ?_)
          rw [← Option.not_isSome_iff_eq_none]
          intro hcleaned
          obtain ⟨-, row, hrow, hbefore⟩ := hjobs.swept hrow' hcleaned
          rw [AttemptSystem.not_swept_of_finalizeSuccess h.retained.ended hok hrow] at hbefore
          cases hbefore
        · exact h.retained.stay hattempt hquery hjobs (Or.inl rfl)
  | refreshing =>
      rw [hstage] at hstay
      simp only [AttemptSystem.advance, hstage]
      split <;> exact hstay _ (Or.inr rfl)
  | raised exc written =>
      have hcleaning : (AttemptStage.cleaning written).isPending = true ∨
          attempt.stage.isPending = false := by
        rw [hstage]
        cases written with
        | true => exact Or.inl rfl
        | false => exact Or.inr rfl
      simp only [AttemptSystem.advance, hstage]
      split
      · exact hstay _ hcleaning
      · have hrefreshed : s.attempts.jobs.KeepsSwept
            (s.attempts.jobs.step config (.refresh token attempt.job.id)) :=
          JobSystem.keepsSwept_step h.retained.ended config fun _ _ heq => by cases heq
        have hended := fun {jobId row} hrow hcleaned =>
          (@hrefreshed.swept jobId row hrow hcleaned).1
        exact h.retained.stay hattempt hquery (hrefreshed.trans
          (JobSystem.keepsSwept_step hended config fun _ _ heq => by cases heq)) hcleaning
  | cleaning written =>
      rw [hstage] at hstay
      simp only [AttemptSystem.advance, hstage]
      cases written with
      | true => exact h.retained.discard hattempt hquery _ _
      | false => exact hstay _ (Or.inr rfl)
  | ended =>
      simp only [AttemptSystem.advance, hstage]
      exact h.retained

theorem Orderly.step (h : s.Orderly root) (config : Config) (action : StorageAction) :
    (s.step config root action).Orderly root := by
  cases action with
  | raisingSweep locked now deleted =>
      exact ⟨h.attempts, h.retained.subset (deleteJobs_sublist _ _).subset⟩
  | act action =>
      refine ⟨h.attempts.step config action, ?_⟩
      rw [ResultStorage.step]
      dsimp only
      cases action with
      | execute token job now =>
          rw [AttemptSystem.step]
          split
          · rename_i hguard
            exact h.retained.begin (Option.isNone_iff_eq_none.mp hguard.2.2.2) _ _
          · exact h.retained
      | advance token now outcome =>
          cases hattempt : s.attempts.attempts token with
          | none =>
              simp only [AttemptSystem.step, filesAfter, hattempt]
              exact h.retained
          | some attempt =>
              simp only [AttemptSystem.step, hattempt]
              exact h.advance hattempt now outcome
      | other action =>
          rw [AttemptSystem.step]
          cases action with
          | cleanup locked now =>
              rw [if_neg (by exact Bool.false_ne_true)]
              have hfewer : s.attempts.Retained root
                  (s.filesAfter root (.other (.cleanup locked now))) :=
                h.retained.subset (deleteJobs_sublist _ _).subset
              have hswept : ∀ {jobId row}, s.attempts.jobs.db.jobs.find? jobId = some row →
                  cleanupGuard locked now row = true →
                    ∀ file ∈ s.filesAfter root (.other (.cleanup locked now)),
                      inJobPrefix root jobId file.uri = false :=
                fun hrow hguard _ hfile => deleted_of_selected hrow hguard hfile
              exact hfewer.other config (.cleanup locked now) fun _ _ hnow => by
                cases hnow
                exact hswept
          | call call =>
              split
              · exact h.retained
              · exact h.retained.other config (.call call) fun _ _ hsame => by cases hsame
          | refresh token jobId =>
              exact h.retained.other config (.refresh token jobId) fun _ _ hsame => by cases hsame
          | checkRetry client jobId now =>
              exact h.retained.other config (.checkRetry client jobId now)
                fun _ _ hsame => by cases hsame
          | updateRetry client =>
              exact h.retained.other config (.updateRetry client) fun _ _ hsame => by cases hsame

theorem initial_orderly (root : String) : initial.Orderly root where
  attempts := AttemptSystem.initial_sound root
  retained :=
    { placed := fun _ hfile => by cases hfile
      ended := fun hrow => by cases hrow
      swept := fun hrow => by cases hrow }

theorem run_orderly (config : Config) (root : String) (actions : List StorageAction) :
    (run config root actions).Orderly root :=
  Execution.invariant (fun _ action h => h.step config action) (initial_orderly root) actions

end ResultStorage

/-- Whatever clients, workers and sweeps do, and wherever they raise, a query whose artifacts have
been cleaned has no result but those of attempts that have written since and have yet to delete
them; and after a sweep that skips no locked row, each other result is of a stored query that has
not ended or expires later. -/
theorem expired_results_deleted (config : Config) (root : String) (actions : List StorageAction)
    (now : Instant) :
    let s := ResultStorage.run config root actions
    (∀ jobId row, s.attempts.jobs.db.jobs.find? jobId = some row →
      row.artifactsCleanedAt.isSome = true →
        row.status.isTerminal = true ∧ ∀ file ∈ s.files,
          inJobPrefix root jobId file.uri = true → s.attempts.Pending root file.uri) ∧
      ∀ file ∈ (s.step config root (.act (.other (.cleanup [] now)))).files,
        ∃ jobId row, s.attempts.jobs.db.jobs.find? jobId = some row ∧
          row.kind = .historicalQuery ∧ inJobPrefix root jobId file.uri = true ∧
          (row.status.isTerminal = true →
            (∃ expiresAt, row.artifactExpiresAt = some expiresAt ∧ now < expiresAt) ∨
              row.artifactsCleanedAt.isSome = true ∧ s.attempts.Pending root file.uri) := by
  intro s
  have horderly := ResultStorage.run_orderly config root actions
  refine ⟨fun jobId row hrow hcleaned => ?_, fun file hfile => ?_⟩
  · exact ⟨horderly.retained.ended hrow hcleaned, horderly.retained.swept hrow hcleaned⟩
  · have hold : file ∈ s.files := (mem_deleteJobs.mp hfile).1
    obtain ⟨jobId, row, hrow, hquery, hinside⟩ := horderly.retained.placed file hold
    refine ⟨jobId, row, hrow, hquery, hinside, fun hterminal => ?_⟩
    obtain ⟨expiresAt, hexpires⟩ := Option.isSome_iff_exists.mp
      ((horderly.attempts.jobs.consistent hrow).artifactExpiresAt.mpr ⟨hquery, hterminal⟩)
    rcases lt_or_ge now expiresAt with hlasts | hdue
    · exact Or.inl ⟨expiresAt, hexpires, hlasts⟩
    · cases hcleaned : row.artifactsCleanedAt with
      | some time =>
          exact Or.inr ⟨rfl, horderly.retained.swept hrow (Option.isSome_of_eq_some hcleaned) file
            hold hinside⟩
      | none =>
          have hdeleted : inJobPrefix root jobId file.uri = false := by
            refine ResultStorage.deleted_of_selected hrow (cleanupGuard_iff.mpr ?_) hfile
            exact ⟨hquery, hterminal, ⟨expiresAt, hexpires, hdue⟩, hcleaned, List.not_mem_nil⟩
          rw [hdeleted] at hinside
          cases hinside

/-- A query is cancelled after the lease of its attempt has been checked for the last time, and
swept; then the attempt writes. -/
def lateWrite : List StorageAction :=
  (publishedQuery.take 7).map .act ++
    [.act (.other (.call (.cancel 1 2))), .act (.other (.cleanup [] (10 ^ 18))),
      .act (.advance 10 (10 ^ 18 + 1) ⟨none, 1, 1000, false, "", none⟩)]

/-- The swept query has a result again, which its attempt has yet to delete. -/
theorem expired_results_deleted_of_late_write :
    let s := ResultStorage.run defaultConfig "s3://artifacts" lateWrite
    s.files.length = 1 ∧ ∀ file ∈ s.files, s.attempts.Pending "s3://artifacts" file.uri := by
  have hswept : ((ResultStorage.run defaultConfig "s3://artifacts"
      lateWrite).attempts.jobs.db.jobs.find? 1).any (·.artifactsCleanedAt.isSome) = true := by
    decide +kernel
  have hinside : ∀ file ∈ (ResultStorage.run defaultConfig "s3://artifacts" lateWrite).files,
      inJobPrefix "s3://artifacts" 1 file.uri = true := by
    decide +kernel
  obtain ⟨row, hrow, hcleaned⟩ := (Option.any_eq_true _ _).mp hswept
  obtain ⟨-, hpending⟩ := (expired_results_deleted defaultConfig "s3://artifacts" lateWrite 0).1
    1 row hrow hcleaned
  exact ⟨by decide +kernel, fun file hfile => hpending file hfile (hinside file hfile)⟩

end FeatureStore
