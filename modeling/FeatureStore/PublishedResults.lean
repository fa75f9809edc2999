import FeatureStore.HistoricalAttempts

/-!
# Published results are kept

An attempt owns the object at its URI until its result is published. Whatever other processes
do and wherever an operation raises, the objects in storage are those of unsettled attempts
and of published results, as long as the refresh that follows a commit does not raise.
-/

namespace FeatureStore

open Relational

namespace AttemptStage

/-- The result is in storage and not yet settled. -/
def isWritten : AttemptStage → Bool
  | .publishing _ _ | .refreshing => true
  | .raised _ written | .cleaning written => written
  | .reading | .checking _ | .joining | .writing _ | .ended => false

/-- The success of the attempt may have been committed. -/
def isCommitted : AttemptStage → Bool
  | .refreshing | .ended => true
  | .reading | .checking _ | .joining | .writing _ | .publishing _ _ | .raised _ _
  | .cleaning _ => false

theorem isWritten_checked (joined : Option Nat) : (checked joined).isWritten = false := by
  cases joined <;> rfl

end AttemptStage

/-- Sound jobs; attempts are at claimed historical queries, and those that refresh their
session have published. -/
structure AttemptSystem.Sound (root : String) (s : AttemptSystem) : Prop where
  jobs : s.jobs.Sound
  claimed : ∀ {token attempt}, s.attempts token = some attempt →
    (token, attempt.job) ∈ s.jobs.copies ∧ attempt.job.kind = .historicalQuery
  refreshing : ∀ {token attempt}, s.attempts token = some attempt → attempt.stage = .refreshing →
    PublishedAt s.jobs.db attempt.job.id (attempt.uri root token)

/-- Unsettled results are in storage, published ones are those of committed attempts, and
what is in storage is unsettled or published. -/
structure AttemptSystem.Settles (root : String) (s : AttemptSystem) : Prop where
  written : ∀ {token attempt}, s.attempts token = some attempt → attempt.stage.isWritten = true →
    attempt.uri root token ∈ s.objects
  published : ∀ {jobId uri}, PublishedAt s.jobs.db jobId uri → uri ∈ s.objects ∧
    ∃ token attempt, s.attempts token = some attempt ∧ attempt.job.id = jobId ∧
      attempt.uri root token = uri ∧ attempt.stage.isCommitted = true
  owned : ∀ {uri}, uri ∈ s.objects → ∃ token attempt, s.attempts token = some attempt ∧
    attempt.uri root token = uri ∧
      (attempt.stage.isWritten = true ∨ PublishedAt s.jobs.db attempt.job.id uri)

theorem QueryAttempt.uri_inj {root : String} {token token' : Uuid} {attempt attempt' : QueryAttempt}
    (h : attempt.uri root token = attempt'.uri root token') : token = token' :=
  resultUri_token h

namespace AttemptSystem

variable {config : Config} {root : String} {s : AttemptSystem} {token : Uuid}
  {attempt : QueryAttempt}

theorem Settles.resultsKept (h : s.Settles root) : ResultsKept root s := by
  constructor
  · exact fun jobId uri hpublished => (h.published hpublished).1
  · intro token attempt hattempt hended hunpublished hmem
    obtain ⟨token', attempt', hattempt', huri, hcause⟩ := h.owned hmem
    obtain rfl := QueryAttempt.uri_inj huri
    obtain rfl := Option.some.inj (hattempt'.symm.trans hattempt)
    cases hcause with
    | inl hwritten =>
        rw [hended] at hwritten
        cases hwritten
    | inr hpublished => exact hunpublished hpublished

/-- An attempt moves to another stage, with its own object and result alone. -/
theorem Settles.move (h : s.Settles root) (hattempt : s.attempts token = some attempt)
    {jobs : JobSystem} {objects : List String} {stage : AttemptStage}
    (hobjects : ∀ uri, uri ≠ attempt.uri root token → (uri ∈ objects ↔ uri ∈ s.objects))
    (hkept : ∀ jobId uri, PublishedAt s.jobs.db jobId uri → PublishedAt jobs.db jobId uri)
    (hnew : ∀ jobId uri, PublishedAt jobs.db jobId uri → PublishedAt s.jobs.db jobId uri ∨
      jobId = attempt.job.id ∧ uri = attempt.uri root token)
    (hwritten : stage.isWritten = true → attempt.uri root token ∈ objects)
    (hpublished : PublishedAt jobs.db attempt.job.id (attempt.uri root token) →
      attempt.uri root token ∈ objects ∧ stage.isCommitted = true)
    (howned : attempt.uri root token ∈ objects → stage.isWritten = true ∨
      PublishedAt jobs.db attempt.job.id (attempt.uri root token)) :
    (setStage ⟨jobs, objects, s.attempts⟩ token attempt stage).Settles root := by
  have hmine : (setStage ⟨jobs, objects, s.attempts⟩ token attempt stage).attempts token =
      some { attempt with stage := stage } := Function.update_self ..
  have hothers : ∀ token', token' ≠ token →
      (setStage ⟨jobs, objects, s.attempts⟩ token attempt stage).attempts token' =
        s.attempts token' := fun token' hne => Function.update_of_ne hne ..
  have hother_uri : ∀ {token' : Uuid} {attempt' : QueryAttempt}, token' ≠ token →
      attempt'.uri root token' ≠ attempt.uri root token :=
    fun hne huri => hne (QueryAttempt.uri_inj huri)
  constructor
  · intro token' attempt' hattempt' hstage
    by_cases heq : token' = token
    · subst heq
      obtain rfl := Option.some.inj (hmine.symm.trans hattempt')
      exact hwritten hstage
    · rw [hothers token' heq] at hattempt'
      exact (hobjects _ (hother_uri heq)).mpr (h.written hattempt' hstage)
  · intro jobId uri hresult
    by_cases huri : jobId = attempt.job.id ∧ uri = attempt.uri root token
    · obtain ⟨rfl, rfl⟩ := huri
      obtain ⟨hmem, hcommitted⟩ := hpublished hresult
      exact ⟨hmem, token, _, hmine, rfl, rfl, hcommitted⟩
    · obtain ⟨hmem, token', attempt', hattempt', hid, huri', hcommitted⟩ :=
        h.published ((hnew jobId uri hresult).resolve_right huri)
      have hne : token' ≠ token := by
        rintro rfl
        obtain rfl := Option.some.inj (hattempt'.symm.trans hattempt)
        exact huri ⟨hid.symm, huri'.symm⟩
      refine ⟨(hobjects uri ?_).mpr hmem, token', attempt', ?_, hid, huri', hcommitted⟩
      · rw [← huri']
        exact hother_uri hne
      · rw [hothers token' hne, hattempt']
  · intro uri hmem
    by_cases huri : uri = attempt.uri root token
    · subst huri
      exact ⟨token, _, hmine, rfl, howned hmem⟩
    · obtain ⟨token', attempt', hattempt', huri', hcause⟩ := h.owned ((hobjects uri huri).mp hmem)
      have hne : token' ≠ token := by
        rintro rfl
        obtain rfl := Option.some.inj (hattempt'.symm.trans hattempt)
        exact huri huri'.symm
      refine ⟨token', attempt', ?_, huri', hcause.imp_right (hkept _ _)⟩
      rw [hothers token' hne, hattempt']

/-- What an attempt that has not committed has not published. -/
theorem Settles.unpublished (h : s.Settles root) (hattempt : s.attempts token = some attempt)
    (hopen : attempt.stage.isCommitted = false) :
    ¬PublishedAt s.jobs.db attempt.job.id (attempt.uri root token) := by
  intro hpublished
  obtain ⟨-, token', attempt', hattempt', -, huri, hcommitted⟩ := h.published hpublished
  obtain rfl := QueryAttempt.uri_inj huri
  obtain rfl := Option.some.inj (hattempt'.symm.trans hattempt)
  rw [hopen] at hcommitted
  cases hcommitted

/-- The object of an attempt that has not committed is there exactly while it is unsettled. -/
theorem Settles.mem_iff (h : s.Settles root) (hattempt : s.attempts token = some attempt)
    (hopen : attempt.stage.isCommitted = false) :
    attempt.uri root token ∈ s.objects ↔ attempt.stage.isWritten = true := by
  constructor
  · intro hmem
    obtain ⟨token', attempt', hattempt', huri, hcause⟩ := h.owned hmem
    obtain rfl := QueryAttempt.uri_inj huri
    obtain rfl := Option.some.inj (hattempt'.symm.trans hattempt)
    exact hcause.resolve_right (h.unpublished hattempt hopen)
  · exact h.written hattempt

/-- An attempt that has not committed moves on without touching its object. -/
theorem Settles.stay (h : s.Settles root) (hattempt : s.attempts token = some attempt)
    (hopen : attempt.stage.isCommitted = false) {jobs : JobSystem} {stage : AttemptStage}
    (hjobs : ∀ jobId uri, PublishedAt jobs.db jobId uri ↔ PublishedAt s.jobs.db jobId uri)
    (hsame : stage.isWritten = attempt.stage.isWritten) :
    (setStage ⟨jobs, s.objects, s.attempts⟩ token attempt stage).Settles root := by
  have hunpublished := h.unpublished hattempt hopen
  apply h.move hattempt
  · exact fun _ _ => Iff.rfl
  · exact fun jobId uri => (hjobs jobId uri).mpr
  · exact fun jobId uri hpublished => Or.inl ((hjobs jobId uri).mp hpublished)
  · intro hwritten
    rw [hsame] at hwritten
    exact h.written hattempt hwritten
  · exact fun hpublished => absurd ((hjobs _ _).mp hpublished) hunpublished
  · intro hmem
    rw [hsame]
    exact Or.inl ((h.mem_iff hattempt hopen).mp hmem)

/-- An attempt that has not committed deletes its object. -/
theorem Settles.discard (h : s.Settles root) (hattempt : s.attempts token = some attempt)
    (hopen : attempt.stage.isCommitted = false) {stage : AttemptStage}
    (hsettled : stage.isWritten = false) :
    (setStage ⟨s.jobs, s.objects.filter fun object => decide (object ≠ attempt.uri root token),
      s.attempts⟩ token attempt stage).Settles root := by
  have hgone : attempt.uri root token ∉
      s.objects.filter fun object => decide (object ≠ attempt.uri root token) := by
    simp
  apply h.move hattempt
  · intro uri hne
    simp [hne]
  · exact fun _ _ => id
  · exact fun _ _ => Or.inl
  · intro hwritten
    rw [hsettled] at hwritten
    cases hwritten
  · exact fun hpublished => absurd hpublished (h.unpublished hattempt hopen)
  · exact fun hmem => absurd hmem hgone

/-- An attempt writes its object. -/
theorem Settles.store (h : s.Settles root) (hattempt : s.attempts token = some attempt)
    (hopen : attempt.stage.isCommitted = false) (rowCount byteSize : Nat) :
    (setStage ⟨s.jobs, attempt.uri root token :: s.objects, s.attempts⟩ token attempt
      (.publishing rowCount byteSize)).Settles root := by
  apply h.move hattempt
  · intro uri hne
    simp [hne]
  · exact fun _ _ => id
  · exact fun _ _ => Or.inl
  · exact fun _ => List.mem_cons_self
  · exact fun hpublished => absurd hpublished (h.unpublished hattempt hopen)
  · exact fun _ => Or.inl rfl

/-- The finalization of an attempt publishes no other result. -/
theorem publishedAt_publish (hsound : s.Sound root) {now : Instant}
    {result : Option ResultMetadata} {jobId : Uuid} {uri : String}
    (h : PublishedAt (s.jobs.step config (.call (.finalizeSuccess attempt.job token now
      (some (attempt.uri root token)) result))).db jobId uri) :
    PublishedAt s.jobs.db jobId uri ∨ jobId = attempt.job.id ∧ uri = attempt.uri root token := by
  refine (h.of_step hsound.jobs).imp_right ?_
  rintro ⟨job, token', now', metadata, haction, rfl, -⟩
  cases haction
  exact ⟨rfl, rfl⟩

/-- An attempt publishes its object with the success of its job, or fails to. -/
theorem Settles.publish (h : s.Settles root) (hsound : s.Sound root)
    (hattempt : s.attempts token = some attempt) (hwritten : attempt.stage.isWritten = true)
    {now : Instant} {result : Option ResultMetadata}
    {stage : AttemptStage} (hstage : stage.isWritten = true)
    (hcommitted : PublishedAt (s.jobs.step config (.call (.finalizeSuccess attempt.job token now
      (some (attempt.uri root token)) result))).db attempt.job.id (attempt.uri root token) →
        stage.isCommitted = true) :
    (setStage ⟨s.jobs.step config (.call (.finalizeSuccess attempt.job token now
      (some (attempt.uri root token)) result)), s.objects, s.attempts⟩ token attempt
        stage).Settles root := by
  apply h.move hattempt
  · exact fun _ _ => Iff.rfl
  · exact fun jobId uri hpublished => hpublished.step config _
  · exact fun jobId uri => publishedAt_publish hsound
  · exact fun _ => h.written hattempt hwritten
  · exact fun hpublished => ⟨h.written hattempt hwritten, hcommitted hpublished⟩
  · exact fun _ => Or.inl hstage

/-- An attempt ends after its refresh. -/
theorem Settles.finish (h : s.Settles root) (hsound : s.Sound root)
    (hattempt : s.attempts token = some attempt) (hstage : attempt.stage = .refreshing) :
    (s.setStage token attempt .ended).Settles root := by
  have hmem := h.written hattempt (by rw [hstage]; rfl)
  apply h.move hattempt
  · exact fun _ _ => Iff.rfl
  · exact fun _ _ => id
  · exact fun _ _ => Or.inl
  · exact nofun
  · exact fun _ => ⟨hmem, rfl⟩
  · exact fun _ => Or.inr (hsound.refreshing hattempt hstage)

theorem setStage_attempts {stage : AttemptStage} {token' : Uuid} {attempt' : QueryAttempt}
    (h : (s.setStage token attempt stage).attempts token' = some attempt') :
    token' = token ∧ attempt' = { attempt with stage := stage } ∨
      token' ≠ token ∧ s.attempts token' = some attempt' := by
  by_cases heq : token' = token
  · subst heq
    exact Or.inl ⟨rfl, Option.some.inj (h.symm.trans (Function.update_self ..))⟩
  · exact Or.inr ⟨heq, (Function.update_of_ne heq ..).symm.trans h⟩

/-- An attempt moves to another stage while the jobs move on. -/
theorem Sound.move (h : s.Sound root) (hattempt : s.attempts token = some attempt)
    {jobs : JobSystem} (hjobs : s.jobs.Precedes jobs) (objects : List String)
    {stage : AttemptStage} (hstage : stage = .refreshing →
      PublishedAt jobs.db attempt.job.id (attempt.uri root token)) :
    (setStage ⟨jobs, objects, s.attempts⟩ token attempt stage).Sound root := by
  constructor
  · exact hjobs.sound
  · intro token' attempt' hattempt'
    cases setStage_attempts hattempt' with
    | inl hmine =>
        obtain ⟨rfl, rfl⟩ := hmine
        exact ⟨hjobs.copies (h.claimed hattempt).1, (h.claimed hattempt).2⟩
    | inr hold => exact ⟨hjobs.copies (h.claimed hold.2).1, (h.claimed hold.2).2⟩
  · intro token' attempt' hattempt' hrefreshing
    cases setStage_attempts hattempt' with
    | inl hmine =>
        obtain ⟨rfl, rfl⟩ := hmine
        exact hstage hrefreshing
    | inr hold => exact hjobs.published (h.refreshing hold.2 hrefreshing)

/-- The finalization that an attempt reaches publishes its result, or raises and changes
nothing. -/
theorem Sound.finalize (h : s.Sound root) (hattempt : s.attempts token = some attempt)
    (config : Config) (now : Instant) (uri : String) (result : Option ResultMetadata) :
    (∀ updated, (finalizeSuccess config.settings s.jobs.db attempt.job token now (some uri)
        result).2 = .ok updated →
      PublishedAt (s.jobs.step config (.call (.finalizeSuccess attempt.job token now (some uri)
        result))).db attempt.job.id uri) ∧
    ∀ exc, (finalizeSuccess config.settings s.jobs.db attempt.job token now (some uri)
        result).2 = .error exc →
      (s.jobs.step config (.call (.finalizeSuccess attempt.job token now (some uri)
        result))).db = s.jobs.db := by
  obtain ⟨hcopied, hquery⟩ := h.claimed hattempt
  rw [JobSystem.step_finalizeSuccess hcopied]
  constructor
  · intro updated hok
    obtain ⟨-, -, row, hrow, hcopy⟩ := h.jobs.copied hcopied
    exact publishedAt_of_finalizeSuccess hrow hcopy.kind hquery hok
  · exact fun exc => finalizeSuccess_raised hquery

theorem Sound.advance (h : s.Sound root) (hattempt : s.attempts token = some attempt)
    (config : Config) (now : Instant) (outcome : Outcome) :
    (s.advance config root token attempt now outcome).Sound root := by
  have hsame := JobSystem.Precedes.refl h.jobs
  cases hstage : attempt.stage with
  | reading =>
      simp only [AttemptSystem.advance, hstage]
      split
      · exact h.move hattempt hsame _ nofun
      · split <;> exact h.move hattempt hsame _ nofun
  | checking joined =>
      simp only [AttemptSystem.advance, hstage]
      split
      · exact h.move hattempt hsame _ nofun
      · split
        · exact h.move hattempt hsame _ fun hrefreshing => by cases joined <;> cases hrefreshing
        · exact h.move hattempt hsame _ nofun
  | joining | writing _ =>
      simp only [AttemptSystem.advance, hstage]
      split <;> exact h.move hattempt hsame _ nofun
  | publishing rowCount byteSize =>
      simp only [AttemptSystem.advance, hstage]
      split
      · exact h.move hattempt hsame _ nofun
      · have hfinalize := h.finalize hattempt config now (attempt.uri root token)
          (some (historicalResult attempt.job rowCount byteSize))
        split
        · rename_i hok
          exact h.move hattempt (JobSystem.precedes_step h.jobs config _) _
            fun _ => hfinalize.1 _ hok
        · exact h.move hattempt (JobSystem.precedes_step h.jobs config _) _ nofun
  | refreshing =>
      simp only [AttemptSystem.advance, hstage]
      split <;> exact h.move hattempt hsame _ nofun
  | raised exc written =>
      simp only [AttemptSystem.advance, hstage]
      split
      · exact h.move hattempt hsame _ nofun
      · have hrefreshed := JobSystem.precedes_step h.jobs config (.refresh token attempt.job.id)
        exact h.move hattempt (hrefreshed.trans (JobSystem.precedes_step hrefreshed.sound config _))
          _ nofun
  | cleaning written =>
      simp only [AttemptSystem.advance, hstage]
      exact h.move hattempt hsame _ nofun
  | ended =>
      simp only [AttemptSystem.advance, hstage]
      exact h

/-- An attempt begins at a job that its worker has claimed. -/
theorem Sound.begin (h : s.Sound root) {job : JobRecord} (hcopied : (token, job) ∈ s.jobs.copies)
    (hquery : job.kind = .historicalQuery) {stage : AttemptStage} (hstage : stage ≠ .refreshing) :
    (s.setStage token ⟨job, .ended⟩ stage).Sound root := by
  constructor
  · exact h.jobs
  · intro token' attempt' hattempt'
    cases setStage_attempts hattempt' with
    | inl hmine =>
        obtain ⟨rfl, rfl⟩ := hmine
        exact ⟨hcopied, hquery⟩
    | inr hold => exact h.claimed hold.2
  · intro token' attempt' hattempt' hrefreshing
    cases setStage_attempts hattempt' with
    | inl hmine =>
        obtain ⟨rfl, rfl⟩ := hmine
        exact absurd hrefreshing hstage
    | inr hold => exact h.refreshing hold.2 hrefreshing

theorem Sound.step (h : s.Sound root) (config : Config) (action : AttemptAction) :
    (s.step config root action).Sound root := by
  cases action with
  | other action =>
      rw [AttemptSystem.step]
      split
      · exact h
      · have hjobs := JobSystem.precedes_step h.jobs config action
        constructor
        · exact hjobs.sound
        · exact fun hold => ⟨hjobs.copies (h.claimed hold).1, (h.claimed hold).2⟩
        · exact fun hold hrefreshing => hjobs.published (h.refreshing hold hrefreshing)
  | execute token job now =>
      rw [AttemptSystem.step]
      split
      · rename_i hguard
        apply h.begin hguard.1 hguard.2.2.1
        split <;> exact nofun
      · exact h
  | advance token now outcome =>
      rw [AttemptSystem.step]
      split
      · exact h
      · rename_i hattempt
        exact h.advance hattempt config now outcome

theorem initial_sound (root : String) : initial.Sound root :=
  ⟨JobSystem.initial_sound, nofun, nofun⟩

theorem run_sound (config : Config) (root : String) (actions : List AttemptAction) :
    (run config root actions).Sound root :=
  Execution.invariant (I := Sound root) (fun _ action h => h.step config action)
    (initial_sound root) actions

/-- An attempt begins without an object. -/
theorem Settles.begin (h : s.Settles root) (hnew : s.attempts token = none) (job : JobRecord)
    {stage : AttemptStage} (hstage : stage.isWritten = false) :
    (s.setStage token ⟨job, .ended⟩ stage).Settles root := by
  have hold : ∀ {token' attempt'}, s.attempts token' = some attempt' →
      (s.setStage token ⟨job, .ended⟩ stage).attempts token' = some attempt' := by
    intro token' attempt' hattempt'
    have hne : token' ≠ token := by
      rintro rfl
      cases hnew.symm.trans hattempt'
    exact (Function.update_of_ne hne ..).trans hattempt'
  constructor
  · intro token' attempt' hattempt' hwritten
    cases setStage_attempts hattempt' with
    | inl hmine =>
        obtain ⟨rfl, rfl⟩ := hmine
        cases hstage.symm.trans hwritten
    | inr hother => exact h.written hother.2 hwritten
  · intro jobId uri hpublished
    obtain ⟨hmem, token', attempt', hattempt', hcommitted⟩ := h.published hpublished
    exact ⟨hmem, token', attempt', hold hattempt', hcommitted⟩
  · intro uri hmem
    obtain ⟨token', attempt', hattempt', hcause⟩ := h.owned hmem
    exact ⟨token', attempt', hold hattempt', hcause⟩

/-- An attempt that has not committed ends an operation. -/
theorem Settles.proceed (h : s.Settles root) (hattempt : s.attempts token = some attempt)
    (hopen : attempt.stage.isCommitted = false) {stage : AttemptStage}
    (hsame : stage.isWritten = attempt.stage.isWritten) :
    (s.setStage token attempt stage).Settles root :=
  h.stay hattempt hopen (fun _ _ => Iff.rfl) hsame

theorem Settles.advance (h : s.Settles root) (hsound : s.Sound root)
    (hattempt : s.attempts token = some attempt) (config : Config) (now : Instant)
    (outcome : Outcome) (hrefresh : attempt.stage = .refreshing → outcome.raised = none) :
    (s.advance config root token attempt now outcome).Settles root := by
  have hproceed : ∀ stage : AttemptStage, attempt.stage.isCommitted = false →
      stage.isWritten = attempt.stage.isWritten → (s.setStage token attempt stage).Settles root :=
    fun stage hopen hsame => h.proceed hattempt hopen hsame
  cases hstage : attempt.stage with
  | reading =>
      rw [hstage] at hproceed
      simp only [AttemptSystem.advance, hstage]
      split
      · exact hproceed _ rfl rfl
      · split <;> exact hproceed _ rfl rfl
  | checking joined =>
      rw [hstage] at hproceed
      simp only [AttemptSystem.advance, hstage]
      split
      · exact hproceed _ rfl rfl
      · split
        · exact hproceed _ rfl (AttemptStage.isWritten_checked joined)
        · exact hproceed _ rfl rfl
  | joining =>
      rw [hstage] at hproceed
      simp only [AttemptSystem.advance, hstage]
      split <;> exact hproceed _ rfl rfl
  | writing rowCount =>
      have hopen : attempt.stage.isCommitted = false := by rw [hstage]; rfl
      simp only [AttemptSystem.advance, hstage]
      split
      · exact h.discard hattempt hopen rfl
      · exact h.store hattempt hopen rowCount outcome.byteSize
  | publishing rowCount byteSize =>
      have hopen : attempt.stage.isCommitted = false := by rw [hstage]; rfl
      have hwritten : attempt.stage.isWritten = true := by rw [hstage]; rfl
      rw [hstage] at hproceed
      simp only [AttemptSystem.advance, hstage]
      split
      · exact hproceed _ rfl rfl
      · have hfinalize := hsound.finalize hattempt config now (attempt.uri root token)
          (some (historicalResult attempt.job rowCount byteSize))
        split
        · exact h.publish hsound hattempt hwritten rfl fun _ => rfl
        · rename_i exc hraised
          apply h.publish hsound hattempt hwritten rfl
          intro hpublished
          rw [hfinalize.2 exc hraised] at hpublished
          exact absurd hpublished (h.unpublished hattempt hopen)
  | refreshing =>
      simp only [AttemptSystem.advance, hstage]
      rw [hrefresh hstage]
      exact h.finish hsound hattempt hstage
  | raised exc written =>
      have hopen : attempt.stage.isCommitted = false := by rw [hstage]; rfl
      rw [hstage] at hproceed
      simp only [AttemptSystem.advance, hstage]
      split
      · exact hproceed _ rfl rfl
      · apply h.stay hattempt hopen
        · intro jobId uri
          have hrefreshed :=
            JobSystem.precedes_step hsound.jobs config (.refresh token attempt.job.id)
          rw [publishedAt_step_iff hrefreshed.sound rfl, publishedAt_step_iff hsound.jobs rfl]
        · rw [hstage]
          rfl
  | cleaning written =>
      have hopen : attempt.stage.isCommitted = false := by rw [hstage]; rfl
      simp only [AttemptSystem.advance, hstage]
      cases written with
      | true => exact h.discard hattempt hopen rfl
      | false =>
          rw [hstage] at hproceed
          exact hproceed _ rfl rfl
  | ended =>
      simp only [AttemptSystem.advance, hstage]
      exact h

theorem Settles.step (h : s.Settles root) (hsound : s.Sound root) (config : Config)
    {action : AttemptAction} (hrefreshes : RefreshesSucceed s action) :
    (s.step config root action).Settles root := by
  cases action with
  | other action =>
      rw [AttemptSystem.step]
      split
      · exact h
      · rename_i hplain
        have hsame : ∀ jobId uri, PublishedAt (s.jobs.step config action).db jobId uri ↔
            PublishedAt s.jobs.db jobId uri := fun jobId uri =>
          publishedAt_step_iff hsound.jobs (Bool.eq_false_of_not_eq_true hplain)
        constructor
        · exact h.written
        · exact fun hpublished => h.published ((hsame _ _).mp hpublished)
        · intro uri hmem
          obtain ⟨token, attempt, hattempt, huri, hcause⟩ := h.owned hmem
          exact ⟨token, attempt, hattempt, huri, hcause.imp_right (hsame _ _).mpr⟩
  | execute token job now =>
      rw [AttemptSystem.step]
      split
      · rename_i hguard
        apply h.begin (Option.isNone_iff_eq_none.mp hguard.2.2.2)
        split <;> rfl
      · exact h
  | advance token now outcome =>
      rw [AttemptSystem.step]
      split
      · exact h
      · rename_i attempt hattempt
        exact h.advance hsound hattempt config now outcome (hrefreshes attempt hattempt)

theorem initial_settles (root : String) : initial.Settles root := by
  constructor
  · exact nofun
  · rintro jobId uri ⟨row, hrow, -⟩
    cases hrow
  · exact nofun

/-- An attempt stands at a stage with its result published. -/
def HasPublished (root : String) (s : AttemptSystem) (token : Uuid) (stage : AttemptStage) : Prop :=
  ∃ attempt, s.attempts token = some attempt ∧ attempt.stage = stage ∧
    PublishedAt s.jobs.db attempt.job.id (attempt.uri root token)

theorem hasPublished_setStage {jobs : JobSystem} {objects : List String} {stage : AttemptStage}
    (h : PublishedAt jobs.db attempt.job.id (attempt.uri root token)) :
    HasPublished root (setStage ⟨jobs, objects, s.attempts⟩ token attempt stage) token stage :=
  ⟨{ attempt with stage := stage }, Function.update_self .., rfl, h⟩

/-- The refresh of a published attempt raises. -/
theorem HasPublished.refresh_raises (h : HasPublished root s token .refreshing) (config : Config)
    (now : Instant) {outcome : Outcome} {exc : PyException} (hraised : outcome.raised = some exc) :
    HasPublished root (AttemptSystem.step config root s (.advance token now outcome)) token
      (.raised exc true) := by
  obtain ⟨attempt, hattempt, hstage, hpublished⟩ := h
  simp only [AttemptSystem.step, hattempt, AttemptSystem.advance, hstage, hraised]
  exact hasPublished_setStage hpublished

/-- Neither handler of an exception changes what the attempt has published. -/
theorem HasPublished.handles {exc : PyException} (h : HasPublished root s token (.raised exc true))
    (config : Config) (now : Instant) (outcome : Outcome) :
    HasPublished root (AttemptSystem.step config root s (.advance token now outcome)) token
      (.cleaning true) := by
  obtain ⟨attempt, hattempt, hstage, hpublished⟩ := h
  simp only [AttemptSystem.step, hattempt, AttemptSystem.advance, hstage]
  split
  · exact hasPublished_setStage hpublished
  · exact hasPublished_setStage ((hpublished.step config _).step config _)

/-- The cleanup of an attempt that has published deletes its result. -/
theorem HasPublished.cleans (h : HasPublished root s token (.cleaning true)) (config : Config)
    (now : Instant) (outcome : Outcome) :
    ¬ResultsKept root (AttemptSystem.step config root s (.advance token now outcome)) := by
  obtain ⟨attempt, hattempt, hstage, hpublished⟩ := h
  simp only [AttemptSystem.step, hattempt, AttemptSystem.advance, hstage]
  intro hkept
  have hmem := hkept.1 _ _ hpublished
  simp [setStage] at hmem

end AttemptSystem

/-- In every run whose session refreshes succeed after a commit, the published results are in
storage, and attempts that end without publishing leave none; an attempt whose refresh raises
deletes the result that it has published. -/
theorem results_kept_while_refreshes_succeed (config : Config) (root : String)
    (actions : List AttemptAction) :
    (Execution.Along (AttemptSystem.step config root) RefreshesSucceed .initial actions →
        ResultsKept root (AttemptSystem.run config root actions)) ∧
      ∀ token attempt now outcome now' outcome' now'' outcome'',
        (AttemptSystem.run config root actions).attempts token = some attempt →
          attempt.stage = .refreshing → outcome.raised.isSome = true →
            ¬ResultsKept root (AttemptSystem.run config root (actions ++
              [.advance token now outcome, .advance token now' outcome',
                .advance token now'' outcome''])) := by
  constructor
  · intro hrefreshes
    have hinvariant := Execution.invariant_of_along
      (I := fun s => AttemptSystem.Sound root s ∧ AttemptSystem.Settles root s)
      (fun s action hs hrefresh => ⟨hs.1.step config action, hs.2.step hs.1 config hrefresh⟩)
      ⟨AttemptSystem.initial_sound root, AttemptSystem.initial_settles root⟩ hrefreshes
    exact hinvariant.2.resultsKept
  · intro token attempt now outcome now' outcome' now'' outcome'' hattempt hstage hraised
    obtain ⟨exc, hexc⟩ := Option.isSome_iff_exists.mp hraised
    have hpublished : AttemptSystem.HasPublished root (AttemptSystem.run config root actions) token
        .refreshing :=
      ⟨attempt, hattempt, hstage,
        (AttemptSystem.run_sound config root actions).refreshing hattempt hstage⟩
    rw [AttemptSystem.run, Execution.run_append]
    exact ((hpublished.refresh_raises config now hexc).handles config now' outcome').cleans config
      now'' outcome''

/-- A worker claims a historical query and executes it up to the refresh of its session. -/
def publishedQuery : List AttemptAction :=
  let uri := "s3://feature-store/artifacts/jobs/1/input.json"
  let job : JobRecord :=
    { newJobRecord defaultConfig.settings 1 .historicalQuery
        (.historicalQuery 1 ["account_stats@1.0.0:amount"] []) (some uri) 0 with
      status := .running, attemptCount := 1, startedAt := some 0, workerId := some "worker-a",
      leaseToken := some 10, leaseExpiresAt := some 30000000, lastHeartbeatAt := some 0 }
  let next : AttemptAction := .advance 10 1 ⟨none, 1, 1000, false, "", none⟩
  [.other (.call (.createHistoricalQuery 1 ["account_stats@1.0.0:amount"] [] uri 1 0)),
    .other (.call (.claimPass "worker-a" 0 [] 10)),
    .execute 10 job 1, next, next, next, next, next, next]

/-- The refresh raises, and the attempt handles it. -/
def failedRefresh : List AttemptAction :=
  let exc : PyException := ⟨.runtime, "connection lost"⟩
  [.advance 10 1 ⟨some exc, 0, 0, false, "", none⟩, .advance 10 1 ⟨none, 0, 0, false, "", none⟩,
    .advance 10 1 ⟨none, 0, 0, false, "", none⟩]

def stageOf (s : AttemptSystem) (token : Uuid) : Option AttemptStage :=
  (s.attempts token).map QueryAttempt.stage

theorem published_query_kept :
    ResultsKept "s3://artifacts" (AttemptSystem.run defaultConfig "s3://artifacts"
        publishedQuery) ∧
      ¬ResultsKept "s3://artifacts" (AttemptSystem.run defaultConfig "s3://artifacts"
        (publishedQuery ++ failedRefresh)) := by
  constructor
  · apply (results_kept_while_refreshes_succeed defaultConfig "s3://artifacts" publishedQuery).1
    exact ⟨trivial, trivial, trivial, fun _ _ _ => rfl, fun _ _ _ => rfl, fun _ _ _ => rfl,
      fun _ _ _ => rfl, fun _ _ _ => rfl, fun _ _ _ => rfl, trivial⟩
  · have hstage : stageOf (AttemptSystem.run defaultConfig "s3://artifacts" publishedQuery) 10 =
        some .refreshing := by
      decide +kernel
    obtain ⟨attempt, hattempt, hrefreshing⟩ := Option.map_eq_some_iff.mp hstage
    exact (results_kept_while_refreshes_succeed defaultConfig "s3://artifacts" publishedQuery).2
      10 attempt 1 _ 1 _ 1 _ hattempt hrefreshing rfl

theorem published_result_deleted :
    ¬∀ (config : Config) (root : String) (actions : List AttemptAction),
      ResultsKept root (AttemptSystem.run config root actions) := by
  intro h
  have hkept := (h defaultConfig "s3://artifacts" (publishedQuery ++ failedRefresh)).1
  have hrow : ((AttemptSystem.run defaultConfig "s3://artifacts"
      (publishedQuery ++ failedRefresh)).jobs.db.jobs.find? 1).any (fun row =>
        decide (row.kind = .historicalQuery) && decide (row.status = .succeeded) &&
          row.resultUri.isSome) = true := by
    decide +kernel
  have hobjects : (AttemptSystem.run defaultConfig "s3://artifacts"
      (publishedQuery ++ failedRefresh)).objects = [] := by
    decide +kernel
  obtain ⟨row, hfind, hpublished⟩ := (Option.any_eq_true _ _).mp hrow
  simp only [Bool.and_eq_true, decide_eq_true_eq] at hpublished
  obtain ⟨uri, huri⟩ := Option.isSome_iff_exists.mp hpublished.2
  have hmem := hkept 1 uri ⟨row, hfind, hpublished.1.1, hpublished.1.2, huri⟩
  rw [hobjects] at hmem
  cases hmem

end FeatureStore
