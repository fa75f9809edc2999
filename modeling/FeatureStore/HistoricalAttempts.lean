import Std.Data.String.ToNat
import FeatureStore.JobRows
import FeatureStore.Library.PrefixCode

/-!
# Attempts at historical queries and their result objects

An attempt writes its result under a URI of its own, publishes it with the success of its
job, and deletes it when it ends in any other way. Between any two of its operations other
processes may act, and each operation may raise.
-/

namespace FeatureStore

open Relational

/-- `ArtifactStorage.result_uri`, under the root of the storage. -/
def resultUri (root : String) (jobId : Uuid) (attempt : Nat) (leaseToken : Uuid) : String :=
  s!"{root}/{jobId}/results/attempt-{attempt}-{leaseToken}.parquet"

/-- Where `_execute` stands in an attempt. Its lease is checked before the join and again, with
the rows joined, before the write; `written` says that `attempt_result_uri` is set. -/
inductive AttemptStage
  | reading
  | checking (joined : Option Nat)
  | joining
  | writing (rowCount : Nat)
  | publishing (rowCount byteSize : Nat)
  | refreshing
  | raised (exc : PyException) (written : Bool)
  | cleaning (written : Bool)
  | ended
deriving DecidableEq, Repr

/-- The stage after `_require_ownership` has passed. -/
def AttemptStage.checked : Option Nat → AttemptStage
  | none => .joining
  | some rowCount => .writing rowCount

/-- An attempt at the job as its worker claimed it. -/
structure QueryAttempt where
  job : JobRecord
  stage : AttemptStage
deriving Repr

/-- What the operation at hand does: it raises, or it has sizes to report; a failure is
finalized with a copy of the job that a rollback may have reloaded. -/
structure Outcome where
  raised : Option PyException
  rowCount : Nat
  byteSize : Nat
  reloaded : Bool
  error : String
  summary : Option ResultMetadata

/-- The jobs, the result objects that attempts have written and not deleted, and the
attempts by their lease tokens. -/
structure AttemptSystem where
  jobs : JobSystem
  objects : List String
  attempts : Uuid → Option QueryAttempt

inductive AttemptAction
  | other (action : JobAction)
  | execute (token : Uuid) (job : JobRecord) (now : Instant)
  | advance (token : Uuid) (now : Instant) (outcome : Outcome)

/-- The action finalizes the success of a historical query, which only its attempt does. -/
def JobAction.publishes : JobAction → Bool
  | .call (.finalizeSuccess job _ _ _ _) => decide (job.kind = .historicalQuery)
  | _ => false

def QueryAttempt.uri (root : String) (token : Uuid) (attempt : QueryAttempt) : String :=
  resultUri root attempt.job.id attempt.job.attemptCount token

/-- The metadata that `_historical_query` returns. -/
def historicalResult (job : JobRecord) (rowCount byteSize : Nat) : ResultMetadata :=
  match job.payload with
  | .historicalQuery _ resolvedFeatures warnings =>
      .historical ⟨rowCount, byteSize, resolvedFeatures, warnings⟩
  | .range _ _ _ | .incremental _ _ _ | .offlineAppend _ _ =>
      .historical ⟨rowCount, byteSize, [], []⟩

namespace AttemptSystem

def initial : AttemptSystem := ⟨.initial, [], fun _ => none⟩

def setStage (s : AttemptSystem) (token : Uuid) (attempt : QueryAttempt) (stage : AttemptStage) :
    AttemptSystem :=
  { s with attempts := Function.update s.attempts token (some { attempt with stage := stage }) }

def notOwned (job : JobRecord) : PyException := leaseLost s!"job lease was lost: {job.id}"

/-- The next operation of `_execute`. -/
def advance (config : Config) (root : String) (s : AttemptSystem) (token : Uuid)
    (attempt : QueryAttempt) (now : Instant) (outcome : Outcome) : AttemptSystem :=
  let job := attempt.job
  let uri := attempt.uri root token
  match attempt.stage with
  | .reading =>
      if job.artifactUri.isNone then
        s.setStage token attempt (.raised
          (valueError "historical query job is missing its input artifact") false)
      else
        match outcome.raised with
        | some exc => s.setStage token attempt (.raised exc false)
        | none => s.setStage token attempt (.checking none)
  | .checking joined =>
      match outcome.raised with
      | some exc => s.setStage token attempt (.raised exc false)
      | none =>
          if owns s.jobs.db job.id token now then s.setStage token attempt (.checked joined)
          else s.setStage token attempt (.raised (notOwned job) false)
  | .joining =>
      match outcome.raised with
      | some exc => s.setStage token attempt (.raised exc false)
      | none => s.setStage token attempt (.checking (some outcome.rowCount))
  | .writing rowCount =>
      match outcome.raised with
      | some exc =>
          -- `write_parquet` deletes what it has written before it raises.
          { s with objects := s.objects.filter fun object => decide (object ≠ uri) }.setStage
            token attempt (.raised exc false)
      | none =>
          -- The lease may have been lost since it was checked.
          { s with objects := uri :: s.objects }.setStage token attempt
            (.publishing rowCount outcome.byteSize)
  | .publishing rowCount byteSize =>
      match outcome.raised with
      | some exc => s.setStage token attempt (.raised exc true)
      | none =>
          let result := some (historicalResult job rowCount byteSize)
          let jobs := s.jobs.step config (.call (.finalizeSuccess job token now (some uri) result))
          match (finalizeSuccess config.settings s.jobs.db job token now (some uri) result).2 with
          | .ok _ => { s with jobs := jobs }.setStage token attempt .refreshing
          | .error exc => { s with jobs := jobs }.setStage token attempt (.raised exc true)
  | .refreshing =>
      match outcome.raised with
      | some exc => s.setStage token attempt (.raised exc true)
      | none => s.setStage token attempt .ended
  | .raised exc written =>
      if exc.cls = .leaseLost ∨ outcome.raised.isSome = true then
        s.setStage token attempt (.cleaning written)
      else
        let copy := if outcome.reloaded then (s.jobs.db.jobs.find? job.id).getD job else job
        let summary := if exc.cls = .dataQuality then outcome.summary else none
        let jobs := (s.jobs.step config (.refresh token job.id)).step config
          (.call (.finalizeFailure copy token now exc outcome.error summary))
        { s with jobs := jobs }.setStage token attempt (.cleaning written)
  | .cleaning written =>
      let objects :=
        if written then s.objects.filter fun object => decide (object ≠ uri) else s.objects
      { s with objects := objects }.setStage token attempt .ended
  | .ended => s

def step (config : Config) (root : String) (s : AttemptSystem) : AttemptAction → AttemptSystem
  | .other action =>
      if action.publishes then s else { s with jobs := s.jobs.step config action }
  | .execute token job now =>
      if (token, job) ∈ s.jobs.copies ∧ job.leaseToken = some token ∧
          job.kind = .historicalQuery ∧ (s.attempts token).isNone = true then
        s.setStage token ⟨job, .ended⟩
          (if owns s.jobs.db job.id token now then .reading else .ended)
      else s
  | .advance token now outcome =>
      match s.attempts token with
      | none => s
      | some attempt => s.advance config root token attempt now outcome

def run (config : Config) (root : String) (actions : List AttemptAction) : AttemptSystem :=
  Execution.run (step config root) initial actions

end AttemptSystem

/-- The stored historical query has succeeded with a result under the URI. -/
def PublishedAt (db : Database) (jobId : Uuid) (uri : String) : Prop :=
  ∃ row, db.jobs.find? jobId = some row ∧ row.kind = .historicalQuery ∧
    row.status = .succeeded ∧ row.resultUri = some uri

/-- Published results exist, and attempts that have ended without publishing left none. -/
def ResultsKept (root : String) (s : AttemptSystem) : Prop :=
  (∀ jobId uri, PublishedAt s.jobs.db jobId uri → uri ∈ s.objects) ∧
    ∀ token attempt, s.attempts token = some attempt → attempt.stage = .ended →
      ¬PublishedAt s.jobs.db attempt.job.id (attempt.uri root token) →
        attempt.uri root token ∉ s.objects

/-- The session refresh that follows a committed success does not raise. -/
def RefreshesSucceed (s : AttemptSystem) : AttemptAction → Prop
  | .advance token _ outcome => ∀ attempt, s.attempts token = some attempt →
      attempt.stage = .refreshing → outcome.raised = none
  | .other _ | .execute _ _ _ => True

section Uris

/-- The URI of a result tells the lease token of its attempt. -/
theorem resultUri_token {root : String} {jobId jobId' token token' : Uuid} {attempt attempt' : Nat}
    (h : resultUri root jobId attempt token = resultUri root jobId' attempt' token') :
    token = token' := by
  have hdigits : ∀ n : Nat, ∀ c ∈ (Nat.repr n).toList.reverse, c.isDigit = true := by
    intro n c hc
    rw [List.mem_reverse, Nat.toList_repr] at hc
    exact Nat.isDigit_of_mem_toDigits (by decide) (by decide) hc
  have hstart : ∀ head : List Char, PrefixCode.Ends Char.isDigit ('-' :: head) := fun head => by
    rw [PrefixCode.ends_cons]
    rfl
  have htext : ∀ jobId attempt token, ∃ head : List Char,
      (resultUri root jobId attempt token).toList.reverse =
        ".parquet".toList.reverse ++ ((Nat.repr token).toList.reverse ++ '-' :: head) := by
    intro jobId attempt token
    refine ⟨(s!"{root}/{jobId}/results/attempt-{attempt}").toList.reverse, ?_⟩
    have hsplit : resultUri root jobId attempt token =
        s!"{root}/{jobId}/results/attempt-{attempt}" ++ "-" ++ Nat.repr token ++ ".parquet" := rfl
    rw [hsplit]
    simp only [String.toList_append, List.reverse_append]
    rfl
  obtain ⟨head, hhead⟩ := htext jobId attempt token
  obtain ⟨head', hhead'⟩ := htext jobId' attempt' token'
  have hlists : (Nat.repr token).toList.reverse ++ '-' :: head =
      (Nat.repr token').toList.reverse ++ '-' :: head' := by
    have hwhole : ".parquet".toList.reverse ++ ((Nat.repr token).toList.reverse ++ '-' :: head) =
        ".parquet".toList.reverse ++ ((Nat.repr token').toList.reverse ++ '-' :: head') := by
      rw [← hhead, ← hhead', h]
    exact List.append_cancel_left hwhole
  obtain ⟨hword, -⟩ := PrefixCode.token_append (hdigits token) (hdigits token') (hstart _)
    (hstart _) hlists
  exact Nat.repr_injective (String.toList_inj.mp (List.reverse_injective hword))

end Uris

section Published

variable {config : Config} {s : JobSystem} {action : JobAction} {row row' : JobRecord}
  {jobId : Uuid} {uri : String}

/-- A job that has succeeded keeps its result. -/
theorem RowStep.of_succeeded (h : RowStep config s action row row')
    (hsucceeded : row.status = .succeeded) :
    row'.status = .succeeded ∧ row'.resultUri = row.resultUri := by
  cases h with
  | kept | checkpointed | renewed | cleaned => exact ⟨hsucceeded, rfl⟩
  | cancelled _ hactive =>
      rw [hsucceeded] at hactive
      cases hactive
  | exhausted _ _ _ _ heligible | claimed _ _ _ _ _ heligible =>
      have hactive := JobRecord.isActive_of_eligible heligible
      rw [hsucceeded] at hactive
      cases hactive
  | succeeded _ _ _ _ _ _ _ howned | failed _ _ _ _ _ _ _ _ howned =>
      cases hsucceeded.symm.trans (JobRecord.running_of_ownedBy howned)
  | retried _ _ _ hresettable =>
      rw [hsucceeded] at hresettable
      cases hresettable

/-- A job succeeds by its finalization, with the result that this passes. -/
theorem RowStep.to_succeeded (h : RowStep config s action row row')
    (hsucceeded : row'.status = .succeeded) :
    (row.status = .succeeded ∧ row'.resultUri = row.resultUri) ∨
      ∃ job token now resultMetadata,
        action = .call (.finalizeSuccess job token now row'.resultUri resultMetadata) ∧
          (token, job) ∈ s.copies ∧ job.id = row.id := by
  cases h with
  | kept | checkpointed | renewed | cleaned => exact Or.inl ⟨hsucceeded, rfl⟩
  | succeeded job token now uri metadata hcopied hsame =>
      exact Or.inr ⟨job, token, now, metadata, rfl, hcopied, hsame⟩
  | cancelled | exhausted | claimed | retried => cases hsucceeded
  | failed job _ _ exc =>
      exact absurd hsucceeded (failureStatus_ne (by decide))

theorem PublishedAt.step (h : PublishedAt s.db jobId uri) (config : Config) (action : JobAction) :
    PublishedAt (s.step config action).db jobId uri := by
  obtain ⟨row, hrow, hkind, hsucceeded, huri⟩ := h
  obtain ⟨row', hrow', hstep⟩ := JobSystem.step_row config action hrow
  obtain ⟨hstatus, hsame⟩ := hstep.of_succeeded hsucceeded
  exact ⟨row', hrow', hstep.kind_eq.trans hkind, hstatus, hsame.trans huri⟩

/-- Only the finalization of a historical query publishes a result. -/
theorem PublishedAt.of_step (hsound : s.Sound)
    (h : PublishedAt (s.step config action).db jobId uri) :
    PublishedAt s.db jobId uri ∨ ∃ job token now resultMetadata,
      action = .call (.finalizeSuccess job token now (some uri) resultMetadata) ∧
        job.id = jobId ∧ job.kind = .historicalQuery := by
  obtain ⟨row', hrow', hkind, hsucceeded, huri⟩ := h
  cases hrow : s.db.jobs.find? jobId with
  | none =>
      obtain ⟨_, _, _, _, _, -, -, rfl, -⟩ := JobSystem.step_new hrow hrow'
      cases hsucceeded
  | some row =>
      obtain ⟨after, hafter, hstep⟩ := JobSystem.step_row config action hrow
      obtain rfl := Option.some.inj (hafter.symm.trans hrow')
      have hid : row.id = jobId := Table.key_of_find? hrow
      rw [hstep.kind_eq] at hkind
      cases hstep.to_succeeded hsucceeded with
      | inl hold => exact Or.inl ⟨row, hrow, hkind, hold.1, hold.2.symm.trans huri⟩
      | inr hnew =>
          obtain ⟨job, token, now, metadata, haction, hcopied, hsame⟩ := hnew
          obtain ⟨-, -, stored, hstored, hcopy⟩ := hsound.copied hcopied
          rw [hsame, hid, hrow] at hstored
          obtain rfl := Option.some.inj hstored
          refine Or.inr ⟨job, token, now, metadata, ?_, hsame.trans hid,
            hcopy.kind.symm.trans hkind⟩
          rw [haction, huri]

/-- A finalization that returns has published. -/
theorem publishedAt_of_finalizeSuccess {settings : Settings} {db : Database} {job row : JobRecord}
    {token : Uuid} {now : Instant} {resultMetadata : Option ResultMetadata}
    (hrow : db.jobs.find? job.id = some row) (hkind : row.kind = job.kind)
    (hquery : job.kind = .historicalQuery) {updated : JobRecord}
    (h : (finalizeSuccess settings db job token now (some uri) resultMetadata).2 = .ok updated) :
    PublishedAt (finalizeSuccess settings db job token now (some uri) resultMetadata).1 job.id
      uri := by
  have hplain : job.incremental? = none := by
    rw [JobRecord.incremental?, hquery]
    rfl
  unfold finalizeSuccess at h ⊢
  rcases lease_cases db.jobs job.id token now with
    ⟨stored, hstored, howned, hcount, hupdate⟩ | ⟨hcount, -⟩
  · simp only [if_neg hcount, hplain, hquery, hupdate]
    refine ⟨(setSucceeded settings job now (some uri) resultMetadata).set stored, ?_, ?_, ?_, ?_⟩
    · exact (Table.find?_modify_self _ _ _).trans (congrArg _ hstored)
    · obtain rfl := Option.some.inj (hstored.symm.trans hrow)
      exact hkind.trans hquery
    · rfl
    · rfl
  · rw [if_pos hcount] at h
    cases h

/-- The finalization of a historical query that raises has changed nothing. -/
theorem finalizeSuccess_raised {settings : Settings} {db : Database} {job : JobRecord}
    {token : Uuid} {now : Instant} {resultUri : Option String}
    {resultMetadata : Option ResultMetadata} (hquery : job.kind = .historicalQuery)
    {exc : PyException}
    (h : (finalizeSuccess settings db job token now resultUri resultMetadata).2 = .error exc) :
    (finalizeSuccess settings db job token now resultUri resultMetadata).1 = db := by
  have hplain : job.incremental? = none := by
    rw [JobRecord.incremental?, hquery]
    rfl
  unfold finalizeSuccess at h ⊢
  rcases lease_cases db.jobs job.id token now with
    ⟨stored, hstored, -, hcount, hupdate⟩ | ⟨hcount, -⟩
  · simp only [if_neg hcount, hplain, hquery, hupdate] at h
    have hrefresh : refreshJob { db with jobs := (db.jobs.modify job.id
        (setSucceeded settings job now resultUri resultMetadata)) } job.id = .error exc := h
    rw [refreshJob, Table.find?_modify_self, hstored] at hrefresh
    cases hrefresh
  · rw [if_pos hcount]

theorem JobSystem.admits_finalizeSuccess {token : Uuid} {job : JobRecord}
    (hcopied : (token, job) ∈ s.copies) (now : Instant) (resultUri : Option String)
    (resultMetadata : Option ResultMetadata) :
    s.Admits (.finalizeSuccess job token now resultUri resultMetadata) := by
  refine ⟨rfl, ?_, ?_, ?_⟩
  · intro _ htoken
    cases htoken
  · intro copy hcopy
    obtain rfl := Option.some.inj hcopy
    exact hcopied
  · intro _ hid
    cases hid

theorem JobSystem.step_finalizeSuccess {token : Uuid} {job : JobRecord}
    (hcopied : (token, job) ∈ s.copies) (now : Instant) (resultUri : Option String)
    (resultMetadata : Option ResultMetadata) :
    (s.step config (.call (.finalizeSuccess job token now resultUri resultMetadata))).db =
      (finalizeSuccess config.settings s.db job token now resultUri resultMetadata).1 := by
  rw [step, if_pos (admits_finalizeSuccess hcopied now resultUri resultMetadata)]
  rfl

end Published

section Later

/-- Later jobs of a run have the copies and the published results of earlier ones. -/
structure JobSystem.Precedes (s t : JobSystem) : Prop where
  sound : t.Sound
  copies : ∀ {copy}, copy ∈ s.copies → copy ∈ t.copies
  published : ∀ {jobId uri}, PublishedAt s.db jobId uri → PublishedAt t.db jobId uri

variable {config : Config} {s t u : JobSystem} {action : JobAction} {jobId : Uuid} {uri : String}

theorem JobSystem.Precedes.refl (h : s.Sound) : s.Precedes s := ⟨h, id, id⟩

theorem JobSystem.Precedes.trans (h : s.Precedes t) (h' : t.Precedes u) : s.Precedes u :=
  ⟨h'.sound, fun hcopy => h'.copies (h.copies hcopy), fun hold => h'.published (h.published hold)⟩

theorem JobSystem.copies_step {copy : Uuid × JobRecord} (h : copy ∈ s.copies) (config : Config)
    (action : JobAction) : copy ∈ (s.step config action).copies := by
  cases action with
  | call call =>
      rw [step]
      split
      · exact List.mem_append_right _ h
      · exact h
  | refresh token jobId =>
      rw [step]
      split
      · exact h
      · split
        · exact List.mem_cons_of_mem _ h
        · exact h
  | updateRetry client =>
      rw [step]
      split <;> exact h
  | checkRetry | cleanup => exact h

theorem JobSystem.precedes_step (h : s.Sound) (config : Config) (action : JobAction) :
    s.Precedes (s.step config action) where
  sound := step_sound h
  copies := fun hcopy => copies_step hcopy config action
  published := fun hold => hold.step config action

/-- Only the finalization of a historical query changes what is published. -/
theorem publishedAt_step_iff (h : s.Sound) (hplain : action.publishes = false) :
    PublishedAt (s.step config action).db jobId uri ↔ PublishedAt s.db jobId uri := by
  constructor
  · intro hpublished
    refine (hpublished.of_step h).resolve_right ?_
    rintro ⟨job, token, now, metadata, rfl, -, hquery⟩
    rw [JobAction.publishes, hquery] at hplain
    cases hplain
  · exact fun hold => hold.step config action

end Later

end FeatureStore
