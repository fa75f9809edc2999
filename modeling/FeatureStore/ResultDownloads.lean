import FeatureStore.PublishedResults

/-!
# Downloads of query results

A client downloads the result of a historical query from the API while workers attempt queries
and delete the artifacts of expired jobs. A sweep deletes files before it commits, and may raise
in between. A client whose clock is not behind those of the sweeps gets the result of every
succeeded query until it expires, and with it the size of the file.
-/

namespace FeatureStore

open Relational

/-- A result object in storage. -/
structure ResultFile where
  uri : String
  byteSize : Nat
deriving DecidableEq, Repr

/-- `ArtifactStorage.delete`. -/
def deleteFile (files : List ResultFile) (uri : String) : List ResultFile :=
  files.filter fun file => decide (file.uri ≠ uri)

/-- The object lies in the directory of the job, `ArtifactStorage.job_prefix`. -/
def inJobPrefix (root : String) (jobId : Uuid) (uri : String) : Bool :=
  (s!"{root}/{jobId}/").toList.isPrefixOf uri.toList

/-- `ArtifactStorage.delete_job`. -/
def deleteJob (root : String) (files : List ResultFile) (jobId : Uuid) : List ResultFile :=
  files.filter fun file => !inJobPrefix root jobId file.uri

/-- An answer that is not a result: an HTTP status and its detail. -/
structure HttpError where
  status : Nat
  detail : String
deriving DecidableEq, Repr

/-- The stream of a result with its headers. -/
structure ResultStream where
  uri : String
  contentType : String
  contentLength : Nat
  filename : String
deriving DecidableEq, Repr

/-- `get_job_result`. -/
def getJobResult (db : Database) (files : List ResultFile) (jobId : Uuid) (now : Instant) :
    Except HttpError ResultStream :=
  match db.jobs.find? jobId with
  | none => .error ⟨404, s!"unknown job: {jobId}"⟩
  | some job =>
      if job.artifactsCleanedAt.isSome ∨
          job.artifactExpiresAt.any (fun expiresAt => decide (expiresAt ≤ now)) then
        .error ⟨410, "job result has expired"⟩
      else
        match job.resultUri.filter (fun uri => decide (uri ≠ "")), job.resultMetadata with
        | some uri, some metadata =>
            if job.status ≠ .succeeded then
              .error ⟨409, "job has no completed downloadable result"⟩
            else if files.all fun file => decide (file.uri ≠ uri) then
              .error ⟨409, "job result artifact is unavailable"⟩
            else
              match metadata with
              | .historical result =>
                  .ok ⟨uri, "application/vnd.apache.parquet", result.byteSize,
                    s!"historical-query-{job.id}.parquet"⟩
              -- The other metadata has no `content_type`.
              | .quality _ | .materialization _ => .error ⟨500, "Internal Server Error"⟩
        | _, _ => .error ⟨409, "job has no completed downloadable result"⟩

/-- The attempts at historical queries, and the result objects in storage. -/
structure ResultStorage where
  attempts : AttemptSystem
  files : List ResultFile

/-- A sweep that raises has deleted the artifacts of some of the jobs that it selected, and rolls
its transaction back. -/
inductive StorageAction
  | act (action : AttemptAction)
  | raisingSweep (locked : List Uuid) (now : Instant) (deleted : Nat)

namespace ResultStorage

def initial : ResultStorage := ⟨.initial, []⟩

/-- The result objects after an action of workers. -/
def filesAfter (root : String) (s : ResultStorage) : AttemptAction → List ResultFile
  | .advance token _ outcome =>
      match s.attempts.attempts token with
      | none => s.files
      | some attempt =>
          let uri := attempt.uri root token
          match attempt.stage with
          | .writing _ =>
              match outcome.raised with
              | some _ => deleteFile s.files uri
              | none => ⟨uri, outcome.byteSize⟩ :: s.files
          | .cleaning true => deleteFile s.files uri
          | _ => s.files
  | .other (.cleanup locked now) =>
      (cleanupExpiredArtifacts s.attempts.jobs.db locked now).2.foldl (deleteJob root) s.files
  | .other _ | .execute _ _ _ => s.files

def step (config : Config) (root : String) (s : ResultStorage) : StorageAction → ResultStorage
  | .act action => ⟨s.attempts.step config root action, s.filesAfter root action⟩
  | .raisingSweep locked now deleted =>
      let selected := (cleanupExpiredArtifacts s.attempts.jobs.db locked now).2
      { s with files := (selected.take deleted).foldl (deleteJob root) s.files }

def run (config : Config) (root : String) (actions : List StorageAction) : ResultStorage :=
  Execution.run (step config root) initial actions

end ResultStorage

namespace StorageAction

/-- The clock of a sweep. -/
def sweepClock? : StorageAction → Option Instant
  | .act (.other (.cleanup _ now)) => some now
  | .raisingSweep _ now _ => some now
  | _ => none

/-- The sweeps are not ahead of the clock, and refreshes after a commit do not raise. -/
def Regular (now : Instant) (s : ResultStorage) (action : StorageAction) : Prop :=
  (∀ time ∈ action.sweepClock?, time ≤ now) ∧
    ∀ attempted, action = .act attempted → RefreshesSucceed s.attempts attempted

end StorageAction

section Paths

variable {root : String} {jobId jobId' token : Uuid} {attempt : Nat}

/-- A result lies in the directory of its own job only. -/
theorem inJobPrefix_resultUri :
    inJobPrefix root jobId' (resultUri root jobId attempt token) = true ↔ jobId' = jobId := by
  have hdigits : ∀ n : Nat, ∀ c ∈ (Nat.repr n).toList, c.isDigit = true := by
    intro n c hc
    rw [Nat.toList_repr] at hc
    exact Nat.isDigit_of_mem_toDigits (by decide) (by decide) hc
  have hslash : ∀ rest : List Char, PrefixCode.Ends Char.isDigit ('/' :: rest) := fun rest => by
    rw [PrefixCode.ends_cons]
    rfl
  have hdirectory : ∀ id, (s!"{root}/{id}/").toList =
      root.toList ++ '/' :: ((Nat.repr id).toList ++ ['/']) := fun id => by
    change (root ++ "/" ++ Nat.repr id ++ "/").toList = _
    simp
  have huri : (resultUri root jobId attempt token).toList = (s!"{root}/{jobId}/").toList ++
      (s!"results/attempt-{attempt}-{token}.parquet").toList := by
    change (root ++ "/" ++ Nat.repr jobId ++ "/results/attempt-" ++ Nat.repr attempt ++ "-" ++
      Nat.repr token ++ ".parquet").toList = (root ++ "/" ++ Nat.repr jobId ++ "/").toList ++
        ("results/attempt-" ++ Nat.repr attempt ++ "-" ++ Nat.repr token ++ ".parquet").toList
    simp
  rw [inJobPrefix, List.isPrefixOf_iff_prefix, huri]
  constructor
  · rintro ⟨rest, hrest⟩
    simp only [hdirectory, List.append_assoc, List.cons_append, List.nil_append,
      List.append_cancel_left_eq, List.cons.injEq, true_and] at hrest
    obtain ⟨hword, -⟩ := PrefixCode.token_append (hdigits jobId') (hdigits jobId) (hslash _)
      (hslash _) hrest
    exact Nat.repr_injective (String.toList_inj.mp hword)
  · rintro rfl
    exact List.prefix_append _ _

theorem resultUri_ne_empty : resultUri root jobId attempt token ≠ "" := by
  intro h
  have hleading := (@inJobPrefix_resultUri root jobId jobId token attempt).mpr rfl
  rw [h, inJobPrefix, List.isPrefixOf_iff_prefix, String.toList_empty, List.prefix_nil] at hleading
  have hslash : '/' ∈ (s!"{root}/{jobId}/").toList := by
    change '/' ∈ (root ++ "/" ++ Nat.repr jobId ++ "/").toList
    simp
  rw [hleading] at hslash
  cases hslash

theorem mem_deleteFile {files : List ResultFile} {uri : String} {file : ResultFile} :
    file ∈ deleteFile files uri ↔ file ∈ files ∧ file.uri ≠ uri := by
  simp [deleteFile]

theorem mem_deleteJobs {files : List ResultFile} {ids : List Uuid} {file : ResultFile} :
    file ∈ ids.foldl (deleteJob root) files ↔
      file ∈ files ∧ ∀ id ∈ ids, inJobPrefix root id file.uri = false := by
  induction ids generalizing files with
  | nil => simp
  | cons id rest ih => simp [ih, deleteJob, and_assoc]

theorem deleteJobs_sublist (files : List ResultFile) (ids : List Uuid) :
    (ids.foldl (deleteJob root) files).Sublist files := by
  induction ids generalizing files with
  | nil => exact List.Sublist.refl _
  | cons id rest ih => exact (ih _).trans List.filter_sublist

end Paths

/-- The row of a succeeded query names its file, as long as it has not expired. -/
def Backed (files : List ResultFile) (now : Instant) (row : JobRecord) : Prop :=
  ∃ uri result, row.resultUri = some uri ∧ row.resultMetadata = some (.historical result) ∧
    ∀ expiresAt, row.artifactExpiresAt = some expiresAt → now < expiresAt →
      ⟨uri, result.byteSize⟩ ∈ files

/-- Artifacts are cleaned after they have expired. -/
def CleanedExpired (now : Instant) (row : JobRecord) : Prop :=
  row.artifactsCleanedAt.isSome = true → row.status.isTerminal = true ∧
    ∃ expiresAt, row.artifactExpiresAt = some expiresAt ∧ expiresAt ≤ now

section Rows

variable {config : Config} {s : JobSystem} {action : JobAction} {row row' : JobRecord}
  {files files' : List ResultFile} {now : Instant}

theorem Backed.mono (h : Backed files now row)
    (hkept : ∀ file ∈ files, row.resultUri = some file.uri →
      (∀ expiresAt, row.artifactExpiresAt = some expiresAt → now < expiresAt) → file ∈ files') :
    Backed files' now row := by
  obtain ⟨uri, result, huri, hresult, hfile⟩ := h
  refine ⟨uri, result, huri, hresult, fun expiresAt hexpires hnow => ?_⟩
  refine hkept _ (hfile expiresAt hexpires hnow) huri fun other hother => ?_
  obtain rfl := Option.some.inj (hexpires.symm.trans hother)
  exact hnow

/-- A row is succeeded since before, with the same result, or has been finalized now. -/
theorem RowStep.succeeded_cases (h : RowStep config s action row row')
    (hsucceeded : row'.status = .succeeded) :
    (row.status = .succeeded ∧ row'.resultUri = row.resultUri ∧
      row'.resultMetadata = row.resultMetadata ∧
      row'.artifactExpiresAt = row.artifactExpiresAt) ∨
    ∃ job token time uri metadata, action = .call (.finalizeSuccess job token time uri metadata) ∧
      (token, job) ∈ s.copies ∧ job.id = row.id ∧ row.leaseToken = some token ∧
      row'.resultUri = uri ∧ row'.resultMetadata = metadata := by
  cases h with
  | kept | checkpointed | renewed | cleaned => exact Or.inl ⟨hsucceeded, rfl, rfl, rfl⟩
  | succeeded job token time uri metadata hcopied hsame howned =>
      have htoken := (JobRecord.ownedBy_iff.mp howned).1
      exact Or.inr ⟨job, token, time, uri, metadata, rfl, hcopied, hsame, htoken, rfl, rfl⟩
  | cancelled | exhausted | claimed | retried => cases hsucceeded
  | failed job _ _ exc => exact absurd hsucceeded (failureStatus_ne (by decide))

/-- A row whose artifacts have been cleaned is not active. -/
theorem CleanedExpired.of_active (h : CleanedExpired now row)
    (hactive : row.status.isActive = true) :
    row.artifactsCleanedAt = none := by
  apply Option.not_isSome_iff_eq_none.mp
  intro hcleaned
  have hterminal := (h hcleaned).1
  rw [JobStatus.isTerminal_eq, hactive] at hterminal
  cases hterminal

theorem RowStep.cleanedExpired (h : RowStep config s action row row')
    (hrow : CleanedExpired now row)
    (hsweep : ∀ locked time, action = .cleanup locked time → time ≤ now) :
    CleanedExpired now row' := by
  have huncleaned : ∀ after : JobRecord, after.artifactsCleanedAt = row.artifactsCleanedAt →
      row.status.isActive = true → CleanedExpired now after := by
    intro after hsame hactive hcleaned
    rw [hsame, hrow.of_active hactive] at hcleaned
    cases hcleaned
  cases h with
  | kept => exact hrow
  | cancelled _ hactive => exact huncleaned _ rfl hactive
  | retried => exact fun hcleaned => by cases hcleaned
  | exhausted _ _ _ _ heligible | claimed _ _ _ _ _ heligible =>
      exact huncleaned _ rfl (JobRecord.isActive_of_eligible heligible)
  | renewed _ _ howned | checkpointed _ _ _ _ _ _ howned | succeeded _ _ _ _ _ _ _ howned
  | failed _ _ _ _ _ _ _ _ howned =>
      refine huncleaned _ rfl ?_
      rw [JobRecord.running_of_ownedBy howned]
      rfl
  | cleaned locked time hguard =>
      intro _
      simp only [cleanupGuard, Bool.and_eq_true] at hguard
      obtain ⟨expiresAt, hexpires, hdue⟩ := (Option.any_eq_true _ _).mp hguard.1.1.2
      exact ⟨hguard.1.1.1.2, expiresAt, hexpires,
        le_trans (of_decide_eq_true hdue) (hsweep locked time rfl)⟩

namespace JobSystem

/-- A lease under a token drawn before has been held before. -/
theorem leaseHolder_before {token jobId : Uuid} (hdrawn : token ∈ s.drawn)
    (h : leaseHolder (s.step config action).db.jobs jobId = some token) :
    leaseHolder s.db.jobs jobId = some token := by
  obtain ⟨row', hrow', htoken⟩ := Option.bind_eq_some_iff.mp h
  cases hrow : s.db.jobs.find? jobId with
  | none =>
      obtain ⟨_, _, _, _, _, -, -, rfl, -⟩ := step_new hrow hrow'
      cases htoken
  | some row =>
      obtain ⟨after, hafter, hstep⟩ := step_row config action hrow
      obtain rfl := Option.some.inj (hafter.symm.trans hrow')
      rw [leaseHolder, hrow]
      exact (hstep.lease_kept htoken hdrawn).1

/-- The row of a succeeded query is backed as before, or has been finalized now. -/
theorem backed_step (hsound : s.Sound)
    (hbacked : ∀ {jobId row}, s.db.jobs.find? jobId = some row → row.kind = .historicalQuery →
      row.status = .succeeded → Backed files now row)
    {jobId : Uuid} (hrow' : (s.step config action).db.jobs.find? jobId = some row')
    (hquery : row'.kind = .historicalQuery) (hsucceeded : row'.status = .succeeded) :
    Backed files now row' ∨ ∃ job token time uri metadata,
      action = .call (.finalizeSuccess job token time uri metadata) ∧
        (token, job) ∈ s.copies ∧ job.kind = .historicalQuery ∧
        leaseHolder s.db.jobs job.id = some token ∧
        row'.resultUri = uri ∧ row'.resultMetadata = metadata := by
  cases hrow : s.db.jobs.find? jobId with
  | none =>
      obtain ⟨_, _, _, _, _, -, -, rfl, -⟩ := step_new hrow hrow'
      cases hsucceeded
  | some row =>
      obtain ⟨after, hafter, hstep⟩ := step_row config action hrow
      obtain rfl := Option.some.inj (hafter.symm.trans hrow')
      rw [hstep.kind_eq] at hquery
      rcases hstep.succeeded_cases hsucceeded with
        ⟨hold, huri, hmetadata, hexpires⟩ |
        ⟨job, token, time, uri, metadata, haction, hcopied, hsame, htoken, huri, hmetadata⟩
      · left
        unfold Backed
        rw [huri, hmetadata, hexpires]
        exact hbacked hrow hquery hold
      · obtain ⟨-, -, stored, hstored, hcopy⟩ := hsound.copied hcopied
        rw [hsame, Table.key_of_find? hrow, hrow] at hstored
        obtain rfl := Option.some.inj hstored
        refine Or.inr ⟨job, token, time, uri, metadata, haction, hcopied,
          hcopy.kind.symm.trans hquery, ?_, huri, hmetadata⟩
        rw [leaseHolder, hsame, Table.key_of_find? hrow, hrow]
        exact htoken

theorem cleanedExpired_step
    (hcleaned : ∀ {jobId row}, s.db.jobs.find? jobId = some row → CleanedExpired now row)
    (hsweep : ∀ locked time, action = .cleanup locked time → time ≤ now) {jobId : Uuid}
    (hrow' : (s.step config action).db.jobs.find? jobId = some row') : CleanedExpired now row' := by
  cases hrow : s.db.jobs.find? jobId with
  | none =>
      obtain ⟨_, _, _, _, _, -, -, rfl, -⟩ := step_new hrow hrow'
      exact fun h => by cases h
  | some row =>
      obtain ⟨after, hafter, hstep⟩ := step_row config action hrow
      obtain rfl := Option.some.inj (hafter.symm.trans hrow')
      exact hstep.cleanedExpired (hcleaned hrow) hsweep

end JobSystem

end Rows

theorem historicalResult_byteSize (job : JobRecord) (rowCount byteSize : Nat) :
    ∃ result, historicalResult job rowCount byteSize = .historical result ∧
      result.byteSize = byteSize := by
  unfold historicalResult
  split <;> exact ⟨_, rfl, rfl⟩

/-- The files are those of unsettled attempts and of published results, each of its own size. The
file of an attempt that can still publish is in storage with the size that it is going to report. -/
structure ResultStorage.Sound (root : String) (now : Instant) (s : ResultStorage) : Prop where
  attempts : s.attempts.Sound root
  settles : s.attempts.Settles root
  written : ∀ {token attempt rowCount byteSize}, s.attempts.attempts token = some attempt →
    attempt.stage = .publishing rowCount byteSize →
      leaseHolder s.attempts.jobs.db.jobs attempt.job.id = some token →
        ⟨attempt.uri root token, byteSize⟩ ∈ s.files
  backed : ∀ {jobId row}, s.attempts.jobs.db.jobs.find? jobId = some row →
    row.kind = .historicalQuery → row.status = .succeeded → Backed s.files now row
  cleaned : ∀ {jobId row}, s.attempts.jobs.db.jobs.find? jobId = some row → CleanedExpired now row
  kept : ∀ file ∈ s.files, file.uri ∈ s.attempts.objects
  distinct : (s.files.map (·.uri)).Nodup

namespace ResultStorage

variable {config : Config} {root : String} {now : Instant} {s : ResultStorage} {token : Uuid}
  {attempt : QueryAttempt}

/-- What is published is not the file of an attempt that has not committed. -/
theorem Sound.unpublished (h : s.Sound root now)
    (hattempt : s.attempts.attempts token = some attempt)
    (hopen : attempt.stage.isCommitted = false) {jobId : Uuid} {row : JobRecord}
    (hrow : s.attempts.jobs.db.jobs.find? jobId = some row) (hquery : row.kind = .historicalQuery)
    (hsucceeded : row.status = .succeeded) : row.resultUri ≠ some (attempt.uri root token) := by
  intro huri
  obtain ⟨-, token', attempt', hattempt', -, heq, hcommitted⟩ :=
    h.settles.published ⟨row, hrow, hquery, hsucceeded, huri⟩
  obtain rfl := QueryAttempt.uri_inj heq
  obtain rfl := Option.some.inj (hattempt'.symm.trans hattempt)
  rw [hopen] at hcommitted
  cases hcommitted

/-- An attempt moves to another stage with its own file alone, while the jobs move on. -/
theorem Sound.move (h : s.Sound root now) {jobs : JobSystem} {objects : List String}
    {stage : AttemptStage} {files : List ResultFile}
    (hsound : (AttemptSystem.setStage ⟨jobs, objects, s.attempts.attempts⟩ token attempt
      stage).Sound root)
    (hsettles : (AttemptSystem.setStage ⟨jobs, objects, s.attempts.attempts⟩ token attempt
      stage).Settles root)
    (hleases : ∀ {jobId holder}, holder ∈ s.attempts.jobs.drawn →
      leaseHolder jobs.db.jobs jobId = some holder →
        leaseHolder s.attempts.jobs.db.jobs jobId = some holder)
    (hbacked : ∀ {jobId row}, jobs.db.jobs.find? jobId = some row → row.kind = .historicalQuery →
      row.status = .succeeded → Backed files now row)
    (hcleaned : ∀ {jobId row}, jobs.db.jobs.find? jobId = some row → CleanedExpired now row)
    (hothers : ∀ file ∈ s.files, file.uri ≠ attempt.uri root token → file ∈ files)
    (hmine : ∀ rowCount byteSize, stage = .publishing rowCount byteSize →
      ⟨attempt.uri root token, byteSize⟩ ∈ files)
    (hkept : ∀ file ∈ files, file.uri ∈ objects) (hdistinct : (files.map (·.uri)).Nodup) :
    Sound root now ⟨AttemptSystem.setStage ⟨jobs, objects, s.attempts.attempts⟩ token attempt stage,
      files⟩ where
  attempts := hsound
  settles := hsettles
  written := by
    intro token' attempt' rowCount byteSize hattempt' hstage hlease
    cases AttemptSystem.setStage_attempts hattempt' with
    | inl hsame =>
        obtain ⟨rfl, rfl⟩ := hsame
        exact hmine rowCount byteSize hstage
    | inr hold =>
        obtain ⟨hne, hold⟩ := hold
        have hdrawn := (h.attempts.jobs.copied (h.attempts.claimed hold).1).1
        refine hothers _ (h.written hold hstage (hleases hdrawn hlease)) ?_
        exact fun huri => hne (QueryAttempt.uri_inj huri)
  backed := hbacked
  cleaned := hcleaned
  kept := hkept
  distinct := hdistinct

/-- An attempt moves on without touching its file. -/
theorem Sound.stay (h : s.Sound root now) {jobs : JobSystem} {stage : AttemptStage}
    (hsound : (AttemptSystem.setStage ⟨jobs, s.attempts.objects, s.attempts.attempts⟩ token attempt
      stage).Sound root)
    (hsettles : (AttemptSystem.setStage ⟨jobs, s.attempts.objects, s.attempts.attempts⟩ token
      attempt stage).Settles root)
    (hleases : ∀ {jobId holder}, holder ∈ s.attempts.jobs.drawn →
      leaseHolder jobs.db.jobs jobId = some holder →
        leaseHolder s.attempts.jobs.db.jobs jobId = some holder)
    (hbacked : ∀ {jobId row}, jobs.db.jobs.find? jobId = some row → row.kind = .historicalQuery →
      row.status = .succeeded → Backed s.files now row)
    (hcleaned : ∀ {jobId row}, jobs.db.jobs.find? jobId = some row → CleanedExpired now row)
    (hstage : ∀ rowCount byteSize, stage ≠ .publishing rowCount byteSize) :
    Sound root now ⟨AttemptSystem.setStage ⟨jobs, s.attempts.objects, s.attempts.attempts⟩ token
      attempt stage, s.files⟩ :=
  h.move hsound hsettles hleases hbacked hcleaned (fun _ hfile _ => hfile)
    (fun rowCount byteSize heq => absurd heq (hstage rowCount byteSize)) h.kept h.distinct

/-- An attempt that has not committed deletes its file. -/
theorem Sound.discard (h : s.Sound root now) (hattempt : s.attempts.attempts token = some attempt)
    (hopen : attempt.stage.isCommitted = false) {stage : AttemptStage}
    (hsound : (AttemptSystem.setStage ⟨s.attempts.jobs, s.attempts.objects.filter
      fun object => decide (object ≠ attempt.uri root token), s.attempts.attempts⟩ token attempt
        stage).Sound root)
    (hsettles : (AttemptSystem.setStage ⟨s.attempts.jobs, s.attempts.objects.filter
      fun object => decide (object ≠ attempt.uri root token), s.attempts.attempts⟩ token attempt
        stage).Settles root)
    (hstage : ∀ rowCount byteSize, stage ≠ .publishing rowCount byteSize) :
    Sound root now ⟨AttemptSystem.setStage ⟨s.attempts.jobs, s.attempts.objects.filter
      fun object => decide (object ≠ attempt.uri root token), s.attempts.attempts⟩ token attempt
        stage, deleteFile s.files (attempt.uri root token)⟩ := by
  apply h.move hsound hsettles (fun _ => id)
  · intro jobId row hrow hquery hsucceeded
    refine (h.backed hrow hquery hsucceeded).mono fun file hfile huri _ => ?_
    refine mem_deleteFile.mpr ⟨hfile, fun heq => ?_⟩
    rw [heq] at huri
    exact h.unpublished hattempt hopen hrow hquery hsucceeded huri
  · exact h.cleaned
  · exact fun file hfile hne => mem_deleteFile.mpr ⟨hfile, hne⟩
  · exact fun rowCount byteSize heq => absurd heq (hstage rowCount byteSize)
  · intro file hfile
    obtain ⟨hold, hne⟩ := mem_deleteFile.mp hfile
    exact List.mem_filter.mpr ⟨h.kept file hold, by simpa using hne⟩
  · exact h.distinct.sublist (List.filter_sublist.map _)

/-- An attempt that has not committed writes its file. -/
theorem Sound.store (h : s.Sound root now) (hattempt : s.attempts.attempts token = some attempt)
    (hopen : attempt.stage.isCommitted = false) (hunwritten : attempt.stage.isWritten = false)
    {rowCount byteSize : Nat}
    (hsound : (AttemptSystem.setStage ⟨s.attempts.jobs,
      attempt.uri root token :: s.attempts.objects, s.attempts.attempts⟩ token attempt
        (.publishing rowCount byteSize)).Sound root)
    (hsettles : (AttemptSystem.setStage ⟨s.attempts.jobs,
      attempt.uri root token :: s.attempts.objects, s.attempts.attempts⟩ token attempt
        (.publishing rowCount byteSize)).Settles root) :
    Sound root now ⟨AttemptSystem.setStage ⟨s.attempts.jobs,
      attempt.uri root token :: s.attempts.objects, s.attempts.attempts⟩ token attempt
        (.publishing rowCount byteSize), ⟨attempt.uri root token, byteSize⟩ :: s.files⟩ := by
  have hfresh : attempt.uri root token ∉ s.files.map (·.uri) := by
    intro hmem
    obtain ⟨file, hfile, huri⟩ := List.mem_map.mp hmem
    have hwritten := (h.settles.mem_iff hattempt hopen).mp (huri ▸ h.kept file hfile)
    rw [hunwritten] at hwritten
    cases hwritten
  apply h.move hsound hsettles (fun _ => id)
  · exact fun hrow hquery hsucceeded => (h.backed hrow hquery hsucceeded).mono
      fun _ hfile _ _ => List.mem_cons_of_mem _ hfile
  · exact h.cleaned
  · exact fun file hfile _ => List.mem_cons_of_mem _ hfile
  · intro rowCount' byteSize' heq
    cases heq
    exact List.mem_cons_self
  · intro file hfile
    rcases List.mem_cons.mp hfile with rfl | hold
    · exact List.mem_cons_self
    · exact List.mem_cons_of_mem _ (h.kept file hold)
  · exact List.nodup_cons.mpr ⟨hfresh, h.distinct⟩

/-- Files are deleted from directories of jobs whose results have expired. -/
theorem Sound.deleteJobs (h : s.Sound root now) {ids : List Uuid}
    (hexpired : ∀ id ∈ ids, ∃ row, s.attempts.jobs.db.jobs.find? id = some row ∧
      row.status.isTerminal = true ∧
      ∃ expiresAt, row.artifactExpiresAt = some expiresAt ∧ expiresAt ≤ now) :
    Sound root now { s with files := ids.foldl (deleteJob root) s.files } where
  attempts := h.attempts
  settles := h.settles
  written := by
    intro token attempt rowCount byteSize hattempt hstage hlease
    refine mem_deleteJobs.mpr ⟨h.written hattempt hstage hlease, fun id hid => ?_⟩
    rw [Bool.eq_false_iff]
    intro hleading
    obtain rfl := inJobPrefix_resultUri.mp hleading
    obtain ⟨row, hrow, hterminal, -⟩ := hexpired _ hid
    obtain ⟨stored, hstored, htoken⟩ := Option.bind_eq_some_iff.mp hlease
    obtain rfl := Option.some.inj (hstored.symm.trans hrow)
    have hrunning := (h.attempts.jobs.consistent hrow).leaseToken.mp
      (Option.isSome_of_eq_some htoken)
    rw [hrunning] at hterminal
    cases hterminal
  backed := by
    intro jobId row hrow hquery hsucceeded
    refine (h.backed hrow hquery hsucceeded).mono fun file hfile huri hlasts => ?_
    refine mem_deleteJobs.mpr ⟨hfile, fun id hid => ?_⟩
    rw [Bool.eq_false_iff]
    intro hleading
    obtain ⟨-, token, attempt, -, hjob, heq, -⟩ :=
      h.settles.published ⟨row, hrow, hquery, hsucceeded, huri⟩
    rw [← heq] at hleading
    obtain rfl := inJobPrefix_resultUri.mp hleading
    obtain ⟨expired, hexpiredRow, -, expiresAt, hexpires, hdue⟩ := hexpired _ hid
    rw [hjob, hrow] at hexpiredRow
    obtain rfl := Option.some.inj hexpiredRow
    exact absurd (hlasts expiresAt hexpires) (not_lt.mpr hdue)
  cleaned := h.cleaned
  kept := fun file hfile => h.kept file (mem_deleteJobs.mp hfile).1
  distinct := h.distinct.sublist ((deleteJobs_sublist s.files ids).map _)

/-- The jobs that a sweep selects. -/
theorem selected_expired {db : Database} {locked : List Uuid} {time : Instant}
    (htime : time ≤ now) :
    ∀ id ∈ (cleanupExpiredArtifacts db locked time).2, ∃ row, db.jobs.find? id = some row ∧
      row.status.isTerminal = true ∧
      ∃ expiresAt, row.artifactExpiresAt = some expiresAt ∧ expiresAt ≤ now := by
  intro id hid
  obtain ⟨row, hselected, rfl⟩ := List.mem_map.mp hid
  rw [Table.mem_select] at hselected
  obtain ⟨hmem, hguard⟩ := hselected
  have hrow := Table.find?_some_iff.mpr ⟨hmem, Eq.refl row.id⟩
  simp only [cleanupGuard, Bool.and_eq_true] at hguard
  obtain ⟨expiresAt, hexpires, hdue⟩ := (Option.any_eq_true _ _).mp hguard.1.1.2
  exact ⟨row, hrow, hguard.1.1.1.2, expiresAt, hexpires, le_trans (of_decide_eq_true hdue) htime⟩

/-- The jobs take a step that finalizes no query. -/
theorem Sound.other (h : s.Sound root now) {action : JobAction} (hplain : action.publishes = false)
    (hsweep : ∀ locked time, action = .cleanup locked time → time ≤ now)
    (hsettles : (s.attempts.step config root (.other action)).Settles root) :
    Sound root now { s with attempts := s.attempts.step config root (.other action) } := by
  have hstep : s.attempts.step config root (.other action) =
      { s.attempts with jobs := s.attempts.jobs.step config action } := by
    rw [AttemptSystem.step, if_neg (by rw [hplain]; exact Bool.false_ne_true)]
  have hsound := h.attempts.step config (.other action)
  rw [hstep] at hsound hsettles ⊢
  refine ⟨hsound, hsettles, ?_, ?_, ?_, h.kept, h.distinct⟩
  · intro token attempt rowCount byteSize hattempt hstage hlease
    have hdrawn := (h.attempts.jobs.copied (h.attempts.claimed hattempt).1).1
    exact h.written hattempt hstage (JobSystem.leaseHolder_before hdrawn hlease)
  · intro jobId row hrow hquery hsucceeded
    refine (JobSystem.backed_step h.attempts.jobs h.backed hrow hquery hsucceeded).resolve_right ?_
    rintro ⟨job, token, time, uri, metadata, rfl, -, hkind, -⟩
    rw [JobAction.publishes, hkind] at hplain
    cases hplain
  · exact fun hrow => JobSystem.cleanedExpired_step h.cleaned hsweep hrow

/-- The finalization of an attempt backs the row of its query. -/
theorem Sound.backed_publish (h : s.Sound root now)
    (hattempt : s.attempts.attempts token = some attempt) {rowCount byteSize : Nat}
    (hstage : attempt.stage = .publishing rowCount byteSize) {time : Instant} {jobId : Uuid}
    {row : JobRecord}
    (hrow : (s.attempts.jobs.step config (.call (.finalizeSuccess attempt.job token time
      (some (attempt.uri root token)) (some (historicalResult attempt.job rowCount
        byteSize))))).db.jobs.find? jobId = some row)
    (hquery : row.kind = .historicalQuery) (hsucceeded : row.status = .succeeded) :
    Backed s.files now row := by
  rcases JobSystem.backed_step h.attempts.jobs h.backed hrow hquery hsucceeded with hold |
    ⟨job, token', time', uri, metadata, haction, -, -, hlease, huri, hmetadata⟩
  · exact hold
  · cases haction
    obtain ⟨result, hresult, rfl⟩ := historicalResult_byteSize attempt.job rowCount byteSize
    rw [hresult] at hmetadata
    exact ⟨_, result, huri, hmetadata, fun _ _ _ => h.written hattempt hstage hlease⟩

/-- The handling of an exception finalizes no success. -/
theorem Sound.backed_fail (h : s.Sound root now) {job copy : JobRecord} {time : Instant}
    {exc : PyException} {error : String} {summary : Option ResultMetadata} {jobId : Uuid}
    {row : JobRecord}
    (hrow : ((s.attempts.jobs.step config (.refresh token job.id)).step config
      (.call (.finalizeFailure copy token time exc error summary))).db.jobs.find? jobId = some row)
    (hquery : row.kind = .historicalQuery) (hsucceeded : row.status = .succeeded) :
    Backed s.files now row := by
  have hrefreshed : (s.attempts.jobs.step config (.refresh token job.id)).Sound :=
    JobSystem.step_sound h.attempts.jobs
  refine (JobSystem.backed_step hrefreshed ?_ hrow hquery hsucceeded).resolve_right ?_
  · intro jobId row hrow hquery hsucceeded
    refine (JobSystem.backed_step h.attempts.jobs h.backed hrow hquery hsucceeded).resolve_right ?_
    rintro ⟨_, _, _, _, _, haction, -⟩
    cases haction
  · rintro ⟨_, _, _, _, _, haction, -⟩
    cases haction

theorem Sound.advance (h : s.Sound root now) (hattempt : s.attempts.attempts token = some attempt)
    {time : Instant} {outcome : Outcome}
    (hrefresh : attempt.stage = .refreshing → outcome.raised = none) :
    Sound root now ⟨s.attempts.advance config root token attempt time outcome,
      s.filesAfter root (.advance token time outcome)⟩ := by
  have hsound := h.attempts.advance hattempt config time outcome
  have hsettles := h.settles.advance h.attempts hattempt config time outcome hrefresh
  have hproceed : ∀ {stage : AttemptStage},
      (s.attempts.setStage token attempt stage).Sound root →
      (s.attempts.setStage token attempt stage).Settles root →
      (∀ rowCount byteSize, stage ≠ .publishing rowCount byteSize) →
        Sound root now ⟨s.attempts.setStage token attempt stage, s.files⟩ :=
    fun hsound hsettles => h.stay hsound hsettles (fun _ => id) h.backed h.cleaned
  simp only [filesAfter, hattempt]
  cases hstage : attempt.stage with
  | reading =>
      simp only [AttemptSystem.advance, hstage] at hsound hsettles ⊢
      by_cases hinput : attempt.job.artifactUri.isNone = true
      · simp only [if_pos hinput] at hsound hsettles ⊢
        exact hproceed hsound hsettles fun _ _ hsame => by cases hsame
      · simp only [if_neg hinput] at hsound hsettles ⊢
        cases hraised : outcome.raised with
        | none | some exc =>
            simp only [hraised] at hsound hsettles ⊢
            exact hproceed hsound hsettles fun _ _ hsame => by cases hsame
  | checking joined =>
      simp only [AttemptSystem.advance, hstage] at hsound hsettles ⊢
      cases hraised : outcome.raised with
      | some exc =>
          simp only [hraised] at hsound hsettles ⊢
          exact hproceed hsound hsettles fun _ _ hsame => by cases hsame
      | none =>
          by_cases howns : owns s.attempts.jobs.db attempt.job.id token time = true
          · simp only [hraised, if_pos howns] at hsound hsettles ⊢
            exact hproceed hsound hsettles fun _ _ hsame => by cases joined <;> cases hsame
          · simp only [hraised, if_neg howns] at hsound hsettles ⊢
            exact hproceed hsound hsettles fun _ _ hsame => by cases hsame
  | joining =>
      simp only [AttemptSystem.advance, hstage] at hsound hsettles ⊢
      cases hraised : outcome.raised with
      | none | some exc =>
          simp only [hraised] at hsound hsettles ⊢
          exact hproceed hsound hsettles fun _ _ hsame => by cases hsame
  | writing rowCount =>
      have hopen : attempt.stage.isCommitted = false := by rw [hstage]; rfl
      have hunwritten : attempt.stage.isWritten = false := by rw [hstage]; rfl
      simp only [AttemptSystem.advance, hstage] at hsound hsettles ⊢
      cases hraised : outcome.raised with
      | some exc =>
          simp only [hraised] at hsound hsettles ⊢
          exact h.discard hattempt hopen hsound hsettles fun _ _ hsame => by cases hsame
      | none =>
          simp only [hraised] at hsound hsettles ⊢
          exact h.store hattempt hopen hunwritten hsound hsettles
  | publishing rowCount byteSize =>
      simp only [AttemptSystem.advance, hstage] at hsound hsettles ⊢
      cases hraised : outcome.raised with
      | some exc =>
          simp only [hraised] at hsound hsettles ⊢
          exact hproceed hsound hsettles fun _ _ hsame => by cases hsame
      | none =>
          cases hresult : (finalizeSuccess config.settings s.attempts.jobs.db attempt.job token time
              (some (attempt.uri root token))
              (some (historicalResult attempt.job rowCount byteSize))).2 with
          | ok updated | error exc =>
              simp only [hraised, hresult] at hsound hsettles ⊢
              refine h.stay hsound hsettles ?_ (h.backed_publish hattempt hstage) ?_
                fun _ _ hsame => by cases hsame
              · exact fun hdrawn => JobSystem.leaseHolder_before hdrawn
              · exact JobSystem.cleanedExpired_step h.cleaned fun _ _ heq => by cases heq
  | refreshing =>
      simp only [AttemptSystem.advance, hstage] at hsound hsettles ⊢
      cases hraised : outcome.raised with
      | none | some exc =>
          simp only [hraised] at hsound hsettles ⊢
          exact hproceed hsound hsettles fun _ _ hsame => by cases hsame
  | raised exc written =>
      simp only [AttemptSystem.advance, hstage] at hsound hsettles ⊢
      by_cases hlost : exc.cls = .leaseLost ∨ outcome.raised.isSome = true
      · simp only [if_pos hlost] at hsound hsettles ⊢
        exact hproceed hsound hsettles fun _ _ hsame => by cases hsame
      · simp only [if_neg hlost] at hsound hsettles ⊢
        refine h.stay hsound hsettles ?_ h.backed_fail ?_ fun _ _ hsame => by cases hsame
        · intro jobId holder hdrawn hlease
          exact JobSystem.leaseHolder_before hdrawn
            (JobSystem.leaseHolder_before (JobSystem.step_drawn hdrawn) hlease)
        · exact JobSystem.cleanedExpired_step
            (JobSystem.cleanedExpired_step h.cleaned fun _ _ heq => by cases heq)
            fun _ _ heq => by cases heq
  | cleaning written =>
      have hopen : attempt.stage.isCommitted = false := by rw [hstage]; rfl
      simp only [AttemptSystem.advance, hstage] at hsound hsettles ⊢
      cases written with
      | true => exact h.discard hattempt hopen hsound hsettles fun _ _ hsame => by cases hsame
      | false => exact hproceed hsound hsettles fun _ _ hsame => by cases hsame
  | ended =>
      simp only [AttemptSystem.advance, hstage]
      exact h

theorem Sound.step (h : s.Sound root now) {action : StorageAction}
    (hregular : action.Regular now s) :
    (s.step config root action).Sound root now := by
  obtain ⟨hsweeps, hrefreshes⟩ := hregular
  cases action with
  | raisingSweep locked time deleted =>
      have htime : time ≤ now := hsweeps time rfl
      exact h.deleteJobs fun id hid => selected_expired htime id (List.mem_of_mem_take hid)
  | act action =>
      have hsettles := h.settles.step h.attempts config (hrefreshes action rfl)
      cases action with
      | execute token job time =>
          have hsound := h.attempts.step config (.execute token job time)
          rw [ResultStorage.step]
          simp only [AttemptSystem.step, filesAfter] at hsound hsettles ⊢
          by_cases hguard : (token, job) ∈ s.attempts.jobs.copies ∧ job.leaseToken = some token ∧
              job.kind = .historicalQuery ∧ (s.attempts.attempts token).isNone = true
          · simp only [if_pos hguard] at hsound hsettles ⊢
            refine h.stay hsound hsettles (fun _ => id) h.backed h.cleaned ?_
            intro rowCount byteSize
            split <;> exact AttemptStage.noConfusion
          · simp only [if_neg hguard]
            exact h
      | advance token time outcome =>
          cases hattempt : s.attempts.attempts token with
          | none =>
              rw [ResultStorage.step]
              simp only [AttemptSystem.step, filesAfter, hattempt]
              exact h
          | some attempt =>
              have hrefresh := hrefreshes _ rfl attempt hattempt
              rw [ResultStorage.step]
              simp only [AttemptSystem.step, hattempt]
              exact h.advance hattempt hrefresh
      | other action =>
          rw [ResultStorage.step]
          by_cases hplain : action.publishes = true
          · have hsame : s.attempts.step config root (.other action) = s.attempts := by
              rw [AttemptSystem.step, if_pos hplain]
            have hfiles : s.filesAfter root (.other action) = s.files := by
              cases action with
              | call call => rfl
              | refresh | checkRetry | updateRetry | cleanup => cases hplain
            rw [hsame, hfiles]
            exact h
          · have hfalse := Bool.eq_false_of_not_eq_true hplain
            cases action with
            | cleanup locked time =>
                have htime : time ≤ now := hsweeps time rfl
                have hswept := h.deleteJobs
                  (@selected_expired now s.attempts.jobs.db locked time htime)
                exact hswept.other hfalse (fun _ _ heq => by cases heq; exact htime) hsettles
            | call | refresh | checkRetry | updateRetry =>
                exact h.other hfalse (fun _ _ heq => by cases heq) hsettles

theorem initial_sound (root : String) (now : Instant) : initial.Sound root now where
  attempts := AttemptSystem.initial_sound root
  settles := AttemptSystem.initial_settles root
  written := fun hattempt => by cases hattempt
  backed := fun hrow => by cases hrow
  cleaned := fun hrow => by cases hrow
  kept := fun _ hfile => by cases hfile
  distinct := List.nodup_nil

end ResultStorage

section Downloads

variable {db : Database} {files : List ResultFile} {jobId : Uuid} {now : Instant} {row : JobRecord}

/-- A download succeeds for a succeeded query whose file is there and has not expired. -/
theorem getJobResult_ok {uri : String} {result : HistoricalResult}
    (hrow : db.jobs.find? jobId = some row) (hsucceeded : row.status = .succeeded)
    (hcleaned : row.artifactsCleanedAt = none)
    (hlasts : ∀ expiresAt, row.artifactExpiresAt = some expiresAt → now < expiresAt)
    (huri : row.resultUri = some uri) (hname : uri ≠ "")
    (hresult : row.resultMetadata = some (.historical result))
    (hfile : ⟨uri, result.byteSize⟩ ∈ files) :
    getJobResult db files jobId now = .ok ⟨uri, "application/vnd.apache.parquet", result.byteSize,
      s!"historical-query-{row.id}.parquet"⟩ := by
  have hopen : ¬(row.artifactsCleanedAt.isSome = true ∨
      row.artifactExpiresAt.any (fun expiresAt => decide (expiresAt ≤ now)) = true) := by
    rintro (hsome | hexpired)
    · rw [hcleaned] at hsome
      cases hsome
    · obtain ⟨expiresAt, hexpires, hdue⟩ := (Option.any_eq_true _ _).mp hexpired
      exact absurd (hlasts expiresAt hexpires) (not_lt.mpr (of_decide_eq_true hdue))
  have hthere : ¬(files.all fun file => decide (file.uri ≠ uri)) = true := by
    intro hall
    simpa using List.all_eq_true.mp hall _ hfile
  have hfilter : row.resultUri.filter (fun uri => decide (uri ≠ "")) = some uri := by
    simp [huri, hname]
  simp only [getJobResult, hrow, if_neg hopen, hfilter, hresult, hsucceeded, ne_eq,
    not_true_eq_false, if_false, if_neg hthere]

/-- A download is of a succeeded job that has not expired. -/
theorem getJobResult_of_ok {stream : ResultStream} (hrow : db.jobs.find? jobId = some row)
    (h : getJobResult db files jobId now = .ok stream) :
    row.status = .succeeded ∧
      ∀ expiresAt, row.artifactExpiresAt = some expiresAt → now < expiresAt := by
  simp only [getJobResult, hrow] at h
  split at h
  · cases h
  · rename_i hopen
    split at h
    · split at h
      · cases h
      · rename_i hsucceeded
        refine ⟨not_not.mp hsucceeded, fun expiresAt hexpires => ?_⟩
        rw [← not_le]
        intro hdue
        apply hopen
        right
        rw [hexpires]
        exact decide_eq_true hdue
    · cases h

end Downloads

/-- A query that has succeeded and has not expired. -/
def JobRecord.Available (row : JobRecord) (now : Instant) : Prop :=
  row.status = .succeeded ∧
    ∀ expiresAt, row.artifactExpiresAt = some expiresAt → now < expiresAt

/-- A client whose clock is not behind those of the sweeps can download the result of a historical
query exactly when the query has succeeded and has not expired, and is told the size of the one
file under its URI. In storage are only the files of unsettled attempts and of published results.
The refresh that follows the commit of an attempt must not raise. -/
theorem available_results_downloaded (config : Config) (root : String)
    (actions : List StorageAction) (now : Instant)
    (hregular : Execution.Along (ResultStorage.step config root)
      (fun s action => action.Regular now s) .initial actions) :
    let s := ResultStorage.run config root actions
    (∀ jobId row, s.attempts.jobs.db.jobs.find? jobId = some row → row.kind = .historicalQuery →
      (row.Available now →
        ∃ file ∈ s.files, row.resultUri = some file.uri ∧
          (∀ other ∈ s.files, other.uri = file.uri → other = file) ∧
          getJobResult s.attempts.jobs.db s.files jobId now = .ok ⟨file.uri,
            "application/vnd.apache.parquet", file.byteSize,
            s!"historical-query-{row.id}.parquet"⟩) ∧
      (¬row.Available now →
        ∃ error, getJobResult s.attempts.jobs.db s.files jobId now = .error error)) ∧
    ∀ file ∈ s.files,
      (∃ token attempt, s.attempts.attempts token = some attempt ∧
        attempt.uri root token = file.uri ∧ attempt.stage.isWritten = true) ∨
      ∃ jobId, PublishedAt s.attempts.jobs.db jobId file.uri := by
  intro s
  have hsound : s.Sound root now := Execution.invariant_of_along
    (fun _ _ h => h.step) (ResultStorage.initial_sound root now) hregular
  constructor
  · intro jobId row hrow hquery
    constructor
    · rintro ⟨hsucceeded, hlasts⟩
      obtain ⟨uri, result, huri, hresult, hfile⟩ := hsound.backed hrow hquery hsucceeded
      have hexpiry := (hsound.attempts.jobs.consistent hrow).artifactExpiresAt.mpr
        ⟨hquery, by rw [hsucceeded]; rfl⟩
      obtain ⟨expiresAt, hexpires⟩ := Option.isSome_iff_exists.mp hexpiry
      have hmem := hfile expiresAt hexpires (hlasts expiresAt hexpires)
      have hcleaned : row.artifactsCleanedAt = none := by
        apply Option.not_isSome_iff_eq_none.mp
        intro hsome
        obtain ⟨-, other, hother, hdue⟩ := hsound.cleaned hrow hsome
        exact absurd (hlasts other hother) (not_lt.mpr hdue)
      have hname : uri ≠ "" := by
        obtain ⟨-, token, attempt, -, -, rfl, -⟩ :=
          hsound.settles.published ⟨row, hrow, hquery, hsucceeded, huri⟩
        exact resultUri_ne_empty
      refine ⟨_, hmem, huri, fun other hother heq => ?_,
        getJobResult_ok hrow hsucceeded hcleaned hlasts huri hname hresult hmem⟩
      exact List.inj_on_of_nodup_map hsound.distinct hother hmem heq
    · intro hunavailable
      cases hanswer : getJobResult s.attempts.jobs.db s.files jobId now with
      | error error => exact ⟨error, rfl⟩
      | ok stream => exact absurd (getJobResult_of_ok hrow hanswer) hunavailable
  · intro file hfile
    obtain ⟨token, attempt, hattempt, huri, hcause⟩ := hsound.settles.owned (hsound.kept file hfile)
    cases hcause with
    | inl hwritten => exact Or.inl ⟨token, attempt, hattempt, huri, hwritten⟩
    | inr hpublished => exact Or.inr ⟨attempt.job.id, hpublished⟩

/-- A query is executed, one sweep finds nothing expired, and another one raises. -/
def sweptQuery : List StorageAction :=
  publishedQuery.map .act ++ [.act (.other (.cleanup [] 5)), .raisingSweep [] 7 1]

theorem swept_query_downloaded :
    let s := ResultStorage.run defaultConfig "s3://artifacts" sweptQuery
    (∀ jobId row, s.attempts.jobs.db.jobs.find? jobId = some row → row.kind = .historicalQuery →
      (row.Available 8 →
        ∃ file ∈ s.files, row.resultUri = some file.uri ∧
          (∀ other ∈ s.files, other.uri = file.uri → other = file) ∧
          getJobResult s.attempts.jobs.db s.files jobId 8 = .ok ⟨file.uri,
            "application/vnd.apache.parquet", file.byteSize,
            s!"historical-query-{row.id}.parquet"⟩) ∧
      (¬row.Available 8 →
        ∃ error, getJobResult s.attempts.jobs.db s.files jobId 8 = .error error)) ∧
    ∀ file ∈ s.files,
      (∃ token attempt, s.attempts.attempts token = some attempt ∧
        attempt.uri "s3://artifacts" token = file.uri ∧ attempt.stage.isWritten = true) ∨
      ∃ jobId, PublishedAt s.attempts.jobs.db jobId file.uri := by
  apply available_results_downloaded defaultConfig "s3://artifacts" sweptQuery 8
  refine ⟨?_, ?_, ?_, ?_, ?_, ?_, ?_, ?_, ?_, ?_, ?_, trivial⟩
  all_goals
    constructor
    · simp [StorageAction.sweepClock?]
    · rintro _ ⟨⟩ <;> first | trivial | exact fun _ _ _ => rfl

end FeatureStore
