import FeatureStore.Library.Directories
import FeatureStore.ManifestParsing
import FeatureStore.ResultDownloads

/-!
# The layout of object storage

Views, staged batches, quarantine tables and the artifacts of jobs are directories of one bucket.
The names of views have no slash, so no directory is another one or in it: what is written or
cleaned up at one place is not seen at the others, and the models may keep them apart.
-/

namespace FeatureStore

open Directories

/-- `view_ref.replace("@", "/")` -/
def safeRef (viewRef : String) : String :=
  String.ofList (viewRef.toList.map fun c => if c = '@' then '/' else c)

/-- `OfflineStore.view_uri` -/
def OfflineStore.viewUri (bucket viewRef : String) : String :=
  s!"s3://{bucket}/views/{safeRef viewRef}"

/-- `OfflineStore.quarantine_uri` -/
def OfflineStore.quarantineUri (bucket viewRef : String) (jobId : Uuid) : String :=
  s!"s3://{bucket}/quarantine/{safeRef viewRef}/{jobId}"

/-- The `staging_uri` of `_flush_view`. -/
def StagingUri.text (bucket : String) (stagingUri : StagingUri) : String :=
  s!"s3://{bucket}/staging/{safeRef stagingUri.viewRef}/{stagingUri.batch}"

/-- The `root_uri` of `ArtifactStorage`, and its `job_prefix`. -/
def artifactRoot (bucket : String) : String := s!"s3://{bucket}/artifacts/jobs"

def jobPrefix (root : String) (jobId : Uuid) : String := s!"{root}/{jobId}"

/-- The characters that `\d` matches, the slash not among them. -/
structure PathDigits extends DecimalDigits where
  not_slash : isDecimal '/' = false

/-- The name and the version of a view, as `FeatureView` accepts them. -/
structure ViewId (digits : PathDigits) where
  name : String
  version : String
  name_matches : isName name = true
  version_matches : digits.isVersion version = true
deriving DecidableEq

def ViewId.ref {digits : PathDigits} (view : ViewId digits) : String :=
  s!"{view.name}@{view.version}"

/-- What has a directory of its own. -/
inductive Place (digits : PathDigits)
  | view (view : ViewId digits)
  | staging (view : ViewId digits) (batch : Uuid)
  | quarantine (view : ViewId digits) (jobId : Uuid)
  | artifacts (jobId : Uuid)
deriving DecidableEq

variable {digits : PathDigits} {bucket : String} {β : Type}

namespace Place

def uri (bucket : String) : Place digits → String
  | view id => OfflineStore.viewUri bucket id.ref
  | staging id batch => StagingUri.text bucket ⟨id.ref, batch⟩
  | quarantine id jobId => OfflineStore.quarantineUri bucket id.ref jobId
  | artifacts jobId => jobPrefix (artifactRoot bucket) jobId

/-- What the keys of the objects of a place begin with. -/
def path (bucket : String) (place : Place digits) : List Char := (place.uri bucket ++ "/").toList

/-- The segments of a path behind the bucket. -/
def segments : Place digits → List String
  | view id => ["views", id.name, id.version]
  | staging id batch => ["staging", id.name, id.version, Nat.repr batch]
  | quarantine id jobId => ["quarantine", id.name, id.version, Nat.repr jobId]
  | artifacts jobId => ["artifacts", "jobs", Nat.repr jobId]

end Place

section Segments

theorem not_slash_of_isName {text : String} (h : isName text = true) : '/' ∉ text.toList :=
  fun hmem => absurd (isNameChar_of_isName h _ hmem) (by decide)

theorem not_at_of_isName {text : String} (h : isName text = true) : '@' ∉ text.toList :=
  fun hmem => absurd (isNameChar_of_isName h _ hmem) (by decide)

theorem not_slash_of_isVersion {text : String} (h : digits.isVersion text = true) :
    '/' ∉ text.toList := by
  intro hmem
  cases mem_of_isTriple h (fun _ => isDecimal_of_isVersionNumber) _ hmem with
  | inl hpoint => exact absurd hpoint (by decide)
  | inr hdecimal =>
      rw [digits.not_slash] at hdecimal
      cases hdecimal

theorem not_slash_of_repr (n : Nat) : '/' ∉ (Nat.repr n).toList := by
  intro hmem
  rw [Nat.toList_repr] at hmem
  exact absurd (Nat.isDigit_of_mem_toDigits (by decide) (by decide) hmem) (by decide)

theorem map_safe {chars : List Char} (h : '@' ∉ chars) :
    (chars.map fun c => if c = '@' then '/' else c) = chars := by
  conv_rhs => rw [← List.map_id chars]
  refine List.map_congr_left fun c hc => ?_
  rw [if_neg]
  · rfl
  · rintro rfl
    exact h hc

theorem toList_safeRef (view : ViewId digits) :
    (safeRef view.ref).toList = view.name.toList ++ '/' :: view.version.toList := by
  have hname := map_safe (not_at_of_isName view.name_matches)
  have hversion := map_safe (not_mem_of_isVersion view.version_matches (Or.inl rfl))
  have href : view.ref.toList = view.name.toList ++ '@' :: view.version.toList := by
    change (view.name ++ "@" ++ view.version).toList = _
    simp
  rw [safeRef, String.toList_ofList, href, List.map_append, List.map_cons, hname, hversion]
  rfl

theorem Place.not_slash (place : Place digits) :
    ∀ segment ∈ place.segments.map String.toList, '/' ∉ segment := by
  cases place with
  | view view =>
      simp only [segments, List.map_cons, List.map_nil, List.forall_mem_cons]
      exact ⟨by decide, not_slash_of_isName view.name_matches,
        not_slash_of_isVersion view.version_matches, fun _ h => absurd h List.not_mem_nil⟩
  | staging view id | quarantine view id =>
      simp only [segments, List.map_cons, List.map_nil, List.forall_mem_cons]
      exact ⟨by decide, not_slash_of_isName view.name_matches,
        not_slash_of_isVersion view.version_matches, not_slash_of_repr id,
        fun _ h => absurd h List.not_mem_nil⟩
  | artifacts id =>
      simp only [segments, List.map_cons, List.map_nil, List.forall_mem_cons]
      exact ⟨by decide, by decide, not_slash_of_repr id, fun _ h => absurd h List.not_mem_nil⟩

/-- The path of a place, segment by segment. -/
theorem Place.path_eq (bucket : String) (place : Place digits) :
    place.path bucket = (s!"s3://{bucket}/").toList ++
      pathOf '/' (place.segments.map String.toList) := by
  have hroot : (s!"s3://{bucket}/").toList = "s3://".toList ++ (bucket.toList ++ "/".toList) := by
    change ("s3://" ++ bucket ++ "/").toList = _
    simp
  rw [hroot]
  cases place with
  | view view =>
      change ("s3://" ++ bucket ++ "/views/" ++ safeRef view.ref ++ "/").toList = _
      simp [toList_safeRef, pathOf, segments]
  | staging view id =>
      change ("s3://" ++ bucket ++ "/staging/" ++ safeRef view.ref ++ "/" ++ Nat.repr id ++
        "/").toList = _
      simp [toList_safeRef, pathOf, segments]
  | quarantine view id =>
      change ("s3://" ++ bucket ++ "/quarantine/" ++ safeRef view.ref ++ "/" ++ Nat.repr id ++
        "/").toList = _
      simp [toList_safeRef, pathOf, segments]
  | artifacts id =>
      change ("s3://" ++ bucket ++ "/artifacts/jobs" ++ "/" ++ Nat.repr id ++ "/").toList = _
      simp [pathOf, segments]

end Segments

/-- A place is known by its segments, and has not those of a place above another. -/
theorem Place.eq_of_leading {place other : Place digits}
    (h : place.segments.map String.toList <+: other.segments.map String.toList) :
    place = other := by
  have hview : ∀ id id' : ViewId digits, id.name = id'.name → id.version = id'.version →
      id = id' := by
    rintro ⟨name, version, _, _⟩ ⟨_, _, _, _⟩ rfl rfl
    rfl
  cases place with
  | view id =>
      cases other with
      | view id' =>
          simp only [segments, List.map_cons, List.map_nil, List.cons_prefix_cons,
            String.toList_inj] at h
          rw [hview id id' h.2.1 h.2.2.1]
      | staging | quarantine | artifacts =>
          exact absurd (List.cons_prefix_cons.mp h).1 (by decide)
  | staging id batch =>
      cases other with
      | staging id' batch' =>
          simp only [segments, List.map_cons, List.map_nil, List.cons_prefix_cons,
            String.toList_inj] at h
          rw [hview id id' h.2.1 h.2.2.1, Nat.repr_injective h.2.2.2.1]
      | view | quarantine | artifacts =>
          exact absurd (List.cons_prefix_cons.mp h).1 (by decide)
  | quarantine id jobId =>
      cases other with
      | quarantine id' jobId' =>
          simp only [segments, List.map_cons, List.map_nil, List.cons_prefix_cons,
            String.toList_inj] at h
          rw [hview id id' h.2.1 h.2.2.1, Nat.repr_injective h.2.2.2.1]
      | view | staging | artifacts =>
          exact absurd (List.cons_prefix_cons.mp h).1 (by decide)
  | artifacts jobId =>
      cases other with
      | artifacts jobId' =>
          simp only [segments, List.map_cons, List.map_nil, List.cons_prefix_cons,
            String.toList_inj] at h
          rw [Nat.repr_injective h.2.2.1]
      | view | staging | quarantine =>
          exact absurd (List.cons_prefix_cons.mp h).1 (by decide)

theorem Place.apart {place other : Place digits} (h : place ≠ other) :
    Apart (place.path bucket) (other.path bucket) := by
  rw [place.path_eq, other.path_eq]
  exact apart_pathOf _ place.not_slash other.not_slash (fun hleading => h (eq_of_leading hleading))
    fun hleading => h (eq_of_leading hleading).symm

section Results

variable {files : List ResultFile}

/-- The sizes of the result objects under their keys. -/
def resultObjects (files : List ResultFile) : List Char → Option Nat := fun key =>
  (files.find? fun file => decide (file.uri.toList = key)).map ResultFile.byteSize

theorem resultObjects_cons (file : ResultFile) (files : List ResultFile) :
    resultObjects (file :: files) =
      Function.update (resultObjects files) file.uri.toList (some file.byteSize) := by
  funext key
  by_cases hkey : key = file.uri.toList
  · subst hkey
    rw [Function.update_self, resultObjects, List.find?_cons, decide_eq_true rfl]
    rfl
  · rw [Function.update_of_ne hkey, resultObjects, List.find?_cons,
      decide_eq_false (Ne.symm hkey), resultObjects]

/-- The objects that a filter of their keys keeps. -/
theorem resultObjects_filter (keep : List Char → Bool) :
    resultObjects (files.filter fun file => keep file.uri.toList) = fun key =>
      if keep key then resultObjects files key else none := by
  funext key
  rw [resultObjects, List.find?_filter]
  by_cases hkeep : keep key = true
  · rw [if_pos hkeep, resultObjects]
    congr 2
    funext file
    rw [decide_eq_decide, decide_eq_true_eq]
    refine ⟨And.right, fun hkey => ⟨?_, hkey⟩⟩
    rw [hkey]
    exact hkeep
  · rw [if_neg hkeep, Option.map_eq_none_iff, List.find?_eq_none]
    rintro file _ hfile
    rw [decide_eq_true_eq, decide_eq_true_eq] at hfile
    exact hkeep (hfile.2 ▸ hfile.1)

theorem resultObjects_deleteFile (uri : String) :
    resultObjects (deleteFile files uri) =
      Function.update (resultObjects files) uri.toList none := by
  have hfiles : deleteFile files uri =
      files.filter fun file => decide (file.uri.toList ≠ uri.toList) := by
    refine List.filter_congr fun file _ => ?_
    rw [decide_eq_decide, ne_eq, ne_eq, String.toList_inj]
  rw [hfiles, resultObjects_filter fun key => decide (key ≠ uri.toList)]
  funext key
  by_cases hkey : key = uri.toList
  · rw [hkey, Function.update_self, if_neg (by simp)]
  · rw [Function.update_of_ne hkey, if_pos (decide_eq_true hkey)]

/-- `delete_job` clears the directory of the job. -/
theorem resultObjects_deleteJob (jobId : Uuid) :
    resultObjects (deleteJob (artifactRoot bucket) files jobId) =
      DirectoryOp.clear.applyIn ((Place.artifacts jobId : Place digits).path bucket)
        (resultObjects files) := by
  refine (resultObjects_filter fun key =>
    !((Place.artifacts jobId : Place digits).path bucket).isPrefixOf key).trans ?_
  funext key
  change (if _ then _ else _) = if _ then _ else _
  cases ((Place.artifacts jobId : Place digits).path bucket).isPrefixOf key with
  | false => rfl
  | true => rfl

/-- The name of a result in the directory of its job. -/
def resultName (attempt : Nat) (leaseToken : Uuid) : List Char :=
  (s!"results/attempt-{attempt}-{leaseToken}.parquet").toList

theorem toList_resultUri (jobId : Uuid) (attempt : Nat) (leaseToken : Uuid) :
    (resultUri (artifactRoot bucket) jobId attempt leaseToken).toList =
      (Place.artifacts jobId : Place digits).path bucket ++ resultName attempt leaseToken := by
  change (artifactRoot bucket ++ "/" ++ Nat.repr jobId ++ "/results/attempt-" ++
    Nat.repr attempt ++ "-" ++ Nat.repr leaseToken ++ ".parquet").toList =
      (artifactRoot bucket ++ "/" ++ Nat.repr jobId ++ "/").toList ++
        ("results/attempt-" ++ Nat.repr attempt ++ "-" ++ Nat.repr leaseToken ++
          ".parquet").toList
  simp

/-- What is done at places leads from one list of result objects to another. -/
def DoneAt (digits : PathDigits) (bucket : String) (files files' : List ResultFile) : Prop :=
  ∃ ops : List (Place digits × DirectoryOp Char Nat),
    (∀ op ∈ ops, ∃ jobId, op.1 = .artifacts jobId) ∧
      resultObjects files' = run (Place.path bucket) (resultObjects files) ops

theorem DoneAt.single {files' : List ResultFile} (jobId : Uuid) (op : DirectoryOp Char Nat)
    (h : resultObjects files' =
      op.applyIn ((Place.artifacts jobId : Place digits).path bucket) (resultObjects files)) :
    DoneAt digits bucket files files' :=
  ⟨[(.artifacts jobId, op)], fun _ hop => ⟨jobId, by rw [List.mem_singleton.mp hop]⟩, h⟩

theorem doneAt_deleteJobs (jobIds : List Uuid) (files : List ResultFile) :
    DoneAt digits bucket files (jobIds.foldl (deleteJob (artifactRoot bucket)) files) := by
  refine ⟨jobIds.map fun jobId => (.artifacts jobId, .clear), fun op hop => ?_, ?_⟩
  · obtain ⟨jobId, -, rfl⟩ := List.mem_map.mp hop
    exact ⟨jobId, rfl⟩
  · induction jobIds generalizing files with
    | nil => rfl
    | cons jobId rest ih =>
        rw [List.foldl_cons, ih, resultObjects_deleteJob, List.map_cons]
        rfl

/-- The steps of the downloads are done in the directories of jobs. -/
theorem step_doneAt (config : Config) (s : ResultStorage) (action : StorageAction) :
    DoneAt digits bucket s.files (s.step config (artifactRoot bucket) action).files := by
  have hsame : DoneAt digits bucket s.files s.files :=
    ⟨[], fun _ hop => absurd hop List.not_mem_nil, rfl⟩
  cases action with
  | raisingSweep locked now deleted => exact doneAt_deleteJobs _ _
  | act action =>
      change DoneAt digits bucket s.files (s.filesAfter (artifactRoot bucket) action)
      cases action with
      | other action =>
          cases action with
          | cleanup locked now => exact doneAt_deleteJobs _ _
          | _ => exact hsame
      | execute => exact hsame
      | advance token now outcome =>
          have hwritten : ∀ (attempt : QueryAttempt) (byteSize : Nat),
              DoneAt digits bucket s.files
                (⟨attempt.uri (artifactRoot bucket) token, byteSize⟩ :: s.files) :=
            fun attempt byteSize => .single attempt.job.id
              (.write (resultName attempt.job.attemptCount token) byteSize) (by
                rw [resultObjects_cons, QueryAttempt.uri, @toList_resultUri digits]
                rfl)
          have hdeleted : ∀ attempt : QueryAttempt, DoneAt digits bucket s.files
              (deleteFile s.files (attempt.uri (artifactRoot bucket) token)) :=
            fun attempt => .single attempt.job.id
              (.remove (resultName attempt.job.attemptCount token)) (by
                rw [resultObjects_deleteFile, QueryAttempt.uri, @toList_resultUri digits]
                rfl)
          unfold ResultStorage.filesAfter
          dsimp only
          split
          · exact hsame
          · rename_i attempt _
            split
            · split
              · exact hdeleted attempt
              · exact hwritten attempt _
            · exact hdeleted attempt
            · exact hsame

end Results

/-- Whatever is written and cleaned up in the bucket, each place holds what has been done at it,
as in a store of its own; and what workers and sweeps do with results is done in the directories
of the jobs. -/
theorem places_are_separate (digits : PathDigits) (bucket : String) :
    (∀ (objects : List Char → Option β) (ops : List (Place digits × DirectoryOp Char β))
        (place : Place digits),
      under (place.path bucket) (run (Place.path bucket) objects ops) =
        ((ops.filter fun op => decide (op.1 = place)).map Prod.snd).foldl DirectoryOp.apply
          (under (place.path bucket) objects)) ∧
      ∀ (config : Config) (s : ResultStorage) (action : StorageAction),
        DoneAt digits bucket s.files (s.step config (artifactRoot bucket) action).files :=
  ⟨fun _ ops place => under_run (fun _ _ h => Place.apart h) place ops, step_doneAt⟩

section Sample

/-- The digits of ASCII. -/
def asciiDigits : PathDigits := ⟨ManifestRules.strict.digits, rfl⟩

def accountStats : ViewId asciiDigits := ⟨"account_stats", "1.0.0", by decide, by decide⟩

/-- A staged batch of a view is appended to its table, and its directory and those of a job are
deleted. -/
def appendedBatch : List (Place asciiDigits × DirectoryOp Char String) :=
  [(.staging accountStats 1, .write ['0'] "batch"), (.view accountStats, .write ['0'] "rows"),
    (.staging accountStats 1, .clear), (.quarantine accountStats 1, .clear),
    (.artifacts 1, .clear)]

/-- The table keeps the rows, and nothing is left of the batch. -/
theorem appended_rows_kept :
    under ((Place.view accountStats).path "features")
        (run (Place.path "features") (fun _ => none) appendedBatch) ['0'] = some "rows" ∧
      under ((Place.staging accountStats 1).path "features")
        (run (Place.path "features") (fun _ => none) appendedBatch) ['0'] = none := by
  have hseparate := (places_are_separate asciiDigits "features").1 (fun _ => none) appendedBatch
  constructor
  · rw [hseparate (.view accountStats)]
    rfl
  · rw [hseparate (.staging accountStats 1)]
    rfl

end Sample

end FeatureStore
