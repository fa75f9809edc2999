import FeatureStore.AnsweredQueries
import FeatureStore.BackfillRuns
import FeatureStore.ConcurrentApplies
import FeatureStore.OutputColumns
import FeatureStore.RetryRaces

/-!
# What jobs look up

The API looks up the views of a request before it inserts a job. Each attempt looks them up
again, after manifests that were applied meanwhile. Records are only added, so the lookups of
a job that is stored succeed, and they find what the request found.
-/

namespace FeatureStore

open Relational

/-- A request that creates a job, with the ids that its handler draws and its clock. -/
inductive JobSubmission
  | backfill (request : JobRequest) (id : Uuid) (now : Instant)
  | materialization (request : JobRequest) (id : Uuid) (now : Instant)
  | incremental (request : IncrementalMaterializationRequest) (firstId secondId : Uuid)
      (now : Instant)
  | historicalQuery (observations : List Observation) (features : List String)
      (featureService : Option String) (id : Uuid) (now : Instant)

/-- What the handlers of the API read before they create a job: `create_backfill`,
`create_materialization`, `create_incremental_materialization`, and `historical_query`, which
creates none when it answers inline. -/
def JobSubmission.prepare (inlineQueryLimit : Nat) (root : String) (retriever : Retriever) :
    JobSubmission → Except PyException (Option Call)
  | .backfill request id now => do
      let _ ← retriever.store.featureView request.featureView
      return some (.createBackfill request id now)
  | .materialization request id now => do
      let _ ← retriever.store.featureView request.featureView
      return some (.createMaterialization request id now)
  | .incremental request firstId secondId now => do
      let view ← retriever.store.featureView request.featureView
      if request.featureView ≠ view.ref then
        throw (valueError "feature_view must pin an exact version")
      else return some (.createIncrementalMaterialization request firstId secondId now)
  | .historicalQuery observations features featureService id now =>
      if inlineQueryLimit < observations.length then do
        let resolved ← retriever.validate observations features featureService
        let warnings ← retriever.store.warningsForQuery features featureService
        return some (.createHistoricalQuery observations.length resolved warnings
          s!"{root}/{id}/input.json" id now)
      else return none

/-- The payload of the job that a call inserts. -/
def Call.payload? (settings : Settings) : Call → Option JobPayload
  | .createBackfill request _ _ | .createMaterialization request _ _ =>
      some (.range request.featureView request.start request.endAt)
  | .createHistoricalQuery observationCount resolvedFeatures warnings _ _ _ =>
      some (.historicalQuery observationCount resolvedFeatures warnings)
  | .createIncrementalMaterialization request _ _ now =>
      some (.incremental request.featureView (request.cutoff now) (request.lookback settings))
  | .stageBatch viewRef stagingUri _ _ _ => some (.offlineAppend viewRef stagingUri)
  | .cancel .. | .retry .. | .claimPass .. | .heartbeat .. | .commitCheckpoints ..
  | .finalizeSuccess .. | .finalizeFailure .. | .register .. => none

/-- The action creates a job for a request, which only the API does. -/
def JobAction.isRequested : JobAction → Bool
  | .call (.createBackfill ..) | .call (.createMaterialization ..)
  | .call (.createHistoricalQuery ..) | .call (.createIncrementalMaterialization ..) => true
  | _ => false

/-- The registry, the jobs, and the requests that have been looked up and not yet inserted. -/
structure ServiceState where
  registry : RegistryServer
  jobs : JobSystem
  prepared : Nat → Option Call

/-- Clients of the registry act, the API reads the registry for a request and then inserts the
job, and everything else is done to jobs. -/
inductive ServiceAction
  | registry (action : RegistryAction)
  | prepare (client : Nat) (submission : JobSubmission)
  | submit (client : Nat)
  | work (action : JobAction)

/-- What the service is deployed with. The registry of the retriever is the one of the state. -/
structure ServiceConfig where
  config : Config
  sha256 : String → String
  inlineQueryLimit : Nat
  root : String
  retriever : Retriever

namespace ServiceState

def initial : ServiceState := ⟨.idle, .initial, fun _ => none⟩

def step (d : ServiceConfig) (s : ServiceState) : ServiceAction → ServiceState
  | .registry action => { s with registry := s.registry.step d.sha256 action }
  | .prepare client submission =>
      match submission.prepare d.inlineQueryLimit d.root
          { d.retriever with store := s.registry.store } with
      | .ok call => { s with prepared := Function.update s.prepared client call }
      | .error _ => { s with prepared := Function.update s.prepared client none }
  | .submit client =>
      match s.prepared client with
      | none => s
      | some call =>
          { s with
            jobs := s.jobs.step d.config (.call call)
            prepared := Function.update s.prepared client none }
  | .work action =>
      if action.isRequested then s else { s with jobs := s.jobs.step d.config action }

def run (d : ServiceConfig) (actions : List ServiceAction) : ServiceState :=
  Execution.run (step d) initial actions

/-- The payload belongs to a stored job, or to a request that is about to become one. -/
def Holds (d : ServiceConfig) (s : ServiceState) (payload : JobPayload) : Prop :=
  (∃ jobId row, s.jobs.db.jobs.find? jobId = some row ∧ row.payload = payload) ∨
    ∃ client call, s.prepared client = some call ∧ call.payload? d.config.settings = some payload

end ServiceState

/-- The view of a reference is found under it, with its entity and its batch source. -/
def ViewResolves (store : RegistryStore) (viewRef : String) : Prop :=
  ∃ view entity source, store.featureView viewRef = .ok view ∧ view.ref = viewRef ∧
    store.entity view.entity = .ok entity ∧ store.batchSource view.batchSource = .ok source

/-- The lookups of `_backfill`, `_materialize` and `_historical_query` succeed. -/
def Resolves (store : RegistryStore) : JobPayload → Prop
  | .range featureView _ _ | .incremental featureView _ _ => ViewResolves store featureView
  | .historicalQuery _ resolvedFeatures _ =>
      store.resolveFeatures resolvedFeatures none = .ok resolvedFeatures ∧
        ∀ ref ∈ resolvedFeatures, ∃ parts, splitLastColon ref = .ok parts ∧
          ViewResolves store parts.1
  | .offlineAppend _ _ => True

/-- The lookups of a job find the same, so a historical query has the same answer on the same
tables. -/
def SameLookups (store later : RegistryStore) : JobPayload → Prop
  | .range featureView _ _ | .incremental featureView _ _ =>
      later.featureView featureView = store.featureView featureView ∧
        ∀ view, store.featureView featureView = .ok view →
          later.entity view.entity = store.entity view.entity ∧
            later.batchSource view.batchSource = store.batchSource view.batchSource
  | .historicalQuery _ resolvedFeatures _ =>
      ∀ (retriever : Retriever) (observations : List Observation),
        Retriever.queryTable { retriever with store := later } observations resolvedFeatures =
          Retriever.queryTable { retriever with store := store } observations resolvedFeatures
  | .offlineAppend _ _ => True

section Lookups

variable {store later : RegistryStore} {viewRef name : String} {view : Manifest.FeatureView}

/-- A record is found in whatever table its own is extended to. -/
theorem get_mono (h : store.records.rows <+: later.records.rows) {kind : RegistryObjectKind}
    {version : String} {record : RegistryRecord} (hget : store.get kind name version = .ok record) :
    later.get kind name version = .ok record := by
  unfold RegistryStore.get at hget ⊢
  split at hget
  · rename_i stored hfind
    obtain ⟨hmem, hkey⟩ := Table.find?_some_iff.mp hfind
    have hlater : later.records.find? (kind, name, version) = some stored :=
      Table.find?_some_iff.mpr ⟨h.subset hmem, hkey⟩
    rw [hlater]
    exact hget
  · cases hget

theorem featureView_mono (h : store.records.rows <+: later.records.rows)
    (hview : store.featureView viewRef = .ok view) : later.featureView viewRef = .ok view := by
  obtain ⟨parts, hparts, hview⟩ := ok_of_bind hview
  obtain ⟨record, hrecord, hview⟩ := ok_of_bind hview
  rw [RegistryStore.featureView, hparts]
  simp only [bind, Except.bind, get_mono h hrecord]
  exact hview

theorem entity_mono (h : store.records.rows <+: later.records.rows) {entity : Manifest.Entity}
    (hentity : store.entity name = .ok entity) : later.entity name = .ok entity := by
  obtain ⟨record, hrecord, hentity⟩ := ok_of_bind hentity
  rw [RegistryStore.entity, get_mono h hrecord]
  exact hentity

theorem batchSource_mono (h : store.records.rows <+: later.records.rows)
    {source : Manifest.BatchSource} (hsource : store.batchSource name = .ok source) :
    later.batchSource name = .ok source := by
  obtain ⟨record, hrecord, hsource⟩ := ok_of_bind hsource
  rw [RegistryStore.batchSource, get_mono h hrecord]
  exact hsource

/-- A record that is found has the kind, the name and the version that were asked for. -/
theorem get_identity {kind : RegistryObjectKind} {version : String} {record : RegistryRecord}
    (hget : store.get kind name version = .ok record) :
    record ∈ store.records.rows ∧ record.identity = (kind, name, version) := by
  unfold RegistryStore.get at hget
  split at hget
  · rename_i stored hfind
    obtain rfl := Except.ok.inj hget
    exact Table.find?_some_iff.mp hfind
  · cases hget

/-- A reference is the parts that it is parsed to. -/
theorem parseViewRef_eq {version : String} (h : parseViewRef viewRef = .ok (name, version)) :
    s!"{name}@{version}" = viewRef := by
  unfold parseViewRef at h
  split at h
  · cases h
  · rename_i first rest hdrop
    obtain ⟨rfl, rfl⟩ := Prod.mk.inj (Except.ok.inj h)
    have hfirst := List.head?_dropWhile_not (fun c => decide (c ≠ '@')) viewRef.toList
    rw [hdrop] at hfirst
    obtain rfl : first = '@' := by simpa using hfirst
    have hsplit := @List.takeWhile_append_dropWhile _ (fun c => decide (c ≠ '@')) viewRef.toList
    rw [hdrop] at hsplit
    simpa [String.ext_iff, toString] using hsplit

/-- A view is found under its own reference, in a record of it. -/
theorem featureView_record (hview : store.featureView viewRef = .ok view) :
    view.ref = viewRef ∧ ∃ record ∈ store.records.rows, record.object = .featureView view := by
  obtain ⟨⟨name, version⟩, hparts, hview⟩ := ok_of_bind hview
  obtain ⟨record, hrecord, hview⟩ := ok_of_bind hview
  obtain ⟨hmem, hidentity⟩ := get_identity hrecord
  have hobject : record.object = .featureView view := by
    unfold RegistryStore.viewOf at hview
    split at hview
    · rename_i stored hstored
      obtain rfl := Except.ok.inj hview
      exact RegistryObject.view?_eq_some.mp hstored
    · cases hview
  rw [RegistryRecord.identity, hobject] at hidentity
  obtain ⟨-, hname, hversion⟩ := hidentity
  exact ⟨parseViewRef_eq hparts, record, hmem, hobject⟩

/-- An object without a version whose name is stored is found. -/
theorem get_of_mem_namesOf {kind : RegistryObjectKind} (h : name ∈ namesOf store.records kind)
    (hkind : kind ≠ .featureView) :
    ∃ record, store.get kind name "" = .ok record ∧ record.object.kind = kind := by
  obtain ⟨record, hmem, hobject, hname⟩ := mem_namesOf.mp h
  have hversion : record.object.version = "" := by
    cases hcase : record.object with
    | featureView view =>
        rw [hcase] at hobject
        exact absurd hobject.symm hkind
    | _ => rfl
  have hfind : store.records.find? (kind, name, "") = some record := by
    apply Table.find?_some_iff.mpr
    rw [← hobject, ← hname, ← hversion]
    exact ⟨hmem, rfl⟩
  refine ⟨record, ?_, hobject⟩
  rw [RegistryStore.get, hfind]

/-- What the record of a view refers to is stored, so the view resolves. -/
theorem viewResolves_of_ok
    (hrefs : ∀ record ∈ store.records.rows, HasReferences store.records record.object)
    (hview : store.featureView viewRef = .ok view) : ViewResolves store viewRef := by
  obtain ⟨href, record, hmem, hobject⟩ := featureView_record hview
  have hstored := hrefs record hmem
  rw [hobject] at hstored
  obtain ⟨hentityName, hsourceName, -⟩ := hstored
  obtain ⟨entityRecord, hentity, hentityKind⟩ := get_of_mem_namesOf hentityName (by decide)
  obtain ⟨sourceRecord, hsource, hsourceKind⟩ := get_of_mem_namesOf hsourceName (by decide)
  have hfoundEntity : ∃ entity, store.entity view.entity = .ok entity := by
    rw [RegistryStore.entity, hentity]
    cases hcase : entityRecord.object with
    | entity entity => exact ⟨entity, by simp only [bind, Except.bind, hcase]; rfl⟩
    | _ =>
        rw [hcase] at hentityKind
        cases hentityKind
  have hfoundSource : ∃ source, store.batchSource view.batchSource = .ok source := by
    rw [RegistryStore.batchSource, hsource]
    cases hcase : sourceRecord.object with
    | batchSource source => exact ⟨source, by simp only [bind, Except.bind, hcase]; rfl⟩
    | _ =>
        rw [hcase] at hsourceKind
        cases hsourceKind
  obtain ⟨entity, hentity⟩ := hfoundEntity
  obtain ⟨source, hsource⟩ := hfoundSource
  exact ⟨view, entity, source, hview, href, hentity, hsource⟩

/-- References that are checked stay so. -/
theorem checkRefs_mono (h : store.records.rows <+: later.records.rows) {outputNames : List String}
    {refs : List String} (hchecked : store.checkRefs outputNames refs = .ok ()) :
    later.checkRefs outputNames refs = .ok () := by
  induction refs generalizing outputNames with
  | nil => rfl
  | cons ref rest ih =>
      obtain ⟨parts, hparts, hchecked⟩ := ok_of_bind hchecked
      obtain ⟨view, hview, hchecked⟩ := ok_of_bind hchecked
      dsimp only at hchecked
      rw [RegistryStore.checkRefs, hparts]
      simp only [bind, Except.bind, featureView_mono h hview]
      split at hchecked
      · rename_i hfeature
        rw [if_pos hfeature]
        split at hchecked
        · cases hchecked
        · rename_i hnew
          rw [if_neg hnew]
          exact ih hchecked
      · cases hchecked

/-- The views of references that are checked are found. -/
theorem refs_of_checkRefs {refs : List String} (hchecked : store.checkRefs [] refs = .ok ()) :
    ∀ ref ∈ refs, ∃ parts view, splitLastColon ref = .ok parts ∧
      store.featureView parts.1 = .ok view := by
  obtain ⟨split, hsplit, hviews, -, -⟩ := checkRefs_spec hchecked
  intro ref href
  obtain ⟨parts, hparts, hok⟩ := (mem_of_mapM hsplit).2 ref href
  obtain ⟨view, hview⟩ := hviews parts hparts
  exact ⟨parts, view, hok, hview⟩

/-- What a request resolves to resolves to itself. -/
theorem resolveFeatures_self {features refs : List String} {service : Option String}
    (h : store.resolveFeatures features service = .ok refs) :
    store.resolveFeatures refs none = .ok refs := by
  have hchecked := resolveFeatures_checked h
  obtain ⟨requested, -, h⟩ := ok_of_bind h
  split at h
  · cases h
  · rename_i hne
    obtain ⟨⟨⟩, -, h⟩ := ok_of_bind h
    obtain rfl := Except.ok.inj h
    simp only [RegistryStore.resolveFeatures, RegistryStore.requestedRefs, Option.filter_none,
      bind, Except.bind, pure, Except.pure, if_neg hne, hchecked]

theorem resolveFeatures_mono (h : store.records.rows <+: later.records.rows) {refs : List String}
    (hresolved : store.resolveFeatures refs none = .ok refs) :
    later.resolveFeatures refs none = .ok refs := by
  have hchecked := checkRefs_mono h (resolveFeatures_checked hresolved)
  obtain ⟨_, hrefs, hresolved⟩ := ok_of_bind hresolved
  cases hrefs
  split at hresolved
  · cases hresolved
  · rename_i hne
    simp only [RegistryStore.resolveFeatures, RegistryStore.requestedRefs, Option.filter_none,
      bind, Except.bind, pure, Except.pure, if_neg hne, hchecked]

end Lookups

section Queries

variable {store later : RegistryStore} {retriever : Retriever}

/-- The join of a view is the same when the view and its entity are found again. -/
theorem queryView_congr (h : store.records.rows <+: later.records.rows) {current : ArrowTable}
    {group : String × List String} {view : Manifest.FeatureView} {entity : Manifest.Entity}
    (hview : store.featureView group.1 = .ok view)
    (hentity : store.entity view.entity = .ok entity) :
    Retriever.queryView { retriever with store := later } current group =
      Retriever.queryView { retriever with store := store } current group := by
  simp only [Retriever.queryView, hview, featureView_mono h hview, bind, Except.bind, hentity,
    entity_mono h hentity]

/-- A query of features whose views resolve has the same answer after more objects are
registered. -/
theorem queryTable_congr (h : store.records.rows <+: later.records.rows) {resolved : List String}
    (hresolves : ∀ ref ∈ resolved, ∃ parts, splitLastColon ref = .ok parts ∧
      ViewResolves store parts.1) (observations : List Observation) :
    Retriever.queryTable { retriever with store := later } observations resolved =
      Retriever.queryTable { retriever with store := store } observations resolved := by
  have hfold : ∀ (groups : List (String × List String)) (current : ArrowTable),
      (∀ group ∈ groups, ViewResolves store group.1) →
      groups.foldlM (Retriever.queryView { retriever with store := later }) current =
        groups.foldlM (Retriever.queryView { retriever with store := store }) current := by
    intro groups
    induction groups with
    | nil => exact fun _ _ => rfl
    | cons group rest ih =>
        intro current hgroups
        obtain ⟨⟨view, entity, _, hview, -, hentity, -⟩, hrest⟩ := List.forall_mem_cons.mp hgroups
        rw [List.foldlM_cons, List.foldlM_cons, queryView_congr h hview hentity]
        exact bind_congr fun joined => ih joined hrest
  unfold Retriever.queryTable
  split
  · rfl
  · refine bind_congr fun rows => bind_congr fun current => ?_
    cases hrefs : resolved.mapM splitLastColon with
    | error exc => rfl
    | ok refs =>
        have hgroups : ∀ group ∈ refs.foldl groupRef [], ViewResolves store group.1 := by
          intro group hgroup
          obtain ⟨parts, hparts, hname⟩ := List.mem_map.mp (mem_grouped.mp hgroup).1
          obtain ⟨ref, href, hsplit⟩ := (mem_of_mapM hrefs).1 parts hparts
          obtain ⟨other, hother, hview⟩ := hresolves ref href
          obtain rfl := Except.ok.inj (hsplit.symm.trans hother)
          exact hname ▸ hview
        exact congrArg (fun joined : Except PyException ArrowTable =>
          joined >>= fun final => final.drop "_row_id") (hfold _ current hgroups)

end Queries

/-- What the API has looked up before there is a job with the payload. -/
def LookedUp (store : RegistryStore) : JobPayload → Prop
  | .range featureView _ _ | .incremental featureView _ _ =>
      ∃ view, store.featureView featureView = .ok view
  | .historicalQuery _ resolvedFeatures _ =>
      store.resolveFeatures resolvedFeatures none = .ok resolvedFeatures
  | .offlineAppend _ _ => True

section Payloads

variable {store later : RegistryStore} {payload : JobPayload}

theorem LookedUp.mono (hlooked : LookedUp store payload)
    (h : store.records.rows <+: later.records.rows) : LookedUp later payload := by
  cases payload with
  | range featureView start endAt =>
      obtain ⟨view, hview⟩ := hlooked
      exact ⟨view, featureView_mono h hview⟩
  | incremental featureView endAt lookback =>
      obtain ⟨view, hview⟩ := hlooked
      exact ⟨view, featureView_mono h hview⟩
  | historicalQuery count resolved warnings => exact resolveFeatures_mono h hlooked
  | offlineAppend featureView stagingUri => trivial

theorem LookedUp.resolves (hlooked : LookedUp store payload)
    (hrefs : ∀ record ∈ store.records.rows, HasReferences store.records record.object) :
    Resolves store payload := by
  cases payload with
  | range featureView start endAt =>
      obtain ⟨view, hview⟩ := hlooked
      exact viewResolves_of_ok hrefs hview
  | incremental featureView endAt lookback =>
      obtain ⟨view, hview⟩ := hlooked
      exact viewResolves_of_ok hrefs hview
  | historicalQuery count resolved warnings =>
      refine ⟨hlooked, fun ref href => ?_⟩
      obtain ⟨parts, view, hparts, hview⟩ :=
        refs_of_checkRefs (resolveFeatures_checked hlooked) ref href
      exact ⟨parts, hparts, viewResolves_of_ok hrefs hview⟩
  | offlineAppend featureView stagingUri => trivial

theorem ViewResolves.same {viewRef : String} (hresolves : ViewResolves store viewRef)
    (h : store.records.rows <+: later.records.rows) :
    later.featureView viewRef = store.featureView viewRef ∧
      ∀ view, store.featureView viewRef = .ok view →
        later.entity view.entity = store.entity view.entity ∧
          later.batchSource view.batchSource = store.batchSource view.batchSource := by
  obtain ⟨view, entity, source, hview, -, hentity, hsource⟩ := hresolves
  refine ⟨(featureView_mono h hview).trans hview.symm, fun other hother => ?_⟩
  obtain rfl := Except.ok.inj (hview.symm.trans hother)
  exact ⟨(entity_mono h hentity).trans hentity.symm,
    (batchSource_mono h hsource).trans hsource.symm⟩

theorem Resolves.same (hresolves : Resolves store payload)
    (h : store.records.rows <+: later.records.rows) : SameLookups store later payload := by
  cases payload with
  | range featureView start endAt => exact ViewResolves.same hresolves h
  | incremental featureView endAt lookback => exact ViewResolves.same hresolves h
  | historicalQuery count resolved warnings =>
      exact fun retriever observations => queryTable_congr h hresolves.2 observations
  | offlineAppend featureView stagingUri => trivial

/-- A request that is prepared has been looked up. -/
theorem lookedUp_of_prepare {inlineQueryLimit : Nat} {root : String} {retriever : Retriever}
    {submission : JobSubmission} {call : Call} {settings : Settings}
    (h : submission.prepare inlineQueryLimit root retriever = .ok (some call))
    (hpayload : call.payload? settings = some payload) : LookedUp retriever.store payload := by
  cases submission with
  | backfill request id now =>
      obtain ⟨view, hview, h⟩ := ok_of_bind h
      cases h
      cases hpayload
      exact ⟨view, hview⟩
  | materialization request id now =>
      obtain ⟨view, hview, h⟩ := ok_of_bind h
      cases h
      cases hpayload
      exact ⟨view, hview⟩
  | incremental request firstId secondId now =>
      obtain ⟨view, hview, h⟩ := ok_of_bind h
      split at h
      · cases h
      · cases h
        cases hpayload
        exact ⟨view, hview⟩
  | historicalQuery observations features featureService id now =>
      rw [JobSubmission.prepare] at h
      split at h
      · obtain ⟨resolved, hresolved, h⟩ := ok_of_bind h
        obtain ⟨warnings, -, h⟩ := ok_of_bind h
        cases h
        cases hpayload
        obtain ⟨refs, hrefs, hvalid⟩ := ok_of_bind hresolved
        obtain ⟨_, -, hvalid⟩ := ok_of_bind hvalid
        obtain rfl := Except.ok.inj hvalid
        exact resolveFeatures_self hrefs
      · cases h

end Payloads

section Rows

variable {config : Config} {s : JobSystem} {call : Call} {action : JobAction} {jobId : Uuid}
  {row : JobRecord}

theorem insertJob_payload {settings : Settings} {db : Database} {id : Uuid} {kind : JobKind}
    {payload : JobPayload} {artifactUri : Option String} {now : Instant}
    (hnone : db.jobs.find? jobId = none)
    (hrow : (insertJob settings db id kind payload artifactUri now).1.jobs.find? jobId =
      some row) : payload = row.payload := by
  unfold insertJob at hrow
  split at hrow
  · rename_i jobs hinsert
    obtain ⟨rfl, -⟩ := find?_new hinsert hnone hrow
    rfl
  · cases hnone.symm.trans hrow

/-- A new job has the payload of the call that inserts it. -/
theorem payload_of_new (hnone : s.db.jobs.find? jobId = none)
    (hrow : (call.apply config s.db).jobs.find? jobId = some row) :
    call.payload? config.settings = some row.payload := by
  by_cases hsubmission : call.isSubmission = true
  · cases call with
    | createBackfill request id now => exact congrArg some (insertJob_payload hnone hrow)
    | createMaterialization request id now => exact congrArg some (insertJob_payload hnone hrow)
    | createHistoricalQuery count features warnings uri id now =>
        exact congrArg some (insertJob_payload hnone hrow)
    | _ => cases hsubmission
  · have hmodified : ∀ {k : Uuid} {a : Assignment JobRecord.id JobRecord.id},
        (s.db.jobs.modify k a).find? jobId ≠ some row := by
      intro k a hsome
      rw [find?_modify_none hnone] at hsome
      cases hsome
    have hcommit := call.commit config s.db
    generalize call.apply config s.db = db' at hcommit hrow
    cases hcommit with
    | unchanged => cases hnone.symm.trans hrow
    | registered => cases hnone.symm.trans hrow
    | submitted _ hyes _ _ _ => exact absurd hyes hsubmission
    | reserved _ _ _ _ _ _ hinsert _ =>
        obtain ⟨rfl, -⟩ := find?_new hinsert hnone hrow
        rfl
    | staged _ _ _ _ _ _ hinsert =>
        obtain ⟨rfl, -⟩ := find?_new hinsert hnone hrow
        rfl
    | cancelled | exhausted | failed =>
        rw [releaseIncrementalReservation_jobs] at hrow
        exact absurd hrow hmodified
    | retried | claimed | renewed | checkpointed | published | applied | succeeded
    | rescheduled => exact absurd hrow hmodified

/-- The payload of a job after an action is that of a job before it, or of the call. -/
theorem payload_step (hrow : (s.step config action).db.jobs.find? jobId = some row) :
    (∃ before, s.db.jobs.find? jobId = some before ∧ before.payload = row.payload) ∨
      ∃ call, action = .call call ∧ call.payload? config.settings = some row.payload := by
  cases hbefore : s.db.jobs.find? jobId with
  | some before =>
      obtain ⟨after, hafter, hstep⟩ := JobSystem.step_row config action hbefore
      obtain rfl := Option.some.inj (hafter.symm.trans hrow)
      exact Or.inl ⟨before, rfl, hstep.payload_eq.symm⟩
  | none =>
      obtain ⟨call, -, -, -, -, rfl, hadmits, -⟩ := JobSystem.step_new hbefore hrow
      rw [JobSystem.step, if_pos hadmits] at hrow
      exact Or.inr ⟨call, rfl, payload_of_new hbefore hrow⟩

end Rows

namespace ServiceState

section Runs

variable {d : ServiceConfig} {s : ServiceState} {action : ServiceAction} {payload : JobPayload}

/-- The API has looked up what the stored jobs and the prepared requests need. -/
def Sound (d : ServiceConfig) (s : ServiceState) : Prop :=
  ∀ payload, s.Holds d payload → LookedUp s.registry.store payload

theorem registry_step_appends (sha256 : String → String) (s : RegistryServer)
    (action : RegistryAction) :
    s.store.records.rows <+: (s.step sha256 action).store.records.rows := by
  cases action with
  | plan client manifest warnings => exact List.prefix_refl _
  | request action =>
      have hrecords := RegistryServer.request_records s.toRegistryClients action
      refine ⟨[], ?_⟩
      change _ = (s.toRegistryClients.step action).store.records.rows
      rw [List.append_nil, hrecords]
  | commit client now =>
      rw [RegistryServer.step]
      split
      · exact List.prefix_refl _
      · split
        · rename_i hok
          exact RegistryServer.applyPlan_ok hok
        · exact List.prefix_refl _

/-- The registry is only added to, whatever else is done. -/
theorem step_appends (d : ServiceConfig) (s : ServiceState) (action : ServiceAction) :
    s.registry.store.records.rows <+: (s.step d action).registry.store.records.rows := by
  cases action with
  | registry action => exact registry_step_appends d.sha256 s.registry action
  | prepare client submission =>
      rw [step]
      split <;> exact List.prefix_refl _
  | submit client =>
      rw [step]
      split <;> exact List.prefix_refl _
  | work action =>
      rw [step]
      split <;> exact List.prefix_refl _

theorem Sound.of_holds {after : ServiceState} (h : s.Sound d)
    (hleading : s.registry.store.records.rows <+: after.registry.store.records.rows)
    (hholds : ∀ payload, after.Holds d payload →
      s.Holds d payload ∨ LookedUp s.registry.store payload) : after.Sound d := by
  intro payload hpayload
  rcases hholds payload hpayload with hold | hlooked
  · exact (h payload hold).mono hleading
  · exact hlooked.mono hleading

/-- The payloads of prepared requests, after that of one client has been replaced. -/
theorem holds_update {client : Nat} {prepared : Option Call}
    (h : Holds d { s with prepared := Function.update s.prepared client prepared } payload) :
    s.Holds d payload ∨ ∃ call, prepared = some call ∧
      call.payload? d.config.settings = some payload := by
  rcases h with hrow | ⟨other, call, hcall, hpayload⟩
  · exact Or.inl (Or.inl hrow)
  · by_cases hother : other = client
    · subst hother
      exact Or.inr ⟨call, by simpa using hcall, hpayload⟩
    · exact Or.inl (Or.inr ⟨other, call, by simpa [hother] using hcall, hpayload⟩)

/-- The payloads that jobs have after an action on them. -/
theorem holds_jobs {jobAction : JobAction}
    (h : Holds d { s with jobs := s.jobs.step d.config jobAction } payload) :
    s.Holds d payload ∨ ∃ call, jobAction = .call call ∧
      call.payload? d.config.settings = some payload := by
  rcases h with ⟨jobId, row, hrow, rfl⟩ | hprepared
  · rcases payload_step hrow with ⟨before, hbefore, hpayload⟩ | hcall
    · exact Or.inl (Or.inl ⟨jobId, before, hbefore, hpayload⟩)
    · exact Or.inr hcall
  · exact Or.inl (Or.inr hprepared)

/-- A job that is inserted without a request appends staged events. -/
theorem lookedUp_of_work {store : RegistryStore} {call : Call} {settings : Settings}
    (hwork : (JobAction.call call).isRequested = false)
    (hpayload : call.payload? settings = some payload) : LookedUp store payload := by
  cases call with
  | stageBatch viewRef stagingUri recordIds jobId now =>
      cases hpayload
      trivial
  | createBackfill | createMaterialization | createHistoricalQuery
  | createIncrementalMaterialization => cases hwork
  | _ => cases hpayload

theorem Sound.step (h : s.Sound d) (action : ServiceAction) : (s.step d action).Sound d := by
  apply h.of_holds (step_appends d s action)
  intro payload hpayload
  cases action with
  | registry action => exact Or.inl hpayload
  | prepare client submission =>
      rw [ServiceState.step] at hpayload
      split at hpayload
      · rename_i prepared hprepare
        rcases holds_update hpayload with hold | ⟨call, rfl, hcall⟩
        · exact Or.inl hold
        · exact Or.inr (lookedUp_of_prepare hprepare hcall)
      · rcases holds_update hpayload with hold | ⟨call, hnone, -⟩
        · exact Or.inl hold
        · cases hnone
  | submit client =>
      rw [ServiceState.step] at hpayload
      split at hpayload
      · exact Or.inl hpayload
      · rename_i call hcall
        rcases holds_update (s := { s with jobs := s.jobs.step d.config (.call call) })
          hpayload with hold | ⟨other, hnone, -⟩
        · rcases holds_jobs hold with hold | ⟨other, hsame, hother⟩
          · exact Or.inl hold
          · obtain rfl := JobAction.call.inj hsame
            exact Or.inl (Or.inr ⟨client, call, hcall, hother⟩)
        · cases hnone
  | work action =>
      rw [ServiceState.step] at hpayload
      split at hpayload
      · exact Or.inl hpayload
      · rename_i hwork
        rcases holds_jobs hpayload with hold | ⟨call, rfl, hcall⟩
        · exact Or.inl hold
        · exact Or.inr (lookedUp_of_work (by simpa using hwork) hcall)

/-- The actions of the clients of the registry. -/
def registryActions (actions : List ServiceAction) : List RegistryAction :=
  actions.filterMap fun action =>
    match action with
    | .registry action => some action
    | .prepare .. | .submit .. | .work .. => none

theorem run_registry (d : ServiceConfig) (actions : List ServiceAction) :
    (run d actions).registry = RegistryServer.run d.sha256 (registryActions actions) := by
  have hgeneral : ∀ s : ServiceState, (Execution.run (step d) s actions).registry =
      Execution.run (RegistryServer.step d.sha256) s.registry (registryActions actions) := by
    induction actions with
    | nil => exact fun _ => rfl
    | cons action rest ih =>
        intro s
        rw [Execution.run_cons, ih]
        cases action with
        | registry action => rfl
        | prepare client submission =>
            rw [step]
            split <;> rfl
        | submit client =>
            rw [step]
            split <;> rfl
        | work action =>
            rw [step]
            split <;> rfl
  exact hgeneral initial

end Runs

end ServiceState

/-- However requests, applications of manifests and work on jobs interleave, the lookups of every
job succeed, and they go on finding what they find now: the view under its own reference with its
entity and its source, and the same answer to a historical query on the same tables. -/
theorem jobs_keep_their_lookups (d : ServiceConfig) (actions later : List ServiceAction)
    (hsha : Set.InjOn d.sha256 {text | text ∈ specTexts
      (RegistryServer.serialCalls d.sha256 (ServiceState.registryActions actions))})
    (payload : JobPayload) (hpayload : (ServiceState.run d actions).Holds d payload) :
    Resolves (ServiceState.run d actions).registry.store payload ∧
      SameLookups (ServiceState.run d actions).registry.store
        (ServiceState.run d (actions ++ later)).registry.store payload := by
  have hsound : (ServiceState.run d actions).Sound d :=
    Execution.invariant (I := ServiceState.Sound d) (fun _ action h => h.step action)
      (by
        rintro payload (⟨jobId, row, hrow, -⟩ | ⟨client, call, hcall, -⟩)
        · cases hrow
        · cases hcall) actions
  have hrefs := RegistryServer.run_hasReferences d.sha256 _ hsha
  rw [← ServiceState.run_registry] at hrefs
  have hresolves := (hsound payload hpayload).resolves hrefs
  refine ⟨hresolves, hresolves.same ?_⟩
  rw [ServiceState.run, ServiceState.run, Execution.run_append]
  exact Execution.invariant
    (I := fun s : ServiceState => (Execution.run (ServiceState.step d) ServiceState.initial
      actions).registry.store.records.rows <+: s.registry.store.records.rows)
    (fun s action h => h.trans (ServiceState.step_appends d s action)) (List.prefix_refl _) later

/-- A deployment whose registry is used for accounts. -/
def accountService : ServiceConfig :=
  ⟨defaultConfig, accountDigest, 10000, "s3://feature-store/artifacts/jobs", statsRetriever⟩

/-- The manifest of accounts is applied; then an incremental job is requested. -/
def accountRequests : List ServiceAction :=
  [.registry (.plan 0 accountManifest []), .registry (.commit 0 0),
    .prepare 0 (.incremental ⟨"account_stats@1.0.0", none, none⟩ 1 2 5), .submit 0]

/-- The job finds its view, also after the manifest has been applied again. -/
theorem account_job_keeps_lookups :
    Resolves (ServiceState.run accountService accountRequests).registry.store
        (.incremental "account_stats@1.0.0" 5 3600) ∧
      SameLookups (ServiceState.run accountService accountRequests).registry.store
        (ServiceState.run accountService (accountRequests ++
          [.registry (.plan 1 accountManifest []), .registry (.commit 1 9)])).registry.store
        (.incremental "account_stats@1.0.0" 5 3600) := by
  have htexts : specTexts (RegistryServer.serialCalls accountService.sha256
      (ServiceState.registryActions accountRequests)) =
      specTexts [(0, .apply accountManifest)] := by
    decide +kernel
  have hstored : ((ServiceState.run accountService accountRequests).jobs.db.jobs.find? 1).map
      (·.payload) = some (.incremental "account_stats@1.0.0" 5 3600) := by
    decide +kernel
  apply jobs_keep_their_lookups
  · rw [htexts]
    exact accountDigest_injOn
  · obtain ⟨row, hrow, hpayload⟩ := Option.map_eq_some_iff.mp hstored
    exact Or.inl ⟨1, row, hrow, hpayload⟩

end FeatureStore
