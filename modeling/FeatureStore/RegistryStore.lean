import FeatureStore.Library.Table
import FeatureStore.SpecDifferences

/-!
# The registry: plan and apply

The tables of the registry and the methods of `Registry` that classify and store
the objects of a manifest. A record is keyed by its identity, which is unique and
never changes, in place of its surrogate key.
-/

namespace FeatureStore

open Relational

/-- A row of `registry_records`. -/
structure RegistryRecord where
  object : RegistryObject
  fingerprint : String
  createdAt : Instant
deriving Repr

/-- The kind, name and version columns. -/
abbrev RecordIdentity := RegistryObjectKind × String × String

def RegistryRecord.identity (record : RegistryRecord) : RecordIdentity := record.object.identity

inductive RegistryLifecycleStatus
  | active | deprecated
deriving DecidableEq, Repr

/-- A row of `registry_lifecycle`, for an object or for a feature of a view. -/
structure RegistryLifecycleRecord where
  record : RecordIdentity
  featureName : Option String
  owners : List String
  tags : List (String × String)
  documentationLinks : List String
  status : RegistryLifecycleStatus
  deprecatedAt : Option Instant
  deprecationMessage : Option String
  replacement : Option RegistryTarget
  updatedAt : Instant
deriving DecidableEq, Repr

/-- The columns under the uniqueness constraints. -/
abbrev LifecycleKey := RecordIdentity × Option String

def RegistryLifecycleRecord.key (lifecycle : RegistryLifecycleRecord) : LifecycleKey :=
  (lifecycle.record, lifecycle.featureName)

abbrev RecordTable := Table RegistryRecord.identity RegistryRecord.identity

abbrev LifecycleTable := Table RegistryLifecycleRecord.key RegistryLifecycleRecord.key

structure RegistryStore where
  records : RecordTable
  lifecycles : LifecycleTable

def RegistryStore.empty : RegistryStore := ⟨.empty, .empty⟩

/-- The record that a target names. -/
def RegistryTarget.identity (target : RegistryTarget) : RecordIdentity :=
  (target.kind, target.name, target.version.getD "")

/-- `f"@{version}" if version else ""`. -/
def versionSuffix (version : String) : String := if version = "" then "" else s!"@{version}"

/-- `ref.rsplit(":", 1)`. -/
def splitLastColon (ref : String) : Except PyException (String × String) :=
  let tail := ref.toList.reverse.takeWhile (· ≠ ':')
  match ref.toList.reverse.dropWhile (· ≠ ':') with
  | [] => .error (valueError "not enough values to unpack (expected 2, got 1)")
  | _ :: head => .ok (String.ofList head.reverse, String.ofList tail.reverse)

/-- `parse_view_ref`. -/
def parseViewRef (ref : String) : Except PyException (String × String) :=
  match ref.toList.dropWhile (· ≠ '@') with
  | [] => .error (valueError "feature view reference must be name@x.y.z")
  | _ :: version => .ok (String.ofList (ref.toList.takeWhile (· ≠ '@')), String.ofList version)

namespace RegistryStore

/-- `Registry._get`. -/
def get (store : RegistryStore) (kind : RegistryObjectKind) (name : String)
    (version : String) : Except PyException RegistryRecord :=
  match store.records.find? (kind, name, version) with
  | some record => .ok record
  | none => .error ⟨.registryNotFound, s!"unknown {kind.value}: {name}{versionSuffix version}"⟩

/-- `FeatureView.model_validate(record.spec)`. -/
def viewOf (record : RegistryRecord) : Except PyException Manifest.FeatureView :=
  match record.object.view? with
  | some view => .ok view
  | none => .error ⟨.validation, "validation error for FeatureView"⟩

/-- `Registry._record_for_target`. -/
def recordForTarget (store : RegistryStore) (target : RegistryTarget) :
    Except PyException RegistryRecord := do
  let record ← store.get target.kind target.name (target.version.getD "")
  match target.feature with
  | none => return record
  | some feature =>
      let view ← viewOf record
      if (view.features.map (·.name)).contains feature then return record
      else throw ⟨.registryNotFound, s!"unknown feature: {target.ref}"⟩

/-- `Registry._lifecycle`. -/
def lifecycle (store : RegistryStore) (record : RegistryRecord) (featureName : Option String) :
    Option RegistryLifecycleRecord :=
  store.lifecycles.find? (record.identity, featureName)

/-- `Registry.feature_view`. -/
def featureView (store : RegistryStore) (ref : String) :
    Except PyException Manifest.FeatureView := do
  let (name, version) ← parseViewRef ref
  viewOf (← store.get .featureView name version)

end RegistryStore

/-- `Registry._warning`. -/
def registryWarning (target : RegistryTarget) (lifecycle : RegistryLifecycleRecord)
    (inheritedFrom : Option RegistryTarget) : RegistryWarning where
  target := target
  message :=
    match lifecycle.deprecationMessage with
    | some message =>
        if message = "" then s!"registry target is deprecated: {(inheritedFrom.getD target).ref}"
        else message
    | none => s!"registry target is deprecated: {(inheritedFrom.getD target).ref}"
  deprecatedAt := lifecycle.deprecatedAt.getD lifecycle.updatedAt
  replacement := lifecycle.replacement
  inheritedFrom := inheritedFrom

/-- `Registry._warning_key`: tuples of one length compare as lists. -/
def warningKey (warning : RegistryWarning) : List String :=
  [warning.target.kind.value, warning.target.name, warning.target.version.getD "",
    warning.target.feature.getD "", warning.inheritedFrom.elim "" (·.ref)]

/-- `warnings[key] = warning`. -/
def setWarning (warnings : List RegistryWarning) (warning : RegistryWarning) :
    List RegistryWarning :=
  warnings.filter (fun other => decide (warningKey other ≠ warningKey warning)) ++ [warning]

namespace RegistryStore

/-- The warnings of one target: its own, and the one that it inherits from its view. -/
def targetWarnings (store : RegistryStore) (target : RegistryTarget) : List RegistryWarning :=
  match store.recordForTarget target with
  | .error _ => []
  | .ok record =>
      let direct := (store.lifecycle record target.feature).filter
        fun lifecycle => decide (lifecycle.status = .deprecated)
      let parent := (store.lifecycle record none).filter
        fun lifecycle => target.feature.isSome && decide (lifecycle.status = .deprecated)
      (direct.map fun lifecycle => registryWarning target lifecycle none).toList ++
        (parent.map fun lifecycle =>
          registryWarning target lifecycle (some { target with feature := none })).toList

/-- `Registry.warnings_for_targets`. -/
def warningsForTargets (store : RegistryStore) (targets : List RegistryTarget) :
    List RegistryWarning :=
  ((targets.flatMap store.targetWarnings).foldl setWarning []).insertionSort
    fun a b => warningKey a ≤ warningKey b

end RegistryStore

def objectTarget (kind : RegistryObjectKind) (name : String) : RegistryTarget :=
  ⟨kind, name, none, none⟩

def viewTarget (name version : String) (feature : Option String) : RegistryTarget :=
  ⟨.featureView, name, some version, feature⟩

/-- `view.stream_source` where it is not empty. -/
def Manifest.FeatureView.stream? (view : Manifest.FeatureView) : Option String :=
  view.streamSource.filter fun source => decide (source ≠ "")

/-- `Registry._manifest_targets`. -/
def RegistryManifest.targets (manifest : RegistryManifest) : List RegistryTarget :=
  (manifest.entities.map fun item => objectTarget .entity item.name) ++
    (manifest.batchSources.map fun item => objectTarget .batchSource item.name) ++
    (manifest.streamSources.map fun item => objectTarget .streamSource item.name) ++
    (manifest.featureViews.flatMap fun view =>
      [viewTarget view.name view.version none, objectTarget .entity view.entity,
        objectTarget .batchSource view.batchSource] ++
      (view.features.map fun feature => viewTarget view.name view.version (some feature.name)) ++
      (view.stream?.map (objectTarget .streamSource)).toList) ++
    manifest.featureServices.flatMap fun service =>
      objectTarget .featureService service.name ::
        service.features.flatMap fun ref =>
          [viewTarget ref.view ref.version (some ref.feature), viewTarget ref.view ref.version none]

namespace RegistryStore

/-- `Registry._manifest_warning_targets`. -/
def manifestWarningTargets (store : RegistryStore) (manifest : RegistryManifest) :
    List RegistryTarget :=
  manifest.targets ++ manifest.featureServices.flatMap fun service =>
    service.features.flatMap fun ref =>
      match store.featureView ref.viewRef with
      | .error _ => []
      | .ok view =>
          [objectTarget .entity view.entity, objectTarget .batchSource view.batchSource] ++
            (view.stream?.map (objectTarget .streamSource)).toList

end RegistryStore

/-- The `available_…` variables of `plan`; views are keyed by name and version, the
last entry of a key first. -/
structure Availability where
  entities : List String
  batchSources : List String
  streamSources : List String
  views : List ((String × String) × Manifest.FeatureView)

def namesOf (records : RecordTable) (kind : RegistryObjectKind) : List String :=
  (records.rows.filter fun record => decide (record.object.kind = kind)).map (·.object.name)

/-- What the stored records make available. -/
def Availability.stored (records : RecordTable) : Availability where
  entities := namesOf records .entity
  batchSources := namesOf records .batchSource
  streamSources := namesOf records .streamSource
  views := records.rows.filterMap fun record =>
    record.object.view?.map fun view => ((view.name, view.version), view)

/-- What an accepted object makes available. -/
def Availability.add (available : Availability) : RegistryObject → Availability
  | .entity e => { available with entities := e.name :: available.entities }
  | .batchSource source =>
      { available with batchSources := source.name :: available.batchSources }
  | .streamSource source =>
      { available with streamSources := source.name :: available.streamSources }
  | .featureView view =>
      { available with views := ((view.name, view.version), view) :: available.views }
  | .featureService _ => available

/-- The issues of the references of a view. -/
def viewIssues (available : Availability) (view : Manifest.FeatureView) : List RegistryIssue :=
  (if available.entities.contains view.entity then []
    else [⟨.missingEntity, "/entity", s!"unknown entity: {view.entity}"⟩]) ++
  (if available.batchSources.contains view.batchSource then []
    else [⟨.missingBatchSource, "/batch_source", s!"unknown batch source: {view.batchSource}"⟩]) ++
  match view.stream? with
  | none => []
  | some source =>
      if available.streamSources.contains source then []
      else [⟨.missingStreamSource, "/stream_source", s!"unknown stream source: {source}"⟩]

/-- The issue of one reference of a service, if any. -/
def refIssue (available : Availability) (index : Nat) (ref : Manifest.FeatureRef) :
    Option RegistryIssue :=
  match available.views.lookup (ref.view, ref.version) with
  | none =>
      some ⟨.missingFeatureView, s!"/features/{index}", s!"unknown feature view: {ref.viewRef}"⟩
  | some view =>
      if (view.features.map (·.name)).contains ref.feature then none
      else some ⟨.missingFeature, s!"/features/{index}", s!"unknown feature: {ref.text}"⟩

/-- The issues of the references of an object. -/
def referenceIssues (available : Availability) : RegistryObject → List RegistryIssue
  | .featureView view => viewIssues available view
  | .featureService service =>
      service.features.zipIdx.filterMap fun item => refIssue available item.2 item.1
  | .entity _ | .batchSource _ | .streamSource _ => []

section Planning

variable (sha256 : String → String)

/-- The test for a changed object. -/
def conflicts (existing : Option RegistryRecord) (object : RegistryObject) : Bool :=
  existing.any fun record => decide (record.fingerprint ≠ fingerprint sha256 object.spec)

def conflictIssues (existing : Option RegistryRecord) (object : RegistryObject) :
    List RegistryIssue :=
  if conflicts sha256 existing object then
    [⟨.immutableConflict, "/",
      s!"immutable registry object changed: {object.name}{versionSuffix object.version}"⟩]
  else []

/-- One iteration of the loop of `plan`. -/
def planObject (records : RecordTable) (available : Availability) (object : RegistryObject) :
    RegistryObjectPlan :=
  let existing := records.find? object.identity
  let issues := conflictIssues sha256 existing object ++ referenceIssues available object
  { identity := ⟨object.kind, object.name,
      if object.version = "" then none else some object.version⟩
    status :=
      if issues ≠ [] then .rejected
      else if existing.isSome then .unchanged
      else .created
    issues := issues
    differences :=
      if conflicts sha256 existing object then
        existing.elim [] fun record => differences record.object.spec object.spec ""
      else [] }

def planLoop (records : RecordTable) : Availability → List RegistryObject →
    List RegistryObjectPlan
  | _, [] => []
  | available, object :: rest =>
      let plan := planObject sha256 records available object
      plan :: planLoop records
        (if plan.status = .rejected then available else available.add object) rest

def countStatus (plans : List RegistryObjectPlan) (status : RegistryObjectStatus) : Nat :=
  plans.countP fun plan => decide (plan.status = status)

namespace RegistryStore

/-- `Registry.plan` of a manifest whose views are read back from their specs. -/
def plan (store : RegistryStore) (manifest : RegistryManifest) : RegistryPlan :=
  let plans := planLoop sha256 store.records (.stored store.records) manifest.objects
  { fingerprint := fingerprint sha256 manifest.dump
    summary := ⟨countStatus plans .created, countStatus plans .unchanged,
      countStatus plans .rejected⟩
    objects := plans
    warnings := store.warningsForTargets (store.manifestWarningTargets manifest) }

/-- `Registry.validate`, which is `plan`: a view that is not read back raises. -/
def validate (store : RegistryStore) (manifest : RegistryManifest) :
    Except PyException RegistryPlan :=
  if manifest.acceptsFinite then .ok (store.plan sha256 manifest)
  else .error ⟨.validation, "validation error for FeatureView"⟩

end RegistryStore

/-- The exception of `apply` for the rejected objects of a plan. -/
def rejection (rejected : List RegistryObjectPlan) : PyException :=
  let missing := rejected.findSome? fun item =>
    item.issues.find? fun issue => decide (issue.code ≠ .immutableConflict)
  match missing with
  | some issue => ⟨.registryNotFound, issue.message⟩
  | none =>
      let identity := rejected.head?.map (·.identity)
      let name := identity.elim "" (·.name)
      let suffix := (identity.bind (·.version)).elim "" versionSuffix
      ⟨.registryConflict, s!"immutable registry object changed: {name}{suffix}"⟩

/-- The rows that `apply` adds, in the order of the manifest. -/
def createdRecords (now : Instant) (plans : List RegistryObjectPlan)
    (objects : List RegistryObject) : List RegistryRecord :=
  (plans.zip objects).filterMap fun item =>
    if item.1.status = .created then
      some ⟨item.2, fingerprint sha256 item.2.spec, now⟩
    else none

namespace RegistryStore

/-- `Registry.apply`. -/
def apply (now : Instant) (store : RegistryStore) (manifest : RegistryManifest) :
    Except PyException (RegistryStore × ApplyResult) := do
  let plan ← store.validate sha256 manifest
  let rejected := plan.objects.filter fun item => decide (item.status = .rejected)
  if rejected ≠ [] then .error (rejection rejected)
  else
    -- The flush of the added rows fails as a whole.
    match store.records.insertAll? (createdRecords sha256 now plan.objects manifest.objects) with
    | none => .error ⟨.integrity, "UNIQUE constraint failed: registry_records"⟩
    | some records =>
        .ok ({ store with records := records },
          ⟨plan.fingerprint, plan.summary.created, plan.summary.unchanged, plan.warnings⟩)

end RegistryStore

end Planning

end FeatureStore
