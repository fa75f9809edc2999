import FeatureStore.FiniteFloats

/-!
# Registry objects and their specs

The objects of a manifest with the JSON specs that the registry stores, and the
types of plans. A spec is the dump of its object, which the validators of the
models read back unless it has lost an infinity or NaN, so a record keeps the object. The
checks of names, versions and texts that no modelled function depends on are left out.
-/

namespace FeatureStore

/-- A JSON value other than null, an array or an object. -/
def Value.isScalar : Value → Bool
  | .null | .list _ | .dict _ => false
  | value => value.isJson

def optionValue {α : Type} (dump : α → Value) (value : Option α) : Value :=
  (value.map dump).getD .null

def ValueType.value : ValueType → String
  | .string => "string"
  | .int64 => "int64"
  | .float64 => "float64"
  | .bool => "bool"
  | .timestamp => "timestamp"

def QualityPolicy.value : QualityPolicy → String
  | .reject => "reject"
  | .quarantine => "quarantine"
  | .report => "report"

def RegistryObjectKind.value : RegistryObjectKind → String
  | .entity => "entity"
  | .batchSource => "batch_source"
  | .streamSource => "stream_source"
  | .featureView => "feature_view"
  | .featureService => "feature_service"

/-- `RegistryTarget.ref`, where an empty text counts as absent. -/
def RegistryTarget.ref (target : RegistryTarget) : String :=
  let suffix := target.version.elim "" fun v => if v = "" then "" else s!"@{v}"
  let feature := target.feature.elim "" fun f => if f = "" then "" else s!":{f}"
  s!"{target.kind.value}:{target.name}{suffix}{feature}"

namespace Manifest

/-- `int | float`. -/
inductive Number
  | int (n : Int)
  | float (token : String) (isFloat : isFloatToken token = true)
deriving DecidableEq, Repr

def Number.value : Number → Value
  | .int n => .int n
  | .float token _ => .float token

/-- `FeatureQuality`, whose accepted values match the dtype of a feature. -/
structure FeatureQuality where
  nullable : Bool
  minimum : Option Number
  maximum : Option Number
  acceptedValues : Option (List Value)
  unique : Bool
  maxAgeSeconds : Option Nat
  accepted_scalar : ∀ values, acceptedValues = some values →
    ∀ value ∈ values, value.isScalar = true
deriving Repr

theorem no_accepted_scalar : ∀ values : List Value, none = some values →
    ∀ value ∈ values, value.isScalar = true :=
  nofun

/-- `quality.model_dump(mode="json")`, which writes null for an accepted infinity or NaN. -/
def FeatureQuality.dump (quality : FeatureQuality) : Value :=
  .dict [("nullable", .bool quality.nullable),
    ("minimum", optionValue Number.value quality.minimum),
    ("maximum", optionValue Number.value quality.maximum),
    ("accepted_values",
      optionValue (fun values => (Value.list values).jsonMode) quality.acceptedValues),
    ("unique", .bool quality.unique),
    ("max_age_seconds", optionValue (fun n : Nat => .int n) quality.maxAgeSeconds)]

/-- No accepted value is an infinity or NaN. -/
def FeatureQuality.acceptsFinite (quality : FeatureQuality) : Bool :=
  quality.acceptedValues.all fun values => values.all Value.isFinite

structure Entity where
  name : String
  joinKeys : List (String × ValueType)
  joinKeys_nodup : (joinKeys.map (·.1)).Nodup
deriving DecidableEq, Repr

def Entity.dump (entity : Entity) : Value :=
  .dict [("name", .str entity.name),
    ("join_keys", .dict (entity.joinKeys.map fun key => (key.1, .str key.2.value)))]

structure BatchSource where
  name : String
  uri : String
  eventTimestampField : String
deriving DecidableEq, Repr

def BatchSource.dump (source : BatchSource) : Value :=
  .dict [("name", .str source.name), ("uri", .str source.uri),
    ("event_timestamp_field", .str source.eventTimestampField)]

structure StreamSource where
  name : String
  topic : String
  deadLetterTopic : Option String
deriving DecidableEq, Repr

def StreamSource.dump (source : StreamSource) : Value :=
  .dict [("name", .str source.name), ("topic", .str source.topic),
    ("dead_letter_topic", optionValue .str source.deadLetterTopic)]

structure Feature where
  name : String
  dtype : ValueType
  description : String
  quality : Option FeatureQuality
deriving Repr

/-- `Feature.registry_spec`: an absent contract has no key. -/
def Feature.registrySpec (feature : Feature) : Value :=
  .dict ([("name", .str feature.name), ("dtype", .str feature.dtype.value),
      ("description", .str feature.description)] ++
    (feature.quality.map fun quality => ("quality", quality.dump)).toList)

def Feature.acceptsFinite (feature : Feature) : Bool :=
  feature.quality.all (·.acceptsFinite)

/-- `FeatureView`, whose feature names are unique. -/
structure FeatureView where
  name : String
  version : String
  entity : String
  features : List Feature
  batchSource : String
  batchSql : String
  streamSource : Option String
  ttlSeconds : Option Nat
  description : String
  qualityPolicy : Option QualityPolicy
  features_nodup : (features.map (·.name)).Nodup
deriving Repr

/-- `FeatureView.registry_spec`: an absent policy has no key. -/
def FeatureView.registrySpec (view : FeatureView) : Value :=
  .dict ([("name", .str view.name), ("version", .str view.version),
      ("entity", .str view.entity), ("features", .list (view.features.map Feature.registrySpec)),
      ("batch_source", .str view.batchSource), ("batch_sql", .str view.batchSql),
      ("stream_source", optionValue .str view.streamSource),
      ("ttl_seconds", optionValue (fun n : Nat => .int n) view.ttlSeconds),
      ("description", .str view.description)] ++
    (view.qualityPolicy.map fun policy => ("quality_policy", .str policy.value)).toList)

def FeatureView.acceptsFinite (view : FeatureView) : Bool :=
  view.features.all (·.acceptsFinite)

/-- A reference `view@x.y.z:feature`. Of the pattern that the model checks, what
matters is that the separators read back its parts. -/
structure FeatureRef where
  view : String
  version : String
  feature : String
  view_valid : '@' ∉ view.toList
  feature_valid : ':' ∉ feature.toList
deriving DecidableEq, Repr

def FeatureRef.viewRef (ref : FeatureRef) : String := s!"{ref.view}@{ref.version}"

def FeatureRef.text (ref : FeatureRef) : String := s!"{ref.viewRef}:{ref.feature}"

structure FeatureService where
  name : String
  features : List FeatureRef
  description : String
deriving DecidableEq, Repr

def FeatureService.dump (service : FeatureService) : Value :=
  .dict [("name", .str service.name),
    ("features", .list (service.features.map fun ref => .str ref.text)),
    ("description", .str service.description)]

end Manifest

/-- An entry of `_manifest_objects`: what the kind, name, version and spec columns of
a record hold. -/
inductive RegistryObject
  | entity (entity : Manifest.Entity)
  | batchSource (source : Manifest.BatchSource)
  | streamSource (source : Manifest.StreamSource)
  | featureView (view : Manifest.FeatureView)
  | featureService (service : Manifest.FeatureService)
deriving Repr

namespace RegistryObject

def kind : RegistryObject → RegistryObjectKind
  | .entity _ => .entity
  | .batchSource _ => .batchSource
  | .streamSource _ => .streamSource
  | .featureView _ => .featureView
  | .featureService _ => .featureService

def name : RegistryObject → String
  | .entity e => e.name
  | .batchSource source => source.name
  | .streamSource source => source.name
  | .featureView view => view.name
  | .featureService service => service.name

def version : RegistryObject → String
  | .featureView view => view.version
  | .entity _ | .batchSource _ | .streamSource _ | .featureService _ => ""

def spec : RegistryObject → Value
  | .entity e => e.dump
  | .batchSource source => source.dump
  | .streamSource source => source.dump
  | .featureView view => view.registrySpec
  | .featureService service => service.dump

/-- The validators read the object back from its spec: of a view, they refuse an accepted
null. -/
def acceptsFinite : RegistryObject → Bool
  | .featureView view => view.acceptsFinite
  | .entity _ | .batchSource _ | .streamSource _ | .featureService _ => true

/-- The columns under the uniqueness constraint. -/
def identity (object : RegistryObject) : RegistryObjectKind × String × String :=
  (object.kind, object.name, object.version)

/-- `FeatureView.model_validate(spec)` succeeds on the specs of views only. -/
def view? : RegistryObject → Option Manifest.FeatureView
  | .featureView view => some view
  | .entity _ | .batchSource _ | .streamSource _ | .featureService _ => none

theorem view?_eq_some {object : RegistryObject} {view : Manifest.FeatureView} :
    object.view? = some view ↔ object = .featureView view := by
  cases object <;> simp [view?]

theorem exists_view_of_kind {object : RegistryObject} (h : object.kind = .featureView) :
    ∃ view, object = .featureView view := by
  cases object with
  | featureView view => exact ⟨view, rfl⟩
  | _ => cases h

theorem exists_service_of_kind {object : RegistryObject} (h : object.kind = .featureService) :
    ∃ service, object = .featureService service := by
  cases object with
  | featureService service => exact ⟨service, rfl⟩
  | _ => cases h

end RegistryObject

structure RegistryManifest where
  entities : List Manifest.Entity
  batchSources : List Manifest.BatchSource
  streamSources : List Manifest.StreamSource
  featureViews : List Manifest.FeatureView
  featureServices : List Manifest.FeatureService
deriving Repr

namespace RegistryManifest

/-- `Registry._manifest_objects`. -/
def objects (manifest : RegistryManifest) : List RegistryObject :=
  manifest.entities.map .entity ++ manifest.batchSources.map .batchSource ++
    manifest.streamSources.map .streamSource ++ manifest.featureViews.map .featureView ++
    manifest.featureServices.map .featureService

def acceptsFinite (manifest : RegistryManifest) : Bool :=
  manifest.objects.all (·.acceptsFinite)

def dump (manifest : RegistryManifest) : Value :=
  .dict [("entities", .list (manifest.entities.map (·.dump))),
    ("batch_sources", .list (manifest.batchSources.map (·.dump))),
    ("stream_sources", .list (manifest.streamSources.map (·.dump))),
    ("feature_views", .list (manifest.featureViews.map (·.registrySpec))),
    ("feature_services", .list (manifest.featureServices.map (·.dump)))]

end RegistryManifest

/-- `_fingerprint`, and the fingerprint of a manifest, by the given SHA-256. -/
def fingerprint (sha256 : String → String) (spec : Value) : String :=
  sha256 spec.canonicalText

inductive RegistryObjectStatus
  | created | unchanged | rejected
deriving DecidableEq, Repr

inductive RegistryIssueCode
  | immutableConflict | missingEntity | missingBatchSource | missingStreamSource
  | missingFeatureView | missingFeature
deriving DecidableEq, Repr

structure RegistryIssue where
  code : RegistryIssueCode
  path : String
  message : String
deriving DecidableEq, Repr

inductive RegistryDiffOperation
  | added | removed | changed
deriving DecidableEq, Repr

structure RegistryDifference where
  path : String
  operation : RegistryDiffOperation
  existing : Value
  proposed : Value
deriving Repr

structure RegistryObjectIdentity where
  kind : RegistryObjectKind
  name : String
  version : Option String
deriving DecidableEq, Repr

structure RegistryObjectPlan where
  identity : RegistryObjectIdentity
  status : RegistryObjectStatus
  issues : List RegistryIssue
  differences : List RegistryDifference
deriving Repr

structure RegistryPlanSummary where
  created : Nat
  unchanged : Nat
  rejected : Nat
deriving DecidableEq, Repr

structure RegistryPlan where
  fingerprint : String
  summary : RegistryPlanSummary
  objects : List RegistryObjectPlan
  warnings : List RegistryWarning
deriving Repr

structure ApplyResult where
  fingerprint : String
  created : Nat
  unchanged : Nat
  warnings : List RegistryWarning
deriving DecidableEq, Repr

end FeatureStore
