import FeatureStore.MetadataPatch
import FeatureStore.NamePatterns

/-!
# Parsing of manifests

The models of a manifest with their validators, read from the values of JSON texts. The client
dumps every field, with nulls; the registry leaves out the absent fields of quality. Both are read
by the same models.
-/

namespace FeatureStore

/-- What the models take from pydantic, and from the comparisons of floats. A value of the
declared type is kept as it is. -/
structure ManifestRules where
  digits : DecimalDigits
  toBool : Value → Option Bool
  toInt : Value → Option Int
  toBool_bool : ∀ b, toBool (.bool b) = some b
  toInt_int : ∀ n, toInt (.int n) = some n
  /-- `a > b` -/
  exceeds : Manifest.Number → Manifest.Number → Bool
  /-- `float(a) == float(b)` -/
  sameFloat : Value → Value → Bool

/-- No value of another type is converted, and bounds are compared if they are integers. -/
def ManifestRules.strict : ManifestRules where
  digits :=
    ⟨Char.isDigit, fun _ h => h, by
      simp only [List.forall_mem_cons]
      exact ⟨rfl, rfl, rfl, nofun⟩⟩
  toBool
    | .bool b => some b
    | _ => none
  toInt
    | .int n => some n
    | _ => none
  toBool_bool _ := rfl
  toInt_int _ := rfl
  exceeds
    | .int m, .int n => decide (n < m)
    | _, _ => false
  sameFloat := scalarEq

section Readers

/-- A field that has a default. -/
def readDefault {α : Type} (members : Dict) (field : String) (default : α)
    (read : Value → Except PyException α) : Except PyException α :=
  (members.lookup field).elim (.ok default) read

/-- A field that is `None` where it is absent. -/
def readNullable {α : Type} (members : Dict) (field : String)
    (read : Value → Except PyException α) : Except PyException (Option α) :=
  readOptional read ((members.lookup field).getD .null)

/-- A member of an enumeration of texts. -/
def readMember {α : Type} (values : List α) (text : α → String) (value : Value) :
    Except PyException α := do
  let given ← readStr value
  match values.find? fun member => decide (text member = given) with
  | some member => return member
  | none => throw (validationError "Input should be a member of the enumeration")

def readValueType : Value → Except PyException ValueType :=
  readMember [.string, .int64, .float64, .bool, .timestamp] ValueType.value

def readPolicy : Value → Except PyException QualityPolicy :=
  readMember [.reject, .quarantine, .report] QualityPolicy.value

/-- `int | float` behind `bounds_are_numeric`. -/
def readNumber : Value → Except PyException Manifest.Number
  | .int n => .ok (.int n)
  | .float token =>
      if h : isFloatToken token = true then .ok (.float token h)
      else .error (validationError "Input should be a valid number")
  | _ => .error (validationError "quality bounds must be numeric")

/-- `max_age_seconds` behind `age_is_integer`. -/
def readAge : Value → Except PyException Nat
  | .int n =>
      if 0 ≤ n then .ok n.toNat
      else .error (validationError "Input should be greater than or equal to 0")
  | _ => .error (validationError "max_age_seconds must be an integer")

variable (rules : ManifestRules)

def readBool (value : Value) : Except PyException Bool :=
  match rules.toBool value with
  | some b => .ok b
  | none => .error (validationError "Input should be a valid boolean")

/-- `ttl_seconds` -/
def readTtl (value : Value) : Except PyException Nat :=
  match rules.toInt value with
  | none => .error (validationError "Input should be a valid integer")
  | some n =>
      if 0 < n then .ok n.toNat else .error (validationError "Input should be greater than 0")

end Readers

/-- The fields of a contract, whose accepted values only its feature restricts. -/
structure QualityFields where
  nullable : Bool
  minimum : Option Manifest.Number
  maximum : Option Manifest.Number
  acceptedValues : Option (List Value)
  unique : Bool
  maxAgeSeconds : Option Nat

namespace QualityFields

variable (rules : ManifestRules) (quality : QualityFields)

/-- `valid_range` -/
def validRange : Except PyException Unit := do
  require ((quality.minimum.any fun minimum => quality.maximum.any (rules.exceeds minimum)) = false)
    "quality minimum cannot exceed maximum"
  unlessNone (fun values => do
    require (values.isEmpty = false) "accepted_values must not be empty"
    require (values.map Value.canonicalText).Nodup "accepted_values must be unique")
    quality.acceptedValues

/-- `FeatureQuality.model_validate` -/
def parse (value : Value) : Except PyException QualityFields := do
  let members ← readModel
    ["nullable", "minimum", "maximum", "accepted_values", "unique", "max_age_seconds"] value
  let nullable ← readDefault members "nullable" true (readBool rules)
  let minimum ← readNullable members "minimum" readNumber
  let maximum ← readNullable members "maximum" readNumber
  let acceptedValues ← readNullable members "accepted_values" (readList .ok)
  let unique ← readDefault members "unique" false (readBool rules)
  let maxAgeSeconds ← readNullable members "max_age_seconds" readAge
  let quality : QualityFields :=
    ⟨nullable, minimum, maximum, acceptedValues, unique, maxAgeSeconds⟩
  quality.validRange rules
  return quality

/-- The accepted values are scalars of JSON. -/
def IsScalar (quality : QualityFields) : Prop :=
  ∀ values, quality.acceptedValues = some values → ∀ value ∈ values, value.isScalar = true

instance : Decidable quality.IsScalar :=
  match h : quality.acceptedValues with
  | none => isTrue fun values heq => by rw [h] at heq; cases heq
  | some values =>
      if hall : ∀ value ∈ values, value.isScalar = true then
        isTrue fun other heq => by rw [h] at heq; exact Option.some.inj heq ▸ hall
      else isFalse fun hscalar => hall (hscalar values h)

/-- The contract with these fields. -/
def contract (h : quality.IsScalar) : Manifest.FeatureQuality :=
  ⟨quality.nullable, quality.minimum, quality.maximum, quality.acceptedValues, quality.unique,
    quality.maxAgeSeconds, h⟩

end QualityFields

namespace Manifest

def Number.isInt : Number → Bool
  | .int _ => true
  | .float _ _ => false

def FeatureQuality.fields (quality : FeatureQuality) : QualityFields :=
  ⟨quality.nullable, quality.minimum, quality.maximum, quality.acceptedValues, quality.unique,
    quality.maxAgeSeconds⟩

end Manifest

/-- `validate_feature_value` on values of JSON, for the dtypes of categories. -/
def matchesDtype : ValueType → Value → Bool
  | .string, .str _ => true
  | .int64, .int n => decide (-(2 ^ 63) ≤ n ∧ n < 2 ^ 63)
  | .float64, .int _ | .float64, .float _ => true
  | .bool, .bool _ => true
  | _, _ => false

/-- The check of one accepted value. -/
def checkAccepted (dtype : ValueType) : Value → Except PyException Unit
  | .null => .error (validationError "accepted_values cannot contain null")
  | value =>
      require (matchesDtype dtype value = true) "accepted_values must match the feature dtype"

/-- `Feature.validate_quality` on a contract. -/
def validateQuality (rules : ManifestRules) (dtype : ValueType) (quality : QualityFields) :
    Except PyException Unit := do
  require (quality.minimum.isSome || quality.maximum.isSome → dtype = .int64 ∨ dtype = .float64)
    "minimum and maximum require an int64 or float64 feature"
  require (dtype = .int64 → (quality.minimum.toList ++ quality.maximum.toList).all (·.isInt))
    "int64 bounds must be integers"
  unlessNone (fun values => do
    require (dtype ≠ .timestamp)
      "accepted_values are only supported for scalar categorical features"
    values.forM (checkAccepted dtype)
    require (dtype = .float64 → values.Pairwise fun a b => rules.sameFloat a b = false)
      "accepted_values must be unique") quality.acceptedValues

namespace Manifest

variable (rules : ManifestRules)

/-- `Feature.model_validate`. Accepted values that match a dtype are scalars. -/
def Feature.parse (value : Value) : Except PyException Feature := do
  let members ← readModel ["name", "dtype", "description", "quality"] value
  let name ← readStr (← readRequired members "name")
  require (isName name = true) "feature name must be lowercase snake_case"
  let dtype ← readValueType (← readRequired members "dtype")
  let description ← readDefault members "description" "" readStr
  let quality ← readNullable members "quality" (QualityFields.parse rules)
  unlessNone (validateQuality rules dtype) quality
  match quality with
  | none => return ⟨name, dtype, description, none⟩
  | some quality =>
      if h : quality.IsScalar then return ⟨name, dtype, description, some (quality.contract h)⟩
      else throw (validationError "accepted_values must match the feature dtype")

/-- `batch_sql.strip().lower().startswith(("select", "with"))` -/
def isQuery (sql : String) : Bool :=
  let text := (sql.toList.dropWhile isSpace).map Char.toLower
  "select".toList.isPrefixOf text || "with".toList.isPrefixOf text

/-- `FeatureView.model_validate` -/
def FeatureView.parse (value : Value) : Except PyException FeatureView := do
  let members ← readModel ["name", "version", "entity", "features", "batch_source", "batch_sql",
    "stream_source", "ttl_seconds", "description", "quality_policy"] value
  let name ← readStr (← readRequired members "name")
  let version ← readStr (← readRequired members "version")
  let entity ← readStr (← readRequired members "entity")
  let features ← readList (Feature.parse rules) (← readRequired members "features")
  let batchSource ← readStr (← readRequired members "batch_source")
  let batchSql ← readStr (← readRequired members "batch_sql")
  let streamSource ← readNullable members "stream_source" readStr
  let ttlSeconds ← readNullable members "ttl_seconds" (readTtl rules)
  let description ← readDefault members "description" "" readStr
  let qualityPolicy ← readNullable members "quality_policy" readPolicy
  require (isName name = true) "feature view name must be lowercase snake_case"
  require (rules.digits.isVersion version = true) "version must be semantic major.minor.patch"
  require (features.isEmpty = false) "feature view requires at least one feature"
  if h : (features.map (·.name)).Nodup then
    require (isQuery batchSql = true) "batch_sql must be a SELECT query"
    return ⟨name, version, entity, features, batchSource, batchSql, streamSource, ttlSeconds,
      description, qualityPolicy, h⟩
  else throw (validationError "feature names must be unique")

/-- `Entity.model_validate`. The keys of a dictionary are distinct. -/
def Entity.parse (value : Value) : Except PyException Entity := do
  let members ← readModel ["name", "join_keys"] value
  let name ← readStr (← readRequired members "name")
  let joinKeys ← readDict readValueType (← readRequired members "join_keys")
  require (isName name = true) "entity name must be lowercase snake_case"
  require (joinKeys.isEmpty = false) "entity requires at least one join key"
  joinKeys.forM fun key => require (isName key.1 = true) s!"invalid join key: {key.1}"
  if h : (joinKeys.map (·.1)).Nodup then return ⟨name, joinKeys, h⟩
  else throw (validationError "Input should be a valid dictionary")

/-- `BatchSource.model_validate` -/
def BatchSource.parse (value : Value) : Except PyException BatchSource := do
  let members ← readModel ["name", "uri", "event_timestamp_field"] value
  let name ← readStr (← readRequired members "name")
  require (isName name = true) "names must be lowercase snake_case"
  let uri ← readStr (← readRequired members "uri")
  let eventTimestampField ← readDefault members "event_timestamp_field" "event_timestamp" readStr
  require (isName eventTimestampField = true) "names must be lowercase snake_case"
  return ⟨name, uri, eventTimestampField⟩

/-- `StreamSource.model_validate` -/
def StreamSource.parse (value : Value) : Except PyException StreamSource := do
  let members ← readModel ["name", "topic", "dead_letter_topic"] value
  let name ← readStr (← readRequired members "name")
  require (isName name = true) "name must be lowercase snake_case"
  let topic ← readStr (← readRequired members "topic")
  let deadLetterTopic ← readNullable members "dead_letter_topic" readStr
  return ⟨name, topic, deadLetterTopic⟩

/-- The reference that a text matches. -/
def FeatureRef.read? (digits : DecimalDigits) (text : String) : Option FeatureRef :=
  match digits.matchFeatureRef text with
  | none => none
  | some (view, version, feature) =>
      if h : '@' ∉ view.toList ∧ ':' ∉ feature.toList then
        some ⟨view, version, feature, h.1, h.2⟩
      else none

/-- `FeatureService.model_validate` -/
def FeatureService.parse (value : Value) : Except PyException FeatureService := do
  let members ← readModel ["name", "features", "description"] value
  let name ← readStr (← readRequired members "name")
  let refs ← readList readStr (← readRequired members "features")
  let description ← readDefault members "description" "" readStr
  require (isName name = true) "feature service name must be lowercase snake_case"
  require (refs.isEmpty = false) "feature service requires at least one feature"
  match refs.mapM (FeatureRef.read? rules.digits) with
  | some features => return ⟨name, features, description⟩
  | none => throw (validationError "feature references must be view@x.y.z:feature")

end Manifest

/-- `RegistryManifest.model_validate` -/
def RegistryManifest.parse (rules : ManifestRules) (value : Value) :
    Except PyException RegistryManifest := do
  let members ← readModel
    ["entities", "batch_sources", "stream_sources", "feature_views", "feature_services"] value
  let entities ← readDefault members "entities" [] (readList Manifest.Entity.parse)
  let batchSources ← readDefault members "batch_sources" [] (readList Manifest.BatchSource.parse)
  let streamSources ←
    readDefault members "stream_sources" [] (readList Manifest.StreamSource.parse)
  let featureViews ←
    readDefault members "feature_views" [] (readList (Manifest.FeatureView.parse rules))
  let featureServices ←
    readDefault members "feature_services" [] (readList (Manifest.FeatureService.parse rules))
  return ⟨entities, batchSources, streamSources, featureViews, featureServices⟩

section Dumps

/-- `feature.model_dump(mode="json")` -/
def Manifest.Feature.modelDump (feature : Manifest.Feature) : Value :=
  .dict [("name", .str feature.name), ("dtype", .str feature.dtype.value),
    ("description", .str feature.description),
    ("quality", optionValue Manifest.FeatureQuality.dump feature.quality)]

/-- `view.model_dump(mode="json")` -/
def Manifest.FeatureView.modelDump (view : Manifest.FeatureView) : Value :=
  .dict [("name", .str view.name), ("version", .str view.version), ("entity", .str view.entity),
    ("features", .list (view.features.map Manifest.Feature.modelDump)),
    ("batch_source", .str view.batchSource), ("batch_sql", .str view.batchSql),
    ("stream_source", optionValue .str view.streamSource),
    ("ttl_seconds", optionValue (fun n : Nat => .int n) view.ttlSeconds),
    ("description", .str view.description),
    ("quality_policy", optionValue (fun policy => .str policy.value) view.qualityPolicy)]

/-- `manifest.model_dump(mode="json")`, which the client sends. -/
def RegistryManifest.modelDump (manifest : RegistryManifest) : Value :=
  .dict [("entities", .list (manifest.entities.map (·.dump))),
    ("batch_sources", .list (manifest.batchSources.map (·.dump))),
    ("stream_sources", .list (manifest.streamSources.map (·.dump))),
    ("feature_views", .list (manifest.featureViews.map (·.modelDump))),
    ("feature_services", .list (manifest.featureServices.map (·.dump)))]

end Dumps

section Valid

variable (rules : ManifestRules)

namespace Manifest

/-- The validators of the models accept the object. -/
structure Entity.Valid (entity : Entity) : Prop where
  name : isName entity.name = true
  joinKeys : entity.joinKeys ≠ []
  keys : ∀ key ∈ entity.joinKeys, isName key.1 = true

structure BatchSource.Valid (source : BatchSource) : Prop where
  name : isName source.name = true
  eventTimestampField : isName source.eventTimestampField = true

structure Feature.Valid (feature : Feature) : Prop where
  name : isName feature.name = true
  range : ∀ quality, feature.quality = some quality →
    quality.fields.validRange rules = .ok ()
  quality : ∀ quality, feature.quality = some quality →
    validateQuality rules feature.dtype quality.fields = .ok ()

structure FeatureView.Valid (view : FeatureView) : Prop where
  name : isName view.name = true
  version : rules.digits.isVersion view.version = true
  nonempty : view.features ≠ []
  features : ∀ feature ∈ view.features, feature.Valid rules
  batchSql : isQuery view.batchSql = true
  ttlSeconds : ∀ n, view.ttlSeconds = some n → 0 < n

structure FeatureRef.Valid (digits : DecimalDigits) (ref : FeatureRef) : Prop where
  view : isName ref.view = true
  version : DecimalDigits.isTriple digits.isNumber ref.version.toList = true
  feature : isName ref.feature = true

structure FeatureService.Valid (service : FeatureService) : Prop where
  name : isName service.name = true
  nonempty : service.features ≠ []
  features : ∀ ref ∈ service.features, ref.Valid rules.digits

end Manifest

structure RegistryManifest.Valid (manifest : RegistryManifest) : Prop where
  entities : ∀ entity ∈ manifest.entities, entity.Valid
  batchSources : ∀ source ∈ manifest.batchSources, source.Valid
  streamSources : ∀ source ∈ manifest.streamSources, isName source.name = true
  featureViews : ∀ view ∈ manifest.featureViews, view.Valid rules
  featureServices : ∀ service ∈ manifest.featureServices, service.Valid rules

end Valid

end FeatureStore
