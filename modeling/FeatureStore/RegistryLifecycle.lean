import FeatureStore.RegistryStore

/-!
# The registry: lifecycle of targets

Metadata, deprecation and reactivation of registered objects and of the features of
views. Each call is one transaction: it commits the store that it returns, or it
raises and changes nothing.
-/

namespace FeatureStore

open Relational

/-- `RegistryMetadataPatch`: a field is unset, or set to a value that may be `None`. -/
structure RegistryMetadataPatch where
  owners : Option (Option (List String))
  tags : Option (Option (List (String × String)))
  documentationLinks : Option (Option (List String))
deriving DecidableEq, Repr

structure RegistryMetadata where
  owners : List String
  tags : List (String × String)
  documentationLinks : List String
deriving DecidableEq, Repr

structure RegistryProvenance where
  createdAt : Instant
  manifestFingerprint : String
deriving DecidableEq, Repr

structure RegistryDeprecation where
  status : RegistryLifecycleStatus
  deprecatedAt : Option Instant
  message : Option String
  replacement : Option RegistryTarget
deriving DecidableEq, Repr

structure RegistryDescriptor where
  target : RegistryTarget
  fingerprint : String
  spec : Value
  provenance : RegistryProvenance
  metadata : RegistryMetadata
  deprecation : RegistryDeprecation
  updatedAt : Option Instant
deriving Repr

/-- The target of a lifecycle record, by `_target_for_lifecycle`. -/
def RegistryLifecycleRecord.target (lifecycle : RegistryLifecycleRecord) : RegistryTarget :=
  ⟨lifecycle.record.1, lifecycle.record.2.1,
    if lifecycle.record.2.2 = "" then none else some lifecycle.record.2.2, lifecycle.featureName⟩

/-- A new lifecycle record, before a call sets its own columns. -/
def newLifecycle (record : RegistryRecord) (featureName : Option String) (now : Instant) :
    RegistryLifecycleRecord :=
  ⟨record.identity, featureName, [], [], [], .active, none, none, none, now⟩

/-- The assignments of `patch_metadata`. -/
def RegistryMetadataPatch.assign (patch : RegistryMetadataPatch) (now : Instant)
    (lifecycle : RegistryLifecycleRecord) : RegistryLifecycleRecord :=
  { lifecycle with
    owners := patch.owners.elim lifecycle.owners (·.getD [])
    tags := patch.tags.elim lifecycle.tags (·.getD [])
    documentationLinks := patch.documentationLinks.elim lifecycle.documentationLinks (·.getD [])
    updatedAt := now }

/-- The assignments of `deprecate`. -/
def assignDeprecated (message : Option String) (replacement : Option RegistryTarget)
    (now : Instant) (lifecycle : RegistryLifecycleRecord) : RegistryLifecycleRecord :=
  { lifecycle with
    status := .deprecated
    deprecatedAt := some now
    deprecationMessage := message
    replacement := replacement
    updatedAt := now }

/-- The assignments of `reactivate`. -/
def assignActive (now : Instant) (lifecycle : RegistryLifecycleRecord) :
    RegistryLifecycleRecord :=
  { lifecycle with
    status := .active
    deprecatedAt := none
    deprecationMessage := none
    replacement := none
    updatedAt := now }

/-- The row under a key is replaced by its image, or appended if there was none. -/
def setLifecycle (lifecycles : LifecycleTable) (fresh : RegistryLifecycleRecord)
    (assignment : Assignment RegistryLifecycleRecord.key RegistryLifecycleRecord.key) :
    LifecycleTable :=
  match lifecycles.insert? (assignment.set fresh) with
  | some inserted => inserted
  | none => lifecycles.modify fresh.key assignment

theorem find?_setLifecycle {lifecycles : LifecycleTable} {fresh : RegistryLifecycleRecord}
    {a : Assignment RegistryLifecycleRecord.key RegistryLifecycleRecord.key} {key : LifecycleKey} :
    (setLifecycle lifecycles fresh a).find? key =
      if key = fresh.key then some (a.set ((lifecycles.find? fresh.key).getD fresh))
      else lifecycles.find? key := by
  have hkey : (a.set fresh).key = fresh.key := a.key_set fresh
  unfold setLifecycle
  cases hinsert : lifecycles.insert? (a.set fresh) with
  | some inserted =>
      have hfresh := Table.insert?_fresh hinsert
      rw [hkey] at hfresh
      simp only [Table.find?_insert hinsert, hkey, hfresh, Option.getD_none]
  | none =>
      obtain ⟨row, hrow⟩ := Table.find?_of_insert?_none hinsert
      rw [hkey] at hrow
      simp only [Table.find?_modify, hrow, Option.map_some, Option.getD_some]

/-- Assignments that agree on the row they change have the same effect. -/
theorem setLifecycle_congr {lifecycles : LifecycleTable} {fresh : RegistryLifecycleRecord}
    {a b : Assignment RegistryLifecycleRecord.key RegistryLifecycleRecord.key}
    (hfresh : a.set fresh = b.set fresh)
    (hstored : ∀ row, lifecycles.find? fresh.key = some row → a.set row = b.set row) :
    setLifecycle lifecycles fresh a = setLifecycle lifecycles fresh b := by
  rw [setLifecycle, setLifecycle, hfresh, Table.modify_congr hstored]

namespace RegistryStore

/-- The spec that a target shows: its own, or that of its feature. -/
def specOf (record : RegistryRecord) : Option String → Value
  | none => record.object.spec
  | some feature =>
      match record.object.view? with
      | none => record.object.spec
      | some view =>
          (view.features.find? fun item => decide (item.name = feature)).elim record.object.spec
            (·.registrySpec)

/-- `Registry._descriptor`. -/
def descriptor (store : RegistryStore) (target : RegistryTarget) (record : RegistryRecord) :
    RegistryDescriptor :=
  let lifecycle := store.lifecycle record target.feature
  { target := target
    fingerprint := record.fingerprint
    spec := specOf record target.feature
    provenance := ⟨record.createdAt, record.fingerprint⟩
    metadata := ⟨lifecycle.elim [] (·.owners), lifecycle.elim [] (·.tags),
      lifecycle.elim [] (·.documentationLinks)⟩
    deprecation := ⟨lifecycle.elim .active (·.status), lifecycle.bind (·.deprecatedAt),
      lifecycle.bind (·.deprecationMessage), lifecycle.bind (·.replacement)⟩
    updatedAt := lifecycle.map (·.updatedAt) }

/-- `Registry.describe`. -/
def describe (store : RegistryStore) (target : RegistryTarget) :
    Except PyException RegistryDescriptor := do
  return store.descriptor target (← store.recordForTarget target)

/-- The store with an assignment to the lifecycle record of a target. -/
def assignLifecycle (store : RegistryStore) (record : RegistryRecord)
    (featureName : Option String) (now : Instant)
    (assignment : Assignment RegistryLifecycleRecord.key RegistryLifecycleRecord.key) :
    RegistryStore :=
  { store with
    lifecycles := setLifecycle store.lifecycles (newLifecycle record featureName now) assignment }

/-- `Registry.patch_metadata`. -/
def patchMetadata (now : Instant) (store : RegistryStore) (target : RegistryTarget)
    (patch : RegistryMetadataPatch) : Except PyException (RegistryStore × RegistryDescriptor) := do
  let record ← store.recordForTarget target
  let store := store.assignLifecycle record target.feature now
    ⟨patch.assign now, fun _ => rfl, fun _ => rfl⟩
  return (store, store.descriptor target record)

def conflictError (message : String) : PyException := ⟨.registryConflict, message⟩

/-- The walk of `_validate_replacement` over stored replacements. Each round visits
a new reference, so as many rounds as there are lifecycle records and one more suffice. -/
def replacementWalk (store : RegistryStore) (target : RegistryTarget) :
    Nat → List String → RegistryTarget → Except PyException Unit
  | 0, _, _ => .error (conflictError "replacement chain contains a lifecycle cycle")
  | rounds + 1, visited, current =>
      if visited.contains current.ref then
        .error (conflictError "replacement chain contains a lifecycle cycle")
      else if current = target then
        .error (conflictError "replacement would create a lifecycle cycle")
      else
        match store.recordForTarget current with
        | .error exc => .error exc
        | .ok record =>
            match (store.lifecycle record current.feature).bind (·.replacement) with
            | none => .ok ()
            | some next => store.replacementWalk target rounds (current.ref :: visited) next

/-- `bool(target.feature)`. -/
def hasFeature (target : RegistryTarget) : Bool := target.feature.any fun f => decide (f ≠ "")

/-- `Registry._validate_replacement`. -/
def validateReplacement (store : RegistryStore) (target replacement : RegistryTarget) :
    Except PyException Unit :=
  if replacement = target then .error (conflictError "a deprecated target cannot replace itself")
  else if replacement.kind ≠ target.kind ∨ hasFeature replacement ≠ hasFeature target then
    .error (conflictError "replacement must match the target kind and feature granularity")
  else
    match store.recordForTarget replacement with
    | .error exc => .error exc
    | .ok record =>
        if (store.lifecycle record replacement.feature).any
            fun lifecycle => decide (lifecycle.status = .deprecated) then
          .error (conflictError s!"replacement is deprecated: {replacement.ref}")
        else if replacement.feature.isSome && (store.lifecycle record none).any
            fun lifecycle => decide (lifecycle.status = .deprecated) then
          .error (conflictError s!"replacement parent is deprecated: {replacement.ref}")
        else store.replacementWalk target (store.lifecycles.rows.length + 2) [] replacement

/-- The first deprecated target whose replacement is the given one. -/
def dependent? (store : RegistryStore) (target : RegistryTarget) :
    Option RegistryLifecycleRecord :=
  store.lifecycles.rows.find? fun lifecycle =>
    decide (lifecycle.status = .deprecated) && decide (lifecycle.replacement = some target)

/-- `Registry.deprecate`. -/
def deprecateTarget (now : Instant) (store : RegistryStore) (target : RegistryTarget)
    (message : Option String) (replacement : Option RegistryTarget) :
    Except PyException (RegistryStore × RegistryDescriptor) := do
  let record ← store.recordForTarget target
  match replacement with
  | some replacement => store.validateReplacement target replacement
  | none => pure ()
  match store.dependent? target with
  | some lifecycle =>
      throw (conflictError
        s!"cannot deprecate active replacement {target.ref}; repoint dependent {lifecycle.target.ref} first")
  | none =>
      let store := store.assignLifecycle record target.feature now
        ⟨assignDeprecated message replacement now, fun _ => rfl, fun _ => rfl⟩
      return (store, store.descriptor target record)

/-- `Registry.reactivate`. -/
def reactivate (now : Instant) (store : RegistryStore) (target : RegistryTarget) :
    Except PyException (RegistryStore × RegistryDescriptor) := do
  let record ← store.recordForTarget target
  let store :=
    if (store.lifecycle record target.feature).isSome then
      { store with
        lifecycles := store.lifecycles.modify (record.identity, target.feature)
          ⟨assignActive now, fun _ => rfl, fun _ => rfl⟩ }
    else store
  return (store, store.descriptor target record)

end RegistryStore

/-- What is used of `validate_target`: views have a version and nothing else has one,
features are those of views, and no text is empty. -/
def RegistryTarget.Valid (target : RegistryTarget) : Prop :=
  (target.version.isSome = true ↔ target.kind = .featureView) ∧ target.version ≠ some "" ∧
    (target.feature.isSome = true → target.kind = .featureView) ∧ target.feature ≠ some ""

instance (target : RegistryTarget) : Decidable target.Valid :=
  inferInstanceAs (Decidable (_ ∧ _ ∧ _ ∧ _))

/-- A target that its model has validated. -/
abbrev ValidTarget := { target : RegistryTarget // target.Valid }

theorem objectTarget_valid {kind : RegistryObjectKind} (h : kind ≠ .featureView) (name : String) :
    (objectTarget kind name).Valid :=
  ⟨iff_of_false nofun h, nofun, nofun, nofun⟩

theorem viewTarget_valid {version : String} {feature : Option String} (hversion : version ≠ "")
    (hfeature : feature ≠ some "") (name : String) : (viewTarget name version feature).Valid :=
  ⟨iff_of_true rfl rfl, fun h => hversion (Option.some.inj h), fun _ => rfl, hfeature⟩

theorem entityTarget_valid (name : String) : (objectTarget .entity name).Valid :=
  objectTarget_valid (by decide) name

/-- The calls that change the registry. -/
inductive RegistryCall
  | apply (manifest : RegistryManifest)
  | patchMetadata (target : ValidTarget) (patch : RegistryMetadataPatch)
  | deprecateTarget (target : ValidTarget) (message : Option String)
      (replacement : Option ValidTarget)
  | reactivate (target : ValidTarget)
deriving Repr

/-- The store after a call, which a raising call leaves as it was. -/
def RegistryStore.call (sha256 : String → String) (store : RegistryStore) (now : Instant) :
    RegistryCall → RegistryStore
  | .apply manifest => ((store.apply sha256 now manifest).map (·.1)).toOption.getD store
  | .patchMetadata target patch =>
      ((store.patchMetadata now target.1 patch).map (·.1)).toOption.getD store
  | .deprecateTarget target message replacement =>
      ((store.deprecateTarget now target.1 message (replacement.map (·.1))).map
        (·.1)).toOption.getD store
  | .reactivate target => ((store.reactivate now target.1).map (·.1)).toOption.getD store

end FeatureStore
