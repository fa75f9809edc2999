import FeatureStore.RegistryIntegrity

/-!
# Metadata patches over the SDK

The client dumps a patch as JSON, the server parses it, and which fields were set is
part of a patch. The dump writes every field, so the parsed patch sets all of them.
JSON texts are left out: the body is the value that they carry.
-/

namespace FeatureStore

open Relational

/-- `str.isspace` of one character. -/
def isSpace (c : Char) : Bool :=
  let n := c.toNat
  (decide (9 ≤ n) && decide (n ≤ 13)) || (decide (28 ≤ n) && decide (n ≤ 32)) ||
    (decide (8192 ≤ n) && decide (n ≤ 8202)) ||
    [133, 160, 5760, 8232, 8233, 8239, 8287, 12288].contains n

/-- `not text.strip()`. -/
def isBlank (text : String) : Bool := text.toList.all isSpace

/-- The first error of a failed validation. -/
def validationError (message : String) : PyException := ⟨.validation, message⟩

/-- Go on if a check holds. -/
def require (check : Prop) [Decidable check] (message : String) : Except PyException Unit :=
  if check then .ok () else .error (validationError message)

section Validators

-- The scheme and the network location that `urlparse` finds, unless it raises.
variable (urlparse : String → Option (String × String))

def validateOwners (owners : List String) : Except PyException Unit := do
  require (owners.length ≤ 100 ∧ ∀ owner ∈ owners, isBlank owner = false ∧ owner.length ≤ 256)
    "owners must contain 100 or fewer non-empty strings"
  require owners.Nodup "owners must be unique"

def validateTags (tags : List (String × String)) : Except PyException Unit :=
  require (tags.length ≤ 100 ∧ ∀ tag ∈ tags,
      isBlank tag.1 = false ∧ tag.1.length ≤ 128 ∧ tag.2.length ≤ 512)
    "tags must contain 100 or fewer bounded string pairs"

def validateLinks (links : List String) : Except PyException Unit := do
  require (links.length ≤ 100 ∧ links.Nodup)
    "documentation links must be unique and contain at most 100 URLs"
  require (∀ link ∈ links, (urlparse link).any (fun parsed =>
      decide (parsed.1 ∈ ["http", "https"] ∧ parsed.2 ≠ "")) = true ∧ link.length ≤ 2048)
    "documentation links must be HTTP(S) URLs"

/-- Check a value unless it is `None`. -/
def unlessNone {α : Type} (validate : α → Except PyException Unit) :
    Option α → Except PyException Unit
  | none => .ok ()
  | some value => validate value

/-- `_validate_metadata_values`. -/
def validateMetadataValues (owners : Option (List String))
    (tags : Option (List (String × String))) (documentationLinks : Option (List String)) :
    Except PyException Unit := do
  unlessNone validateOwners owners
  unlessNone validateTags tags
  unlessNone (validateLinks urlparse) documentationLinks

namespace RegistryMetadataPatch

/-- `bool(model_fields_set)`. -/
def setsField (patch : RegistryMetadataPatch) : Prop :=
  patch.owners ≠ none ∨ patch.tags ≠ none ∨ patch.documentationLinks ≠ none

instance (patch : RegistryMetadataPatch) : Decidable patch.setsField :=
  inferInstanceAs (Decidable (_ ∨ _ ∨ _))

/-- `validate_patch`: an unset field has the value `None`. -/
def validate (patch : RegistryMetadataPatch) : Except PyException Unit := do
  require patch.setsField "metadata patch must set at least one field"
  validateMetadataValues urlparse (patch.owners.getD none) (patch.tags.getD none)
    (patch.documentationLinks.getD none)

end RegistryMetadataPatch

/-- A patch that its model has validated. -/
abbrev ValidPatch := { patch : RegistryMetadataPatch // patch.validate urlparse = .ok () }

/-- `RegistryMetadataUpdate`. -/
structure RegistryMetadataUpdate where
  target : ValidTarget
  patch : ValidPatch urlparse

end Validators

section Dump

def RegistryTarget.dump (target : RegistryTarget) : Value :=
  .dict [("kind", .str target.kind.value), ("name", .str target.name),
    ("version", optionValue .str target.version), ("feature", optionValue .str target.feature)]

/-- Unset fields are dumped as their value `None`. -/
def RegistryMetadataPatch.dump (patch : RegistryMetadataPatch) : Value :=
  .dict [
    ("owners", optionValue (fun owners => .list (owners.map .str)) (patch.owners.getD none)),
    ("tags", optionValue (fun tags => .dict (tags.map fun tag => (tag.1, .str tag.2)))
      (patch.tags.getD none)),
    ("documentation_links", optionValue (fun links => .list (links.map .str))
      (patch.documentationLinks.getD none))]

/-- `update.model_dump(mode="json")`. -/
def RegistryMetadataUpdate.dump {urlparse : String → Option (String × String)}
    (update : RegistryMetadataUpdate urlparse) : Value :=
  .dict [("target", update.target.1.dump), ("patch", update.patch.1.dump)]

end Dump

section Parse

def readStr : Value → Except PyException String
  | .str text => .ok text
  | _ => .error (validationError "Input should be a valid string")

def readOptional {α : Type} (read : Value → Except PyException α) :
    Value → Except PyException (Option α)
  | .null => .ok none
  | value => (read value).map some

def readList {α : Type} (read : Value → Except PyException α) :
    Value → Except PyException (List α)
  | .list items => items.mapM read
  | _ => .error (validationError "Input should be a valid list")

def readDict {α : Type} (read : Value → Except PyException α) :
    Value → Except PyException (List (String × α))
  | .dict members => members.mapM fun member => (read member.2).map fun value => (member.1, value)
  | _ => .error (validationError "Input should be a valid dictionary")

/-- The members of an object without other keys than the given ones. -/
def readModel (fields : List String) : Value → Except PyException Dict
  | .dict members => do
      require (∀ member ∈ members, member.1 ∈ fields) "Extra inputs are not permitted"
      return members
  | _ => .error (validationError "Input should be a valid dictionary")

def readRequired (members : Dict) (field : String) : Except PyException Value :=
  match members.lookup field with
  | some value => .ok value
  | none => .error (validationError "Field required")

def readKind (value : Value) : Except PyException RegistryObjectKind := do
  let text ← readStr value
  match [RegistryObjectKind.entity, .batchSource, .streamSource, .featureView,
      .featureService].find? fun kind => decide (kind.value = text) with
  | some kind => return kind
  | none => throw (validationError "Input should be a registry object kind")

/-- `RegistryTarget.model_validate`. -/
def RegistryTarget.parse (value : Value) : Except PyException ValidTarget := do
  let members ← readModel ["kind", "name", "version", "feature"] value
  let kind ← readKind (← readRequired members "kind")
  let name ← readStr (← readRequired members "name")
  let version ← readOptional readStr ((members.lookup "version").getD .null)
  let feature ← readOptional readStr ((members.lookup "feature").getD .null)
  let target : RegistryTarget := ⟨kind, name, version, feature⟩
  if h : target.Valid then return ⟨target, h⟩
  else throw (validationError "invalid registry target")

variable (urlparse : String → Option (String × String))

/-- `RegistryMetadataPatch.model_validate`: the fields that are present are set. -/
def RegistryMetadataPatch.parse (value : Value) : Except PyException (ValidPatch urlparse) := do
  let members ← readModel ["owners", "tags", "documentation_links"] value
  let owners ← (members.lookup "owners").mapM (readOptional (readList readStr))
  let tags ← (members.lookup "tags").mapM (readOptional (readDict readStr))
  let documentationLinks ←
    (members.lookup "documentation_links").mapM (readOptional (readList readStr))
  let patch : RegistryMetadataPatch := ⟨owners, tags, documentationLinks⟩
  match h : patch.validate urlparse with
  | .ok () => return ⟨patch, h⟩
  | .error exc => throw exc

/-- `accept_flat_patch`. -/
def acceptFlatPatch : Value → Value
  | .dict members =>
      let fields := ["owners", "tags", "documentation_links"].filterMap fun key =>
        (members.lookup key).map fun value => (key, value)
      if (members.lookup "patch").isNone ∧ fields ≠ [] then
        .dict [("target", (members.lookup "target").getD .null), ("patch", .dict fields)]
      else .dict members
  | value => value

/-- `RegistryMetadataUpdate.model_validate`. -/
def RegistryMetadataUpdate.parse (value : Value) :
    Except PyException (RegistryMetadataUpdate urlparse) := do
  let members ← readModel ["target", "patch"] (acceptFlatPatch value)
  let target ← RegistryTarget.parse (← readRequired members "target")
  let patch ← RegistryMetadataPatch.parse urlparse (← readRequired members "patch")
  return ⟨target, patch⟩

end Parse

/-- `FeatureStoreClient.patch_registry_metadata` up to the response: the server parses the
body and calls `Registry.patch_metadata`. -/
def sdkPatchMetadata (urlparse : String → Option (String × String)) (now : Instant)
    (store : RegistryStore) (target : ValidTarget) (patch : ValidPatch urlparse) :
    Except PyException (RegistryStore × RegistryDescriptor) := do
  let update ← RegistryMetadataUpdate.parse urlparse
    (RegistryMetadataUpdate.dump ⟨target, patch⟩)
  store.patchMetadata now update.target.1 update.patch.1

section RoundTrip

theorem mapM_map_ok {α β : Type} {dump : α → β} {read : β → Except PyException α}
    {items : List α} (h : ∀ a ∈ items, read (dump a) = .ok a) :
    (items.map dump).mapM read = .ok items := by
  induction items with
  | nil => rfl
  | cons a rest ih =>
      rw [List.map_cons, List.mapM_cons, h a List.mem_cons_self,
        ih fun b hb => h b (List.mem_cons_of_mem a hb)]
      rfl

theorem readList_map {α : Type} {dump : α → Value} {read : Value → Except PyException α}
    {items : List α} (h : ∀ a ∈ items, read (dump a) = .ok a) :
    readList read (.list (items.map dump)) = .ok items :=
  mapM_map_ok h

theorem readDict_map {α : Type} {dump : α → Value} {read : Value → Except PyException α}
    (h : ∀ a, read (dump a) = .ok a) (members : List (String × α)) :
    readDict read (.dict (members.map fun member => (member.1, dump member.2))) = .ok members := by
  apply mapM_map_ok
  intro member _
  rw [h]
  rfl

theorem readOptional_optionValue {α : Type} {dump : α → Value}
    {read : Value → Except PyException α} (h : ∀ a, read (dump a) = .ok a)
    (hnull : ∀ a, dump a ≠ .null) (value : Option α) :
    readOptional read (optionValue dump value) = .ok value := by
  cases value with
  | none => rfl
  | some a =>
      change readOptional read (dump a) = .ok (some a)
      rw [readOptional.eq_2 _ _ (hnull a), h]
      rfl

theorem readKind_value (kind : RegistryObjectKind) : readKind (.str kind.value) = .ok kind := by
  cases kind <;> rfl

theorem readModel_ok {fields : List String} {members : Dict}
    (h : ∀ member ∈ members, member.1 ∈ fields) :
    readModel fields (.dict members) = .ok members := by
  rw [readModel, require, if_pos h]
  rfl

theorem RegistryTarget.parse_dump (target : ValidTarget) :
    RegistryTarget.parse target.1.dump = .ok target := by
  obtain ⟨⟨kind, name, version, feature⟩, hvalid⟩ := target
  have htext := @readOptional_optionValue String Value.str readStr (fun _ => rfl) (fun _ => nofun)
  rw [RegistryTarget.parse, RegistryTarget.dump, readModel_ok (by simp)]
  simp [bind, Except.bind, readRequired, List.lookup_cons, readKind_value, readStr, htext, hvalid]
  rfl

/-- The patch that sets every field to the value that it has in the given one. -/
def RegistryMetadataPatch.filled (patch : RegistryMetadataPatch) : RegistryMetadataPatch :=
  ⟨some (patch.owners.getD none), some (patch.tags.getD none),
    some (patch.documentationLinks.getD none)⟩

variable {urlparse : String → Option (String × String)}

theorem RegistryMetadataPatch.validate_filled (patch : ValidPatch urlparse) :
    patch.1.filled.validate urlparse = .ok () := by
  have hsets : patch.1.filled.setsField := Or.inl (by simp [filled])
  have hvalid := patch.2
  unfold validate at hvalid ⊢
  rw [require, if_pos hsets]
  by_cases h : patch.1.setsField
  · rwa [require, if_pos h] at hvalid
  · rw [require, if_neg h] at hvalid
    cases hvalid

/-- The parsed dump of a patch sets every field. -/
theorem RegistryMetadataPatch.parse_dump (patch : ValidPatch urlparse) :
    RegistryMetadataPatch.parse urlparse patch.1.dump =
      .ok ⟨patch.1.filled, RegistryMetadataPatch.validate_filled patch⟩ := by
  have hlist : ∀ items, readList readStr (.list (items.map Value.str)) = .ok items :=
    fun _ => readList_map fun _ _ => rfl
  have htexts := readOptional_optionValue hlist fun _ => nofun
  have htags := readOptional_optionValue (@readDict_map String Value.str readStr fun _ => rfl)
    fun _ => nofun
  rw [RegistryMetadataPatch.parse, RegistryMetadataPatch.dump, readModel_ok (by simp)]
  simp [bind, Except.bind, List.lookup_cons, htexts, htags]
  split
  · rfl
  · rename_i exc herror
    have hvalid := RegistryMetadataPatch.validate_filled patch
    rw [filled, herror] at hvalid
    cases hvalid

theorem acceptFlatPatch_nested {members : Dict}
    (h : (members.lookup "patch").isNone = false) :
    acceptFlatPatch (.dict members) = .dict members := by
  rw [acceptFlatPatch]
  exact if_neg fun hflat => by simp [h] at hflat

/-- Over the SDK the server patches with every field set. -/
theorem sdkPatchMetadata_eq (now : Instant) (store : RegistryStore) (target : ValidTarget)
    (patch : ValidPatch urlparse) :
    sdkPatchMetadata urlparse now store target patch =
      store.patchMetadata now target.1 patch.1.filled := by
  have hdump : (RegistryMetadataUpdate.dump ⟨target, patch⟩ : Value) =
      .dict [("target", target.1.dump), ("patch", patch.1.dump)] := rfl
  rw [sdkPatchMetadata, RegistryMetadataUpdate.parse, hdump, acceptFlatPatch_nested rfl,
    readModel_ok (by simp)]
  simp [bind, Except.bind, readRequired, List.lookup_cons, RegistryTarget.parse_dump,
    RegistryMetadataPatch.parse_dump, pure, Except.pure]

end RoundTrip

section Effect

variable {store : RegistryStore} {target : RegistryTarget} {record : RegistryRecord}
  {patch : RegistryMetadataPatch} {now : Instant}

/-- The stored value of every field that the patch leaves unset is empty. -/
def UnsetEmpty (store : RegistryStore) (target : RegistryTarget)
    (patch : RegistryMetadataPatch) : Prop :=
  ∀ record, store.recordForTarget target = .ok record →
    ∀ lifecycle, store.lifecycle record target.feature = some lifecycle →
      (patch.owners = none → lifecycle.owners = []) ∧ (patch.tags = none → lifecycle.tags = []) ∧
        (patch.documentationLinks = none → lifecycle.documentationLinks = [])

/-- An unset field keeps its value, and a set one takes the value of the patch. -/
theorem patchMetadata_metadata {result : RegistryStore × RegistryDescriptor}
    (hrecord : store.recordForTarget target = .ok record)
    (h : store.patchMetadata now target patch = .ok result) :
    result.2.metadata =
      ⟨patch.owners.elim ((store.lifecycle record target.feature).elim [] (·.owners)) (·.getD []),
        patch.tags.elim ((store.lifecycle record target.feature).elim [] (·.tags)) (·.getD []),
        patch.documentationLinks.elim
          ((store.lifecycle record target.feature).elim [] (·.documentationLinks))
            (·.getD [])⟩ := by
  rw [RegistryStore.patchMetadata, hrecord] at h
  cases h
  have hkey : (newLifecycle record target.feature now).key = (record.identity, target.feature) :=
    rfl
  simp only [RegistryStore.descriptor, RegistryStore.lifecycle, RegistryStore.assignLifecycle,
    find?_setLifecycle, hkey, if_true, Option.elim_some]
  cases store.lifecycles.find? (record.identity, target.feature) <;> rfl

/-- Patches that assign the same fields to the stored metadata have the same effect. -/
theorem patchMetadata_congr {other : RegistryMetadataPatch}
    (hrecord : store.recordForTarget target = .ok record)
    (hfresh : patch.assign now (newLifecycle record target.feature now) =
      other.assign now (newLifecycle record target.feature now))
    (hstored : ∀ lifecycle, store.lifecycle record target.feature = some lifecycle →
      patch.assign now lifecycle = other.assign now lifecycle) :
    store.patchMetadata now target patch = store.patchMetadata now target other := by
  have hlifecycles := @setLifecycle_congr store.lifecycles (newLifecycle record target.feature now)
    ⟨patch.assign now, fun _ => rfl, fun _ => rfl⟩ ⟨other.assign now, fun _ => rfl, fun _ => rfl⟩
    hfresh hstored
  rw [RegistryStore.patchMetadata, RegistryStore.patchMetadata, hrecord]
  simp only [bind, Except.bind, RegistryStore.assignLifecycle, hlifecycles]

theorem getD_none_eq_elim {α : Type} {field : Option (Option (List α))} {stored : List α}
    (h : field = none → stored = []) :
    (field.getD none).getD [] = field.elim stored (·.getD []) := by
  cases field with
  | none => exact (h rfl).symm
  | some value => rfl

theorem patchMetadata_error {exc : PyException} (h : store.recordForTarget target = .error exc) :
    store.patchMetadata now target patch = .error exc := by
  rw [RegistryStore.patchMetadata, h]
  rfl

/-- The patch of the client has the effect of the direct call exactly when every field
that it leaves unset is stored empty. -/
theorem sdk_patch_iff (urlparse : String → Option (String × String)) (now : Instant)
    (store : RegistryStore) (target : ValidTarget) (patch : ValidPatch urlparse) :
    sdkPatchMetadata urlparse now store target patch =
        store.patchMetadata now target.1 patch.1 ↔
      UnsetEmpty store target.1 patch.1 := by
  rw [sdkPatchMetadata_eq]
  cases hrecord : store.recordForTarget target.1 with
  | error exc =>
      rw [patchMetadata_error hrecord, patchMetadata_error hrecord]
      refine iff_of_true rfl fun record hfound => ?_
      rw [hrecord] at hfound
      cases hfound
  | ok record =>
      constructor
      · intro heq found hfound lifecycle hlifecycle
        obtain rfl := Except.ok.inj (hrecord.symm.trans hfound)
        obtain ⟨result, hresult⟩ : ∃ result,
            store.patchMetadata now target.1 patch.1 = .ok result := by
          rw [RegistryStore.patchMetadata, hrecord]
          exact ⟨_, rfl⟩
        have hdirect := patchMetadata_metadata hrecord hresult
        rw [patchMetadata_metadata hrecord (heq.trans hresult), hlifecycle] at hdirect
        simp only [RegistryMetadata.mk.injEq, RegistryMetadataPatch.filled, Option.elim_some]
          at hdirect
        refine ⟨fun hunset => ?_, fun hunset => ?_, fun hunset => ?_⟩
        · simpa [hunset] using hdirect.1.symm
        · simpa [hunset] using hdirect.2.1.symm
        · simpa [hunset] using hdirect.2.2.symm
      · intro hunset
        have hassign : ∀ lifecycle : RegistryLifecycleRecord,
            (patch.1.owners = none → lifecycle.owners = []) →
            (patch.1.tags = none → lifecycle.tags = []) →
            (patch.1.documentationLinks = none → lifecycle.documentationLinks = []) →
            patch.1.filled.assign now lifecycle = patch.1.assign now lifecycle := by
          intro lifecycle howners htags hlinks
          simp only [RegistryMetadataPatch.assign, RegistryMetadataPatch.filled, Option.elim_some,
            getD_none_eq_elim howners, getD_none_eq_elim htags, getD_none_eq_elim hlinks]
        apply patchMetadata_congr hrecord
        · exact hassign _ (fun _ => rfl) (fun _ => rfl) fun _ => rfl
        · intro lifecycle hlifecycle
          obtain ⟨howners, htags, hlinks⟩ := hunset record hrecord lifecycle hlifecycle
          exact hassign lifecycle howners htags hlinks

/-- An entity whose tags are set. -/
def taggedEntity : RegistryTarget := objectTarget .entity "account"

def taggedStore : RegistryStore :=
  let account : Manifest.Entity :=
    ⟨"account", [("account_id", .string)], List.nodup_singleton "account_id"⟩
  registryAfter id [(0, .apply ⟨[account], [], [], [], []⟩),
    (1, .patchMetadata ⟨taggedEntity, by decide⟩
      ⟨none, some (some [("tier", "critical")]), none⟩)]

/-- A patch of the owners alone clears the tags on its way over the SDK. -/
theorem tags_cleared_by_owners :
    ¬(∀ (urlparse : String → Option (String × String)) (now : Instant) (store : RegistryStore)
      (target : ValidTarget) (patch : ValidPatch urlparse),
      sdkPatchMetadata urlparse now store target patch =
        store.patchMetadata now target.1 patch.1) := by
  intro h
  have heq := h (fun _ => none) 2 taggedStore ⟨taggedEntity, by decide⟩
    ⟨⟨some (some ["fraud-team"]), none, none⟩, by decide⟩
  have htags := congrArg (fun result => result.toOption.map (·.2.metadata.tags)) heq
  revert htags
  decide +kernel

end Effect

end FeatureStore
