import FeatureStore.ReplacementLinks

/-!
# The lifecycle of a target as a fold

What the descriptor of a target shows is changed by successful calls on that target alone: its
metadata by the patches, its deprecation by the last deprecation or reactivation. The rest is that
of its record, which stays as it was first stored.
-/

namespace FeatureStore

open Relational Execution

/-- The set fields of a patch overwrite the metadata. -/
def RegistryMetadata.overwrite (metadata : RegistryMetadata) (patch : RegistryMetadataPatch) :
    RegistryMetadata where
  owners := patch.owners.elim metadata.owners (·.getD [])
  tags := patch.tags.elim metadata.tags (·.getD [])
  documentationLinks := patch.documentationLinks.elim metadata.documentationLinks (·.getD [])

/-- What a target shows that is neither deprecated nor patched. -/
def RegistryDeprecation.active : RegistryDeprecation := ⟨.active, none, none, none⟩

/-- The patch of a call on the target that succeeds. -/
def patchOn (target : ValidTarget) (store : RegistryStore) :
    Instant × RegistryCall → Option RegistryMetadataPatch
  | (now, .patchMetadata other patch) =>
      if other = target ∧ (store.patchMetadata now other.1 patch).isOk then some patch else none
  | (_, .apply _) | (_, .deprecateTarget _ _ _) | (_, .reactivate _) => none

/-- The effect of a deprecation or reactivation of the target that succeeds. -/
def deprecationOn (target : ValidTarget) (store : RegistryStore) :
    Instant × RegistryCall → Option RegistryDeprecation
  | (now, .deprecateTarget other message replacement) =>
      if other = target ∧
          (store.deprecateTarget now other.1 message (replacement.map (·.1))).isOk then
        some ⟨.deprecated, some now, message, replacement.map (·.1)⟩
      else none
  | (now, .reactivate other) =>
      if other = target ∧ (store.reactivate now other.1).isOk then some .active else none
  | (_, .apply _) | (_, .patchMetadata _ _) => none

/-- The metadata columns of a row, or their values without a row. -/
def metadataColumns (lifecycle : Option RegistryLifecycleRecord) : RegistryMetadata :=
  ⟨lifecycle.elim [] (·.owners), lifecycle.elim [] (·.tags),
    lifecycle.elim [] (·.documentationLinks)⟩

/-- The deprecation columns of a row, or their values without a row. -/
def deprecationColumns (lifecycle : Option RegistryLifecycleRecord) : RegistryDeprecation :=
  ⟨lifecycle.elim .active (·.status), lifecycle.bind (·.deprecatedAt),
    lifecycle.bind (·.deprecationMessage), lifecycle.bind (·.replacement)⟩

namespace RegistryStore

variable {sha256 : String → String} {store after : RegistryStore} {now : Instant}
  {call : RegistryCall} {target other : ValidTarget} {record : RegistryRecord}

/-- The lifecycle row of a target. -/
def rowOf (store : RegistryStore) (target : ValidTarget) : Option RegistryLifecycleRecord :=
  store.lifecycles.find? target.1.key

/-- The descriptor of a target that is found, by what it depends on. -/
theorem describe_ok {descriptor : RegistryDescriptor}
    (h : store.describe target.1 = .ok descriptor) :
    ∃ record, store.recordForTarget target.1 = .ok record ∧
      descriptor.spec = specOf record target.1.feature ∧
      descriptor.fingerprint = record.fingerprint ∧
      descriptor.provenance = ⟨record.createdAt, record.fingerprint⟩ ∧
      descriptor.metadata = metadataColumns (store.rowOf target) ∧
      descriptor.deprecation = deprecationColumns (store.rowOf target) := by
  rw [describe] at h
  cases hrecord : store.recordForTarget target.1 with
  | error exc =>
      rw [hrecord] at h
      cases h
  | ok record =>
      rw [hrecord] at h
      obtain rfl := Except.ok.inj h
      have hrow : store.lifecycle record target.1.feature = store.rowOf target :=
        find?_of_record hrecord target.1.feature
      refine ⟨record, rfl, rfl, rfl, rfl, ?_, ?_⟩
      · rw [descriptor, hrow, metadataColumns]
      · rw [descriptor, hrow, deprecationColumns]

theorem key_eq_iff : target.1.key = other.1.key ↔ target = other :=
  ⟨fun h => Subtype.ext (target.2.eq_of_key other.2 h), fun h => by rw [h]⟩

/-- An assignment to the row of a target leaves the rows of the others. -/
theorem rowOf_assignLifecycle (h : store.recordForTarget other.1 = .ok record)
    (a : Assignment RegistryLifecycleRecord.key RegistryLifecycleRecord.key) :
    (store.assignLifecycle record other.1.feature now a).rowOf target =
      if other = target then
        some (a.set ((store.rowOf target).getD (newLifecycle record target.1.feature now)))
      else store.rowOf target := by
  have hfresh : (newLifecycle record other.1.feature now).key = other.1.key := by
    rw [RegistryTarget.key, ← recordForTarget_identity h]
    rfl
  rw [rowOf, assignLifecycle, find?_setLifecycle, hfresh]
  by_cases heq : other = target
  · rw [if_pos heq, if_pos (by rw [heq]), heq, rowOf]
  · rw [if_neg heq, if_neg (fun hkey => heq (key_eq_iff.mp hkey).symm), rowOf]

theorem rowOf_reactivate (h : store.recordForTarget other.1 = .ok record)
    (a : Assignment RegistryLifecycleRecord.key RegistryLifecycleRecord.key) :
    rowOf { store with
        lifecycles := store.lifecycles.modify (record.identity, other.1.feature) a } target =
      if other = target then (store.rowOf target).map a.set else store.rowOf target := by
  have hkey : (record.identity, other.1.feature) = other.1.key := by
    rw [RegistryTarget.key, ← recordForTarget_identity h]
  rw [rowOf, hkey, Table.find?_modify]
  by_cases heq : other = target
  · rw [if_pos heq, if_pos (by rw [heq]), heq, rowOf]
  · rw [if_neg heq, if_neg (fun hkey => heq (key_eq_iff.mp hkey).symm), rowOf]

/-- The reactivation of a target that is found succeeds, and has nothing to do without a row. -/
theorem reactivate_rowOf (now : Instant) (target : ValidTarget)
    (h : store.recordForTarget other.1 = .ok record) :
    ∃ result, store.reactivate now other.1 = .ok result ∧
      result.1.rowOf target =
        if other = target then (store.rowOf target).map (assignActive now)
        else store.rowOf target := by
  rw [reactivate, h]
  refine ⟨_, rfl, ?_⟩
  have hrow : store.lifecycle record other.1.feature = store.rowOf other :=
    find?_of_record h other.1.feature
  rw [hrow]
  cases hother : store.rowOf other with
  | some row =>
      exact rowOf_reactivate h ⟨assignActive now, fun _ => rfl, fun _ => rfl⟩
  | none =>
      by_cases heq : other = target
      · rw [if_pos heq, ← heq, hother]
        exact hother
      · rw [if_neg heq]
        rfl

end RegistryStore

section Changes

variable {sha256 : String → String} {store : RegistryStore} {now : Instant}
  {target : ValidTarget} {row row' : Option RegistryLifecycleRecord}
  {patch : Option RegistryMetadataPatch} {effect : Option RegistryDeprecation}

/-- What a call makes of the lifecycle row of a target, with what is observed of the call. -/
inductive RowChange (now : Instant) (row : Option RegistryLifecycleRecord) :
    Option RegistryMetadataPatch → Option RegistryDeprecation →
      Option RegistryLifecycleRecord → Prop
  | kept : RowChange now row none none row
  | patched (patch : RegistryMetadataPatch) (record : RegistryRecord) (feature : Option String) :
      RowChange now row (some patch) none
        (some (patch.assign now (row.getD (newLifecycle record feature now))))
  | deprecated (message : Option String) (replacement : Option RegistryTarget)
      (record : RegistryRecord) (feature : Option String) :
      RowChange now row none (some ⟨.deprecated, some now, message, replacement⟩)
        (some (assignDeprecated message replacement now
          (row.getD (newLifecycle record feature now))))
  | reactivated : RowChange now row none (some .active) (row.map (assignActive now))

theorem RowChange.metadata (h : RowChange now row patch effect row') :
    metadataColumns row' = patch.elim (metadataColumns row) (metadataColumns row).overwrite := by
  cases h with
  | kept => rfl
  | patched => cases row <;> rfl
  | deprecated => cases row <;> rfl
  | reactivated => cases row <;> rfl

theorem RowChange.deprecation (h : RowChange now row patch effect row') :
    deprecationColumns row' = effect.elim (deprecationColumns row) id := by
  cases h with
  | kept => rfl
  | patched => cases row <;> rfl
  | deprecated => cases row <;> rfl
  | reactivated => cases row <;> rfl

/-- Calls on other targets and calls that raise keep the row of a target. -/
theorem rowChange_call (sha256 : String → String) (store : RegistryStore) (target : ValidTarget)
    (now : Instant) (call : RegistryCall) :
    RowChange now (store.rowOf target) (patchOn target store (now, call))
      (deprecationOn target store (now, call)) ((store.call sha256 now call).rowOf target) := by
  cases call with
  | apply manifest =>
      rw [RegistryStore.call, patchOn, deprecationOn]
      cases happly : store.apply sha256 now manifest with
      | error exc => exact .kept
      | ok result =>
          obtain ⟨-, -, records, hstore, -⟩ := RegistryStore.apply_ok happly
          change RowChange now _ none none (result.1.rowOf target)
          rw [hstore]
          exact .kept
  | patchMetadata other patch =>
      rw [RegistryStore.call, patchOn, deprecationOn]
      cases hpatch : store.patchMetadata now other.1 patch with
      | error exc =>
          rw [if_neg fun h => Bool.false_ne_true h.2]
          exact .kept
      | ok result =>
          obtain ⟨record, hfound, hstore⟩ := RegistryStore.patchMetadata_ok hpatch
          change RowChange now _ _ none (result.1.rowOf target)
          rw [hstore, RegistryStore.rowOf_assignLifecycle hfound]
          by_cases heq : other = target
          · rw [if_pos heq, if_pos ⟨heq, rfl⟩]
            exact .patched _ _ _
          · rw [if_neg heq, if_neg fun h => heq h.1]
            exact .kept
  | deprecateTarget other message replacement =>
      rw [RegistryStore.call, patchOn, deprecationOn]
      cases hdeprecate : store.deprecateTarget now other.1 message (replacement.map (·.1)) with
      | error exc =>
          rw [if_neg fun h => Bool.false_ne_true h.2]
          exact .kept
      | ok result =>
          obtain ⟨record, hfound, -, -, hstore⟩ := RegistryStore.deprecateTarget_ok hdeprecate
          change RowChange now _ none _ (result.1.rowOf target)
          rw [hstore, RegistryStore.rowOf_assignLifecycle hfound]
          by_cases heq : other = target
          · rw [if_pos heq, if_pos ⟨heq, rfl⟩]
            exact .deprecated _ _ _ _
          · rw [if_neg heq, if_neg fun h => heq h.1]
            exact .kept
  | reactivate other =>
      rw [RegistryStore.call, patchOn, deprecationOn]
      cases hrecord : store.recordForTarget other.1 with
      | error exc =>
          have hraises : store.reactivate now other.1 = .error exc := by
            rw [RegistryStore.reactivate, hrecord]
            rfl
          rw [hraises, if_neg fun h => Bool.false_ne_true h.2]
          exact .kept
      | ok record =>
          obtain ⟨result, hreactivate, hrow⟩ :=
            RegistryStore.reactivate_rowOf now target hrecord
          rw [hreactivate]
          change RowChange now _ none _ (result.1.rowOf target)
          rw [hrow]
          by_cases heq : other = target
          · rw [if_pos heq, if_pos ⟨heq, rfl⟩]
            exact .reactivated
          · rw [if_neg heq, if_neg fun h => heq h.1]
            exact .kept

end Changes

section Runs

variable {sha256 : String → String} {store : RegistryStore} {target : ValidTarget}
  {calls : List (Instant × RegistryCall)}

/-- The patches of a run that have succeeded on a target. -/
def patchesOn (sha256 : String → String) (target : ValidTarget) (store : RegistryStore)
    (calls : List (Instant × RegistryCall)) : List RegistryMetadataPatch :=
  observations (registryStep sha256) (patchOn target) store calls

/-- The effects of the deprecations and reactivations of a run that have succeeded on a target. -/
def deprecationsOn (sha256 : String → String) (target : ValidTarget) (store : RegistryStore)
    (calls : List (Instant × RegistryCall)) : List RegistryDeprecation :=
  observations (registryStep sha256) (deprecationOn target) store calls

theorem metadata_run (sha256 : String → String) (store : RegistryStore) (target : ValidTarget)
    (calls : List (Instant × RegistryCall)) :
    metadataColumns ((run (registryStep sha256) store calls).rowOf target) =
      (patchesOn sha256 target store calls).foldl RegistryMetadata.overwrite
        (metadataColumns (store.rowOf target)) :=
  view_run (patchOn target) (fun store => metadataColumns (store.rowOf target))
    RegistryMetadata.overwrite
    (fun store call => (rowChange_call sha256 store target call.1 call.2).metadata) store calls

theorem deprecation_run (sha256 : String → String) (store : RegistryStore) (target : ValidTarget)
    (calls : List (Instant × RegistryCall)) :
    deprecationColumns ((run (registryStep sha256) store calls).rowOf target) =
      (deprecationsOn sha256 target store calls).getLast?.getD
        (deprecationColumns (store.rowOf target)) := by
  rw [← foldl_overwrite]
  exact view_run (deprecationOn target) (fun store => deprecationColumns (store.rowOf target))
    (fun _ effect => effect)
    (fun store call => (rowChange_call sha256 store target call.1 call.2).deprecation) store calls

/-- A record outlives every run unchanged. -/
theorem run_find? {identity : RecordIdentity} {record : RegistryRecord}
    (h : store.records.find? identity = some record) (calls : List (Instant × RegistryCall)) :
    (run (registryStep sha256) store calls).records.find? identity = some record :=
  invariant (I := fun store : RegistryStore => store.records.find? identity = some record)
    (fun _ _ => call_find?) h calls

/-- The record under an identity as a run has first stored it, if it was not there before. -/
def FirstStored (sha256 : String → String) (store : RegistryStore)
    (calls : List (Instant × RegistryCall)) (identity : RecordIdentity) (record : RegistryRecord) :
    Prop :=
  store.records.find? identity = some record ∨
    ∃ before now manifest after object, calls = before ++ (now, .apply manifest) :: after ∧
      (run (registryStep sha256) store before).records.find? identity = none ∧
      object ∈ manifest.objects ∧ object.identity = identity ∧
      record = ⟨object, fingerprint sha256 object.spec, now⟩

/-- The only call that stores a record is an application, of an object of its manifest. -/
theorem stored_by_call {identity : RecordIdentity} {record : RegistryRecord} {now : Instant}
    {call : RegistryCall} (hnone : store.records.find? identity = none)
    (hsome : (store.call sha256 now call).records.find? identity = some record) :
    ∃ manifest object, call = .apply manifest ∧ object ∈ manifest.objects ∧
      object.identity = identity ∧ record = ⟨object, fingerprint sha256 object.spec, now⟩ := by
  have heffect := RegistryStore.call_effect sha256 now store call
  generalize store.call sha256 now call = after at heffect hsome
  cases heffect with
  | applied manifest records _ _ hrows =>
      obtain ⟨hmem, hkey⟩ := Table.find?_some_iff.mp hsome
      rw [hrows, List.mem_append, List.mem_map] at hmem
      rcases hmem with hold | ⟨object, hnew, rfl⟩
      · rw [Table.find?_some_iff.mpr ⟨hold, hkey⟩] at hnone
        cases hnone
      · exact ⟨manifest, object, rfl, List.mem_of_mem_filter hnew, hkey, rfl⟩
  | none | patched | deprecated | reactivated =>
      have hsame : store.records.find? identity = some record := hsome
      rw [hnone] at hsame
      cases hsame

/-- A record that a run ends with is the one that was first stored. -/
theorem firstStored {identity : RecordIdentity} {record : RegistryRecord}
    (h : (run (registryStep sha256) store calls).records.find? identity = some record) :
    FirstStored sha256 store calls identity record := by
  induction calls generalizing store with
  | nil => exact Or.inl h
  | cons call rest ih =>
      cases hfind : store.records.find? identity with
      | some stored =>
          have hkept : (run (registryStep sha256) store (call :: rest)).records.find? identity =
              some stored := run_find? hfind _
          exact Or.inl (hfind.trans (hkept.symm.trans h))
      | none =>
          rcases ih h with hfirst | ⟨before, now, manifest, after, object, rfl, hbefore, hstored⟩
          · obtain ⟨manifest, object, hcall, hstored⟩ := stored_by_call hfind hfirst
            exact Or.inr ⟨[], call.1, manifest, rest, object, by rw [← hcall]; rfl, hfind, hstored⟩
          · exact Or.inr ⟨call :: before, now, manifest, after, object, rfl, hbefore, hstored⟩

/-- What a target shows after any calls: the metadata fold the patches that have succeeded on
it, the deprecation is what the last deprecation or reactivation that has succeeded on it has
left, and the rest is that of its record as it was first stored. -/
theorem describe_fold {descriptor : RegistryDescriptor}
    (h : (run (registryStep sha256) store calls).describe target.1 = .ok descriptor) :
    descriptor.metadata =
        (patchesOn sha256 target store calls).foldl RegistryMetadata.overwrite
          (metadataColumns (store.rowOf target)) ∧
      descriptor.deprecation =
        (deprecationsOn sha256 target store calls).getLast?.getD
          (deprecationColumns (store.rowOf target)) ∧
      ∃ record, FirstStored sha256 store calls target.1.identity record ∧
        descriptor.spec = RegistryStore.specOf record target.1.feature ∧
        descriptor.fingerprint = record.fingerprint ∧
        descriptor.provenance = ⟨record.createdAt, record.fingerprint⟩ := by
  obtain ⟨record, hrecord, hspec, hfingerprint, hprovenance, hmetadata, hdeprecation⟩ :=
    RegistryStore.describe_ok h
  refine ⟨?_, ?_, record, firstStored (RegistryStore.recordForTarget_find? hrecord), hspec,
    hfingerprint, hprovenance⟩
  · rw [hmetadata, metadata_run]
  · rw [hdeprecation, deprecation_run]

/-- Calls on an entity and on a feature, of which the second one on the entity raises. -/
def accountCalls : List (Instant × RegistryCall) :=
  let account : ValidTarget := ⟨objectTarget .entity "account", entityTarget_valid "account"⟩
  let amount : ValidTarget := ⟨viewTarget "account_stats" "1.0.0" (some "amount"), amount_valid⟩
  [(0, .apply accountManifest), (1, .patchMetadata account ⟨some (some ["risk"]), none, none⟩),
    (2, .deprecateTarget account none (some account)), (3, .deprecateTarget amount none none),
    (4, .deprecateTarget account (some "closed") none)]

theorem describe_account :
    ∃ descriptor, (run (registryStep accountDigest) .empty accountCalls).describe
        (objectTarget .entity "account") = .ok descriptor ∧
      descriptor.metadata = ⟨["risk"], [], []⟩ ∧
      descriptor.deprecation = ⟨.deprecated, some 4, some "closed", none⟩ := by
  let account : ValidTarget := ⟨objectTarget .entity "account", by decide⟩
  have hfound : ((run (registryStep accountDigest) .empty accountCalls).describe
      account.1).isOk = true := by
    decide +kernel
  cases hdescribe : (run (registryStep accountDigest) .empty accountCalls).describe account.1 with
  | error exc =>
      rw [hdescribe] at hfound
      cases hfound
  | ok descriptor =>
      obtain ⟨hmetadata, hdeprecation, -⟩ := describe_fold hdescribe
      exact ⟨descriptor, rfl, hmetadata.trans (by decide +kernel),
        hdeprecation.trans (by decide +kernel)⟩

end Runs

end FeatureStore
