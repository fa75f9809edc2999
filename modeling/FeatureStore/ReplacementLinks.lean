import FeatureStore.Library.Redirects
import FeatureStore.RegistryIntegrity

/-!
# Replacements of deprecated targets

The lifecycle records store, for every validated target, whether it is active or
retired and what replaces it. The calls of the registry act on this as the library's
`retire` and `revive`, whose conditions `deprecate` checks.
-/

namespace FeatureStore

open Relational Redirects

namespace RegistryTarget

/-- The key of the lifecycle record of a target. -/
def key (target : RegistryTarget) : LifecycleKey := (target.identity, target.feature)

/-- A validated target is told by the key of its lifecycle record. -/
theorem Valid.eq_of_key {a b : RegistryTarget} (ha : a.Valid) (hb : b.Valid)
    (h : a.key = b.key) : a = b := by
  obtain ⟨kind, name, version, feature⟩ := a
  obtain ⟨kind', name', version', feature'⟩ := b
  simp only [key, identity, Prod.mk.injEq] at h
  obtain ⟨⟨rfl, rfl, hversion⟩, rfl⟩ := h
  have hsome : version.isSome = true ↔ version'.isSome = true := ha.1.trans hb.1.symm
  cases version with
  | none =>
      cases version' with
      | none => rfl
      | some _ => simp at hsome
  | some text =>
      cases version' with
      | none => simp at hsome
      | some text' => simpa using hversion

/-- The lifecycle record under the key of a validated target is of that target. -/
theorem Valid.target_eq {target : RegistryTarget} (h : target.Valid)
    {lifecycle : RegistryLifecycleRecord} (hkey : lifecycle.key = target.key) :
    lifecycle.target = target := by
  obtain ⟨hrecord, hfeature⟩ := Prod.mk.inj hkey
  obtain ⟨kind, name, version, feature⟩ := target
  rw [RegistryLifecycleRecord.target, hrecord, hfeature]
  cases version with
  | none => rfl
  | some text =>
      have hne : text ≠ "" := fun heq => h.2.1 (congrArg some heq)
      simp [identity, hne]

theorem Valid.hasFeature {target : RegistryTarget} (h : target.Valid) :
    RegistryStore.hasFeature target = target.feature.isSome := by
  have hne := h.2.2.2
  unfold RegistryStore.hasFeature
  cases hfeature : target.feature with
  | none => rfl
  | some feature =>
      rw [hfeature] at hne
      simpa using fun heq => hne (congrArg some heq)

end RegistryTarget

namespace RegistryStore

variable {store : RegistryStore} {target other : RegistryTarget} {record : RegistryRecord}

/-- The record of a target, by what it depends on. -/
theorem recordForTarget_eq (store : RegistryStore) (target : RegistryTarget) :
    store.recordForTarget target =
      match store.records.find? target.identity with
      | none =>
          let suffix := versionSuffix (target.version.getD "")
          .error ⟨.registryNotFound, s!"unknown {target.kind.value}: {target.name}{suffix}"⟩
      | some record =>
          match target.feature with
          | none => .ok record
          | some feature =>
              match record.object.view? with
              | none => .error ⟨.validation, "validation error for FeatureView"⟩
              | some view =>
                  if (view.features.map (·.name)).contains feature then .ok record
                  else .error ⟨.registryNotFound, s!"unknown feature: {target.ref}"⟩ := by
  unfold recordForTarget RegistryStore.get RegistryTarget.identity
  cases store.records.find? (target.kind, target.name, target.version.getD "") with
  | none => rfl
  | some record =>
      cases target.feature with
      | none => rfl
      | some feature =>
          cases hview : record.object.view? with
          | none =>
              have hof : viewOf record =
                  .error ⟨.validation, "validation error for FeatureView"⟩ := by rw [viewOf, hview]
              simp only [bind, Except.bind, hof, hview]
          | some view =>
              have hof : viewOf record = .ok view := by rw [viewOf, hview]
              simp only [bind, Except.bind, hof, hview]
              rfl

theorem recordForTarget_find? (h : store.recordForTarget target = .ok record) :
    store.records.find? target.identity = some record := by
  rw [recordForTarget_eq] at h
  cases hfind : store.records.find? target.identity with
  | none =>
      rw [hfind] at h
      cases h
  | some found =>
      simp only [hfind] at h
      split at h
      · cases h
        rfl
      · split at h
        · cases h
        · split at h <;> cases h
          rfl

/-- A target that is not found is no conflict. -/
theorem recordForTarget_error {exc : PyException} (h : store.recordForTarget target = .error exc) :
    exc.cls ≠ .registryConflict := by
  rw [recordForTarget_eq] at h
  split at h
  · cases h
    exact nofun
  · split at h
    · cases h
    · split at h
      · cases h
        exact nofun
      · split at h <;> cases h
        exact nofun

theorem recordForTarget_identity (h : store.recordForTarget target = .ok record) :
    record.identity = target.identity :=
  Table.key_of_find? (recordForTarget_find? h)

/-- A target is found where its record is stored. -/
theorem recordForTarget_congr {after : RegistryStore}
    (h : after.records.find? target.identity = store.records.find? target.identity) :
    after.recordForTarget target = store.recordForTarget target := by
  rw [recordForTarget_eq, recordForTarget_eq, h]

theorem recordForTarget_call {sha256 : String → String} {now : Instant} {call : RegistryCall}
    (h : store.recordForTarget target = .ok record) :
    (store.call sha256 now call).recordForTarget target = .ok record := by
  have hfind := recordForTarget_find? h
  rw [recordForTarget_congr (by rw [hfind, call_find? hfind]), h]

/-- The view of a feature target that is found is found. -/
theorem recordForTarget_parent (h : store.recordForTarget target = .ok record)
    (hidentity : other.identity = target.identity) (hfeature : other.feature = none) :
    store.recordForTarget other = .ok record := by
  rw [recordForTarget_eq, hidentity, recordForTarget_find? h]
  simp only [hfeature]

/-- The status and replacement columns of a target, or their values without a row. -/
def columns (store : RegistryStore) (key : LifecycleKey) :
    RegistryLifecycleStatus × Option RegistryTarget :=
  ((store.lifecycles.find? key).elim .active (·.status),
    (store.lifecycles.find? key).bind (·.replacement))

/-- An assignment acts on the columns of its target and leaves the others. -/
theorem columns_assignLifecycle {feature : Option String} {now : Instant} {key : LifecycleKey}
    {a : Assignment RegistryLifecycleRecord.key RegistryLifecycleRecord.key}
    {f : RegistryLifecycleStatus × Option RegistryTarget →
      RegistryLifecycleStatus × Option RegistryTarget}
    (hf : ∀ row, ((a.set row).status, (a.set row).replacement) = f (row.status, row.replacement)) :
    (store.assignLifecycle record feature now a).columns key =
      if key = (record.identity, feature) then f (store.columns key) else store.columns key := by
  have hfresh : (newLifecycle record feature now).key = (record.identity, feature) := rfl
  rw [columns, assignLifecycle, find?_setLifecycle, hfresh]
  by_cases hkey : key = (record.identity, feature)
  · subst hkey
    simp only [columns]
    cases store.lifecycles.find? (record.identity, feature) with
    | none => exact hf _
    | some row => exact hf row
  · simp only [if_neg hkey, columns]

theorem columns_reactivate {now : Instant} {key key' : LifecycleKey} :
    columns { store with
      lifecycles := store.lifecycles.modify key' ⟨assignActive now, fun _ => rfl, fun _ => rfl⟩ }
        key = if key = key' then (.active, none) else store.columns key := by
  rw [columns, Table.find?_modify]
  by_cases hkey : key = key'
  · subst hkey
    simp only [↓reduceIte]
    cases store.lifecycles.find? key <;> rfl
  · simp only [if_neg hkey, columns]

end RegistryStore

/-- The columns that hold a standing. -/
def standingColumns : Standing ValidTarget → RegistryLifecycleStatus × Option RegistryTarget
  | .active => (.active, none)
  | .retired replacement => (.deprecated, replacement.map (·.1))

/-- The lifecycle records are those of validated targets and hold their standings. -/
structure Stores (store : RegistryStore) (standing : ValidTarget → Standing ValidTarget) :
    Prop where
  keyed : ∀ key, (store.lifecycles.find? key).isSome = true → ∃ target : ValidTarget,
    target.1.key = key
  columns : ∀ target : ValidTarget, store.columns target.1.key = standingColumns (standing target)

/-- A replacement is found, and matches its target in kind and feature granularity. -/
def Admits (store : RegistryStore) (target replacement : ValidTarget) : Prop :=
  (∃ record, store.recordForTarget replacement.1 = .ok record) ∧
    replacement.1.kind = target.1.kind ∧
    replacement.1.feature.isSome = target.1.feature.isSome

/-- The view of a feature target. -/
def parentView (target : ValidTarget) : Option ValidTarget :=
  if target.1.feature.isSome then
    some ⟨{ target.1 with feature := none }, target.2.1, target.2.2.1, by simp, by simp⟩
  else none

section Checks

variable {store : RegistryStore} {standing : ValidTarget → Standing ValidTarget}
  {target replacement : ValidTarget}

theorem Stores.active_iff (h : Stores store standing) :
    standing target = .active ↔
      ∀ lifecycle, store.lifecycles.find? target.1.key = some lifecycle →
        lifecycle.status = .active := by
  have hcolumns := h.columns target
  rw [RegistryStore.columns] at hcolumns
  cases hstanding : standing target with
  | active =>
      rw [hstanding] at hcolumns
      refine iff_of_true rfl fun lifecycle hfind => ?_
      rw [hfind] at hcolumns
      exact congrArg Prod.fst hcolumns
  | retired r =>
      rw [hstanding] at hcolumns
      refine iff_of_false nofun fun hall => ?_
      cases hfind : store.lifecycles.find? target.1.key with
      | none =>
          rw [hfind] at hcolumns
          cases congrArg Prod.fst hcolumns
      | some lifecycle =>
          rw [hfind] at hcolumns
          have hstatus : lifecycle.status = .deprecated := congrArg Prod.fst hcolumns
          rw [hall lifecycle hfind] at hstatus
          cases hstatus

/-- A stored replacement is a link, and the target of the row is retired. -/
theorem Stores.link_of_mem (h : Stores store standing) {lifecycle : RegistryLifecycleRecord}
    (hrow : lifecycle ∈ store.lifecycles.rows) {other : RegistryTarget}
    (hother : lifecycle.replacement = some other) :
    ∃ target replacement : ValidTarget, lifecycle.key = target.1.key ∧ other = replacement.1 ∧
      lifecycle.status = .deprecated ∧ Link standing target replacement := by
  have hfind := Table.find?_of_mem hrow
  obtain ⟨target, hkey⟩ := h.keyed _ (Option.isSome_iff_exists.mpr ⟨_, hfind⟩)
  have hcolumns := h.columns target
  rw [RegistryStore.columns, hkey, hfind] at hcolumns
  have hreplacement : lifecycle.replacement = (standingColumns (standing target)).2 :=
    congrArg Prod.snd hcolumns
  have hstatus : lifecycle.status = (standingColumns (standing target)).1 :=
    congrArg Prod.fst hcolumns
  rw [hother] at hreplacement
  cases hstanding : standing target with
  | active =>
      rw [hstanding] at hreplacement
      cases hreplacement
  | retired r =>
      rw [hstanding] at hreplacement hstatus
      cases r with
      | none => cases hreplacement
      | some r => exact ⟨target, r, hkey.symm, Option.some.inj hreplacement, hstatus, hstanding⟩

/-- A link is the stored replacement of a deprecated target. -/
theorem Stores.mem_of_link (h : Stores store standing) (hlink : Link standing target replacement) :
    ∃ lifecycle ∈ store.lifecycles.rows, lifecycle.key = target.1.key ∧
      lifecycle.status = .deprecated ∧ lifecycle.replacement = some replacement.1 := by
  have hcolumns := h.columns target
  rw [hlink, RegistryStore.columns] at hcolumns
  cases hfind : store.lifecycles.find? target.1.key with
  | none =>
      rw [hfind] at hcolumns
      cases congrArg Prod.fst hcolumns
  | some lifecycle =>
      rw [hfind] at hcolumns
      obtain ⟨hrow, hkey⟩ := Table.find?_some_iff.mp hfind
      exact ⟨lifecycle, hrow, hkey, congrArg Prod.fst hcolumns, congrArg Prod.snd hcolumns⟩

/-- Without a dependent target no link leads to the target. -/
theorem Stores.not_link_of_dependent? (h : Stores store standing)
    (hnone : store.dependent? target.1 = none) (j : ValidTarget) : ¬Link standing j target := by
  intro hlink
  obtain ⟨lifecycle, hrow, -, hstatus, hreplacement⟩ := h.mem_of_link hlink
  have hfalse := List.find?_eq_none.mp hnone lifecycle hrow
  simp [hstatus, hreplacement] at hfalse

theorem find?_of_record {record : RegistryRecord} {other : RegistryTarget}
    (h : store.recordForTarget other = .ok record) (feature : Option String) :
    store.lifecycle record feature = store.lifecycles.find? (other.identity, feature) := by
  rw [RegistryStore.lifecycle, RegistryStore.recordForTarget_identity h]

/-- What `_validate_replacement` checks of a replacement. -/
theorem validateReplacement_ok (h : Stores store standing)
    (hok : store.validateReplacement target.1 replacement.1 = .ok ()) :
    standing replacement = .active ∧ replacement ≠ target ∧ Admits store target replacement ∧
      ∀ parent, parentView replacement = some parent → standing parent = .active := by
  unfold RegistryStore.validateReplacement at hok
  split at hok
  · cases hok
  rename_i hne
  split at hok
  · cases hok
  rename_i hmatch
  rw [not_or, not_ne_iff, not_ne_iff, replacement.2.hasFeature, target.2.hasFeature] at hmatch
  cases hrecord : store.recordForTarget replacement.1 with
  | error exc =>
      simp only [hrecord] at hok
      cases hok
  | ok record =>
      simp only [hrecord, find?_of_record hrecord] at hok
      split at hok
      · cases hok
      rename_i hdirect
      split at hok
      · cases hok
      rename_i hparent
      have hactive : ∀ other : RegistryLifecycleRecord, other.status ≠ .deprecated →
          other.status = .active := fun other hother => by
        cases hstatus : other.status with
        | active => rfl
        | deprecated => exact absurd hstatus hother
      refine ⟨h.active_iff.mpr fun lifecycle hfind => ?_, fun heq => hne (congrArg _ heq),
        ⟨⟨record, hrecord⟩, hmatch⟩, fun parent hview => ?_⟩
      · apply hactive
        intro hstatus
        change store.lifecycles.find? (replacement.1.identity, replacement.1.feature) = _ at hfind
        simp [hfind, hstatus] at hdirect
      · unfold parentView at hview
        split at hview
        · rename_i hsome
          cases hview
          apply h.active_iff.mpr
          intro lifecycle hfind
          apply hactive
          intro hstatus
          change store.lifecycles.find? (replacement.1.identity, none) = _ at hfind
          simp [hfind, hstatus, hsome] at hparent
        · cases hview

/-- The walk over replacements ends at an active replacement of another target. -/
theorem replacementWalk_active (h : Stores store standing)
    (hactive : standing replacement = .active)
    (hne : replacement ≠ target) {record : RegistryRecord}
    (hrecord : store.recordForTarget replacement.1 = .ok record) (rounds : Nat) :
    store.replacementWalk target.1 (rounds + 1) [] replacement.1 = .ok () := by
  have hcolumns : store.columns replacement.1.key = (.active, none) := by
    rw [h.columns, hactive]
    rfl
  have hnone : (store.lifecycles.find? (replacement.1.identity, replacement.1.feature)).bind
      (·.replacement) = none := congrArg Prod.snd hcolumns
  have hne' : replacement.1 ≠ target.1 := fun heq => hne (Subtype.ext heq)
  rw [RegistryStore.replacementWalk, if_neg (by simp), if_neg hne', hrecord]
  simp only [find?_of_record hrecord, hnone]

end Checks

section Calls

variable {sha256 : String → String} {store : RegistryStore} {now : Instant} {call : RegistryCall}
  {standing : ValidTarget → Standing ValidTarget}

/-- How a call moves the standings of the targets. -/
inductive Moves (store : RegistryStore) (standing : ValidTarget → Standing ValidTarget) :
    RegistryCall → (ValidTarget → Standing ValidTarget) → Prop
  | stay (call : RegistryCall) : Moves store standing call standing
  | retire (target : ValidTarget) (message : Option String) (replacement : Option ValidTarget)
      (valid : ∀ other, replacement = some other →
        store.validateReplacement target.1 other.1 = .ok ())
      (independent : store.dependent? target.1 = none) :
      Moves store standing (.deprecateTarget target message replacement)
        (retire standing target replacement)
  | revive (target : ValidTarget) :
      Moves store standing (.reactivate target) (revive standing target)

/-- The standings after an assignment to the columns of one target. -/
theorem Stores.update (h : Stores store standing) {after : RegistryStore} {target : ValidTarget}
    {moved : Standing ValidTarget}
    (hkeys : ∀ key, (after.lifecycles.find? key).isSome = true →
      key = target.1.key ∨ (store.lifecycles.find? key).isSome = true)
    (hcolumns : ∀ key, after.columns key =
      if key = target.1.key then standingColumns moved else store.columns key) :
    Stores after (Function.update standing target moved) := by
  constructor
  · intro key hkey
    rcases hkeys key hkey with rfl | hold
    · exact ⟨target, rfl⟩
    · exact h.keyed key hold
  · intro other
    rw [hcolumns, Function.update_apply]
    by_cases heq : other = target
    · rw [if_pos heq, if_pos (by rw [heq])]
    · have hne : other.1.key ≠ target.1.key := fun hkey =>
        heq (Subtype.ext (other.2.eq_of_key target.2 hkey))
      rw [if_neg heq, if_neg hne, h.columns]

theorem assignLifecycle_keys {record : RegistryRecord} {target : RegistryTarget}
    (hrecord : store.recordForTarget target = .ok record)
    {a : Assignment RegistryLifecycleRecord.key RegistryLifecycleRecord.key} (key : LifecycleKey)
    (hkey : ((store.assignLifecycle record target.feature now a).lifecycles.find? key).isSome =
      true) :
    key = target.key ∨ (store.lifecycles.find? key).isSome = true := by
  rw [RegistryStore.assignLifecycle, find?_setLifecycle] at hkey
  split at hkey
  · rename_i heq
    rw [RegistryTarget.key, ← RegistryStore.recordForTarget_identity hrecord]
    exact Or.inl heq
  · exact Or.inr hkey

/-- A deprecation retires its target. -/
theorem Stores.deprecated (h : Stores store standing) {target : ValidTarget}
    {record : RegistryRecord} (hfound : store.recordForTarget target.1 = .ok record)
    (message : Option String) (replacement : Option ValidTarget) :
    Stores (store.assignLifecycle record target.1.feature now
        ⟨assignDeprecated message (replacement.map (·.1)) now, fun _ => rfl, fun _ => rfl⟩)
      (retire standing target replacement) := by
  have hkey : target.1.key = (record.identity, target.1.feature) := by
    rw [RegistryTarget.key, RegistryStore.recordForTarget_identity hfound]
  apply h.update fun key hsome => assignLifecycle_keys hfound key hsome
  intro key
  rw [hkey]
  exact RegistryStore.columns_assignLifecycle
    (f := fun _ => standingColumns (.retired replacement)) fun _ => rfl

/-- Every call retires a target, revives one, or leaves all standings. -/
theorem call_moves (h : Stores store standing) :
    ∃ after, Stores (store.call sha256 now call) after ∧ Moves store standing call after := by
  have heffect := RegistryStore.call_effect sha256 now store call
  generalize store.call sha256 now call = result at heffect
  cases heffect with
  | none => exact ⟨standing, h, .stay _⟩
  | applied => exact ⟨standing, ⟨h.keyed, h.columns⟩, .stay _⟩
  | patched target patch record hfound =>
      have hcolumns : ∀ key, RegistryStore.columns
          (store.assignLifecycle record target.1.feature now
            ⟨patch.assign now, fun _ => rfl, fun _ => rfl⟩) key = store.columns key := by
        intro key
        rw [RegistryStore.columns_assignLifecycle (f := id) fun _ => rfl]
        exact ite_self _
      refine ⟨standing, ⟨fun key hsome => ?_, fun other => ?_⟩, .stay _⟩
      · rcases assignLifecycle_keys hfound key hsome with rfl | hold
        · exact ⟨target, rfl⟩
        · exact h.keyed key hold
      · rw [hcolumns, h.columns]
  | deprecated target message replacement record hfound hvalid hindependent =>
      exact ⟨retire standing target replacement, h.deprecated hfound message replacement,
        .retire _ _ _ hvalid hindependent⟩
  | reactivated target record hfound =>
      have hkey : target.1.key = (record.identity, target.1.feature) := by
        rw [RegistryTarget.key, RegistryStore.recordForTarget_identity hfound]
      refine ⟨revive standing target, ?_, .revive _⟩
      apply h.update
      · intro key hsome
        rw [Table.find?_modify] at hsome
        split at hsome
        · rename_i heq
          exact Or.inl (heq.trans hkey.symm)
        · exact Or.inr hsome
      · intro key
        rw [hkey]
        exact RegistryStore.columns_reactivate

theorem call_admits {target replacement : ValidTarget} (h : Admits store target replacement) :
    Admits (store.call sha256 now call) target replacement :=
  ⟨h.1.imp fun _ hrecord => RegistryStore.recordForTarget_call hrecord, h.2⟩

/-- The moves of a call keep the links sound. -/
theorem Moves.sound {after : ValidTarget → Standing ValidTarget} (h : Stores store standing)
    (hsound : Sound (Admits store) standing) (hmoves : Moves store standing call after) :
    Sound (Admits store) after := by
  cases hmoves with
  | stay => exact hsound
  | retire target message replacement hvalid hindependent =>
      apply hsound.retire (h.not_link_of_dependent? hindependent)
      intro other hother
      obtain ⟨hactive, hne, hadmits, -⟩ := validateReplacement_ok h (hvalid other hother)
      exact ⟨hactive, hne, hadmits⟩
  | revive target => exact hsound.revive

/-- A registry whose lifecycle records store standings with sound links. -/
def LinksSound (store : RegistryStore) : Prop :=
  ∃ standing, Stores store standing ∧ Sound (Admits store) standing

theorem empty_linksSound : LinksSound .empty :=
  ⟨fun _ => .active, ⟨fun _ h => (nomatch h), fun _ => rfl⟩, sound_active⟩

theorem call_linksSound (h : LinksSound store) : LinksSound (store.call sha256 now call) := by
  obtain ⟨standing, hstores, hsound⟩ := h
  obtain ⟨after, hafter, hmoves⟩ := @call_moves sha256 store now call standing hstores
  exact ⟨after, hafter, (hmoves.sound hstores hsound).mono call_admits⟩

theorem registryAfter_linksSound (sha256 : String → String)
    (calls : List (Instant × RegistryCall)) : LinksSound (registryAfter sha256 calls) :=
  Execution.invariant (fun _ _ => call_linksSound) empty_linksSound calls

/-- The replacement of a deprecated target is another active one of its kind and
granularity, which has no replacement itself. -/
structure SoundReplacement (store : RegistryStore) (lifecycle : RegistryLifecycleRecord)
    (replacement : RegistryTarget) : Prop where
  deprecated : lifecycle.status = .deprecated
  found : ∃ record, store.recordForTarget replacement = .ok record
  ne : replacement ≠ lifecycle.target
  kind : replacement.kind = lifecycle.target.kind
  granularity : RegistryStore.hasFeature replacement = RegistryStore.hasFeature lifecycle.target
  active : ∀ record, store.recordForTarget replacement = .ok record →
    ∀ other, store.lifecycle record replacement.feature = some other →
      other.status = .active ∧ other.replacement = none

theorem LinksSound.soundReplacement (h : LinksSound store) {lifecycle : RegistryLifecycleRecord}
    (hrow : lifecycle ∈ store.lifecycles.rows) {replacement : RegistryTarget}
    (hreplacement : lifecycle.replacement = some replacement) :
    SoundReplacement store lifecycle replacement := by
  obtain ⟨standing, hstores, hsound⟩ := h
  obtain ⟨target, other, hkey, rfl, hstatus, hlink⟩ := hstores.link_of_mem hrow hreplacement
  obtain ⟨hfound, hkind, hfeature⟩ := hsound.admitted hlink
  have htarget := target.2.target_eq hkey
  have hactive := hsound.active hlink
  constructor
  · exact hstatus
  · exact hfound
  · rw [htarget]
    exact fun heq => hsound.ne hlink (Subtype.ext heq)
  · rw [htarget, hkind]
  · rw [htarget, target.2.hasFeature, other.2.hasFeature, hfeature]
  · intro record hrecord row hrow
    rw [find?_of_record hrecord] at hrow
    refine ⟨hstores.active_iff.mp hactive row hrow, ?_⟩
    have hcolumns := hstores.columns other
    rw [hactive, RegistryStore.columns] at hcolumns
    have hnone : (store.lifecycles.find? other.1.key).bind (·.replacement) = none :=
      congrArg Prod.snd hcolumns
    rw [RegistryTarget.key, hrow] at hnone
    exact hnone

/-- The lifecycle-cycle errors of `_validate_replacement`. -/
def cycleErrors : List PyException :=
  [RegistryStore.conflictError "replacement chain contains a lifecycle cycle",
    RegistryStore.conflictError "replacement would create a lifecycle cycle"]

/-- The cycle errors continue with their own letters after the word that they share with
the others. -/
theorem conflictError_not_cycle {start : String} {c : Char} (hchar : start.toList[12]? = some c)
    (hc : c ≠ 'c' ∧ c ≠ 'w') (rest : String) :
    RegistryStore.conflictError (start ++ rest) ∉ cycleErrors := by
  intro hmem
  simp only [cycleErrors, RegistryStore.conflictError, List.mem_cons, List.not_mem_nil, or_false,
    PyException.mk.injEq, true_and] at hmem
  have hletter : (start ++ rest).toList[12]? = some c := by
    obtain ⟨hlt, -⟩ := List.getElem?_eq_some_iff.mp hchar
    rw [String.toList_append, List.getElem?_append_left hlt, hchar]
  rcases hmem with h | h
  · rw [h] at hletter
    exact hc.1 (Option.some.inj hletter).symm
  · rw [h] at hletter
    exact hc.2 (Option.some.inj hletter).symm

/-- No validation of a replacement meets a cycle. -/
theorem LinksSound.validateReplacement (h : LinksSound store) (target replacement : ValidTarget)
    {exc : PyException}
    (herror : store.validateReplacement target.1 replacement.1 = .error exc) :
    exc ∉ cycleErrors := by
  obtain ⟨standing, hstores, -⟩ := h
  unfold RegistryStore.validateReplacement at herror
  split at herror
  · cases herror
    decide
  rename_i hne
  split at herror
  · cases herror
    decide
  cases hrecord : store.recordForTarget replacement.1 with
  | error exc =>
      simp only [hrecord] at herror
      cases herror
      intro hmem
      have hcls : ∀ error ∈ cycleErrors, error.cls = .registryConflict := by decide
      exact RegistryStore.recordForTarget_error hrecord (hcls exc hmem)
  | ok record =>
      simp only [hrecord, find?_of_record hrecord] at herror
      split at herror
      · cases herror
        exact @conflictError_not_cycle _ 'i' (by decide) (by decide) _
      rename_i hdirect
      split at herror
      · cases herror
        exact @conflictError_not_cycle _ 'p' (by decide) (by decide) _
      · have hactive : standing replacement = .active := by
          apply hstores.active_iff.mpr
          intro lifecycle hfind
          change store.lifecycles.find? (replacement.1.identity, replacement.1.feature) = _ at hfind
          cases hstatus : lifecycle.status with
          | active => rfl
          | deprecated => simp [hfind, hstatus] at hdirect
        rw [replacementWalk_active hstores hactive (fun heq => hne (congrArg _ heq)) hrecord]
          at herror
        cases herror

/-- After any calls of the registry, replacements lead from deprecated targets to active
ones that match them, and no validation meets a lifecycle cycle. -/
theorem replacements_active (sha256 : String → String) (calls : List (Instant × RegistryCall)) :
    (∀ lifecycle ∈ (registryAfter sha256 calls).lifecycles.rows,
      ∀ replacement, lifecycle.replacement = some replacement →
        SoundReplacement (registryAfter sha256 calls) lifecycle replacement) ∧
    ∀ (target replacement : ValidTarget) (exc : PyException),
      (registryAfter sha256 calls).validateReplacement target.1 replacement.1 = .error exc →
        exc ∉ cycleErrors := by
  have hsound := registryAfter_linksSound sha256 calls
  constructor
  · intro lifecycle hrow replacement hreplacement
    exact hsound.soundReplacement hrow hreplacement
  · intro target replacement exc herror
    exact hsound.validateReplacement target replacement herror

end Calls

end FeatureStore
