import FeatureStore.Library.KeyedSort
import FeatureStore.NamePatterns
import FeatureStore.ReplacementLinks

/-!
# Canonical lists of warnings

The warnings of targets are collected under their keys and sorted by them. A key tells the target
and whether the warning is inherited, so the list depends on the set of the targets alone.
-/

namespace FeatureStore

open KeyedSort

namespace RegistryStore

variable {store : RegistryStore} {target a b : RegistryTarget} {warning : RegistryWarning}
  {lifecycle : RegistryLifecycleRecord}

/-- The target is known, and deprecated itself by a lifecycle record. -/
def IsDeprecated (store : RegistryStore) (target : RegistryTarget)
    (lifecycle : RegistryLifecycleRecord) : Prop :=
  ∃ record, store.recordForTarget target = .ok record ∧
    store.lifecycle record target.feature = some lifecycle ∧ lifecycle.status = .deprecated

/-- The target is a known feature, and its view is deprecated by a lifecycle record. -/
def HasDeprecatedView (store : RegistryStore) (target : RegistryTarget)
    (lifecycle : RegistryLifecycleRecord) : Prop :=
  target.feature.isSome = true ∧ ∃ record, store.recordForTarget target = .ok record ∧
    store.lifecycle record none = some lifecycle ∧ lifecycle.status = .deprecated

theorem IsDeprecated.unique {other : RegistryLifecycleRecord}
    (h : store.IsDeprecated target lifecycle) (hother : store.IsDeprecated target other) :
    lifecycle = other := by
  obtain ⟨record, hrecord, hrow, -⟩ := h
  obtain ⟨record', hrecord', hrow', -⟩ := hother
  obtain rfl := Except.ok.inj (hrecord.symm.trans hrecord')
  exact Option.some.inj (hrow.symm.trans hrow')

theorem HasDeprecatedView.unique {other : RegistryLifecycleRecord}
    (h : store.HasDeprecatedView target lifecycle) (hother : store.HasDeprecatedView target other) :
    lifecycle = other := by
  obtain ⟨-, record, hrecord, hrow, -⟩ := h
  obtain ⟨-, record', hrecord', hrow', -⟩ := hother
  obtain rfl := Except.ok.inj (hrecord.symm.trans hrecord')
  exact Option.some.inj (hrow.symm.trans hrow')

/-- What a target adds to the warnings. -/
theorem mem_targetWarnings :
    warning ∈ store.targetWarnings target ↔
      ∃ lifecycle,
        store.IsDeprecated target lifecycle ∧ warning = registryWarning target lifecycle none ∨
        store.HasDeprecatedView target lifecycle ∧
          warning = registryWarning target lifecycle (some { target with feature := none }) := by
  rw [targetWarnings]
  cases hrecord : store.recordForTarget target with
  | error exc => simp [IsDeprecated, HasDeprecatedView, hrecord]
  | ok record =>
      simp only [IsDeprecated, HasDeprecatedView, hrecord, List.mem_append, Option.mem_toList,
        Option.map_eq_some_iff, Option.filter_eq_some_iff, Bool.and_eq_true,
        decide_eq_true_eq, Except.ok.injEq, exists_eq_left']
      constructor
      · rintro (⟨lifecycle, ⟨hrow, hstatus⟩, rfl⟩ | ⟨lifecycle, ⟨hrow, hfeature, hstatus⟩, rfl⟩)
        · exact ⟨lifecycle, Or.inl ⟨⟨hrow, hstatus⟩, rfl⟩⟩
        · exact ⟨lifecycle, Or.inr ⟨⟨hfeature, hrow, hstatus⟩, rfl⟩⟩
      · rintro ⟨lifecycle, ⟨⟨hrow, hstatus⟩, rfl⟩ | ⟨⟨hfeature, hrow, hstatus⟩, rfl⟩⟩
        · exact Or.inl ⟨lifecycle, ⟨hrow, hstatus⟩, rfl⟩
        · exact Or.inr ⟨lifecycle, ⟨hrow, hfeature, hstatus⟩, rfl⟩

end RegistryStore

section Keys

theorem ref_ne_empty (target : RegistryTarget) : target.ref ≠ "" := by
  intro h
  have hchars := congrArg String.toList h
  rw [RegistryTarget.ref] at hchars
  simp [toString] at hchars

theorem eq_of_getD {a b : Option String} (ha : a ≠ some "") (hb : b ≠ some "")
    (h : a.getD "" = b.getD "") : a = b := by
  cases a with
  | none =>
      cases b with
      | none => rfl
      | some text => exact absurd (congrArg some h.symm) hb
  | some text =>
      cases b with
      | none => exact absurd (congrArg some h) ha
      | some text' => exact congrArg some h

/-- The key of a warning tells its target, and whether it is inherited. -/
theorem target_of_warningKey {warning other : RegistryWarning} (ha : warning.target.Valid)
    (hb : other.target.Valid) (h : warningKey warning = warningKey other) :
    warning.target = other.target ∧
      warning.inheritedFrom.isSome = other.inheritedFrom.isSome := by
  simp only [warningKey, List.cons.injEq, and_true] at h
  obtain ⟨hkind, hname, hversion, hfeature, hinherited⟩ := h
  refine ⟨ha.eq_of_key hb ?_, ?_⟩
  · rw [RegistryTarget.key, RegistryTarget.key, RegistryTarget.identity, RegistryTarget.identity,
      RegistryTarget.kindValue_injective hkind, hname, hversion,
      eq_of_getD ha.2.2.2 hb.2.2.2 hfeature]
  · cases hwarning : warning.inheritedFrom with
    | none =>
        cases hother : other.inheritedFrom with
        | none => rfl
        | some source =>
            rw [hwarning, hother] at hinherited
            exact absurd hinherited.symm (ref_ne_empty source)
    | some source =>
        cases hother : other.inheritedFrom with
        | none =>
            rw [hwarning, hother] at hinherited
            exact absurd hinherited (ref_ne_empty source)
        | some source' => rfl

end Keys

/-- `warnings[key] = warning` puts a warning under its key. -/
theorem setWarning_eq_put : setWarning = put warningKey := by
  funext warnings warning
  exact congrArg (· ++ [warning]) (List.filter_congr fun _ _ => decide_eq_decide.mpr Iff.rfl)

theorem warningsForTargets_eq_collect (store : RegistryStore) (targets : List RegistryTarget) :
    store.warningsForTargets targets =
      collect warningKey (targets.flatMap store.targetWarnings) := by
  rw [RegistryStore.warningsForTargets, collect, setWarning_eq_put]

namespace RegistryStore

variable {store : RegistryStore} {targets others : List ValidTarget} {warning : RegistryWarning}

theorem target_of_mem_targetWarnings {target : RegistryTarget}
    (h : warning ∈ store.targetWarnings target) : warning.target = target := by
  obtain ⟨lifecycle, ⟨-, rfl⟩ | ⟨-, rfl⟩⟩ := mem_targetWarnings.mp h
  · rfl
  · rfl

/-- Among the warnings of validated targets, those with the same key are the same. -/
theorem injOn_warningKey (store : RegistryStore) (targets : List ValidTarget) :
    Set.InjOn warningKey {x | x ∈ (targets.map (·.1)).flatMap store.targetWarnings} := by
  intro a ha b hb hkey
  obtain ⟨s, hs, has⟩ := List.mem_flatMap.mp ha
  obtain ⟨t, ht, hbt⟩ := List.mem_flatMap.mp hb
  obtain ⟨source, -, rfl⟩ := List.mem_map.mp hs
  obtain ⟨target, -, rfl⟩ := List.mem_map.mp ht
  have hsource := target_of_mem_targetWarnings has
  have htarget := target_of_mem_targetWarnings hbt
  obtain ⟨hsame, hkind⟩ := target_of_warningKey (hsource ▸ source.2) (htarget ▸ target.2) hkey
  rw [hsource, htarget] at hsame
  rw [hsame] at has
  obtain ⟨lifecycle, ⟨hdirect, rfl⟩ | ⟨hview, rfl⟩⟩ := mem_targetWarnings.mp has
  · obtain ⟨lifecycle', ⟨hdirect', rfl⟩ | ⟨-, rfl⟩⟩ := mem_targetWarnings.mp hbt
    · rw [hdirect.unique hdirect']
    · cases hkind
  · obtain ⟨lifecycle', ⟨-, rfl⟩ | ⟨hview', rfl⟩⟩ := mem_targetWarnings.mp hbt
    · cases hkind
    · rw [hview.unique hview']

/-- The warnings of validated targets are those of each of them. -/
theorem mem_warningsForTargets :
    warning ∈ store.warningsForTargets (targets.map (·.1)) ↔
      ∃ target ∈ targets, warning ∈ store.targetWarnings target.1 := by
  rw [warningsForTargets_eq_collect, mem_collect (injOn_warningKey store targets)]
  simp only [List.mem_flatMap, List.mem_map, exists_exists_and_eq_and]

/-- The warnings depend on the set of the targets, are strictly sorted by their keys, and are the
direct ones of the known deprecated targets with the inherited ones of the known features of
deprecated views. -/
theorem warningsForTargets_canonical (store : RegistryStore) (targets : List ValidTarget) :
    (∀ others : List ValidTarget, (∀ target, target ∈ targets ↔ target ∈ others) →
      store.warningsForTargets (targets.map (·.1)) =
        store.warningsForTargets (others.map (·.1))) ∧
    (store.warningsForTargets (targets.map (·.1))).Pairwise
      (fun earlier later => warningKey earlier < warningKey later) ∧
    ∀ warning, warning ∈ store.warningsForTargets (targets.map (·.1)) ↔
      ∃ target ∈ targets, ∃ lifecycle,
        store.IsDeprecated target.1 lifecycle ∧
          warning = registryWarning target.1 lifecycle none ∨
        store.HasDeprecatedView target.1 lifecycle ∧
          warning = registryWarning target.1 lifecycle
            (some { target.1 with feature := none }) := by
  refine ⟨fun others h => ?_, ?_, fun warning => ?_⟩
  · rw [warningsForTargets_eq_collect, warningsForTargets_eq_collect]
    apply collect_congr (injOn_warningKey store targets)
    intro warning
    simp only [List.mem_flatMap, List.mem_map, exists_exists_and_eq_and, h]
  · rw [warningsForTargets_eq_collect]
    exact pairwise_collect _ _
  · rw [mem_warningsForTargets]
    simp only [mem_targetWarnings]

end RegistryStore

end FeatureStore
