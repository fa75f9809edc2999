import FeatureStore.ReplacementLinks

/-!
# Replacement features of deprecated views

A feature is deprecated in favour of a feature whose view is active. Nothing protects
that view afterwards: its own deprecation looks for targets that it replaces, not for
those that its features replace.
-/

namespace FeatureStore

open Relational Redirects

/-- No deprecated feature has a replacement whose view is deprecated. -/
def ParentsActive (store : RegistryStore) : Prop :=
  ∀ lifecycle ∈ store.lifecycles.rows, lifecycle.status = .deprecated →
    lifecycle.featureName.isSome = true → ∀ replacement, lifecycle.replacement = some replacement →
      replacement.feature.isSome = true → ∀ record, store.recordForTarget replacement = .ok record →
        ∀ parent, store.lifecycle record none = some parent → parent.status = .active

/-- The call deprecates no view, with success, while the replacement of a deprecated
feature is a feature of that view. -/
def SparesParents (store : RegistryStore) : RegistryCall → Prop
  | .deprecateTarget target _ replacement =>
      target.1.feature = none →
      (∀ other, replacement = some other →
        store.validateReplacement target.1 other.1 = .ok ()) →
      store.dependent? target.1 = none →
      ∀ lifecycle ∈ store.lifecycles.rows, lifecycle.status = .deprecated →
        ∀ other, lifecycle.replacement = some other → other.feature.isSome = true →
          other.identity ≠ target.1.identity
  | .apply _ | .patchMetadata _ _ | .reactivate _ => True

variable {sha256 : String → String} {store : RegistryStore} {now : Instant} {call : RegistryCall}
  {standing : ValidTarget → Standing ValidTarget} {target parent : ValidTarget}

/-- The view of a feature has its identity and no feature. -/
theorem parentView_eq_some :
    parentView target = some parent ↔ target.1.feature.isSome = true ∧
      parent.1.identity = target.1.identity ∧ parent.1.feature = none := by
  unfold parentView
  by_cases hsome : target.1.feature.isSome = true
  · rw [if_pos hsome, Option.some.injEq]
    constructor
    · rintro rfl
      exact ⟨hsome, rfl, rfl⟩
    · rintro ⟨-, hidentity, hnone⟩
      apply Subtype.ext
      apply RegistryTarget.Valid.eq_of_key (Subtype.property _) parent.2
      exact Prod.ext hidentity.symm hnone.symm
  · rw [if_neg hsome]
    exact iff_of_false nofun fun h => hsome h.1

/-- On stored standings the parents are active as the library says it. -/
theorem parentsActive_iff (h : Stores store standing) (hsound : Sound (Admits store) standing) :
    ParentsActive store ↔ Covered parentView standing := by
  constructor
  · intro hparents target replacement hlink parent hparent
    obtain ⟨hfeature, hidentity, hnone⟩ := parentView_eq_some.mp hparent
    obtain ⟨⟨record, hrecord⟩, -, hgranularity⟩ := hsound.admitted hlink
    obtain ⟨lifecycle, hrow, hkey, hstatus, hreplacement⟩ := h.mem_of_link hlink
    have hname : lifecycle.featureName = target.1.feature := congrArg Prod.snd hkey
    have hactive := hparents lifecycle hrow hstatus (by rw [hname, ← hgranularity, hfeature])
      replacement.1 hreplacement hfeature record hrecord
    apply h.active_iff.mpr
    intro row hfind
    apply hactive row
    rw [find?_of_record hrecord, ← hidentity, ← hnone]
    exact hfind
  · intro hcovered lifecycle hrow _ _ other hother hfeature record hrecord row hfind
    obtain ⟨target, replacement, -, rfl, -, hlink⟩ := h.link_of_mem hrow hother
    obtain ⟨parent, hparent⟩ : ∃ parent, parentView replacement = some parent := by
      rw [parentView, if_pos hfeature]
      exact ⟨_, rfl⟩
    obtain ⟨-, hidentity, hnone⟩ := parentView_eq_some.mp hparent
    rw [find?_of_record hrecord, ← hidentity, ← hnone] at hfind
    exact h.active_iff.mp (hcovered target replacement hlink parent hparent) row hfind

/-- Other calls than deprecations keep the parents active. -/
theorem Moves.covered {after : ValidTarget → Standing ValidTarget}
    (h : Moves store standing call after) (hcovered : Covered parentView standing)
    (hcall : ∀ target message replacement, call ≠ .deprecateTarget target message replacement) :
    Covered parentView after := by
  cases h with
  | stay => exact hcovered
  | retire target message replacement => exact absurd rfl (hcall target message replacement)
  | revive => exact hcovered.revive

/-- A successful deprecation keeps the parents active exactly when it spares them. -/
theorem retire_covered_iff (h : Stores store standing) (hsound : Sound (Admits store) standing)
    (hcovered : Covered parentView standing) {message : Option String}
    {replacement : Option ValidTarget}
    (hvalid : ∀ other, replacement = some other →
      store.validateReplacement target.1 other.1 = .ok ())
    (hindependent : store.dependent? target.1 = none) :
    Covered parentView (retire standing target replacement) ↔
      SparesParents store (.deprecateTarget target message replacement) := by
  have hnew : ∀ other, replacement = some other → ∀ p, parentView other = some p →
      standing p = .active ∧ p ≠ target := by
    intro other hother p hp
    obtain ⟨-, -, hadmits, hactive⟩ := validateReplacement_ok h (hvalid other hother)
    refine ⟨hactive p hp, ?_⟩
    rintro rfl
    obtain ⟨hfeature, -, hnone⟩ := parentView_eq_some.mp hp
    rw [hadmits.2.2, hnone] at hfeature
    cases hfeature
  rw [covered_retire hcovered hnew]
  constructor
  · intro hfree hnone _ _ lifecycle hrow _ other hother hfeature hidentity
    obtain ⟨j, r, -, rfl, -, hlink⟩ := h.link_of_mem hrow hother
    have hparent : parentView r = some target :=
      parentView_eq_some.mpr ⟨hfeature, hidentity.symm, hnone⟩
    refine hfree j r ?_ hlink hparent
    rintro rfl
    rw [(hsound.admitted hlink).2.2, hnone] at hfeature
    cases hfeature
  · intro hspares j r _ hlink hparent
    obtain ⟨hfeature, hidentity, hnone⟩ := parentView_eq_some.mp hparent
    obtain ⟨lifecycle, hrow, -, hstatus, hreplacement⟩ := h.mem_of_link hlink
    exact hspares hnone hvalid hindependent lifecycle hrow hstatus r.1 hreplacement hfeature
      hidentity.symm

/-- A deprecation that fails spares the parents: what it would have hit is stored. -/
theorem sparesParents_of_error (h : LinksSound store) {message : Option String}
    {replacement : Option ValidTarget}
    (herror : ¬∃ result,
      store.deprecateTarget now target.1 message (replacement.map (·.1)) = .ok result) :
    SparesParents store (.deprecateTarget target message replacement) := by
  intro hnone hvalid hindependent lifecycle hrow _ other hother _ hidentity
  obtain ⟨record, hrecord⟩ := (h.soundReplacement hrow hother).found
  have hfound := RegistryStore.recordForTarget_parent hrecord hidentity.symm hnone
  apply herror
  apply RegistryStore.deprecateTarget_of_valid hfound _ hindependent
  intro raw hraw
  obtain ⟨other, hother, rfl⟩ := Option.map_eq_some_iff.mp hraw
  exact hvalid other hother

/-- From a registry with active parents, a call keeps them active exactly when it spares
them. -/
theorem call_parentsActive (hsound : LinksSound store) (hparents : ParentsActive store) :
    ParentsActive (store.call sha256 now call) ↔ SparesParents store call := by
  obtain ⟨standing, hstores, hlinks⟩ := id hsound
  have hcovered := (parentsActive_iff hstores hlinks).mp hparents
  have hother : (∀ target message replacement,
      call ≠ .deprecateTarget target message replacement) →
      ParentsActive (store.call sha256 now call) := by
    intro hcall
    obtain ⟨after, hafter, hmoves⟩ := @call_moves sha256 store now call standing hstores
    apply (parentsActive_iff hafter ((hmoves.sound hstores hlinks).mono call_admits)).mpr
    exact hmoves.covered hcovered hcall
  cases call with
  | apply manifest =>
      refine iff_of_true (hother fun _ _ _ h => ?_) ?_
      · cases h
      · rw [SparesParents]
        trivial
  | patchMetadata target patch =>
      refine iff_of_true (hother fun _ _ _ h => ?_) ?_
      · cases h
      · rw [SparesParents]
        trivial
  | reactivate target =>
      refine iff_of_true (hother fun _ _ _ h => ?_) ?_
      · cases h
      · rw [SparesParents]
        trivial
  | deprecateTarget target message replacement =>
      by_cases hok : ∃ result,
          store.deprecateTarget now target.1 message (replacement.map (·.1)) = .ok result
      · obtain ⟨result, hresult⟩ := hok
        obtain ⟨record, hfound, hvalid, hindependent, hstore⟩ :=
          RegistryStore.deprecateTarget_ok hresult
        have hvalid : ∀ other, replacement = some other →
            store.validateReplacement target.1 other.1 = .ok () :=
          fun other heq => hvalid other.1 (by rw [heq]; rfl)
        have hafter := @Stores.deprecated store now standing hstores target record hfound message
          replacement
        have hcall : store.call sha256 now (.deprecateTarget target message replacement) =
            result.1 := by
          rw [RegistryStore.call, hresult]
          rfl
        have hmoved := (Moves.retire target message replacement hvalid hindependent).sound hstores
          hlinks
        rw [← hstore, ← hcall] at hafter
        rw [parentsActive_iff hafter (hmoved.mono call_admits),
          retire_covered_iff hstores hlinks hcovered hvalid hindependent]
      · have hcall : store.call sha256 now (.deprecateTarget target message replacement) =
            store := by
          rw [RegistryStore.call]
          cases hresult : store.deprecateTarget now target.1 message (replacement.map (·.1)) with
          | error exc => rfl
          | ok result => exact absurd ⟨result, hresult⟩ hok
        rw [hcall]
        exact iff_of_true hparents (sparesParents_of_error hsound hok)

/-- From the empty registry, the views of replacement features stay active in a run
exactly when no call of it deprecates such a view. -/
theorem parents_active_iff_spared (sha256 : String → String)
    (calls : List (Instant × RegistryCall)) :
    Execution.Along (registryStep sha256)
        (fun store call => ParentsActive (registryStep sha256 store call)) .empty calls ↔
      Execution.Along (registryStep sha256)
        (fun store call => SparesParents store call.2) .empty calls := by
  apply Execution.along_iff (I := LinksSound) (P := ParentsActive)
  · exact fun _ _ => call_linksSound
  · exact fun _ _ => call_parentsActive
  · exact empty_linksSound
  · exact fun _ hrow => absurd hrow List.not_mem_nil

/-- Two versions of a view; a feature of the first is deprecated in favour of that of the
second, and then the second view is deprecated. -/
def replacedThenDeprecated : List (Instant × RegistryCall) :=
  let view : String → Manifest.FeatureView := fun version =>
    ⟨"account_stats", version, "account", [⟨"amount", .int64, "", none⟩], "accounts",
      "SELECT * FROM source", none, none, "", none, List.nodup_singleton "amount"⟩
  let manifest : RegistryManifest :=
    ⟨[⟨"account", [("account_id", .string)], List.nodup_singleton "account_id"⟩],
      [⟨"accounts", "s3://accounts", "updated_at"⟩], [], [view "1.0.0", view "2.0.0"], []⟩
  let old : ValidTarget := ⟨viewTarget "account_stats" "1.0.0" (some "amount"), amount_valid⟩
  let new : ValidTarget := ⟨viewTarget "account_stats" "2.0.0" (some "amount"), by decide⟩
  let newView : ValidTarget := ⟨viewTarget "account_stats" "2.0.0" none, by decide⟩
  [(0, .apply manifest), (1, .deprecateTarget old none (some new)),
    (2, .deprecateTarget newView none none)]

theorem replacement_deprecated_by_inheritance :
    ¬(∀ (sha256 : String → String) (calls : List (Instant × RegistryCall)),
      ParentsActive (registryAfter sha256 calls)) := by
  intro h
  have hactive := h id replacedThenDeprecated
  have hfound : (registryAfter id replacedThenDeprecated).lifecycles.rows.any (fun lifecycle =>
      decide (lifecycle.status = .deprecated) && lifecycle.featureName.isSome &&
        lifecycle.replacement.any fun replacement => replacement.feature.isSome &&
          ((registryAfter id replacedThenDeprecated).recordForTarget replacement).toOption.any
            fun record => ((registryAfter id replacedThenDeprecated).lifecycle record none).any
              fun parent => decide (parent.status = .deprecated)) = true := by
    decide +kernel
  simp only [List.any_eq_true, Bool.and_eq_true, decide_eq_true_eq, Option.any_eq_true] at hfound
  obtain ⟨lifecycle, hrow, ⟨hstatus, hname⟩, replacement, hreplacement, hfeature, record, hrecord,
    parent, hparent, hdeprecated⟩ := hfound
  have hok : (registryAfter id replacedThenDeprecated).recordForTarget replacement =
      .ok record := by
    cases hresult : (registryAfter id replacedThenDeprecated).recordForTarget replacement with
    | ok found =>
        rw [hresult] at hrecord
        exact congrArg Except.ok (Option.some.inj hrecord)
    | error exc =>
        rw [hresult] at hrecord
        cases hrecord
  have hstill := hactive lifecycle hrow hstatus hname replacement hreplacement hfeature record hok
    parent hparent
  rw [hdeprecated] at hstill
  cases hstill

end FeatureStore
