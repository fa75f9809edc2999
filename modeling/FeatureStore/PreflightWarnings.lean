import FeatureStore.CanonicalWarnings
import FeatureStore.LifecycleFold
import FeatureStore.ManifestParsing
import FeatureStore.RegistryQueries
import FeatureStore.SpecAgreement

/-!
# Warnings before and after an application

A plan collects the warnings of its manifest before the objects exist. What a service of the
manifest warns of once it is applied is among them, since every target that a query reaches is one
of the manifest or of a view that was stored, and new records have no lifecycle.
-/

namespace FeatureStore

open Relational

section Stores

variable {sha256 : String → String} {texts : Set String} {store : RegistryStore}

/-- The foreign key of `registry_lifecycle`. -/
def LifecyclesRecorded (store : RegistryStore) : Prop :=
  ∀ key : LifecycleKey, (store.lifecycles.find? key).isSome = true →
    ∃ record, store.records.find? key.1 = some record

/-- The records are fingerprinted, and each lifecycle has its record. -/
structure RegistryStore.Intact (sha256 : String → String) (texts : Set String)
    (store : RegistryStore) : Prop where
  fingerprinted : Fingerprinted sha256 texts store.records
  recorded : LifecyclesRecorded store

theorem call_lifecyclesRecorded {now : Instant} {call : RegistryCall}
    (h : LifecyclesRecorded store) : LifecyclesRecorded (store.call sha256 now call) := by
  have hkept : ∀ identity record, store.records.find? identity = some record →
      (store.call sha256 now call).records.find? identity = some record :=
    fun _ _ => call_find?
  have heffect := RegistryStore.call_effect sha256 now store call
  generalize store.call sha256 now call = after at heffect hkept
  intro key hkey
  have hold : (store.lifecycles.find? key).isSome = true →
      ∃ record, after.records.find? key.1 = some record := fun hsome =>
    (h key hsome).imp fun record => hkept _ record
  have htarget : ∀ (target : RegistryTarget) (record : RegistryRecord),
      store.recordForTarget target = .ok record → key = target.key →
        ∃ record, after.records.find? key.1 = some record := by
    rintro target record hfound rfl
    exact ⟨record, hkept _ _ (RegistryStore.recordForTarget_find? hfound)⟩
  cases heffect with
  | none => exact hold hkey
  | applied => exact hold hkey
  | patched target patch record hfound =>
      exact (assignLifecycle_keys hfound key hkey).elim (htarget target.1 record hfound) hold
  | deprecated target message replacement record hfound hvalid hindependent =>
      exact (assignLifecycle_keys hfound key hkey).elim (htarget target.1 record hfound) hold
  | reactivated target record hfound =>
      rw [Table.find?_modify] at hkey
      split at hkey
      · rename_i heq
        apply htarget target.1 record hfound
        rw [heq, RegistryTarget.key, RegistryStore.recordForTarget_identity hfound]
      · exact hold hkey

/-- Every store that calls reach is intact. -/
theorem registryAfter_intact (hsha : Set.InjOn sha256 texts)
    {calls : List (Instant × RegistryCall)} (htexts : ∀ text ∈ specTexts calls, text ∈ texts) :
    (registryAfter sha256 calls).Intact sha256 texts where
  fingerprinted := (registryAfter_recordsSound hsha htexts).fingerprinted
  recorded := Execution.invariant (fun _ _ => call_lifecyclesRecorded) (fun _ h => nomatch h) calls

end Stores

section Applied

variable {sha256 : String → String} {texts : Set String} {store after : RegistryStore}
  {manifest : RegistryManifest} {now : Instant}

/-- Records that were added have no lifecycle, and older ones are found as before. So the
warnings of a target are the same or fewer before they were added. -/
theorem targetWarnings_before (hrecorded : LifecyclesRecorded store)
    (hlifecycles : after.lifecycles = store.lifecycles)
    (hkept : ∀ identity record, store.records.find? identity = some record →
      after.records.find? identity = some record)
    {target : RegistryTarget} {warning : RegistryWarning}
    (h : warning ∈ after.targetWarnings target) : warning ∈ store.targetWarnings target := by
  have hfound : ∀ record feature lifecycle, after.recordForTarget target = .ok record →
      after.lifecycle record feature = some lifecycle →
        store.recordForTarget target = .ok record ∧
          store.lifecycle record feature = some lifecycle := by
    intro record feature lifecycle hrecord hlifecycle
    rw [RegistryStore.lifecycle, hlifecycles] at hlifecycle
    obtain ⟨stored, hstored⟩ := hrecorded _ (Option.isSome_iff_exists.mpr ⟨_, hlifecycle⟩)
    rw [RegistryStore.recordForTarget_identity hrecord] at hstored
    refine ⟨?_, hlifecycle⟩
    rw [← hrecord]
    exact (RegistryStore.recordForTarget_congr (by rw [hstored, hkept _ _ hstored])).symm
  rw [RegistryStore.mem_targetWarnings] at h ⊢
  obtain ⟨lifecycle, ⟨⟨record, hrecord, hrow, hstatus⟩, heq⟩ |
    ⟨⟨hfeature, record, hrecord, hrow, hstatus⟩, heq⟩⟩ := h
  · obtain ⟨hbefore, hsame⟩ := hfound record _ lifecycle hrecord hrow
    exact ⟨lifecycle, Or.inl ⟨⟨record, hbefore, hsame, hstatus⟩, heq⟩⟩
  · obtain ⟨hbefore, hsame⟩ := hfound record _ lifecycle hrecord hrow
    exact ⟨lifecycle, Or.inr ⟨⟨hfeature, record, hbefore, hsame, hstatus⟩, heq⟩⟩

/-- The references of services whose specs agree up to the order of keys are the same. -/
theorem texts_of_sortKeys {a b : Manifest.FeatureService}
    (h : a.dump.sortKeys = b.dump.sortKeys) :
    a.features.map (·.text) = b.features.map (·.text) := by
  have hmember : ("features", Value.list (a.features.map fun ref => .str ref.text)) ∈
      [("name", Value.str a.name), ("features", .list (a.features.map fun ref => .str ref.text)),
        ("description", .str a.description)] := by
    simp
  obtain ⟨⟨key, value⟩, hother, rfl, hvalue⟩ := exists_member_of_sortKeys_eq h hmember
  obtain rfl : value = .list (b.features.map fun ref => .str ref.text) := by simpa using hother
  have htexts : ∀ refs : List Manifest.FeatureRef,
      (Value.list (refs.map fun ref => .str ref.text)).sortKeys =
        .list ((refs.map (·.text)).map .str) := by
    intro refs
    rw [Value.sortKeys, sortItems_eq, List.map_map, List.map_map]
    rfl
  rw [htexts, htexts] at hvalue
  exact (List.map_injective_iff.mpr fun _ _ => Value.str.inj) (Value.list.inj hvalue).symm

/-- A stored view is found by its reference. -/
theorem featureView_of_find? {record : RegistryRecord} {ref : Manifest.FeatureRef}
    {view : Manifest.FeatureView}
    (hrecord : store.records.find? (.featureView, ref.view, ref.version) = some record)
    (hobject : record.object = .featureView view) :
    parseViewRef ref.viewRef = .ok (ref.view, ref.version) ∧
      store.featureView ref.viewRef = .ok view := by
  have hchars : ref.viewRef.toList = ref.view.toList ++ '@' :: ref.version.toList := by
    simp [Manifest.FeatureRef.viewRef, toString]
  have hview : ∀ c ∈ ref.view.toList, decide (c ≠ '@') = true := by
    intro c hc
    rw [decide_eq_true_eq]
    rintro rfl
    exact ref.view_valid hc
  have hends : PrefixCode.Ends (fun c => decide (c ≠ '@')) ('@' :: ref.version.toList) := by simp
  have hparse : parseViewRef ref.viewRef = .ok (ref.view, ref.version) := by
    rw [parseViewRef, hchars, PrefixCode.takeWhile_append hview hends,
      PrefixCode.dropWhile_append hview hends]
    simp only [String.ofList_toList]
  refine ⟨hparse, ?_⟩
  simp only [RegistryStore.featureView, hparse, bind, Except.bind, RegistryStore.get, hrecord,
    RegistryStore.viewOf, hobject, RegistryObject.view?]

theorem featureView_mem_objects {view : Manifest.FeatureView} :
    .featureView view ∈ manifest.objects ↔ view ∈ manifest.featureViews := by
  simp [RegistryManifest.objects]

theorem featureService_mem_objects {service : Manifest.FeatureService} :
    .featureService service ∈ manifest.objects ↔ service ∈ manifest.featureServices := by
  simp [RegistryManifest.objects]

/-- The targets that a view of the manifest brings. -/
theorem mem_targets_of_view {view : Manifest.FeatureView} {target : RegistryTarget}
    (hview : view ∈ manifest.featureViews)
    (htarget : target ∈ [objectTarget .entity view.entity,
      objectTarget .batchSource view.batchSource] ++
        (view.stream?.map (objectTarget .streamSource)).toList) :
    target ∈ manifest.targets := by
  rw [RegistryManifest.targets]
  apply List.mem_append_left
  apply List.mem_append_right
  refine List.mem_flatMap.mpr ⟨view, hview, ?_⟩
  cases List.mem_append.mp htarget with
  | inl hobject =>
      exact List.mem_append_left _ (List.mem_append_left _ (List.mem_cons_of_mem _ hobject))
  | inr hstream => exact List.mem_append_right _ hstream

/-- The targets that a service of the manifest brings. -/
theorem mem_targets_of_service {service : Manifest.FeatureService} {target : RegistryTarget}
    (hservice : service ∈ manifest.featureServices)
    (htarget : target = objectTarget .featureService service.name ∨
      ∃ ref ∈ service.features, target ∈ [viewTarget ref.view ref.version (some ref.feature),
        viewTarget ref.view ref.version none]) :
    target ∈ manifest.targets := by
  rw [RegistryManifest.targets]
  apply List.mem_append_right
  refine List.mem_flatMap.mpr ⟨service, hservice, ?_⟩
  rw [List.mem_cons, List.mem_flatMap]
  exact htarget

/-- What a query reaches by a reference of a service in the manifest, whose view is stored by
then, the plan has collected: by its view if that is new, and from the store if not. -/
theorem queryTargets_covered
    (hrows : after.records.rows = store.records.rows ++
      (store.newObjects manifest).map fun object => ⟨object, fingerprint sha256 object.spec, now⟩)
    {service : Manifest.FeatureService} (hservice : service ∈ manifest.featureServices)
    {ref : Manifest.FeatureRef} (href : ref ∈ service.features)
    (hfeature : HasFeature after.records ref) :
    ∃ targets, after.queryTargets ref.text = .ok targets ∧
      ∀ target ∈ targets, target ∈ store.manifestWarningTargets manifest := by
  obtain ⟨record, hrecord, view, hobject, hname, hversion, -⟩ := hfeature
  have hidentity : record.identity = (.featureView, ref.view, ref.version) := by
    rw [RegistryRecord.identity, hobject, ← hname, ← hversion]
    rfl
  have hafter := Table.find?_some_iff.mpr ⟨hrecord, hidentity⟩
  obtain ⟨hparse, hview⟩ := featureView_of_find? hafter hobject
  have hsplit : splitLastColon ref.text = .ok (ref.viewRef, ref.feature) :=
    splitLastColon_append ref.viewRef ref.feature_valid
  have htargets : after.queryTargets ref.text =
      .ok ([viewTarget ref.view ref.version (some ref.feature),
        viewTarget ref.view ref.version none, objectTarget .entity view.entity,
        objectTarget .batchSource view.batchSource] ++
        (view.stream?.map (objectTarget .streamSource)).toList) := by
    rw [RegistryStore.queryTargets, hsplit]
    simp only [bind, Except.bind, hparse, hview]
    rfl
  refine ⟨_, htargets, fun target htarget => ?_⟩
  have hcases : target ∈ [viewTarget ref.view ref.version (some ref.feature),
        viewTarget ref.view ref.version none] ∨
      target ∈ [objectTarget .entity view.entity, objectTarget .batchSource view.batchSource] ++
        (view.stream?.map (objectTarget .streamSource)).toList := by
    rw [← List.mem_append]
    exact htarget
  rw [RegistryStore.manifestWarningTargets, List.mem_append]
  cases hcases with
  | inl hown => exact Or.inl (mem_targets_of_service hservice (Or.inr ⟨ref, href, hown⟩))
  | inr hsource =>
      rw [hrows, List.mem_append, List.mem_map] at hrecord
      rcases hrecord with hold | ⟨object, hnew, rfl⟩
      · have hbefore :=
          (featureView_of_find? (Table.find?_some_iff.mpr ⟨hold, hidentity⟩) hobject).2
        right
        refine List.mem_flatMap.mpr ⟨service, hservice, List.mem_flatMap.mpr ⟨ref, href, ?_⟩⟩
        rw [hbefore]
        exact hsource
      · have hmem : .featureView view ∈ manifest.objects := hobject ▸ List.mem_of_mem_filter hnew
        exact Or.inl (mem_targets_of_view (featureView_mem_objects.mp hmem) hsource)

end Applied

section Targets

variable {rules : ManifestRules} {store : RegistryStore} {manifest : RegistryManifest}

theorem sourceTargets_valid {view : Manifest.FeatureView} :
    ∀ target ∈ [objectTarget .entity view.entity, objectTarget .batchSource view.batchSource] ++
      (view.stream?.map (objectTarget .streamSource)).toList, target.Valid := by
  intro target htarget
  rw [List.mem_append, Option.mem_toList, Option.map_eq_some_iff] at htarget
  rcases htarget with hobject | ⟨source, -, rfl⟩
  · simp only [List.mem_cons, List.not_mem_nil, or_false] at hobject
    rcases hobject with rfl | rfl
    · exact objectTarget_valid (by decide) _
    · exact objectTarget_valid (by decide) _
  · exact objectTarget_valid (by decide) _

/-- The targets that a view collects are valid. -/
theorem viewTargets_valid {view : Manifest.FeatureView} (h : view.Valid rules) :
    ∀ target ∈ [viewTarget view.name view.version none, objectTarget .entity view.entity,
        objectTarget .batchSource view.batchSource] ++
      (view.features.map fun feature => viewTarget view.name view.version (some feature.name)) ++
      (view.stream?.map (objectTarget .streamSource)).toList, target.Valid := by
  have hversion := ne_empty_of_isVersion h.version
  intro target htarget
  rw [List.mem_append, List.mem_append, List.mem_map, List.mem_cons] at htarget
  rcases htarget with ((rfl | hobject) | ⟨feature, hfeature, rfl⟩) | hstream
  · exact viewTarget_valid hversion (by decide) _
  · exact sourceTargets_valid target (List.mem_append_left _ hobject)
  · have hname := ne_empty_of_isName (h.features feature hfeature).name
    exact viewTarget_valid hversion (fun heq => hname (Option.some.inj heq)) _
  · exact sourceTargets_valid target (List.mem_append_right _ hstream)

/-- The targets that a service collects are valid. -/
theorem serviceTargets_valid {service : Manifest.FeatureService} (h : service.Valid rules) :
    ∀ target ∈ objectTarget .featureService service.name ::
      service.features.flatMap fun ref =>
        [viewTarget ref.view ref.version (some ref.feature), viewTarget ref.view ref.version none],
      target.Valid := by
  intro target htarget
  rw [List.mem_cons, List.mem_flatMap] at htarget
  rcases htarget with rfl | ⟨ref, href, hown⟩
  · exact objectTarget_valid (by decide) _
  · have hvalid := h.features ref href
    have hversion : ref.version ≠ "" := by
      intro heq
      have hnumbers := hvalid.version
      rw [heq] at hnumbers
      cases hnumbers
    have hname := ne_empty_of_isName hvalid.feature
    simp only [List.mem_cons, List.not_mem_nil, or_false] at hown
    rcases hown with rfl | rfl
    · exact viewTarget_valid hversion (fun heq => hname (Option.some.inj heq)) _
    · exact viewTarget_valid hversion (by decide) _

/-- The targets of a valid manifest are valid, those of stored views included. -/
theorem manifestWarningTargets_valid (h : manifest.Valid rules) :
    ∀ target ∈ store.manifestWarningTargets manifest, target.Valid := by
  intro target htarget
  simp only [RegistryStore.manifestWarningTargets, RegistryManifest.targets, List.mem_append,
    List.mem_map] at htarget
  rcases htarget with ((((⟨_, _, rfl⟩ | ⟨_, _, rfl⟩) | ⟨_, _, rfl⟩) | hview) | hservice) | hstored
  · exact objectTarget_valid (by decide) _
  · exact objectTarget_valid (by decide) _
  · exact objectTarget_valid (by decide) _
  · obtain ⟨view, hview, htarget⟩ := List.mem_flatMap.mp hview
    exact viewTargets_valid (h.featureViews view hview) target htarget
  · obtain ⟨service, hservice, htarget⟩ := List.mem_flatMap.mp hservice
    exact serviceTargets_valid (h.featureServices service hservice) target htarget
  · obtain ⟨service, -, hrefs⟩ := List.mem_flatMap.mp hstored
    obtain ⟨ref, -, hview⟩ := List.mem_flatMap.mp hrefs
    split at hview
    · cases hview
    · exact sourceTargets_valid target hview

/-- The warnings of a plan are those of each of its targets. -/
theorem mem_plan_warnings {sha256 : String → String} {warning : RegistryWarning}
    (h : manifest.Valid rules) : warning ∈ (store.plan sha256 manifest).warnings ↔
      ∃ target ∈ store.manifestWarningTargets manifest, warning ∈ store.targetWarnings target := by
  rw [RegistryStore.plan]
  have hvalid : ∀ target ∈ store.manifestWarningTargets manifest, target.Valid :=
    manifestWarningTargets_valid h
  generalize store.manifestWarningTargets manifest = targets at hvalid
  obtain ⟨valids, rfl⟩ : ∃ valids : List ValidTarget, valids.map (·.1) = targets :=
    ⟨targets.attachWith RegistryTarget.Valid hvalid, List.attachWith_map_subtype_val hvalid⟩
  simp only [RegistryStore.mem_warningsForTargets, List.mem_map, exists_exists_and_eq_and]

end Targets

/-- The items of a loop that can fail, none of which does. -/
theorem exists_mapM {α β : Type} {f : α → Except PyException β} {P : β → Prop} {items : List α}
    (h : ∀ a ∈ items, ∃ b, f a = .ok b ∧ P b) :
    ∃ results, items.mapM f = .ok results ∧ ∀ b ∈ results, P b := by
  obtain ⟨results, hresults⟩ := mapM_ok fun a ha => (h a ha).imp fun _ hb => hb.1
  refine ⟨results, hresults, fun b hb => ?_⟩
  obtain ⟨a, ha, hok⟩ := (mem_of_mapM hresults).1 b hb
  obtain ⟨other, hother, hP⟩ := h a ha
  rw [Except.ok.inj (hok.symm.trans hother)]
  exact hP

section Services

variable {sha256 : String → String} {texts : Set String} {store : RegistryStore}
  {manifest : RegistryManifest} {now : Instant} {rules : ManifestRules}

/-- A service of an applied manifest is stored with the same references, which are found. -/
theorem stored_service (hsha : Set.InjOn sha256 texts) (hstore : store.Intact sha256 texts)
    (htexts : ∀ object ∈ manifest.objects, object.spec.canonicalText ∈ texts)
    {records : RecordTable}
    (haccepts : RegistryStore.Accepts sha256 store.records (.stored store.records)
      manifest.objects)
    (hrows : records.rows = store.records.rows ++ (store.newObjects manifest).map fun object =>
      ⟨object, fingerprint sha256 object.spec, now⟩)
    {service : Manifest.FeatureService} (hservice : service ∈ manifest.featureServices) :
    (∃ stored, RegistryStore.featureService { store with records := records } service.name =
        .ok stored ∧ stored.features.map (·.text) = service.features.map (·.text)) ∧
      ∀ ref ∈ service.features, HasFeature records ref := by
  have hobject := featureService_mem_objects.mpr hservice
  have hprints : Fingerprinted sha256 texts records :=
    fingerprinted_of_rows hstore.fingerprinted htexts hrows
  have hstored : ∀ object ∈ manifest.objects, ∃ record,
      records.find? object.identity = some record ∧
      record.fingerprint = fingerprint sha256 object.spec :=
    fun object => RegistryStore.stored_of_insertAll? haccepts hrows
  refine ⟨?_, haccepts.hasReferences hsha hprints (Availability.stored_storedIn hrows) htexts
    hstored _ hobject⟩
  obtain ⟨record, hrecord, hsame⟩ := hstored _ hobject
  obtain ⟨hown, htext⟩ := hprints record (Table.find?_some_iff.mp hrecord).1
  obtain ⟨stored, hservice⟩ := RegistryObject.exists_service_of_kind
    (Prod.mk.inj (Table.find?_some_iff.mp hrecord).2).1
  have hspecs : stored.dump.canonicalText = service.dump.canonicalText := by
    rw [hservice] at hown htext
    exact hsha htext (htexts _ hobject) (hown.symm.trans hsame)
  have hsorted := (canonicalText_eq_iff (RegistryObject.featureService stored).spec_isJson
    (RegistryObject.featureService service).spec_isJson).mp hspecs
  refine ⟨stored, ?_, texts_of_sortKeys hsorted⟩
  have hfind : records.find? (.featureService, service.name, "") = some record := hrecord
  simp only [RegistryStore.featureService, RegistryStore.get, hfind, bind, Except.bind, hservice]
  rfl

/-- What a query by a service of an applied manifest warns of, the plan and the application have
warned of. -/
theorem preflight_covers_serving (rules : ManifestRules) (sha256 : String → String)
    (texts : Set String) (hsha : Set.InjOn sha256 texts) (store : RegistryStore)
    (hstore : store.Intact sha256 texts) (manifest : RegistryManifest)
    (hvalid : manifest.Valid rules)
    (htexts : ∀ object ∈ manifest.objects, object.spec.canonicalText ∈ texts) (now : Instant)
    {after : RegistryStore} {result : ApplyResult}
    (happly : store.apply sha256 now manifest = .ok (after, result)) :
    ∀ service ∈ manifest.featureServices, ∃ warnings,
      after.warningsForQuery [] (some service.name) = .ok warnings ∧
      ∀ warning ∈ warnings, warning ∈ (store.plan sha256 manifest).warnings ∧
        warning ∈ result.warnings := by
  obtain ⟨hfinite, haccepts, records, hafter, hrows⟩ := RegistryStore.apply_ok happly
  obtain rfl : after = { store with records := records } := hafter
  have hresult : result.warnings = (store.plan sha256 manifest).warnings := by
    rw [RegistryStore.apply_of_accepts hfinite haccepts] at happly
    split at happly
    · cases happly
    · cases happly
      rfl
  intro service hservice
  obtain ⟨⟨stored, hstored, hrefs⟩, hfeatures⟩ :=
    stored_service hsha hstore htexts haccepts hrows hservice
  obtain ⟨targets, htargets, hcovered⟩ :
      ∃ targets, (service.features.map (·.text)).mapM
        (RegistryStore.queryTargets { store with records := records }) = .ok targets ∧
      ∀ found ∈ targets, ∀ target ∈ found, target ∈ store.manifestWarningTargets manifest := by
    apply exists_mapM
    rw [List.forall_mem_map]
    exact fun ref href => queryTargets_covered hrows hservice href (hfeatures ref href)
  have hname : service.name ≠ "" :=
    ne_empty_of_isName (hvalid.featureServices service hservice).name
  have hservice? :
      (some service.name).filter (fun name => decide (name ≠ "")) = some service.name :=
    Option.filter_eq_some_iff.mpr ⟨rfl, decide_eq_true hname⟩
  refine ⟨RegistryStore.warningsForTargets { store with records := records }
    (objectTarget .featureService service.name :: targets.flatten), ?_, fun warning hwarning => ?_⟩
  · simp only [RegistryStore.warningsForQuery, RegistryStore.requestedRefs, hservice?, bind,
      Except.bind, hstored, pure, Except.pure, hrefs, htargets]
    rfl
  · rw [hresult, and_self, mem_plan_warnings hvalid]
    rw [warningsForTargets_eq_collect] at hwarning
    obtain ⟨target, htarget, hmem⟩ := List.mem_flatMap.mp (KeyedSort.mem_of_mem_collect hwarning)
    have hkept : ∀ identity record, store.records.find? identity = some record →
        records.find? identity = some record := by
      intro identity record hfind
      obtain ⟨hstored, hkey⟩ := Table.find?_some_iff.mp hfind
      exact Table.find?_some_iff.mpr ⟨by rw [hrows]; exact List.mem_append_left _ hstored, hkey⟩
    have hbefore := targetWarnings_before hstore.recorded (by rfl) hkept hmem
    refine ⟨target, ?_, hbefore⟩
    cases List.mem_cons.mp htarget with
    | inl heq =>
        rw [RegistryStore.manifestWarningTargets]
        exact List.mem_append_left _ (mem_targets_of_service hservice (Or.inl heq))
    | inr hquery =>
        obtain ⟨found, hfound, hmem⟩ := List.mem_flatten.mp hquery
        exact hcovered found hfound target hmem

/-- The service of the account features alone, whose view is stored. -/
def riskManifest : RegistryManifest :=
  { accountManifest with entities := [], batchSources := [], featureViews := [] }

theorem riskManifest_valid : riskManifest.Valid .strict where
  entities := nofun
  batchSources := nofun
  streamSources := nofun
  featureViews := nofun
  featureServices := by
    intro service hservice
    rw [List.mem_singleton.mp hservice]
    refine ⟨by decide, nofun, ?_⟩
    intro ref href
    rw [List.mem_singleton.mp href]
    exact ⟨by decide, by decide, by decide⟩

/-- The service warns of the deprecated entity and of the deprecated feature. -/
theorem risk_warned : ∃ after result warnings,
    (registryAfter accountDigest accountCalls).apply accountDigest 5 riskManifest =
      .ok (after, result) ∧
    after.warningsForQuery [] (some "risk") = .ok warnings ∧ warnings.length = 2 ∧
    ∀ warning ∈ warnings,
      warning ∈ ((registryAfter accountDigest accountCalls).plan accountDigest
        riskManifest).warnings ∧ warning ∈ result.warnings := by
  have htexts : ∀ object ∈ riskManifest.objects,
      object.spec.canonicalText ∈ {text | text ∈ specTexts accountCalls} := by
    intro object hobject
    have hmem : object ∈ accountManifest.objects :=
      @List.mem_of_mem_drop _ object 3 accountManifest.objects hobject
    exact mem_specTexts List.mem_cons_self hmem
  have hcount : ((registryAfter accountDigest accountCalls).apply accountDigest 5
      riskManifest).toOption.bind (fun applied =>
        (applied.1.warningsForQuery [] (some "risk")).toOption.map (·.length)) = some 2 := by
    decide +kernel
  cases happly : (registryAfter accountDigest accountCalls).apply accountDigest 5 riskManifest with
  | error exc =>
      rw [happly] at hcount
      cases hcount
  | ok applied =>
      obtain ⟨after, result⟩ := applied
      have hsha : Set.InjOn accountDigest {text | text ∈ specTexts accountCalls} :=
        accountDigest_injOn
      have hintact := registryAfter_intact hsha fun _ h => h
      obtain ⟨warnings, hwarnings, hcovered⟩ := preflight_covers_serving .strict accountDigest
        {text | text ∈ specTexts accountCalls} hsha (registryAfter accountDigest accountCalls)
        hintact riskManifest riskManifest_valid htexts 5 happly
        ⟨"risk", [⟨"account_stats", "1.0.0", "amount", by decide, by decide⟩], ""⟩
        (List.mem_singleton_self _)
      rw [happly] at hcount
      simp only [Except.toOption, Option.bind_some, hwarnings, Option.map_some] at hcount
      exact ⟨after, result, warnings, rfl, hwarnings, Option.some.inj hcount, hcovered⟩

end Services

end FeatureStore
