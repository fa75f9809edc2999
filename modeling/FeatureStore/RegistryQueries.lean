import FeatureStore.RegistryStore

/-!
# The registry: queries

The lookups of `Registry` and the references and warnings of a request for features.
-/

namespace FeatureStore

namespace RegistryStore

/-- `Registry.entity`. -/
def entity (store : RegistryStore) (name : String) : Except PyException Manifest.Entity := do
  let record ← store.get .entity name ""
  match record.object with
  | .entity entity => return entity
  | _ => throw ⟨.validation, "validation error for Entity"⟩

/-- `Registry.feature_service`. -/
def featureService (store : RegistryStore) (name : String) :
    Except PyException Manifest.FeatureService := do
  let record ← store.get .featureService name ""
  match record.object with
  | .featureService service => return service
  | _ => throw ⟨.validation, "validation error for FeatureService"⟩

/-- The references of a request, which are those of its service if it names one. -/
def requestedRefs (store : RegistryStore) (features : List String)
    (featureService : Option String) : Except PyException (List String) :=
  match featureService.filter fun name => decide (name ≠ "") with
  | some name => do
      let service ← store.featureService name
      return service.features.map (·.text)
  | none => return features

/-- The loop of `resolve_features`, with the output names so far. -/
def checkRefs (store : RegistryStore) : List String → List String → Except PyException Unit
  | _, [] => return ()
  | outputNames, ref :: rest => do
      let (viewRef, featureName) ← splitLastColon ref
      let view ← store.featureView viewRef
      if (view.features.map (·.name)).contains featureName then
        let outputName := s!"{view.name}__{featureName}"
        if outputNames.contains outputName then
          throw (valueError s!"ambiguous output {outputName}; query duplicate or multi-version features separately")
        else store.checkRefs (outputName :: outputNames) rest
      else throw ⟨.registryNotFound, s!"unknown feature: {ref}"⟩

/-- `Registry.resolve_features`. -/
def resolveFeatures (store : RegistryStore) (features : List String)
    (featureService : Option String) : Except PyException (List String) := do
  let refs ← store.requestedRefs features featureService
  if refs = [] then throw ⟨.registryNotFound, "no features requested"⟩
  else
    store.checkRefs [] refs
    return refs

/-- The targets of one reference in `warnings_for_query`. -/
def queryTargets (store : RegistryStore) (ref : String) :
    Except PyException (List RegistryTarget) := do
  let (viewRef, featureName) ← splitLastColon ref
  let (viewName, viewVersion) ← parseViewRef viewRef
  let view ← store.featureView viewRef
  return [viewTarget viewName viewVersion (some featureName),
      viewTarget viewName viewVersion none, objectTarget .entity view.entity,
      objectTarget .batchSource view.batchSource] ++
    (view.stream?.map (objectTarget .streamSource)).toList

/-- `Registry.warnings_for_query`. -/
def warningsForQuery (store : RegistryStore) (features : List String)
    (featureService : Option String) : Except PyException (List RegistryWarning) := do
  let refs ← store.requestedRefs features featureService
  let service := (featureService.filter fun name => decide (name ≠ "")).map
    (objectTarget .featureService)
  let targets ← refs.mapM store.queryTargets
  return store.warningsForTargets (service.toList ++ targets.flatten)

end RegistryStore

section Resolution

variable {store : RegistryStore} {viewRef : String} {view : Manifest.FeatureView}

/-- A reference splits at its last colon. -/
theorem splitLastColon_append (viewRef : String) {feature : String}
    (h : ':' ∉ feature.toList) :
    splitLastColon s!"{viewRef}:{feature}" = .ok (viewRef, feature) := by
  have hchars : (s!"{viewRef}:{feature}" : String).toList.reverse =
      feature.toList.reverse ++ ':' :: viewRef.toList.reverse := by
    simp [toString]
  have htail : ∀ c ∈ feature.toList.reverse, decide (c ≠ ':') = true := by
    intro c hc
    rw [decide_eq_true_eq]
    rintro rfl
    exact h (List.mem_reverse.mp hc)
  have hends : PrefixCode.Ends (fun c => decide (c ≠ ':')) (':' :: viewRef.toList.reverse) := by
    simp
  rw [splitLastColon, hchars, PrefixCode.takeWhile_append htail hends,
    PrefixCode.dropWhile_append htail hends]
  simp

theorem parseViewRef_ok (hview : store.featureView viewRef = .ok view) :
    ∃ parts, parseViewRef viewRef = .ok parts := by
  cases hparts : parseViewRef viewRef with
  | ok parts => exact ⟨parts, rfl⟩
  | error exc =>
      rw [RegistryStore.featureView, hparts] at hview
      cases hview

/-- Features of one view are resolved if no two of them are the same. -/
theorem checkRefs_ok (hview : store.featureView viewRef = .ok view)
    {names outputNames : List String}
    (hcolon : ∀ name ∈ names, ':' ∉ name.toList)
    (hfeatures : ∀ name ∈ names, name ∈ view.features.map (·.name)) (hnodup : names.Nodup)
    (hnew : ∀ name ∈ names, s!"{view.name}__{name}" ∉ outputNames) :
    store.checkRefs outputNames (names.map fun name => s!"{viewRef}:{name}") = .ok () := by
  induction names generalizing outputNames with
  | nil => rfl
  | cons name rest ih =>
      rw [List.nodup_cons] at hnodup
      have hsplit := splitLastColon_append viewRef (hcolon name List.mem_cons_self)
      have hfeature := List.contains_iff_mem.mpr (hfeatures name List.mem_cons_self)
      have houtput : ¬outputNames.contains s!"{view.name}__{name}" = true :=
        fun h => hnew name List.mem_cons_self (List.contains_iff_mem.mp h)
      have hrest := @ih (s!"{view.name}__{name}" :: outputNames)
        (fun other hother => hcolon other (List.mem_cons_of_mem _ hother))
        (fun other hother => hfeatures other (List.mem_cons_of_mem _ hother)) hnodup.2 ?_
      · rw [List.map_cons, RegistryStore.checkRefs, hsplit]
        simp only [bind, Except.bind, hview, hfeature, if_true, houtput]
        exact hrest
      · intro other hother hmem
        rcases List.mem_cons.mp hmem with heq | hold
        · have hsame : other = name := by
            simpa [String.ext_iff, toString] using heq
          exact hnodup.1 (hsame ▸ hother)
        · exact hnew other (List.mem_cons_of_mem _ hother) hold

/-- A request for features of one view resolves to itself. -/
theorem resolveFeatures_ok (hview : store.featureView viewRef = .ok view) {names : List String}
    (hne : names ≠ []) (hcolon : ∀ name ∈ names, ':' ∉ name.toList)
    (hfeatures : ∀ name ∈ names, name ∈ view.features.map (·.name)) (hnodup : names.Nodup) :
    store.resolveFeatures (names.map fun name => s!"{viewRef}:{name}") none =
      .ok (names.map fun name => s!"{viewRef}:{name}") := by
  have hcheck := checkRefs_ok hview hcolon hfeatures hnodup
    (fun name _ => @List.not_mem_nil _ (s!"{view.name}__{name}"))
  have hrefs : names.map (fun name => s!"{viewRef}:{name}") ≠ [] := by simpa using hne
  simp only [RegistryStore.resolveFeatures, RegistryStore.requestedRefs, Option.filter_none, bind,
    Except.bind, pure, Except.pure, if_neg hrefs, hcheck]

/-- The warnings of such a request are found. -/
theorem warningsForQuery_ok (hview : store.featureView viewRef = .ok view) {names : List String}
    (hcolon : ∀ name ∈ names, ':' ∉ name.toList) :
    ∃ warnings, store.warningsForQuery (names.map fun name => s!"{viewRef}:{name}") none =
      .ok warnings := by
  obtain ⟨parts, hparts⟩ := parseViewRef_ok hview
  have htargets : ∃ targets,
      (names.map fun name => s!"{viewRef}:{name}").mapM store.queryTargets = .ok targets := by
    induction names with
    | nil => exact ⟨[], rfl⟩
    | cons name rest ih =>
        obtain ⟨targets, hrest⟩ :=
          ih fun other hother => hcolon other (List.mem_cons_of_mem _ hother)
        have hsplit := splitLastColon_append viewRef (hcolon name List.mem_cons_self)
        rw [List.map_cons, List.mapM_cons, RegistryStore.queryTargets, hsplit, hrest]
        simp only [bind, Except.bind, hparts, hview]
        exact ⟨_, rfl⟩
  obtain ⟨targets, hall⟩ := htargets
  simp only [RegistryStore.warningsForQuery, RegistryStore.requestedRefs, Option.filter_none, bind,
    Except.bind, pure, Except.pure, hall]
  exact ⟨_, rfl⟩

end Resolution

end FeatureStore
