import FeatureStore.RegistryLifecycle

/-!
# Plans and their application

`plan` walks the manifest and accumulates what earlier objects make available. A
plan without rejected objects has accepted every object in that order, and `apply`
then adds one record for each object that the store lacks. It cannot when two of
these share an identity, which `plan` does not look for.
-/

namespace FeatureStore

open Relational

namespace RegistryStore

variable (sha256 : String → String)

/-- The object meets its stored record, and its references are available. -/
def AcceptsObject (records : RecordTable) (available : Availability) (object : RegistryObject) :
    Prop :=
  conflicts sha256 (records.find? object.identity) object = false ∧
    referenceIssues available object = []

/-- The walk of `plan` finds nothing to reject. -/
def Accepts (records : RecordTable) : Availability → List RegistryObject → Prop
  | _, [] => True
  | available, object :: rest =>
      AcceptsObject sha256 records available object ∧
        Accepts records (available.add object) rest

/-- Whether the store lacks the identity of an object. -/
def isNew (records : RecordTable) (object : RegistryObject) : Bool :=
  (records.find? object.identity).isNone

/-- The objects that a plan without rejections creates. -/
def newObjects (store : RegistryStore) (manifest : RegistryManifest) : List RegistryObject :=
  manifest.objects.filter (isNew store.records)

/-- Planning raises, or some object of the plan is rejected. -/
def Rejects (store : RegistryStore) (manifest : RegistryManifest) : Prop :=
  ∀ plan, store.validate sha256 manifest = .ok plan →
    ∃ item ∈ plan.objects, item.status = .rejected

/-- Applying the manifest succeeds as planned: the planned counts, one record more for
each created object, and nothing left to do for the manifest. -/
def AppliesAsPlanned (now : Instant) (store : RegistryStore) (manifest : RegistryManifest) :
    Prop :=
  ∃ after result, store.apply sha256 now manifest = .ok (after, result) ∧
    result.created = (store.plan sha256 manifest).summary.created ∧
    result.unchanged = (store.plan sha256 manifest).summary.unchanged ∧
    after.lifecycles = store.lifecycles ∧
    after.records.rows = store.records.rows ++
      createdRecords sha256 now (store.plan sha256 manifest).objects manifest.objects ∧
    ∀ item ∈ (after.plan sha256 manifest).objects, item.status = .unchanged

variable {sha256} {records : RecordTable} {available : Availability} {object : RegistryObject}
  {objects : List RegistryObject}

theorem conflictIssues_eq_nil {existing : Option RegistryRecord} :
    conflictIssues sha256 existing object = [] ↔ conflicts sha256 existing object = false := by
  unfold conflictIssues
  cases conflicts sha256 existing object <;> simp

/-- An object is rejected for its issues only. -/
theorem planObject_rejected_iff :
    (planObject sha256 records available object).status = .rejected ↔
      ¬AcceptsObject sha256 records available object := by
  rw [AcceptsObject, ← conflictIssues_eq_nil, ← List.append_eq_nil_iff]
  simp only [planObject]
  split
  · rename_i h
    exact iff_of_true rfl h
  · rename_i h
    refine iff_of_false ?_ h
    split <;> exact RegistryObjectStatus.noConfusion

theorem planObject_status (h : AcceptsObject sha256 records available object) :
    (planObject sha256 records available object).status =
      if isNew records object then .created else .unchanged := by
  have hissues := conflictIssues_eq_nil.mpr h.1
  simp only [planObject, hissues, h.2, List.append_nil, ne_eq, not_true_eq_false, if_false,
    isNew]
  rcases Option.eq_none_or_eq_some (records.find? object.identity) with hnone | ⟨record, hsome⟩
  · simp [hnone]
  · simp [hsome]

theorem planLoop_cons (h : AcceptsObject sha256 records available object)
    (rest : List RegistryObject) :
    planLoop sha256 records available (object :: rest) =
      planObject sha256 records available object ::
        planLoop sha256 records (available.add object) rest := by
  have hkept : (planObject sha256 records available object).status ≠ .rejected :=
    fun hrejected => planObject_rejected_iff.mp hrejected h
  rw [planLoop, if_neg hkept]

/-- A plan has no rejected object exactly when the walk accepts the manifest. -/
theorem planLoop_accepts :
    (∀ item ∈ planLoop sha256 records available objects, item.status ≠ .rejected) ↔
      Accepts sha256 records available objects := by
  induction objects generalizing available with
  | nil => simp [planLoop, Accepts]
  | cons object rest ih =>
      by_cases h : AcceptsObject sha256 records available object
      · have hkept : (planObject sha256 records available object).status ≠ .rejected :=
          fun hrejected => planObject_rejected_iff.mp hrejected h
        rw [planLoop_cons h, List.forall_mem_cons, ih, Accepts]
        exact and_congr_left fun _ => iff_of_true hkept h
      · constructor
        · intro hall
          have hhead := hall (planObject sha256 records available object) (by simp [planLoop])
          exact absurd (planObject_rejected_iff.mpr h) hhead
        · intro haccepts
          exact absurd haccepts.1 h

theorem Accepts.status (h : Accepts sha256 records available objects) :
    (planLoop sha256 records available objects).map (·.status) =
      objects.map fun object => if isNew records object then .created else .unchanged := by
  induction objects generalizing available with
  | nil => rfl
  | cons object rest ih =>
      rw [planLoop_cons h.1, List.map_cons, List.map_cons, planObject_status h.1, ih h.2]

/-- The added rows are those of the objects that the store lacks. -/
theorem createdRecords_eq (now : Instant) {plans : List RegistryObjectPlan}
    (h : plans.map (·.status) =
      objects.map fun object => if isNew records object then .created else .unchanged) :
    createdRecords sha256 now plans objects =
      (objects.filter (isNew records)).map fun object =>
        ⟨object, fingerprint sha256 object.spec, now⟩ := by
  induction objects generalizing plans with
  | nil =>
      obtain rfl : plans = [] := by simpa using h
      rfl
  | cons object rest ih =>
      cases plans with
      | nil => cases h
      | cons plan plans =>
          obtain ⟨hstatus, hrest⟩ := List.cons.inj h
          have htail := ih hrest
          unfold createdRecords at htail ⊢
          rw [List.zip_cons_cons, List.filterMap_cons, htail]
          cases hnew : isNew records object <;> simp [hnew, hstatus]

theorem Accepts.conflicts_eq_false (h : Accepts sha256 records available objects) :
    ∀ object ∈ objects, conflicts sha256 (records.find? object.identity) object = false := by
  induction objects generalizing available with
  | nil => simp
  | cons object rest ih => exact List.forall_mem_cons.mpr ⟨h.1.1, ih h.2⟩

end RegistryStore

section Available

variable {a b : Availability} {object : RegistryObject}

theorem viewIssues_eq_nil {view : Manifest.FeatureView} :
    viewIssues a view = [] ↔ view.entity ∈ a.entities ∧ view.batchSource ∈ a.batchSources ∧
      ∀ source, view.stream? = some source → source ∈ a.streamSources := by
  unfold viewIssues
  cases view.stream? <;> simp

theorem refIssue_eq_none {index : Nat} {ref : Manifest.FeatureRef} :
    refIssue a index ref = none ↔ ∃ view, a.views.lookup (ref.view, ref.version) = some view ∧
      ref.feature ∈ view.features.map (·.name) := by
  unfold refIssue
  cases a.views.lookup (ref.view, ref.version) <;> simp

theorem serviceIssues_eq_nil {service : Manifest.FeatureService} :
    referenceIssues a (.featureService service) = [] ↔ ∀ ref ∈ service.features,
      ∃ view, a.views.lookup (ref.view, ref.version) = some view ∧
        ref.feature ∈ view.features.map (·.name) := by
  rw [referenceIssues, List.filterMap_eq_nil_iff]
  simp only [refIssue_eq_none]
  constructor
  · intro h ref href
    have hindexed : ref ∈ service.features.zipIdx.map Prod.fst := by
      rwa [List.zipIdx_map_fst]
    obtain ⟨item, hitem, rfl⟩ := List.mem_map.mp hindexed
    exact h item hitem
  · exact fun h item hitem => h item.1 (List.fst_mem_of_mem_zipIdx hitem)

/-- Whatever is available stays so, with the same view under each key. -/
structure Availability.Extends (a b : Availability) : Prop where
  entities : a.entities ⊆ b.entities
  batchSources : a.batchSources ⊆ b.batchSources
  streamSources : a.streamSources ⊆ b.streamSources
  views : ∀ key view, a.views.lookup key = some view → b.views.lookup key = some view

theorem Availability.Extends.add (h : a.Extends b) (object : RegistryObject) :
    (a.add object).Extends (b.add object) := by
  cases object with
  | entity e => exact { h with entities := List.cons_subset_cons _ h.entities }
  | batchSource source => exact { h with batchSources := List.cons_subset_cons _ h.batchSources }
  | streamSource source =>
      exact { h with streamSources := List.cons_subset_cons _ h.streamSources }
  | featureView view =>
      refine { h with views := fun key other hkey => ?_ }
      simp only [Availability.add, List.lookup_cons] at hkey ⊢
      split
      · rename_i heq
        rwa [heq] at hkey
      · rename_i heq
        rw [heq] at hkey
        exact h.views key other hkey
  | featureService service => exact h

theorem Availability.Extends.referenceIssues (h : a.Extends b)
    (hrefs : referenceIssues a object = []) : referenceIssues b object = [] := by
  cases object with
  | featureView view =>
      obtain ⟨hentity, hbatch, hstream⟩ := viewIssues_eq_nil.mp hrefs
      exact viewIssues_eq_nil.mpr ⟨h.entities hentity, h.batchSources hbatch,
        fun source hsource => h.streamSources (hstream source hsource)⟩
  | featureService service =>
      rw [serviceIssues_eq_nil] at hrefs ⊢
      intro ref href
      obtain ⟨view, hview, hfeature⟩ := hrefs ref href
      exact ⟨view, h.views _ _ hview, hfeature⟩
  | entity _ => rfl
  | batchSource _ => rfl
  | streamSource _ => rfl

/-- Further records make more available. -/
theorem Availability.stored_extends {records after : RecordTable} {rows : List RegistryRecord}
    (h : after.rows = records.rows ++ rows) :
    (Availability.stored records).Extends (.stored after) := by
  have hnames : ∀ kind, namesOf records kind ⊆ namesOf after kind := by
    intro kind
    rw [namesOf, namesOf, h, List.filter_append, List.map_append]
    exact List.subset_append_left _ _
  refine ⟨hnames _, hnames _, hnames _, fun key view hview => ?_⟩
  rw [Availability.stored, h, List.filterMap_append, List.lookup_append]
  rw [Availability.stored] at hview
  rw [hview, Option.some_or]

end Available

namespace RegistryStore

variable {sha256 : String → String} {records after : RecordTable} {available more : Availability}
  {objects : List RegistryObject}

/-- A manifest that was accepted is accepted by later records that hold its objects. -/
theorem Accepts.again (h : Accepts sha256 records available objects)
    (hmore : available.Extends more)
    (hstored : ∀ object ∈ objects, ∃ record, after.find? object.identity = some record ∧
      record.fingerprint = fingerprint sha256 object.spec) :
    Accepts sha256 after more objects := by
  induction objects generalizing available more with
  | nil => trivial
  | cons object rest ih =>
      obtain ⟨record, hfind, hsame⟩ := hstored object List.mem_cons_self
      have hconflict : conflicts sha256 (after.find? object.identity) object = false := by
        simp [conflicts, hfind, hsame]
      exact ⟨⟨hconflict, hmore.referenceIssues h.1.2⟩,
        ih h.2 (hmore.add object) fun other hother =>
          hstored other (List.mem_cons_of_mem _ hother)⟩

variable {store : RegistryStore} {manifest : RegistryManifest} {now : Instant}

theorem validate_of_acceptsFinite (h : manifest.acceptsFinite = true) :
    store.validate sha256 manifest = .ok (store.plan sha256 manifest) := if_pos h

theorem not_rejects_iff : ¬store.Rejects sha256 manifest ↔
    manifest.acceptsFinite = true ∧
      Accepts sha256 store.records (.stored store.records) manifest.objects := by
  rw [← planLoop_accepts, Rejects]
  by_cases h : manifest.acceptsFinite = true
  · simp only [validate_of_acceptsFinite h, Except.ok.injEq, forall_eq', h, true_and, plan,
      not_exists, not_and, ne_eq]
  · refine iff_of_false (not_not.mpr fun plan hplan => ?_) fun haccepts => h haccepts.1
    rw [validate, if_neg h] at hplan
    cases hplan

/-- Without rejections the rows to add are those of the new objects, in order. -/
theorem createdRecords_plan
    (h : Accepts sha256 store.records (.stored store.records) manifest.objects) :
    createdRecords sha256 now (store.plan sha256 manifest).objects manifest.objects =
      (store.newObjects manifest).map fun object =>
        ⟨object, fingerprint sha256 object.spec, now⟩ :=
  createdRecords_eq now h.status

/-- Without rejections `apply` is the insertion of the new objects. -/
theorem apply_of_accepts (hfinite : manifest.acceptsFinite = true)
    (h : Accepts sha256 store.records (.stored store.records) manifest.objects) :
    store.apply sha256 now manifest =
      match store.records.insertAll? (createdRecords sha256 now
          (store.plan sha256 manifest).objects manifest.objects) with
      | none => .error ⟨.integrity, "UNIQUE constraint failed: registry_records"⟩
      | some records => .ok ({ store with records := records },
          ⟨(store.plan sha256 manifest).fingerprint, (store.plan sha256 manifest).summary.created,
            (store.plan sha256 manifest).summary.unchanged,
            (store.plan sha256 manifest).warnings⟩) := by
  have hnone : (store.plan sha256 manifest).objects.filter
      (fun item => decide (item.status = .rejected)) = [] := by
    rw [List.filter_eq_nil_iff]
    intro item hitem
    simpa using planLoop_accepts.mpr h item hitem
  rw [apply, validate_of_acceptsFinite hfinite]
  exact if_neg (not_not.mpr hnone)

theorem apply_of_rejects (h : store.Rejects sha256 manifest) :
    ∃ exc, store.apply sha256 now manifest = .error exc := by
  rw [apply]
  cases hplan : store.validate sha256 manifest with
  | error exc => exact ⟨exc, rfl⟩
  | ok plan =>
      obtain ⟨item, hitem, hrejected⟩ := h plan hplan
      have hsome : plan.objects.filter (fun item => decide (item.status = .rejected)) ≠ [] :=
        List.ne_nil_of_mem (List.mem_filter.mpr ⟨hitem, by simpa using hrejected⟩)
      exact ⟨_, if_pos hsome⟩

/-- The new objects can be added when their identities differ. -/
theorem insertAll?_newObjects :
    (store.records.insertAll? ((store.newObjects manifest).map fun object =>
        ⟨object, fingerprint sha256 object.spec, now⟩)).isSome = true ↔
      ((store.newObjects manifest).map (·.identity)).Nodup := by
  rw [Table.insertAll?_isSome_iff, and_self, List.map_append, List.nodup_append]
  simp only [List.map_map]
  constructor
  · exact fun h => h.2.1
  · intro h
    refine ⟨store.records.key_nodup, h, ?_⟩
    intro a ha b hb hab
    obtain ⟨record, hrecord, rfl⟩ := List.mem_map.mp ha
    obtain ⟨object, hobject, rfl⟩ := List.mem_map.mp hb
    obtain ⟨-, hnew⟩ := List.mem_filter.mp hobject
    rw [isNew, Option.isNone_iff_eq_none, Table.find?_none_iff] at hnew
    exact hnew record hrecord hab

/-- After the insertion every object of the manifest has its record. -/
theorem stored_of_insertAll?
    (h : Accepts sha256 store.records (.stored store.records) manifest.objects)
    (hrows : after.rows = store.records.rows ++ (store.newObjects manifest).map fun object =>
      ⟨object, fingerprint sha256 object.spec, now⟩)
    {object : RegistryObject} (hobject : object ∈ manifest.objects) :
    ∃ record, after.find? object.identity = some record ∧
      record.fingerprint = fingerprint sha256 object.spec := by
  cases hfind : store.records.find? object.identity with
  | some record =>
      have hconflict := h.conflicts_eq_false object hobject
      obtain ⟨hmem, hkey⟩ := Table.find?_some_iff.mp hfind
      refine ⟨record, Table.find?_some_iff.mpr ⟨by simp [hrows, hmem], hkey⟩, ?_⟩
      simpa [conflicts, hfind] using hconflict
  | none =>
      have hnew : object ∈ store.newObjects manifest :=
        List.mem_filter.mpr ⟨hobject, by simp [isNew, hfind]⟩
      refine ⟨⟨object, fingerprint sha256 object.spec, now⟩, Table.find?_some_iff.mpr ⟨?_, rfl⟩,
        rfl⟩
      rw [hrows]
      exact List.mem_append_right _ (List.mem_map.mpr ⟨object, hnew, rfl⟩)

/-- Planning the manifest again leaves nothing to do. -/
theorem plan_unchanged
    (h : Accepts sha256 store.records (.stored store.records) manifest.objects)
    (hrows : after.rows = store.records.rows ++ (store.newObjects manifest).map fun object =>
      ⟨object, fingerprint sha256 object.spec, now⟩)
    {lifecycles : LifecycleTable} :
    ∀ item ∈ (plan sha256 ⟨after, lifecycles⟩ manifest).objects, item.status = .unchanged := by
  have hstored : ∀ object ∈ manifest.objects, ∃ record,
      after.find? object.identity = some record ∧
        record.fingerprint = fingerprint sha256 object.spec :=
    fun _ hobject => stored_of_insertAll? h hrows hobject
  have hagain := h.again (Availability.stored_extends hrows) hstored
  have hstatuses : ((plan sha256 ⟨after, lifecycles⟩ manifest).objects).map (·.status) =
      manifest.objects.map fun _ => RegistryObjectStatus.unchanged := by
    rw [plan, hagain.status]
    apply List.map_congr_left
    intro object hobject
    obtain ⟨record, hfind, -⟩ := hstored object hobject
    simp [isNew, hfind]
  intro item hitem
  have hmem := List.mem_map_of_mem (f := (·.status)) hitem
  rw [hstatuses] at hmem
  obtain ⟨_, _, hstatus⟩ := List.mem_map.mp hmem
  exact hstatus.symm

/-- A manifest with a rejected object is not applied. A manifest without one is applied
as planned exactly when no identity that the store lacks occurs in it twice. -/
theorem plan_apply_agree (sha256 : String → String) (now : Instant) (store : RegistryStore)
    (manifest : RegistryManifest) :
    (store.Rejects sha256 manifest →
      (∃ exc, store.apply sha256 now manifest = .error exc) ∧
        store.call sha256 now (.apply manifest) = store) ∧
    (¬store.Rejects sha256 manifest →
      (store.AppliesAsPlanned sha256 now manifest ↔
        ((store.newObjects manifest).map (·.identity)).Nodup)) := by
  constructor
  · intro h
    obtain ⟨exc, hexc⟩ := @apply_of_rejects sha256 store manifest now h
    refine ⟨⟨exc, hexc⟩, ?_⟩
    rw [call, hexc]
    rfl
  · intro h
    obtain ⟨hfinite, h⟩ := not_rejects_iff.mp h
    have happly := @apply_of_accepts sha256 store manifest now hfinite h
    rw [createdRecords_plan h] at happly
    rw [← @insertAll?_newObjects sha256 store manifest now]
    constructor
    · rintro ⟨after, result, hok, -⟩
      rw [happly] at hok
      split at hok
      · cases hok
      · rename_i hinsert
        rw [hinsert]
        rfl
    · intro hsome
      obtain ⟨records, hinsert⟩ := Option.isSome_iff_exists.mp hsome
      rw [hinsert] at happly
      have hrows := Table.insertAll?_rows hinsert
      refine ⟨_, _, happly, rfl, rfl, rfl, ?_, plan_unchanged h hrows⟩
      rw [createdRecords_plan h]
      exact hrows

/-- A manifest that lists one new entity twice. -/
def repeatedEntity : RegistryManifest :=
  let account : Manifest.Entity :=
    ⟨"account", [("account_id", .string)], List.nodup_singleton "account_id"⟩
  ⟨[account, account], [], [], [], []⟩

/-- The plan creates both entities and rejects nothing, but the uniqueness constraint
fails the application. -/
theorem repeated_entity_not_applied :
    ¬(∀ (store : RegistryStore) (manifest : RegistryManifest),
      ¬store.Rejects id manifest → store.AppliesAsPlanned id 0 manifest) := by
  intro h
  have hplan : ∀ item ∈ (plan id empty repeatedEntity).objects, item.status = .created := by
    decide
  have hrejects : ¬empty.Rejects id repeatedEntity := by
    intro hrejects
    obtain ⟨item, hitem, hrejected⟩ := hrejects _ (validate_of_acceptsFinite (by decide))
    rw [hplan item hitem] at hrejected
    cases hrejected
  obtain ⟨after, result, happly, -⟩ := h empty repeatedEntity hrejects
  have hfails : (apply id 0 empty repeatedEntity).toOption.isNone = true := by decide
  rw [happly] at hfails
  cases hfails

/-- What a call does to the store. -/
inductive Effect (sha256 : String → String) (now : Instant) (store : RegistryStore) :
    RegistryCall → RegistryStore → Prop
  | none (call : RegistryCall) : Effect sha256 now store call store
  | applied (manifest : RegistryManifest) (records : RecordTable)
      (finite : manifest.acceptsFinite = true)
      (accepts : Accepts sha256 store.records (.stored store.records) manifest.objects)
      (rows : records.rows = store.records.rows ++ (store.newObjects manifest).map fun object =>
        ⟨object, fingerprint sha256 object.spec, now⟩) :
      Effect sha256 now store (.apply manifest) { store with records := records }
  | patched (target : ValidTarget) (patch : RegistryMetadataPatch) (record : RegistryRecord)
      (found : store.recordForTarget target.1 = .ok record) :
      Effect sha256 now store (.patchMetadata target patch)
        (store.assignLifecycle record target.1.feature now
          ⟨patch.assign now, fun _ => rfl, fun _ => rfl⟩)
  | deprecated (target : ValidTarget) (message : Option String)
      (replacement : Option ValidTarget) (record : RegistryRecord)
      (found : store.recordForTarget target.1 = .ok record)
      (valid : ∀ other, replacement = some other →
        store.validateReplacement target.1 other.1 = .ok ())
      (independent : store.dependent? target.1 = .none) :
      Effect sha256 now store (.deprecateTarget target message replacement)
        (store.assignLifecycle record target.1.feature now
          ⟨assignDeprecated message (replacement.map (·.1)) now, fun _ => rfl, fun _ => rfl⟩)
  | reactivated (target : ValidTarget) (record : RegistryRecord)
      (found : store.recordForTarget target.1 = .ok record) :
      Effect sha256 now store (.reactivate target)
        { store with
          lifecycles := store.lifecycles.modify (record.identity, target.1.feature)
            ⟨assignActive now, fun _ => rfl, fun _ => rfl⟩ }

theorem deprecateTarget_ok {target : RegistryTarget} {message : Option String}
    {replacement : Option RegistryTarget} {result : RegistryStore × RegistryDescriptor}
    (h : store.deprecateTarget now target message replacement = .ok result) :
    ∃ record, store.recordForTarget target = .ok record ∧
      (∀ other, replacement = some other → store.validateReplacement target other = .ok ()) ∧
      store.dependent? target = none ∧
      result.1 = store.assignLifecycle record target.feature now
        ⟨assignDeprecated message replacement now, fun _ => rfl, fun _ => rfl⟩ := by
  unfold deprecateTarget at h
  cases hrecord : store.recordForTarget target with
  | error exc =>
      rw [hrecord] at h
      cases h
  | ok record =>
      have hvalid : ∀ other, replacement = some other →
          store.validateReplacement target other = .ok () := by
        rintro other rfl
        cases hother : store.validateReplacement target other with
        | ok _ => rfl
        | error exc =>
            rw [hrecord] at h
            simp only [hother] at h
            cases h
      have hdependent : store.dependent? target = none := by
        cases hsome : store.dependent? target with
        | none => rfl
        | some lifecycle =>
            rw [hrecord, hsome] at h
            cases replacement with
            | none => cases h
            | some other =>
                simp only [hvalid other rfl] at h
                cases h
      refine ⟨record, rfl, hvalid, hdependent, ?_⟩
      rw [hrecord, hdependent] at h
      cases replacement with
      | none =>
          cases h
          rfl
      | some other =>
          simp only [hvalid other rfl] at h
          cases h
          rfl

/-- A deprecation succeeds when its target is found, its replacement is valid and no
deprecated target depends on it. -/
theorem deprecateTarget_of_valid {target : RegistryTarget} {replacement : Option RegistryTarget}
    {record : RegistryRecord} (hrecord : store.recordForTarget target = .ok record)
    (hvalid : ∀ other, replacement = some other →
      store.validateReplacement target other = .ok ())
    (hindependent : store.dependent? target = none) (message : Option String) :
    ∃ result, store.deprecateTarget now target message replacement = .ok result := by
  unfold deprecateTarget
  rw [hrecord, hindependent]
  cases replacement with
  | none => exact ⟨_, rfl⟩
  | some other =>
      simp only [hvalid other rfl]
      exact ⟨_, rfl⟩

theorem patchMetadata_ok {target : RegistryTarget} {patch : RegistryMetadataPatch}
    {result : RegistryStore × RegistryDescriptor}
    (h : store.patchMetadata now target patch = .ok result) :
    ∃ record, store.recordForTarget target = .ok record ∧
      result.1 = store.assignLifecycle record target.feature now
        ⟨patch.assign now, fun _ => rfl, fun _ => rfl⟩ := by
  unfold patchMetadata at h
  cases hrecord : store.recordForTarget target with
  | error exc =>
      rw [hrecord] at h
      cases h
  | ok record =>
      rw [hrecord] at h
      cases h
      exact ⟨record, rfl, rfl⟩

theorem reactivate_ok {target : RegistryTarget} {result : RegistryStore × RegistryDescriptor}
    (h : store.reactivate now target = .ok result) :
    result.1 = store ∨ ∃ record, store.recordForTarget target = .ok record ∧
      result.1 = { store with
        lifecycles := store.lifecycles.modify (record.identity, target.feature)
          ⟨assignActive now, fun _ => rfl, fun _ => rfl⟩ } := by
  unfold reactivate at h
  cases hrecord : store.recordForTarget target with
  | error exc =>
      rw [hrecord] at h
      cases h
  | ok record =>
      rw [hrecord] at h
      cases h
      by_cases hsome : (store.lifecycle record target.feature).isSome = true
      · exact Or.inr ⟨record, rfl, by simp only [hsome, if_true]⟩
      · exact Or.inl (by simp only [hsome]; rfl)

theorem apply_ok {manifest : RegistryManifest} {result : RegistryStore × ApplyResult}
    (h : store.apply sha256 now manifest = .ok result) :
    manifest.acceptsFinite = true ∧
      Accepts sha256 store.records (.stored store.records) manifest.objects ∧
      ∃ records, result.1 = { store with records := records } ∧
        records.rows = store.records.rows ++ (store.newObjects manifest).map fun object =>
          ⟨object, fingerprint sha256 object.spec, now⟩ := by
  by_cases hrejects : store.Rejects sha256 manifest
  · obtain ⟨exc, hexc⟩ := @apply_of_rejects sha256 store manifest now hrejects
    rw [hexc] at h
    cases h
  · obtain ⟨hfinite, haccepts⟩ := not_rejects_iff.mp hrejects
    refine ⟨hfinite, haccepts, ?_⟩
    rw [apply_of_accepts hfinite haccepts, createdRecords_plan haccepts] at h
    split at h
    · cases h
    · rename_i records hinsert
      cases h
      exact ⟨records, rfl, Table.insertAll?_rows hinsert⟩

theorem call_effect (sha256 : String → String) (now : Instant) (store : RegistryStore)
    (call : RegistryCall) : Effect sha256 now store call (store.call sha256 now call) := by
  cases call with
  | apply manifest =>
      rw [RegistryStore.call]
      cases h : store.apply sha256 now manifest with
      | error exc => exact .none _
      | ok result =>
          obtain ⟨hfinite, haccepts, records, hstore, hrows⟩ := apply_ok h
          have heffect := Effect.applied manifest records hfinite haccepts hrows
          rwa [← hstore] at heffect
  | patchMetadata target patch =>
      rw [RegistryStore.call]
      cases h : store.patchMetadata now target.1 patch with
      | error exc => exact .none _
      | ok result =>
          obtain ⟨record, hfound, hstore⟩ := patchMetadata_ok h
          have heffect := @Effect.patched sha256 now store target patch record hfound
          rwa [← hstore] at heffect
  | deprecateTarget target message replacement =>
      rw [RegistryStore.call]
      cases h : store.deprecateTarget now target.1 message (replacement.map (·.1)) with
      | error exc => exact .none _
      | ok result =>
          obtain ⟨record, hfound, hvalid, hdependent, hstore⟩ := deprecateTarget_ok h
          have heffect := @Effect.deprecated sha256 now store target message replacement record
            hfound (fun other hother => hvalid other.1 (by rw [hother]; rfl)) hdependent
          rwa [← hstore] at heffect
  | reactivate target =>
      rw [RegistryStore.call]
      cases h : store.reactivate now target.1 with
      | error exc => exact .none _
      | ok result =>
          rcases reactivate_ok h with hstore | ⟨record, hfound, hstore⟩
          · change Effect sha256 now store (.reactivate target) result.1
            rw [hstore]
            exact .none _
          · have heffect := @Effect.reactivated sha256 now store target record hfound
            rwa [← hstore] at heffect

end RegistryStore

end FeatureStore
