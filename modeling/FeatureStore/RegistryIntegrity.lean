import FeatureStore.Library.Execution
import FeatureStore.RegistryPlan

/-!
# References between registered objects

In every store that the calls of the registry reach, views and services refer to
stored objects, and a record never changes. The walk of `plan` resolves references
against what it has accepted before; the application stores exactly that.
-/

namespace FeatureStore

open Relational

/-- A stored view version declares the feature. -/
def HasFeature (records : RecordTable) (ref : Manifest.FeatureRef) : Prop :=
  ∃ record ∈ records.rows, ∃ view, record.object = .featureView view ∧ view.name = ref.view ∧
    view.version = ref.version ∧ ref.feature ∈ view.features.map (·.name)

/-- What an object refers to is stored. An empty stream source is none. -/
def HasReferences (records : RecordTable) : RegistryObject → Prop
  | .featureView view =>
      view.entity ∈ namesOf records .entity ∧ view.batchSource ∈ namesOf records .batchSource ∧
        ∀ source, view.streamSource = some source → source ≠ "" →
          source ∈ namesOf records .streamSource
  | .featureService service => ∀ ref ∈ service.features, HasFeature records ref
  | .entity _ | .batchSource _ | .streamSource _ => True

/-- The fingerprints are those of the specs, whose texts are among the given ones. -/
def Fingerprinted (sha256 : String → String) (texts : Set String) (records : RecordTable) :
    Prop :=
  ∀ record ∈ records.rows, record.fingerprint = fingerprint sha256 record.object.spec ∧
    record.object.spec.canonicalText ∈ texts

section Specs

theorem optionValue_isJson {α : Type} {dump : α → Value} (h : ∀ a, (dump a).isJson = true)
    (value : Option α) : (optionValue dump value).isJson = true := by
  cases value with
  | none => rfl
  | some a => exact h a

theorem Manifest.Number.value_isJson (n : Manifest.Number) : n.value.isJson = true := by
  cases n with
  | int n => rfl
  | float token isFloat => exact isFloat

theorem Manifest.FeatureQuality.dump_isJson (quality : Manifest.FeatureQuality) :
    quality.dump.isJson = true := by
  have hbounds := optionValue_isJson Manifest.Number.value_isJson
  have haccepted : (optionValue (fun values => (Value.list values).jsonMode)
      quality.acceptedValues).isJson = true := by
    cases h : quality.acceptedValues with
    | none => rfl
    | some values =>
        apply Value.isJson_jsonMode
        rw [Value.isJson, itemsAreJson_iff]
        intro value hvalue
        have hscalar := quality.accepted_scalar values h value hvalue
        cases value with
        | null => cases hscalar
        | list _ => cases hscalar
        | dict _ => cases hscalar
        | _ => exact hscalar
  have hage := @optionValue_isJson Nat (fun n => Value.int n) fun _ => rfl
  simp [dump, Value.isJson, membersAreJson, hbounds, haccepted, hage, -Value.jsonMode_list]

theorem Manifest.Feature.registrySpec_isJson (feature : Manifest.Feature) :
    feature.registrySpec.isJson = true := by
  rw [registrySpec, Value.isJson, membersAreJson_iff]
  intro member hmember
  rcases List.mem_append.mp hmember with hbase | hquality
  · simp only [List.mem_cons, List.not_mem_nil, or_false] at hbase
    rcases hbase with rfl | rfl | rfl <;> rfl
  · cases h : feature.quality with
    | none => simp [h] at hquality
    | some quality =>
        rw [h] at hquality
        obtain rfl : member = ("quality", quality.dump) := by simpa using hquality
        exact quality.dump_isJson

theorem Manifest.FeatureView.registrySpec_isJson (view : Manifest.FeatureView) :
    view.registrySpec.isJson = true := by
  have hfeatures :
      (Value.list (view.features.map Manifest.Feature.registrySpec)).isJson = true := by
    rw [Value.isJson, itemsAreJson_iff, List.forall_mem_map]
    exact fun feature _ => feature.registrySpec_isJson
  have hstream := @optionValue_isJson String Value.str (fun _ => rfl) view.streamSource
  have httl := @optionValue_isJson Nat (fun n => Value.int n) (fun _ => rfl) view.ttlSeconds
  rw [registrySpec, Value.isJson, membersAreJson_iff]
  intro member hmember
  rcases List.mem_append.mp hmember with hbase | hpolicy
  · simp only [List.mem_cons, List.not_mem_nil, or_false] at hbase
    rcases hbase with rfl | rfl | rfl | rfl | rfl | rfl | rfl | rfl | rfl
    · rfl
    · rfl
    · rfl
    · exact hfeatures
    · rfl
    · rfl
    · exact hstream
    · exact httl
    · rfl
  · cases h : view.qualityPolicy with
    | none => simp [h] at hpolicy
    | some policy =>
        rw [h] at hpolicy
        obtain rfl : member = ("quality_policy", .str policy.value) := by simpa using hpolicy
        rfl

/-- Objects that agree up to the order of keys have the same members, up to the order
of keys in their values. -/
theorem exists_member_of_sortKeys_eq {members others : List (String × Value)}
    (h : (Value.dict members).sortKeys = (Value.dict others).sortKeys) {member : String × Value}
    (hmember : member ∈ members) :
    ∃ other ∈ others, other.1 = member.1 ∧ other.2.sortKeys = member.2.sortKeys := by
  rw [Value.sortKeys, Value.sortKeys, sortMembers_eq, sortMembers_eq] at h
  have hsorted : (member.1, member.2.sortKeys) ∈
      sortByKey (others.map fun other => (other.1, other.2.sortKeys)) := by
    rw [← Value.dict.inj h, mem_sortByKey]
    exact List.mem_map.mpr ⟨member, hmember, rfl⟩
  rw [mem_sortByKey] at hsorted
  obtain ⟨other, hother, heq⟩ := List.mem_map.mp hsorted
  exact ⟨other, hother, (Prod.mk.inj heq).1, (Prod.mk.inj heq).2⟩

theorem Manifest.Feature.name_of_sortKeys {a b : Manifest.Feature}
    (h : a.registrySpec.sortKeys = b.registrySpec.sortKeys) : a.name = b.name := by
  have hmember : ("name", Value.str a.name) ∈ [("name", Value.str a.name),
      ("dtype", .str a.dtype.value), ("description", .str a.description)] ++
        (a.quality.map fun quality => ("quality", quality.dump)).toList := by simp
  obtain ⟨⟨key, value⟩, hother, rfl, hvalue⟩ := exists_member_of_sortKeys_eq h hmember
  cases hquality : b.quality with
  | none =>
      rw [hquality] at hother
      obtain rfl : value = .str b.name := by simpa using hother
      exact (Value.str.inj hvalue).symm
  | some quality =>
      rw [hquality] at hother
      obtain rfl : value = .str b.name := by simpa using hother
      exact (Value.str.inj hvalue).symm

/-- Views whose specs agree up to the order of keys declare the same features. -/
theorem Manifest.FeatureView.features_of_sortKeys {a b : Manifest.FeatureView}
    (h : a.registrySpec.sortKeys = b.registrySpec.sortKeys) :
    a.features.map (·.name) = b.features.map (·.name) := by
  have hmember : ("features", Value.list (a.features.map Manifest.Feature.registrySpec)) ∈
      [("name", Value.str a.name), ("version", .str a.version), ("entity", .str a.entity),
        ("features", .list (a.features.map Manifest.Feature.registrySpec)),
        ("batch_source", .str a.batchSource), ("batch_sql", .str a.batchSql),
        ("stream_source", optionValue .str a.streamSource),
        ("ttl_seconds", optionValue (fun n : Nat => .int n) a.ttlSeconds),
        ("description", .str a.description)] ++
        (a.qualityPolicy.map fun policy => ("quality_policy", Value.str policy.value)).toList := by
    simp
  obtain ⟨⟨key, value⟩, hother, rfl, hvalue⟩ := exists_member_of_sortKeys_eq h hmember
  have hlist : value = .list (b.features.map Manifest.Feature.registrySpec) := by
    cases hpolicy : b.qualityPolicy <;> simpa [hpolicy] using hother
  rw [hlist, Value.sortKeys, Value.sortKeys, sortItems_eq, sortItems_eq, List.map_map,
    List.map_map] at hvalue
  have hspecs := Value.list.inj hvalue
  have hlength : b.features.length = a.features.length := by
    simpa using congrArg List.length hspecs
  apply List.ext_getElem
  · simp [hlength]
  · intro i hi hi'
    have hspec := congrArg (fun specs : List Value => specs[i]?) hspecs
    simp only [List.length_map] at hi hi'
    simp only [List.getElem?_map, List.getElem?_eq_getElem hi, List.getElem?_eq_getElem hi',
      Option.map_some, Option.some.injEq, Function.comp_apply] at hspec
    rw [List.getElem_map, List.getElem_map]
    exact Manifest.Feature.name_of_sortKeys hspec.symm

/-- Without a collision the fingerprint of a view tells its features. -/
theorem features_of_fingerprint {sha256 : String → String} {texts : Set String}
    (hsha : Set.InjOn sha256 texts) {a b : Manifest.FeatureView}
    (ha : a.registrySpec.canonicalText ∈ texts) (hb : b.registrySpec.canonicalText ∈ texts)
    (h : fingerprint sha256 a.registrySpec = fingerprint sha256 b.registrySpec) :
    a.features.map (·.name) = b.features.map (·.name) :=
  Manifest.FeatureView.features_of_sortKeys
    ((canonicalText_eq_iff a.registrySpec_isJson b.registrySpec_isJson).mp (hsha ha hb h))

end Specs

section Walk

variable {sha256 : String → String} {texts : Set String} {records after : RecordTable}
  {available : Availability} {objects : List RegistryObject}

theorem mem_namesOf {kind : RegistryObjectKind} {name : String} :
    name ∈ namesOf records kind ↔
      ∃ record ∈ records.rows, record.object.kind = kind ∧ record.object.name = name := by
  simp [namesOf, and_assoc]

/-- What is available is stored in `after`, a view with the same features. -/
structure Availability.StoredIn (available : Availability) (after : RecordTable) : Prop where
  entities : ∀ name ∈ available.entities, name ∈ namesOf after .entity
  batchSources : ∀ name ∈ available.batchSources, name ∈ namesOf after .batchSource
  streamSources : ∀ name ∈ available.streamSources, name ∈ namesOf after .streamSource
  views : ∀ key view, available.views.lookup key = some view →
    ∃ record ∈ after.rows, ∃ other, record.object = .featureView other ∧
      (other.name, other.version) = key ∧
      other.features.map (·.name) = view.features.map (·.name)

/-- Issue-free references to what is stored are stored references. -/
theorem Availability.StoredIn.hasReferences (h : available.StoredIn after)
    {object : RegistryObject} (hrefs : referenceIssues available object = []) :
    HasReferences after object := by
  cases object with
  | featureView view =>
      obtain ⟨hentity, hbatch, hstream⟩ := viewIssues_eq_nil.mp hrefs
      refine ⟨h.entities _ hentity, h.batchSources _ hbatch, fun source hsource hne => ?_⟩
      exact h.streamSources _
        (hstream source (by simp [Manifest.FeatureView.stream?, hsource, hne]))
  | featureService service =>
      intro ref href
      obtain ⟨view, hview, hfeature⟩ := serviceIssues_eq_nil.mp hrefs ref href
      obtain ⟨record, hrecord, other, hobject, hkey, hnames⟩ := h.views _ _ hview
      obtain ⟨hname, hversion⟩ := Prod.mk.inj hkey
      exact ⟨record, hrecord, other, hobject, hname, hversion, hnames ▸ hfeature⟩
  | entity _ => trivial
  | batchSource _ => trivial
  | streamSource _ => trivial

/-- An accepted object that is stored keeps what is available stored. -/
theorem Availability.StoredIn.add (hsha : Set.InjOn sha256 texts)
    (hafter : Fingerprinted sha256 texts after) (h : available.StoredIn after)
    {object : RegistryObject} (htext : object.spec.canonicalText ∈ texts)
    (hstored : ∃ record, after.find? object.identity = some record ∧
      record.fingerprint = fingerprint sha256 object.spec) :
    (available.add object).StoredIn after := by
  obtain ⟨record, hfind, hsame⟩ := hstored
  obtain ⟨hmem, hkey⟩ := Table.find?_some_iff.mp hfind
  obtain ⟨hkind, hrest⟩ := Prod.mk.inj hkey
  obtain ⟨hname, hversion⟩ := Prod.mk.inj hrest
  have hnames : object.name ∈ namesOf after object.kind :=
    mem_namesOf.mpr ⟨record, hmem, hkind, hname⟩
  cases object with
  | entity e => exact { h with entities := List.forall_mem_cons.mpr ⟨hnames, h.entities⟩ }
  | batchSource source =>
      exact { h with batchSources := List.forall_mem_cons.mpr ⟨hnames, h.batchSources⟩ }
  | streamSource source =>
      exact { h with streamSources := List.forall_mem_cons.mpr ⟨hnames, h.streamSources⟩ }
  | featureView view =>
      refine { h with views := fun key other hother => ?_ }
      rw [Availability.add, List.lookup_cons] at hother
      split at hother
      · rename_i heq
        obtain rfl := Option.some.inj hother
        obtain ⟨stored, hstored⟩ := RegistryObject.exists_view_of_kind hkind
        obtain ⟨hown, hrecord⟩ := hafter record hmem
        rw [hown, hstored] at hsame
        rw [hstored] at hname hversion hrecord
        refine ⟨record, hmem, stored, hstored, ?_,
          features_of_fingerprint hsha hrecord htext hsame⟩
        rw [beq_iff_eq.mp heq]
        exact Prod.ext hname hversion
      · exact h.views key other hother
  | featureService service => exact h

/-- The references of accepted objects are stored once the objects are. -/
theorem RegistryStore.Accepts.hasReferences (hsha : Set.InjOn sha256 texts)
    (hafter : Fingerprinted sha256 texts after)
    (haccepts : RegistryStore.Accepts sha256 records available objects)
    (h : available.StoredIn after)
    (htexts : ∀ object ∈ objects, object.spec.canonicalText ∈ texts)
    (hstored : ∀ object ∈ objects, ∃ record, after.find? object.identity = some record ∧
      record.fingerprint = fingerprint sha256 object.spec) :
    ∀ object ∈ objects, HasReferences after object := by
  induction objects generalizing available with
  | nil => simp
  | cons object rest ih =>
      obtain ⟨hobject, hrest⟩ := haccepts
      obtain ⟨hhead, htail⟩ := List.forall_mem_cons.mp hstored
      obtain ⟨htext, hothers⟩ := List.forall_mem_cons.mp htexts
      exact List.forall_mem_cons.mpr
        ⟨h.hasReferences hobject.2, ih hrest (h.add hsha hafter htext hhead) hothers htail⟩

/-- The records make themselves available. -/
theorem Availability.stored_storedIn {rows : List RegistryRecord}
    (hrows : after.rows = records.rows ++ rows) :
    (Availability.stored records).StoredIn after := by
  have hnames : ∀ kind, ∀ name ∈ namesOf records kind, name ∈ namesOf after kind := by
    intro kind name hname
    obtain ⟨record, hrecord, hmatch⟩ := mem_namesOf.mp hname
    exact mem_namesOf.mpr ⟨record, by simp [hrows, hrecord], hmatch⟩
  refine ⟨hnames _, hnames _, hnames _, fun key view hview => ?_⟩
  have hmem : (key, view) ∈ (Availability.stored records).views := by
    obtain ⟨before, later, hsplit, -⟩ := List.lookup_eq_some_iff.mp hview
    simp [hsplit]
  obtain ⟨record, hrecord, hsome⟩ := List.mem_filterMap.mp hmem
  obtain ⟨other, hother, hpair⟩ := Option.map_eq_some_iff.mp hsome
  obtain ⟨hkey, rfl⟩ := Prod.mk.inj hpair
  exact ⟨record, by simp [hrows, hrecord], other, RegistryObject.view?_eq_some.mp hother, hkey, rfl⟩

/-- References into a table are references into its extensions. -/
theorem HasReferences.mono {rows : List RegistryRecord} (hrows : after.rows = records.rows ++ rows)
    {object : RegistryObject} (h : HasReferences records object) : HasReferences after object := by
  have hmem : ∀ record ∈ records.rows, record ∈ after.rows := fun record hrecord => by
    simp [hrows, hrecord]
  have hnames : ∀ {kind name}, name ∈ namesOf records kind → name ∈ namesOf after kind := by
    intro kind name hname
    obtain ⟨record, hrecord, hmatch⟩ := mem_namesOf.mp hname
    exact mem_namesOf.mpr ⟨record, hmem record hrecord, hmatch⟩
  cases object with
  | featureView view =>
      exact ⟨hnames h.1, hnames h.2.1, fun source hsource hne => hnames (h.2.2 source hsource hne)⟩
  | featureService service =>
      intro ref href
      obtain ⟨record, hrecord, hview⟩ := h ref href
      exact ⟨record, hmem record hrecord, hview⟩
  | entity _ => trivial
  | batchSource _ => trivial
  | streamSource _ => trivial

end Walk

/-- The texts of the specs in the manifests that calls apply. -/
def specTexts (calls : List (Instant × RegistryCall)) : List String :=
  calls.flatMap fun call =>
    match call.2 with
    | .apply manifest => manifest.objects.map (·.spec.canonicalText)
    | _ => []

theorem mem_specTexts {calls : List (Instant × RegistryCall)} {now : Instant}
    {manifest : RegistryManifest} {object : RegistryObject} (hcall : (now, .apply manifest) ∈ calls)
    (hobject : object ∈ manifest.objects) : object.spec.canonicalText ∈ specTexts calls :=
  List.mem_flatMap.mpr ⟨(now, .apply manifest), hcall, List.mem_map_of_mem hobject⟩

/-- A call at its time. -/
def registryStep (sha256 : String → String) (store : RegistryStore)
    (call : Instant × RegistryCall) : RegistryStore :=
  store.call sha256 call.1 call.2

/-- The store after calls on an empty registry. -/
def registryAfter (sha256 : String → String) (calls : List (Instant × RegistryCall)) :
    RegistryStore :=
  Execution.run (registryStep sha256) .empty calls

section Runs

variable {sha256 : String → String} {texts : Set String} {store : RegistryStore} {now : Instant}
  {call : RegistryCall} {calls : List (Instant × RegistryCall)}

/-- A call appends records or leaves them. -/
theorem call_records (sha256 : String → String) (now : Instant) (store : RegistryStore)
    (call : RegistryCall) :
    ∃ rows, (store.call sha256 now call).records.rows = store.records.rows ++ rows := by
  have heffect := RegistryStore.call_effect sha256 now store call
  generalize store.call sha256 now call = after at heffect
  cases heffect with
  | applied manifest records _ _ hrows => exact ⟨_, hrows⟩
  | none => exact ⟨[], (List.append_nil _).symm⟩
  | patched => exact ⟨[], (List.append_nil _).symm⟩
  | deprecated => exact ⟨[], (List.append_nil _).symm⟩
  | reactivated => exact ⟨[], (List.append_nil _).symm⟩

/-- The record under an identity outlives every call unchanged. -/
theorem call_find? {identity : RegistryObjectKind × String × String} {record : RegistryRecord}
    (h : store.records.find? identity = some record) :
    (store.call sha256 now call).records.find? identity = some record := by
  obtain ⟨rows, hrows⟩ := call_records sha256 now store call
  obtain ⟨hmem, hkey⟩ := Table.find?_some_iff.mp h
  apply Table.find?_some_iff.mpr
  exact ⟨by rw [hrows]; exact List.mem_append_left _ hmem, hkey⟩

/-- The records are fingerprinted, what they refer to is stored, and they are read back. -/
structure RecordsSound (sha256 : String → String) (texts : Set String) (records : RecordTable) :
    Prop where
  fingerprinted : Fingerprinted sha256 texts records
  references : ∀ record ∈ records.rows, HasReferences records record.object
  readable : ∀ record ∈ records.rows, record.object.acceptsFinite = true

/-- Records stay fingerprinted when those of new objects are added. -/
theorem fingerprinted_of_rows {manifest : RegistryManifest} {after : RecordTable}
    (h : Fingerprinted sha256 texts store.records)
    (htexts : ∀ object ∈ manifest.objects, object.spec.canonicalText ∈ texts)
    (hrows : after.rows = store.records.rows ++ (store.newObjects manifest).map fun object =>
      ⟨object, fingerprint sha256 object.spec, now⟩) :
    Fingerprinted sha256 texts after := by
  intro record hrecord
  rw [hrows, List.mem_append, List.mem_map] at hrecord
  rcases hrecord with hold | ⟨object, hnew, rfl⟩
  · exact h record hold
  · exact ⟨rfl, htexts object (List.mem_of_mem_filter hnew)⟩

/-- A call whose specs are among the texts keeps the records sound. -/
theorem call_recordsSound (hsha : Set.InjOn sha256 texts)
    (htexts : ∀ text ∈ specTexts [(now, call)], text ∈ texts)
    (h : RecordsSound sha256 texts store.records) :
    RecordsSound sha256 texts (store.call sha256 now call).records := by
  have heffect := RegistryStore.call_effect sha256 now store call
  generalize store.call sha256 now call = after at heffect
  cases heffect with
  | applied manifest records hfinite haccepts hrows =>
      have hobjects : ∀ object ∈ manifest.objects, object.spec.canonicalText ∈ texts :=
        fun object hobject => htexts _ (mem_specTexts (List.mem_singleton_self _) hobject)
      have hprints : Fingerprinted sha256 texts records :=
        fingerprinted_of_rows h.fingerprinted hobjects hrows
      have hrefs := haccepts.hasReferences hsha hprints (Availability.stored_storedIn hrows)
        hobjects fun object => RegistryStore.stored_of_insertAll? haccepts hrows
      refine ⟨hprints, fun record hrecord => ?_, fun record hrecord => ?_⟩
      · rw [hrows, List.mem_append, List.mem_map] at hrecord
        rcases hrecord with hold | ⟨object, hnew, rfl⟩
        · exact (h.references record hold).mono hrows
        · exact hrefs object (List.mem_of_mem_filter hnew)
      · rw [hrows, List.mem_append, List.mem_map] at hrecord
        rcases hrecord with hold | ⟨object, hnew, rfl⟩
        · exact h.readable record hold
        · exact List.all_eq_true.mp hfinite object (List.mem_of_mem_filter hnew)
  | none => exact h
  | patched => exact h
  | deprecated => exact h
  | reactivated => exact h

theorem registryAfter_recordsSound (hsha : Set.InjOn sha256 texts)
    (htexts : ∀ text ∈ specTexts calls, text ∈ texts) :
    RecordsSound sha256 texts (registryAfter sha256 calls).records := by
  have hempty : RecordsSound sha256 texts RegistryStore.empty.records :=
    ⟨fun _ h => absurd h List.not_mem_nil, fun _ h => absurd h List.not_mem_nil,
      fun _ h => absurd h List.not_mem_nil⟩
  rw [registryAfter]
  generalize RegistryStore.empty = store at hempty ⊢
  induction calls generalizing store with
  | nil => exact hempty
  | cons call rest ih =>
      apply ih fun text htext => htexts text ?_
      · apply call_recordsSound hsha ?_ hempty
        intro text htext
        apply htexts
        simp only [specTexts, List.flatMap_cons, List.flatMap_nil, List.append_nil] at htext ⊢
        exact List.mem_append_left _ htext
      · rw [specTexts, List.flatMap_cons]
        exact List.mem_append_right _ htext

theorem registryAfter_find? {identity : RegistryObjectKind × String × String}
    {record : RegistryRecord}
    (h : (registryAfter sha256 calls).records.find? identity = some record)
    (later : List (Instant × RegistryCall)) :
    (registryAfter sha256 (calls ++ later)).records.find? identity = some record := by
  rw [registryAfter, Execution.run_append]
  exact Execution.invariant (I := fun store : RegistryStore =>
    store.records.find? identity = some record) (fun _ _ => call_find?) h later

/-- After any calls of the registry on an empty store, with no collision among the
fingerprints of their specs, views and services refer to stored objects, and what is
stored under an identity stays the same. -/
theorem registry_integrity (sha256 : String → String) (calls : List (Instant × RegistryCall))
    (hsha : Set.InjOn sha256 {text | text ∈ specTexts calls}) :
    (∀ record ∈ (registryAfter sha256 calls).records.rows,
      HasReferences (registryAfter sha256 calls).records record.object) ∧
    ∀ identity record, (registryAfter sha256 calls).records.find? identity = some record →
      ∀ later, (registryAfter sha256 (calls ++ later)).records.find? identity = some record :=
  ⟨(registryAfter_recordsSound hsha fun _ h => h).references,
    fun _ _ h later => registryAfter_find? h later⟩

/-- A manifest whose view names no stream source. -/
def accountManifest : RegistryManifest :=
  let view : Manifest.FeatureView :=
    ⟨"account_stats", "1.0.0", "account", [⟨"amount", .int64, "", none⟩], "accounts",
      "SELECT * FROM source", some "", none, "", none, List.nodup_singleton "amount"⟩
  ⟨[⟨"account", [("account_id", .string)], List.nodup_singleton "account_id"⟩],
    [⟨"accounts", "s3://accounts", "updated_at"⟩], [], [view],
    [⟨"risk", [⟨"account_stats", "1.0.0", "amount", by decide, by decide⟩], ""⟩]⟩

theorem amount_valid : (viewTarget "account_stats" "1.0.0" (some "amount")).Valid := by
  decide

/-- The digests of the specs of that manifest. -/
def accountDigest (text : String) : String :=
  match accountManifest.objects.findIdx?
      fun object => decide (object.spec.canonicalText = text) with
  | some 0 => "aa4eb8a7917a29257ec90e6c1ac5abfff2b7b01c80604801d7a37791d7726762"
  | some 1 => "4b7bb7d02a01b769a069629b6587f3608b932148d9f88878829dd1f8824154cf"
  | some 2 => "87265203cba29ee15a302cd162ea1d5e81949c43447dfcdcba65d24493a9ccd0"
  | some 3 => "a9f51a5b1a7b5a7d3b3a27eec2e2dcbdc84bcf17f812f08e0b669baa1459c076"
  | _ => text

theorem accountDigest_injOn :
    Set.InjOn accountDigest {text | text ∈ specTexts [(0, .apply accountManifest)]} := by
  have hdistinct : ∀ a ∈ specTexts [(0, .apply accountManifest)],
      ∀ b ∈ specTexts [(0, .apply accountManifest)], accountDigest a = accountDigest b → a = b := by
    decide +kernel
  exact fun a ha b hb => hdistinct a ha b hb

theorem account_registry_integrity :
    (∀ record ∈ (registryAfter accountDigest [(0, .apply accountManifest)]).records.rows,
      HasReferences (registryAfter accountDigest [(0, .apply accountManifest)]).records
        record.object) ∧
    ∀ identity record,
      (registryAfter accountDigest [(0, .apply accountManifest)]).records.find? identity =
        some record →
      ∀ later, (registryAfter accountDigest ([(0, .apply accountManifest)] ++ later)).records.find?
        identity = some record :=
  registry_integrity accountDigest [(0, .apply accountManifest)] accountDigest_injOn

/-- An empty stream source is stored although it names no record. -/
theorem empty_stream_source_stored :
    ¬(∀ (sha256 : String → String) (calls : List (Instant × RegistryCall)),
      ∀ record ∈ (registryAfter sha256 calls).records.rows,
      ∀ view, record.object = .featureView view → ∀ source, view.streamSource = some source →
        source ∈ namesOf (registryAfter sha256 calls).records .streamSource) := by
  intro h
  have hany : ((registryAfter accountDigest [(0, .apply accountManifest)]).records.rows.filterMap
      (·.object.view?)).any (fun view => decide (view.streamSource = some "")) = true := by
    decide +kernel
  obtain ⟨view, hview, hsource⟩ := List.any_eq_true.mp hany
  obtain ⟨record, hrecord, hobject⟩ := List.mem_filterMap.mp hview
  have hname := h accountDigest [(0, .apply accountManifest)] record hrecord view
    (RegistryObject.view?_eq_some.mp hobject) "" (of_decide_eq_true hsource)
  have hnone : namesOf (registryAfter accountDigest [(0, .apply accountManifest)]).records
      .streamSource = [] := by decide +kernel
  rw [hnone] at hname
  cases hname

end Runs

end FeatureStore
