import FeatureStore.SpecAgreement

/-!
# Conflicts and their differences

A plan reports a conflict where the canonical texts of two specs differ, and differences where
their leaves do. The two part on numbers that are equal and written differently.
-/

namespace FeatureStore

open Relational

section Plans

variable {sha256 : String → String}

/-- The objects are equal views but for numbers that are equal and written differently. -/
def RegistryObject.Respelled (existing proposed : RegistryObject) : Prop :=
  ∃ view other, existing = .featureView view ∧ proposed = .featureView other ∧
    view.Respelled other

/-- Specs that differ have no differences if only the writing of numbers differs. -/
theorem RegistryObject.respelled_iff {existing proposed : RegistryObject}
    (hfinite : existing.acceptsFinite = true) (hkind : existing.kind = proposed.kind) :
    existing.Respelled proposed ↔
      existing.spec.AgreesBy (fun x y => scalarEq x y = true) proposed.spec ∧
        ¬existing.spec.SameJson proposed.spec := by
  rw [sameJson_iff_agreesBy]
  cases hview : existing.view? with
  | none =>
      constructor
      · rintro ⟨view, -, rfl, -⟩
        cases hview
      · rintro ⟨hagree, hne⟩
        exact absurd (agreesBy_of_textual (spec_textual hview) hagree) hne
  | some view =>
      obtain rfl := RegistryObject.view?_eq_some.mp hview
      cases proposed with
      | featureView other =>
          have hagree := Manifest.FeatureView.registrySpec_agreesBy leafEquality_scalarEq
            (a := view) (b := other) hfinite
          have hequal := (Manifest.FeatureView.registrySpec_agreesBy leafEquality_eq
            (a := view) (b := other) hfinite).trans Manifest.FeatureView.agreesBy_eq
          rw [spec, spec, hagree, hequal]
          constructor
          · rintro ⟨view', other', hview', hother', hne, hsame⟩
            obtain rfl := RegistryObject.featureView.inj hview'
            obtain rfl := RegistryObject.featureView.inj hother'
            exact ⟨hsame, hne⟩
          · rintro ⟨hsame, hne⟩
            exact ⟨view, other, rfl, rfl, hne, hsame⟩
      | _ => cases hkind

/-- The names that are available stay so in the walk of a plan. -/
structure Availability.NamesIn (a b : Availability) : Prop where
  entities : a.entities ⊆ b.entities
  batchSources : a.batchSources ⊆ b.batchSources
  streamSources : a.streamSources ⊆ b.streamSources

theorem Availability.NamesIn.refl (a : Availability) : a.NamesIn a :=
  ⟨List.Subset.refl _, List.Subset.refl _, List.Subset.refl _⟩

theorem Availability.NamesIn.add {a b : Availability} (h : a.NamesIn b)
    (object : RegistryObject) : a.NamesIn (b.add object) := by
  cases object with
  | entity e => exact { h with entities := List.subset_cons_of_subset _ h.entities }
  | batchSource source =>
      exact { h with batchSources := List.subset_cons_of_subset _ h.batchSources }
  | streamSource source =>
      exact { h with streamSources := List.subset_cons_of_subset _ h.streamSources }
  | featureView view => exact ⟨h.entities, h.batchSources, h.streamSources⟩
  | featureService service => exact h

theorem planLoop_getElem? {records : RecordTable} {initial available : Availability}
    {objects : List RegistryObject} {index : Nat} {object : RegistryObject}
    {plan : RegistryObjectPlan} (hnames : initial.NamesIn available)
    (hobject : objects[index]? = some object)
    (hplan : (planLoop sha256 records available objects)[index]? = some plan) :
    ∃ available', initial.NamesIn available' ∧
      plan = planObject sha256 records available' object := by
  induction objects generalizing available index with
  | nil => cases hobject
  | cons first rest ih =>
      rw [planLoop] at hplan
      cases index with
      | zero =>
          obtain rfl := Option.some.inj hobject
          exact ⟨available, hnames, (Option.some.inj hplan).symm⟩
      | succ index =>
          apply ih _ hobject hplan
          split
          · exact hnames
          · exact hnames.add first

theorem length_planLoop {records : RecordTable} {available : Availability}
    {objects : List RegistryObject} :
    (planLoop sha256 records available objects).length = objects.length := by
  induction objects generalizing available with
  | nil => rfl
  | cons object rest ih => rw [planLoop, List.length_cons, ih, List.length_cons]

/-- The conflict test compares what the specs say, up to the order of keys. -/
theorem conflicts_iff {record : RegistryRecord} {object : RegistryObject}
    (hprint : record.fingerprint = fingerprint sha256 record.object.spec)
    (hsha : Set.InjOn sha256 {record.object.spec.canonicalText, object.spec.canonicalText}) :
    conflicts sha256 (some record) object = true ↔
      ¬record.object.spec.SameJson object.spec := by
  rw [conflicts, Option.any_some, decide_eq_true_eq, hprint, fingerprint, fingerprint, ne_eq,
    hsha.eq_iff (by simp) (by simp), canonicalText_eq_iff record.object.spec_isJson
      object.spec_isJson, sameJson_iff record.object.spec_distinct object.spec_distinct]

/-- The paths are written at the root of two objects. -/
theorem spec_differences (existing proposed : RegistryObject) :
    differences existing.spec proposed.spec "" =
      (edits existing.spec proposed.spec).map (·.difference "") := by
  have hdict : ∀ object : RegistryObject, ∃ members, object.spec = .dict members := by
    intro object
    cases object <;> exact ⟨_, rfl⟩
  obtain ⟨members, hmembers⟩ := hdict existing
  obtain ⟨others, hothers⟩ := hdict proposed
  exact differences_eq _ _ (Or.inr ⟨members, others, hmembers, hothers⟩)

theorem spec_differences_eq_nil (existing proposed : RegistryObject) :
    differences existing.spec proposed.spec "" = [] ↔
      existing.spec.AgreesBy (fun x y => scalarEq x y = true) proposed.spec := by
  rw [spec_differences, List.map_eq_nil_iff,
    edits_eq_nil_iff existing.spec_distinct proposed.spec_distinct]

/-- Where the plan of a stored object shows a difference exactly if the fingerprints differ. -/
theorem planObject_differences {records : RecordTable} (available : Availability)
    {record : RegistryRecord} {object : RegistryObject}
    (hrecord : records.find? object.identity = some record)
    (hprint : record.fingerprint = fingerprint sha256 record.object.spec)
    (hfinite : record.object.acceptsFinite = true)
    (hsha : Set.InjOn sha256 {record.object.spec.canonicalText, object.spec.canonicalText}) :
    ((planObject sha256 records available object).differences = [] ↔
        record.fingerprint = fingerprint sha256 object.spec) ↔
      ¬record.object.Respelled object := by
  have hkind : record.object.kind = object.kind :=
    (Prod.mk.inj (Table.find?_some_iff.mp hrecord).2).1
  have hconflicts := conflicts_iff hprint hsha
  have hequal : record.fingerprint = fingerprint sha256 object.spec ↔
      conflicts sha256 (some record) object = false := by
    simp [conflicts]
  rw [planObject, hrecord, hequal, RegistryObject.respelled_iff hfinite hkind]
  by_cases hconflict : conflicts sha256 (some record) object = true
  · rw [if_pos hconflict, Option.elim_some, spec_differences_eq_nil, hconflict]
    have hdiffer := hconflicts.mp hconflict
    constructor
    · intro h hrespelled
      exact absurd (h.mp hrespelled.1) (by simp)
    · intro h
      exact iff_of_false (fun hagree => h ⟨hagree, hdiffer⟩) (by simp)
  · have hsame := not_not.mp (mt hconflicts.mpr hconflict)
    rw [if_neg hconflict, Bool.eq_false_iff.mpr hconflict]
    exact iff_of_true (iff_of_true rfl rfl) fun h => h.2 hsame

theorem viewIssues_code {available : Availability} {view : Manifest.FeatureView} :
    ∀ issue ∈ viewIssues available view, issue.code ≠ .immutableConflict := by
  intro issue hissue
  simp only [viewIssues, List.mem_append] at hissue
  rcases hissue with (hissue | hissue) | hissue
  · split at hissue
    · cases hissue
    · rw [List.mem_singleton.mp hissue]
      exact nofun
  · split at hissue
    · cases hissue
    · rw [List.mem_singleton.mp hissue]
      exact nofun
  · split at hissue
    · cases hissue
    · split at hissue
      · cases hissue
      · rw [List.mem_singleton.mp hissue]
        exact nofun

theorem refIssue_code {available : Availability} {index : Nat} {ref : Manifest.FeatureRef}
    {issue : RegistryIssue} (h : refIssue available index ref = some issue) :
    issue.code ≠ .immutableConflict := by
  rw [refIssue] at h
  split at h
  · rw [← Option.some.inj h]
    exact nofun
  · split at h
    · cases h
    · rw [← Option.some.inj h]
      exact nofun

/-- An issue of the references of an object is no conflict. -/
theorem referenceIssues_code {available : Availability} {object : RegistryObject} :
    ∀ issue ∈ referenceIssues available object, issue.code ≠ .immutableConflict := by
  intro issue hissue
  cases object with
  | featureView view => exact viewIssues_code issue hissue
  | featureService service =>
      obtain ⟨ref, -, href⟩ := List.mem_filterMap.mp hissue
      exact refIssue_code href
  | entity _ => cases hissue
  | batchSource _ => cases hissue
  | streamSource _ => cases hissue

/-- A reported conflict is one of fingerprints. -/
theorem planObject_conflict {records : RecordTable} {available : Availability}
    {record : RegistryRecord} {object : RegistryObject}
    (hrecord : records.find? object.identity = some record)
    (h : ∃ issue ∈ (planObject sha256 records available object).issues,
      issue.code = .immutableConflict) :
    record.fingerprint ≠ fingerprint sha256 object.spec := by
  obtain ⟨issue, hissue, hcode⟩ := h
  rcases List.mem_append.mp hissue with hconflict | hreference
  · rw [hrecord, conflictIssues] at hconflict
    split at hconflict
    · rename_i hdiffer
      simpa [conflicts] using hdiffer
    · cases hconflict
  · exact absurd hcode (referenceIssues_code issue hreference)

/-- After any calls, with no collision among the fingerprints, the records are sound, and the texts
of a stored and a planned spec do not collide. -/
theorem registryAfter_stored {calls : List (Instant × RegistryCall)} {now : Instant}
    {manifest : RegistryManifest}
    (hsha : Set.InjOn sha256 {text | text ∈ specTexts (calls ++ [(now, .apply manifest)])})
    {index : Nat} {object : RegistryObject} {record : RegistryRecord}
    (hobject : manifest.objects[index]? = some object)
    (hrecord : (registryAfter sha256 calls).records.find? object.identity = some record) :
    RecordsSound sha256 {text | text ∈ specTexts (calls ++ [(now, .apply manifest)])}
        (registryAfter sha256 calls).records ∧
      Set.InjOn sha256 {record.object.spec.canonicalText, object.spec.canonicalText} := by
  have hsound : RecordsSound sha256 {text | text ∈ specTexts (calls ++ [(now, .apply manifest)])}
      (registryAfter sha256 calls).records := by
    apply registryAfter_recordsSound hsha
    intro text htext
    change text ∈ specTexts (calls ++ [(now, .apply manifest)])
    rw [specTexts, List.flatMap_append]
    exact List.mem_append_left _ htext
  have hstored := (hsound.fingerprinted record (Table.find?_some_iff.mp hrecord).1).2
  have hproposed : object.spec.canonicalText ∈
      {text | text ∈ specTexts (calls ++ [(now, .apply manifest)])} := by
    exact mem_specTexts List.mem_concat_self (List.mem_of_getElem? hobject)
  refine ⟨hsound, hsha.mono ?_⟩
  rw [Set.insert_subset_iff, Set.singleton_subset_iff]
  exact ⟨hstored, hproposed⟩

/-- A plan after any calls, with no collision among the fingerprints, shows no difference of an
object from what is stored exactly if the fingerprints are equal, unless only the
writing of numbers differs. -/
theorem plan_differences {calls : List (Instant × RegistryCall)} {now : Instant}
    {manifest : RegistryManifest}
    (hsha : Set.InjOn sha256 {text | text ∈ specTexts (calls ++ [(now, .apply manifest)])})
    {index : Nat} {object : RegistryObject} {plan : RegistryObjectPlan} {record : RegistryRecord}
    (hobject : manifest.objects[index]? = some object)
    (hplan : ((registryAfter sha256 calls).plan sha256 manifest).objects[index]? = some plan)
    (hrecord : (registryAfter sha256 calls).records.find? object.identity = some record) :
    ((plan.differences = [] ↔ record.fingerprint = fingerprint sha256 object.spec) ↔
        ¬record.object.Respelled object) ∧
      ((∃ issue ∈ plan.issues, issue.code = .immutableConflict) →
        record.fingerprint ≠ fingerprint sha256 object.spec) := by
  obtain ⟨hsound, htexts⟩ := registryAfter_stored hsha hobject hrecord
  have hmem := (Table.find?_some_iff.mp hrecord).1
  obtain ⟨available, -, rfl⟩ := planLoop_getElem? (.refl _) hobject hplan
  exact ⟨planObject_differences available hrecord (hsound.fingerprinted record hmem).1
    (hsound.readable record hmem) htexts, planObject_conflict hrecord⟩

end Plans

section Sample

/-- A view of amounts with a least amount. -/
def amountManifest (minimum : Manifest.Number) : RegistryManifest :=
  let view : Manifest.FeatureView :=
    ⟨"account_stats", "1.0.0", "account", [⟨"amount", .float64, "",
        some ⟨true, some minimum, none, none, false, none, Manifest.no_accepted_scalar⟩⟩],
      "accounts",
      "SELECT * FROM source", none, none, "", none, List.nodup_singleton "amount"⟩
  ⟨[⟨"account", [("account_id", .string)], List.nodup_singleton "account_id"⟩],
    [⟨"accounts", "s3://accounts", "updated_at"⟩], [], [view], []⟩

def wholeMinimum : RegistryManifest := amountManifest (.int 1)

def floatMinimum : RegistryManifest := amountManifest (.float "1.0" rfl)

def raisedMinimum : RegistryManifest := amountManifest (.int 10)

/-- The specs of these manifests. -/
def amountObjects : List RegistryObject :=
  wholeMinimum.objects ++ [floatMinimum.objects[2], raisedMinimum.objects[2]]

/-- The lengths of their texts, and their digests. -/
def amountDigests : List (Nat × String) :=
  [(54, "aa4eb8a7917a29257ec90e6c1ac5abfff2b7b01c80604801d7a37791d7726762"),
    (78, "4b7bb7d02a01b769a069629b6587f3608b932148d9f88878829dd1f8824154cf"),
    (361, "7928fd65f35335e6912efff4486c459dec06c9bbe75c452321a9a7f41c8e5e42"),
    (363, "949d495c772d1d1807c82ee022216667ab6d191b9e44ba72e70eecd495e51cce"),
    (362, "2042c993c4533ff0fa5a4cd66ba4e4b3232756bd5d166dd56aec9fbd125fa4b6")]

def amountDigest (text : String) : String := (amountDigests.lookup text.toList.length).getD ""

theorem amountDigest_injOn :
    Set.InjOn amountDigest {text | text ∈ amountObjects.map (·.spec.canonicalText)} := by
  have hlengths : (amountObjects.map fun object => object.spec.sortKeys.jsonChars.length) =
      amountDigests.map (·.1) := by
    decide +kernel
  have hdigests : (amountObjects.map fun object => amountDigest object.spec.canonicalText) =
      amountDigests.map (·.2) := by
    calc amountObjects.map (fun object => amountDigest object.spec.canonicalText)
        = (amountObjects.map fun object => object.spec.sortKeys.jsonChars.length).map
            fun length => (amountDigests.lookup length).getD "" := by
          simp [amountDigest, Value.canonicalText, Value.jsonText]
      _ = (amountDigests.map (·.1)).map fun length => (amountDigests.lookup length).getD "" := by
          rw [hlengths]
      _ = amountDigests.map (·.2) := by decide
  have hnodup : (amountObjects.map fun object => amountDigest object.spec.canonicalText).Nodup := by
    rw [hdigests]
    decide +kernel
  rintro a ha b hb hab
  obtain ⟨object, hobject, rfl⟩ := List.mem_map.mp ha
  obtain ⟨other, hother, rfl⟩ := List.mem_map.mp hb
  exact congrArg (·.spec.canonicalText) (List.inj_on_of_nodup_map hnodup hobject hother hab)

theorem amountDigest_texts {manifest : RegistryManifest}
    (h : manifest = floatMinimum ∨ manifest = raisedMinimum) :
    Set.InjOn amountDigest
      {text | text ∈ specTexts ([(0, .apply wholeMinimum)] ++ [(1, .apply manifest)])} := by
  have hfloat : floatMinimum.objects = wholeMinimum.objects.take 2 ++ [floatMinimum.objects[2]] :=
    rfl
  have hraised : raisedMinimum.objects =
      wholeMinimum.objects.take 2 ++ [raisedMinimum.objects[2]] :=
    rfl
  apply amountDigest_injOn.mono
  intro text htext
  change text ∈ amountObjects.map (·.spec.canonicalText)
  change text ∈ specTexts ([(0, .apply wholeMinimum)] ++ [(1, .apply manifest)]) at htext
  obtain ⟨object, hobject, rfl⟩ : ∃ object ∈ wholeMinimum.objects ++ manifest.objects,
      object.spec.canonicalText = text := by
    simpa [specTexts, or_and_right, exists_or] using htext
  apply List.mem_map_of_mem
  rw [amountObjects, List.mem_append]
  rcases List.mem_append.mp hobject with hwhole | hother
  · exact Or.inl hwhole
  · rcases h with rfl | rfl
    · rw [hfloat, List.mem_append] at hother
      exact hother.imp List.mem_of_mem_take fun hlast =>
        List.mem_cons.mpr (Or.inl (List.mem_singleton.mp hlast))
    · rw [hraised, List.mem_append] at hother
      exact hother.imp List.mem_of_mem_take fun hlast => List.mem_cons_of_mem _ hlast

/-- The plan of another least amount, and the stored one. -/
theorem exists_plan (minimum : Manifest.Number) : ∃ plan record,
    ((registryAfter amountDigest [(0, .apply wholeMinimum)]).plan amountDigest
      (amountManifest minimum)).objects[2]? = some plan ∧
    (registryAfter amountDigest [(0, .apply wholeMinimum)]).records.find?
      (.featureView, "account_stats", "1.0.0") = some record ∧
    record.object = wholeMinimum.objects[2] := by
  have hstored : ((registryAfter amountDigest [(0, .apply wholeMinimum)]).records.find?
      (.featureView, "account_stats", "1.0.0")).map (·.object) =
        some wholeMinimum.objects[2] := by
    rfl
  obtain ⟨record, hrecord, hobject⟩ := Option.map_eq_some_iff.mp hstored
  have hlength : 2 < ((registryAfter amountDigest [(0, .apply wholeMinimum)]).plan amountDigest
      (amountManifest minimum)).objects.length := by
    rw [RegistryStore.plan, length_planLoop]
    exact Nat.lt_succ_self 2
  exact ⟨_, record, List.getElem?_eq_getElem hlength, hrecord, hobject⟩

end Sample

end FeatureStore
