import FeatureStore.QualityExactness

/-!
# The evaluation of a table

`validate_quality_table` passes the rows of a table to `validate_quality_rows`. Where this returns,
its result is that of the evaluation by content, which the backfill uses.
-/

namespace FeatureStore

open Manifest

section Comparison

variable {less : Value → Value → Bool} {value : Value} {bound : Number} {violated : Bool}

/-- How `validate_quality_rows` compares, given `<` where an operand is a float. -/
def ValueComparison.python (less : Value → Value → Bool) : ValueComparison where
  less
    | .int n, .int m => decide (n < m)
    | .bool b, .int m => decide (b.toInt < m)
    | .int n, .bool b => decide (n < b.toInt)
    | .bool b, .float token => less (.int b.toInt) (.float token)
    | .float token, .bool b => less (.float token) (.int b.toInt)
    | a, b => less a b
  equal := scalarEq
  key := Value.keyText

theorem isBelow_ok (h : isBelow less value bound = .ok violated) :
    violated = (ValueComparison.python less).less value bound.value := by
  cases bound <;> cases value <;> cases h <;> rfl

theorem isAbove_ok (h : isAbove less value bound = .ok violated) :
    violated = (ValueComparison.python less).less bound.value value := by
  cases bound <;> cases value <;> cases h <;> rfl

theorem checkOptional_ok {α : Type} {check : α → Except PyException Bool} {expected : α → Bool}
    {a? : Option α} (hcheck : ∀ a violated, check a = .ok violated → violated = expected a)
    (h : checkOptional check a? = .ok violated) : violated = a?.any expected := by
  cases a? with
  | none =>
      cases h
      rfl
  | some a => exact hcheck a violated h

end Comparison

section Table

variable {less : Value → Value → Bool} {features : List Manifest.Feature} {reference : Instant}
  {rows : List OfflineRow} {row : OfflineRow} {index : Nat} {feature : Manifest.Feature}
  {timestamp : DateTime} {duplicates : List (String × List Nat)}

/-- The row has the value of a unique feature in another one. -/
theorem isRepeated_iff {quality : FeatureQuality} {name : String} (hrow : rows[index]? = some row)
    (hpresent : (row.feature name).isNull = false) :
    isRepeated (.python less) rows quality name row = true ↔
      quality.unique = true ∧ index ∈ sharedIndexes (rows.map (·.values)) name := by
  have hself : (!(row.feature name).isNull && (row.feature name).keyText ==
      (row.feature name).keyText) = true := by
    rw [hpresent, beq_self_eq_true]
    rfl
  rw [isRepeated, Bool.and_eq_true, decide_eq_true_eq, mem_sharedIndexes]
  refine and_congr_right fun _ => (Grouping.one_lt_countP_iff hrow hself).trans ?_
  have hvalues : ∀ {j : Nat} {values : Dict}, (rows.map (·.values))[j]? = some values ↔
      ∃ other, rows[j]? = some other ∧ other.values = values := by
    intro j values
    rw [List.getElem?_map, Option.map_eq_some_iff]
  simp only [hvalues, Bool.and_eq_true, Bool.not_eq_true', beq_iff_eq]
  constructor
  · rintro ⟨j, other, hne, hother, hnull, hkey⟩
    exact ⟨_, ⟨row, hrow, rfl⟩, hpresent, j, _, hne, ⟨other, hother, rfl⟩, hnull, hkey⟩
  · rintro ⟨_, ⟨row', hrow', rfl⟩, -, j, _, hne, ⟨other, hother, rfl⟩, hnull, hkey⟩
    obtain rfl := Option.some.inj (hrow.symm.trans hrow')
    exact ⟨j, other, hne, hother, hnull, hkey⟩

/-- The violations of a feature in a row, by content. -/
def tableViolations (less : Value → Value → Bool) (reference : Instant) (rows : List OfflineRow)
    (index : Nat) (row : OfflineRow) (feature : Manifest.Feature) : List QualityViolation :=
  (feature.quality.toList.flatMap fun quality =>
    violatedBy (.python less) reference rows quality feature.name row).map fun constraint =>
      ⟨index, feature.name, constraint⟩

/-- The duplicates of a loop that checks uniqueness, by content. -/
theorem mem_duplicates (hnames : (features.map (·.name)).Nodup)
    (h : duplicateRows (rows.map (·.values)) features = .ok duplicates)
    (hfeature : feature ∈ features) {quality : FeatureQuality}
    (hquality : feature.quality = some quality) (hrow : rows[index]? = some row)
    (hpresent : (row.feature feature.name).isNull = false) :
    ((duplicates.lookup feature.name).getD []).contains index =
      isRepeated (.python less) rows quality feature.name row := by
  rw [Bool.eq_iff_iff, List.contains_iff_mem, isRepeated_iff hrow hpresent]
  have hok := duplicateRows_ok hnames (columnConvertible_of_duplicateRows h)
  obtain rfl := Except.ok.inj (h.symm.trans hok)
  have hunique : feature.isUnique = quality.unique := by
    rw [Manifest.Feature.isUnique, hquality, Option.any_some]
  rw [lookup_sharedEntries hnames hfeature, hunique]
  cases quality.unique <;> simp

theorem filterMap_violated (checks : List (QualityConstraintType × Bool)) :
    (checks.filterMap fun (constraint, violated) => if violated then some constraint else none) =
      (checks.filter (·.2)).map (·.1) := by
  induction checks with
  | nil => rfl
  | cons check rest ih =>
      obtain ⟨constraint, violated⟩ := check
      cases violated with
      | false => exact ih
      | true => exact congrArg (constraint :: ·) ih

/-- The check of the age by content. -/
theorem checkAge_ok {age? : Option Nat} {old : Bool}
    (h : checkOptional (fun age => (cutoff reference age).map fun oldest =>
      decide (timestamp.asUtc < oldest)) age? = .ok old) :
    old = age?.any fun age => decide (timestamp.asUtc < reference - seconds age) := by
  cases age? with
  | none =>
      cases h
      rfl
  | some age =>
      rw [checkOptional] at h
      cases hcutoff : cutoff reference age with
      | error exc =>
          rw [hcutoff] at h
          cases h
      | ok oldest =>
          rw [hcutoff, (cutoff_eq_ok_iff.mp hcutoff).2] at h
          cases h
          rfl

/-- What the checks of a feature find is what they find by content. -/
theorem featureViolations_eq
    (hduplicates : (row.feature feature.name).isNull = false → ∀ quality,
      feature.quality = some quality →
        ((duplicates.lookup feature.name).getD []).contains index =
          isRepeated (.python less) rows quality feature.name row)
    {found : List QualityViolation}
    (h : featureViolations less reference duplicates index row.values
      ⟨row.eventTimestamp, some 0⟩ feature = .ok found) :
    found = tableViolations less reference rows index row feature := by
  rw [featureViolations] at h
  rw [tableViolations]
  cases hquality : feature.quality with
  | none =>
      rw [hquality] at h
      cases h
      rfl
  | some quality =>
      rw [hquality] at h
      obtain ⟨checks, hchecks, hrest⟩ := ok_of_bind h
      obtain ⟨instant, htime, hlast⟩ := ok_of_bind hrest
      obtain ⟨-, rfl⟩ := toUtc_eq_ok_iff.mp htime
      obtain ⟨old, hold, hfound⟩ := ok_of_bind hlast
      have hinstant : (⟨row.eventTimestamp, some 0⟩ : DateTime).asUtc = row.eventTimestamp :=
        Int.sub_zero _
      have hage := checkAge_ok hold
      rw [hinstant] at hage
      rw [Option.toList_some, List.flatMap_singleton, violatedBy, filterMap_violated, List.map_map]
      cases hfound
      rw [valueChecks] at hchecks
      cases hnull : (row.feature feature.name).isNull with
      | true =>
          have hvalue : (valueOf row.values feature.name).isNull = true := hnull
          rw [hvalue] at hchecks
          cases hchecks
          rw [← hage]
          cases quality.nullable <;> cases old <;> rfl
      | false =>
          have hvalue : (valueOf row.values feature.name).isNull = false := hnull
          rw [hvalue] at hchecks
          obtain ⟨low, hlow, hrest⟩ := ok_of_bind hchecks
          obtain ⟨high, hhigh, hlast⟩ := ok_of_bind hrest
          cases hlast
          have hmin := checkOptional_ok (fun _ _ => isBelow_ok) hlow
          have hmax := checkOptional_ok (fun _ _ => isAbove_ok) hhigh
          rw [← hage, hduplicates hnull quality hquality, hmin, hmax]
          rfl

/-- What the loop over the rows of a table finds, from a row on. -/
theorem rowViolationsFrom_eq {rest : List OfflineRow} {found : List QualityViolation}
    (hcell : ∀ row i, (row, i) ∈ rest.zipIdx index → ∀ feature ∈ features, ∀ violations,
      featureViolations less reference duplicates i row.values ⟨row.eventTimestamp, some 0⟩
        feature = .ok violations → violations = tableViolations less reference rows i row feature)
    (h : rowViolationsFrom less reference duplicates features index (rest.map (·.values))
      (rest.map fun row => ⟨row.eventTimestamp, some 0⟩) = .ok found) :
    found = (rest.zipIdx index).flatMap fun item =>
      features.flatMap (tableViolations less reference rows item.2 item.1) := by
  induction rest generalizing index found with
  | nil =>
      cases h
      rfl
  | cons row others ih =>
      rw [List.map_cons, List.map_cons, rowViolationsFrom] at h
      obtain ⟨violations, hviolations, hrest⟩ := ok_of_bind h
      obtain ⟨remaining, hremaining, hfound⟩ := ok_of_bind hrest
      cases hfound
      have hfirst := eq_map_of_mapM hviolations (hcell row index List.mem_cons_self)
      have hothers := ih (fun row i hitem => hcell row i (List.mem_cons_of_mem _ hitem)) hremaining
      rw [hfirst, hothers, List.zipIdx_cons, List.flatMap_cons, ← List.flatMap_def]

theorem tableViolations_eq : tableViolations less reference rows index row feature =
    (match feature.quality with
      | none => []
      | some quality => (violatedBy (.python less) reference rows quality feature.name row).map
          fun constraint => (feature.name, constraint)).map
        fun (feature, constraint) => (⟨index, feature, constraint⟩ : QualityViolation) := by
  rw [tableViolations]
  cases feature.quality with
  | none => rfl
  | some quality =>
      rw [Option.toList_some, List.flatMap_singleton, List.map_map]
      rfl

theorem sublist_violatedBy {compare : ValueComparison} {quality : FeatureQuality} {name : String} :
    (violatedBy compare reference rows quality name row).Sublist allConstraints := by
  rw [violatedBy, filterMap_violated]
  exact List.filter_sublist.map _

/-- The violations by content come in the order of their positions. -/
theorem pairwise_tableViolations (hnames : (features.map (·.name)).Nodup) :
    (rows.zipIdx.flatMap fun item =>
      features.flatMap (tableViolations less reference rows item.2 item.1)).Pairwise
        fun a b => position features a < position features b := by
  refine pairwise_position hnames fun item feature => ?_
  cases feature.quality with
  | none => exact List.nil_sublist _
  | some quality =>
      rw [Option.toList_some, List.flatMap_singleton]
      exact sublist_violatedBy

theorem feature_of_mem_tableViolations {violation : QualityViolation}
    (h : violation ∈ tableViolations less reference rows index row feature) :
    violation.feature = feature.name := by
  obtain ⟨constraint, -, rfl⟩ := List.mem_map.mp h
  rfl

/-- Where `validate_quality_rows` returns on the rows of a table, its result is that of the
evaluation by content. -/
theorem validateQualityTable_eq (hnames : (features.map (·.name)).Nodup)
    {validation : QualityValidation}
    (h : validateQualityRows less (rows.map (·.values)) features
      (rows.map fun row => ⟨row.eventTimestamp, some 0⟩) ⟨reference, some 0⟩ true =
        .ok validation) :
    validation = validateQualityTable (.python less) features reference rows := by
  obtain ⟨instant, href, hrest⟩ := ok_of_bind h
  obtain ⟨duplicates, hduplicates, hrest⟩ := ok_of_bind hrest
  obtain ⟨violations, hloop, hvalidation⟩ := ok_of_bind hrest
  have hinstant : instant = reference := (toUtc_eq_ok_iff.mp href).2.trans (Int.sub_zero _)
  subst hinstant
  have hcell : ∀ row i, (row, i) ∈ rows.zipIdx 0 → ∀ feature ∈ features, ∀ found,
      featureViolations less instant duplicates i row.values ⟨row.eventTimestamp, some 0⟩
        feature = .ok found → found = tableViolations less instant rows i row feature :=
    fun row i hitem feature hfeature found hok =>
      featureViolations_eq (fun hpresent quality hquality => mem_duplicates hnames hduplicates
        hfeature hquality (List.mk_mem_zipIdx_iff_getElem?.mp hitem) hpresent) hok
  have hfound := rowViolationsFrom_eq hcell hloop
  cases hvalidation
  have hfeatures : ∀ violation ∈ violations, violation.feature ∈ features.map (·.name) := by
    intro violation hviolation
    rw [hfound] at hviolation
    obtain ⟨item, -, hitem⟩ := List.mem_flatMap.mp hviolation
    obtain ⟨feature, hfeature, hmem⟩ := List.mem_flatMap.mp hitem
    exact feature_of_mem_tableViolations hmem ▸ List.mem_map_of_mem hfeature
  rw [insertionSort_violations hnames (hfound ▸ pairwise_tableViolations hnames) hfeatures, hfound,
    validateQualityTable, List.length_map]
  refine congrArg (QualityValidation.mk rows.length) (List.flatMap_congr ?_)
  rintro ⟨row, index⟩ -
  simp only [rowViolations, List.map_flatMap]
  exact List.flatMap_congr fun feature _ => tableViolations_eq

end Table

end FeatureStore
