import FeatureStore.Library.KeyedSort
import FeatureStore.QualityTables

/-!
# The evaluation of events

The consumer evaluates each event alone when it comes in, and a backfill evaluates a whole table
later. Uniqueness apart, a row of the table gets the verdict of the event, and a later reference
time only finds more rows too old.
-/

namespace FeatureStore

open Manifest

/-- `validate_quality_event` -/
def validateQualityEvent (less : Value → Value → Bool) (values : Dict)
    (features : List Manifest.Feature) (eventTimestamp ingestionTime : DateTime) :
    Except PyException QualityValidation :=
  validateQualityRows less [values] features [eventTimestamp] ingestionTime false

/-- The violated constraints, without their rows. -/
def verdicts (violations : List QualityViolation) : List (String × QualityConstraintType) :=
  violations.map fun violation => (violation.feature, violation.constraint)

/-- What a row violates on its own. -/
def QualityValidation.ofRow (validation : QualityValidation) (index : Nat) :
    List (String × QualityConstraintType) :=
  (verdicts (validation.violations.filter fun violation =>
    decide (violation.rowIndex = index))).filter fun verdict => decide (verdict.2 ≠ .unique)

/-- The verdicts that do not depend on the reference time. -/
def timeless (verdicts : List (String × QualityConstraintType)) :
    List (String × QualityConstraintType) :=
  verdicts.filter fun verdict => decide (verdict.2 ≠ .maxAgeSeconds)

/-- The key of the final sort within one row. -/
def verdictKey (features : List Manifest.Feature) (verdict : String × QualityConstraintType) :
    List Nat :=
  [((featureOrder features).lookup verdict.1).getD 0, verdict.2.order]

/-- The final sort within one row. -/
def sortVerdicts (features : List Manifest.Feature)
    (verdicts : List (String × QualityConstraintType)) : List (String × QualityConstraintType) :=
  verdicts.insertionSort fun a b => verdictKey features a ≤ verdictKey features b

section Sorting

variable {features : List Manifest.Feature} {violations : List QualityViolation} {index : Nat}

theorem filter_sortVerdicts (p : String × QualityConstraintType → Bool)
    (items : List (String × QualityConstraintType)) :
    (sortVerdicts features items).filter p = sortVerdicts features (items.filter p) := by
  apply KeyedSort.filter_insertionSort
  · exact fun a b => le_total (verdictKey features a) (verdictKey features b)
  · exact fun _ _ _ hab hbc => le_trans hab hbc

theorem mem_sortVerdicts {verdict : String × QualityConstraintType}
    {items : List (String × QualityConstraintType)} :
    verdict ∈ sortVerdicts features items ↔ verdict ∈ items :=
  (List.perm_insertionSort _ _).mem_iff

/-- Violations of one row are sorted by their verdicts. -/
theorem verdicts_insertionSort (h : ∀ violation ∈ violations, violation.rowIndex = index) :
    verdicts (violations.insertionSort fun a b =>
      violationKey features a ≤ violationKey features b) =
        sortVerdicts features (verdicts violations) := by
  unfold sortVerdicts verdicts
  apply List.map_insertionSort
  intro a ha b hb
  have hkey : ∀ violation ∈ violations, violationKey features violation =
      index :: verdictKey features (violation.feature, violation.constraint) := by
    intro violation hviolation
    rw [← h violation hviolation]
    rfl
  rw [hkey a ha, hkey b hb, ← not_lt, ← not_lt, List.cons_lt_cons_iff]
  simp

end Sorting

section Cells

variable {less : Value → Value → Bool} {reference instant : Instant}
  {duplicates : List (String × List Nat)} {features : List Manifest.Feature} {index : Nat}
  {row : Dict} {timestamp : DateTime}

/-- The checks of a value without those of other rows: the same ones, and none of the age. -/
theorem valueChecks_alone {quality : FeatureQuality} {name : String} {value : Value}
    {checks : List (QualityConstraintType × Bool)}
    (h : valueChecks less duplicates quality name index value = .ok checks) :
    ∃ alone, valueChecks less [] quality name 0 value = .ok alone ∧
      (alone.filter (·.2)).map (·.1) =
        ((checks.filter (·.2)).map (·.1)).filter (fun constraint => decide (constraint ≠ .unique)) ∧
      ∀ check ∈ alone, check.1 ≠ .maxAgeSeconds := by
  rw [valueChecks] at h ⊢
  cases hnull : value.isNull with
  | true =>
      rw [hnull] at h
      cases h
      refine ⟨_, rfl, ?_, ?_⟩
      · cases quality.nullable <;> rfl
      · simp
  | false =>
      rw [hnull] at h
      obtain ⟨low, hlow, hrest⟩ := ok_of_bind h
      obtain ⟨high, hhigh, hlast⟩ := ok_of_bind hrest
      cases hlast
      refine ⟨_, by rw [hlow, hhigh]; rfl, ?_, ?_⟩
      · generalize quality.acceptedValues.any _ = refused
        generalize List.contains _ index = shared
        cases low <;> cases high <;> cases refused <;> cases shared <;> rfl
      · simp

/-- The age check of a row. -/
def ageCheck (reference : Instant) (timestamp : Instant) (quality : FeatureQuality) :
    Except PyException Bool :=
  checkOptional (fun age => (cutoff reference age).map fun oldest =>
    decide (timestamp < oldest)) quality.maxAgeSeconds

/-- The violations of a feature, from the checks of its value and of the age. -/
def cellViolations (index : Nat) (name : String) (checks : List (QualityConstraintType × Bool))
    (old : Bool) : List QualityViolation :=
  ((checks ++ [(QualityConstraintType.maxAgeSeconds, old)]).filter (·.2)).map fun check =>
    ⟨index, name, check.1⟩

theorem rowIndex_of_mem_cell {name : String} {checks : List (QualityConstraintType × Bool)}
    {old : Bool} : ∀ violation ∈ cellViolations index name checks old,
      violation.rowIndex = index := by
  intro violation hviolation
  obtain ⟨check, -, rfl⟩ := List.mem_map.mp hviolation
  rfl

theorem verdicts_cell (name : String) (checks : List (QualityConstraintType × Bool)) (old : Bool) :
    verdicts (cellViolations index name checks old) =
      ((checks.filter (·.2)).map (·.1) ++
        if old then [QualityConstraintType.maxAgeSeconds] else []).map
          fun constraint => (name, constraint) := by
  rw [verdicts, cellViolations, List.map_map, List.filter_append, List.map_append,
    List.map_append, List.map_map]
  cases old <;> rfl

/-- A contract adds the constraints of the value and then the age. -/
theorem featureViolations_iff {feature : Manifest.Feature} {quality : FeatureQuality}
    (hquality : feature.quality = some quality) {found : List QualityViolation} :
    featureViolations less reference duplicates index row timestamp feature = .ok found ↔
      ∃ checks converted old,
        valueChecks less duplicates quality feature.name index (valueOf row feature.name) =
          .ok checks ∧
        timestamp.toUtc = .ok converted ∧ ageCheck reference converted quality = .ok old ∧
        found = cellViolations index feature.name checks old := by
  rw [featureViolations, hquality]
  constructor
  · intro h
    obtain ⟨checks, hchecks, hrest⟩ := ok_of_bind h
    obtain ⟨converted, htime, hrest⟩ := ok_of_bind hrest
    obtain ⟨old, hold, hfound⟩ := ok_of_bind hrest
    cases hfound
    exact ⟨checks, converted, old, hchecks, htime, hold, rfl⟩
  · rintro ⟨checks, converted, old, hchecks, htime, hold, rfl⟩
    unfold ageCheck at hold
    simp only [hchecks, htime, hold, bind, Except.bind, pure, Except.pure, cellViolations]

/-- The violations of a feature in a row alone, at any index and among any other rows. -/
theorem featureViolations_alone {feature : Manifest.Feature} {found : List QualityViolation}
    (h : featureViolations less reference duplicates index row timestamp feature = .ok found) :
    ∃ alone, featureViolations less reference [] 0 row timestamp feature = .ok alone ∧
      verdicts alone = (verdicts found).filter (fun verdict => decide (verdict.2 ≠ .unique)) ∧
      (∀ violation ∈ found, violation.rowIndex = index) ∧
      ∀ violation ∈ alone, violation.rowIndex = 0 := by
  cases hquality : feature.quality with
  | none =>
      rw [featureViolations, hquality] at h
      cases h
      exact ⟨[], by rw [featureViolations, hquality], rfl, by simp, by simp⟩
  | some quality =>
      obtain ⟨checks, converted, old, hchecks, htime, hold, rfl⟩ :=
        (featureViolations_iff hquality).mp h
      obtain ⟨alone, halone, hsame, -⟩ := valueChecks_alone hchecks
      have hok := (featureViolations_iff hquality).mpr
        ⟨alone, converted, old, halone, htime, hold, rfl⟩
      refine ⟨_, hok, ?_, rowIndex_of_mem_cell, rowIndex_of_mem_cell⟩
      rw [verdicts_cell, verdicts_cell, hsame]
      generalize (checks.filter (·.2)).map (·.1) = violated
      rw [List.filter_map, List.filter_append]
      cases old <;> rfl

/-- At a later reference time no row gets younger. -/
theorem ageCheck_later {quality : FeatureQuality} {converted : Instant} {old old' : Bool}
    (hle : instant ≤ reference) (h : ageCheck instant converted quality = .ok old)
    (h' : ageCheck reference converted quality = .ok old') (hold : old = true) : old' = true := by
  unfold ageCheck at h h'
  cases hage : quality.maxAgeSeconds with
  | none =>
      rw [hage] at h
      cases h
      cases hold
  | some age =>
      rw [hage, checkOptional] at h h'
      cases hcutoff : cutoff instant age with
      | error exc =>
          rw [hcutoff] at h
          cases h
      | ok oldest =>
          cases hcutoff' : cutoff reference age with
          | error exc =>
              rw [hcutoff'] at h'
              cases h'
          | ok oldest' =>
              rw [hcutoff] at h
              rw [hcutoff'] at h'
              cases h
              cases h'
              have hlt : converted < oldest := of_decide_eq_true hold
              have holdest := (cutoff_eq_ok_iff.mp hcutoff).2
              have holdest' := (cutoff_eq_ok_iff.mp hcutoff').2
              refine decide_eq_true ?_
              simp only [Instant] at *
              omega

/-- At another time, a row alone differs in its age only; at a later one it can only be older. -/
theorem featureViolations_later {feature : Manifest.Feature} {earlier later : List QualityViolation}
    (hearlier : featureViolations less instant [] 0 row timestamp feature = .ok earlier)
    (hlater : featureViolations less reference [] 0 row timestamp feature = .ok later) :
    timeless (verdicts earlier) = timeless (verdicts later) ∧
      (instant ≤ reference → ∀ verdict ∈ verdicts earlier, verdict ∈ verdicts later) := by
  cases hquality : feature.quality with
  | none =>
      rw [featureViolations, hquality] at hearlier hlater
      cases hearlier
      cases hlater
      exact ⟨rfl, fun _ _ h => h⟩
  | some quality =>
      obtain ⟨checks, converted, old, hchecks, htime, hold, rfl⟩ :=
        (featureViolations_iff hquality).mp hearlier
      obtain ⟨checks', converted', old', hchecks', htime', hold', rfl⟩ :=
        (featureViolations_iff hquality).mp hlater
      obtain rfl := Except.ok.inj (hchecks.symm.trans hchecks')
      obtain rfl := Except.ok.inj (htime.symm.trans htime')
      rw [verdicts_cell, verdicts_cell]
      constructor
      · rw [timeless, timeless, List.map_append, List.map_append, List.filter_append,
          List.filter_append]
        cases old <;> cases old' <;> rfl
      · intro hle
        cases hcase : old with
        | false =>
            rw [if_neg (by simp), List.append_nil]
            intro verdict hverdict
            obtain ⟨constraint, hconstraint, rfl⟩ := List.mem_map.mp hverdict
            exact List.mem_map_of_mem (List.mem_append_left _ hconstraint)
        | true =>
            rw [ageCheck_later hle hold hold' hcase]
            exact fun _ h => h

end Cells

section Rows

variable {less : Value → Value → Bool} {reference instant : Instant}
  {duplicates : List (String × List Nat)} {features : List Manifest.Feature} {index : Nat}
  {row : Dict} {timestamp : DateTime}

theorem verdicts_append (first second : List QualityViolation) :
    verdicts (first ++ second) = verdicts first ++ verdicts second :=
  List.map_append

/-- The violations of a row alone. -/
theorem rowViolations_alone {found : List (List QualityViolation)}
    (h : features.mapM (featureViolations less reference duplicates index row timestamp) =
      .ok found) :
    ∃ alone, features.mapM (featureViolations less reference [] 0 row timestamp) = .ok alone ∧
      verdicts alone.flatten =
        (verdicts found.flatten).filter (fun verdict => decide (verdict.2 ≠ .unique)) ∧
      (∀ violation ∈ found.flatten, violation.rowIndex = index) ∧
      ∀ violation ∈ alone.flatten, violation.rowIndex = 0 := by
  induction features generalizing found with
  | nil =>
      cases h
      exact ⟨[], rfl, rfl, by simp, by simp⟩
  | cons feature rest ih =>
      rw [List.mapM_cons] at h
      obtain ⟨first, hfirst, h⟩ := ok_of_bind h
      obtain ⟨others, hothers, h⟩ := ok_of_bind h
      cases h
      obtain ⟨alone, halone, hsame, hindex, hzero⟩ := featureViolations_alone hfirst
      obtain ⟨remaining, hremaining, hsame', hindex', hzero'⟩ := ih hothers
      refine ⟨alone :: remaining, ?_, ?_, ?_, ?_⟩
      · rw [List.mapM_cons, halone]
        simp only [hremaining, bind, Except.bind, pure, Except.pure]
      · rw [List.flatten_cons, List.flatten_cons, verdicts_append, verdicts_append,
          List.filter_append, hsame, hsame']
      · intro violation hviolation
        rw [List.flatten_cons, List.mem_append] at hviolation
        exact hviolation.elim (hindex violation) (hindex' violation)
      · intro violation hviolation
        rw [List.flatten_cons, List.mem_append] at hviolation
        exact hviolation.elim (hzero violation) (hzero' violation)

/-- The violations of a row alone at two reference times. -/
theorem rowViolations_later {earlier later : List (List QualityViolation)}
    (hearlier : features.mapM (featureViolations less instant [] 0 row timestamp) = .ok earlier)
    (hlater : features.mapM (featureViolations less reference [] 0 row timestamp) = .ok later) :
    timeless (verdicts earlier.flatten) = timeless (verdicts later.flatten) ∧
      (instant ≤ reference → ∀ verdict ∈ verdicts earlier.flatten,
        verdict ∈ verdicts later.flatten) := by
  induction features generalizing earlier later with
  | nil =>
      cases hearlier
      cases hlater
      exact ⟨rfl, fun _ _ h => h⟩
  | cons feature rest ih =>
      rw [List.mapM_cons] at hearlier hlater
      obtain ⟨first, hfirst, hearlier⟩ := ok_of_bind hearlier
      obtain ⟨others, hothers, hearlier⟩ := ok_of_bind hearlier
      obtain ⟨first', hfirst', hlater⟩ := ok_of_bind hlater
      obtain ⟨others', hothers', hlater⟩ := ok_of_bind hlater
      cases hearlier
      cases hlater
      obtain ⟨hsame, hmore⟩ := featureViolations_later hfirst hfirst'
      obtain ⟨hsame', hmore'⟩ := ih hothers hothers'
      simp only [List.flatten_cons, verdicts_append]
      constructor
      · rw [timeless, timeless, List.filter_append, List.filter_append]
        exact congrArg₂ _ hsame hsame'
      · intro hle verdict hverdict
        rw [List.mem_append] at hverdict ⊢
        exact hverdict.imp (hmore hle verdict) (hmore' hle verdict)

/-- The loop finds the violations of its rows, each under its index. -/
theorem rowViolationsFrom_at {rows : List Dict} {timestamps : List DateTime}
    {violations : List QualityViolation}
    (h : rowViolationsFrom less reference duplicates features index rows timestamps =
      .ok violations) :
    (∀ violation ∈ violations, index ≤ violation.rowIndex) ∧
      ∀ i row timestamp, rows[i]? = some row → timestamps[i]? = some timestamp →
        ∃ found, features.mapM
            (featureViolations less reference duplicates (index + i) row timestamp) = .ok found ∧
          violations.filter (fun violation => decide (violation.rowIndex = index + i)) =
            found.flatten := by
  induction rows generalizing index timestamps violations with
  | nil =>
      cases timestamps with
      | nil =>
          cases h
          simp
      | cons timestamp others => cases h
  | cons row rest ih =>
      cases timestamps with
      | nil => cases h
      | cons timestamp others =>
          obtain ⟨found, hfound, hrest⟩ := ok_of_bind h
          obtain ⟨remaining, hremaining, hlast⟩ := ok_of_bind hrest
          cases hlast
          obtain ⟨-, -, -, hindex, -⟩ := rowViolations_alone hfound
          obtain ⟨hlater, hrows⟩ := ih hremaining
          refine ⟨?_, ?_⟩
          · intro violation hviolation
            rcases List.mem_append.mp hviolation with hfirst | hother
            · exact Nat.le_of_eq (hindex violation hfirst).symm
            · exact Nat.le_of_succ_le (hlater violation hother)
          · intro i row' timestamp' hrow htime
            rw [List.filter_append]
            cases i with
            | zero =>
                cases hrow
                cases htime
                refine ⟨found, hfound, ?_⟩
                rw [List.filter_eq_self.mpr, List.filter_eq_nil_iff.mpr, List.append_nil]
                · intro violation hviolation
                  have hlt := hlater violation hviolation
                  simp only [decide_eq_true_eq]
                  omega
                · intro violation hviolation
                  simp only [hindex violation hviolation, Nat.add_zero, decide_true]
            | succ i =>
                obtain ⟨found', hfound', hfilter⟩ := hrows i row' timestamp' hrow htime
                rw [Nat.add_right_comm] at hfound' hfilter
                refine ⟨found', hfound', ?_⟩
                rw [List.filter_eq_nil_iff.mpr, List.nil_append]
                · exact hfilter
                · intro violation hviolation
                  simp only [hindex violation hviolation, decide_eq_true_eq]
                  omega

/-- An evaluation of one event returns the violations of its row, sorted. -/
theorem validateQualityEvent_iff {event : QualityValidation} {ingestionTime : DateTime} :
    validateQualityEvent less row features timestamp ingestionTime = .ok event ↔
      ∃ instant found, ingestionTime.toUtc = .ok instant ∧
        features.mapM (featureViolations less instant [] 0 row timestamp) = .ok found ∧
        event = ⟨1, found.flatten.insertionSort fun a b =>
          violationKey features a ≤ violationKey features b⟩ := by
  constructor
  · intro h
    obtain ⟨instant, htime, hrest⟩ := ok_of_bind h
    obtain ⟨duplicates, hduplicates, hrest⟩ := ok_of_bind hrest
    obtain ⟨violations, hloop, hlast⟩ := ok_of_bind hrest
    cases hduplicates
    cases hlast
    obtain ⟨found, hfound, hrest⟩ := ok_of_bind hloop
    obtain ⟨others, hothers, hlast⟩ := ok_of_bind hrest
    cases hothers
    cases hlast
    refine ⟨instant, found, htime, hfound, ?_⟩
    rw [List.append_nil]
    rfl
  · rintro ⟨instant, found, htime, hfound, rfl⟩
    simp only [validateQualityEvent, validateQualityRows, htime, checkedDuplicates,
      Bool.false_eq_true, if_false, rowViolationsFrom, hfound, bind, Except.bind, pure,
      Except.pure, List.append_nil]
    rfl

end Rows

/-- Where the evaluation of a batch returns, so does that of each of its rows as an event at the
same reference time, with the same verdict, uniqueness apart. As an event at another time, the row
differs in its age only, and at an earlier time it violates nothing else. -/
theorem event_verdict_in_batch (less : Value → Value → Bool) (features : List Manifest.Feature)
    (rows : List Dict) (timestamps : List DateTime) (referenceTime : DateTime)
    (checkUnique : Bool) (validation : QualityValidation)
    (h : validateQualityRows less rows features timestamps referenceTime checkUnique =
      .ok validation)
    (index : Nat) (row : Dict) (timestamp : DateTime) (hrow : rows[index]? = some row)
    (htimestamp : timestamps[index]? = some timestamp) :
    (∃ event, validateQualityEvent less row features timestamp referenceTime = .ok event ∧
      verdicts event.violations = validation.ofRow index) ∧
    ∀ ingestionTime event,
      validateQualityEvent less row features timestamp ingestionTime = .ok event →
        timeless (verdicts event.violations) = timeless (validation.ofRow index) ∧
        (ingestionTime.asUtc ≤ referenceTime.asUtc →
          ∀ verdict ∈ verdicts event.violations, verdict ∈ validation.ofRow index) := by
  obtain ⟨reference, href, hrest⟩ := ok_of_bind h
  obtain ⟨duplicates, hduplicates, hrest⟩ := ok_of_bind hrest
  obtain ⟨violations, hloop, hlast⟩ := ok_of_bind hrest
  cases hlast
  obtain ⟨found, hfound, hfilter⟩ := (rowViolationsFrom_at hloop).2 index row timestamp hrow
    htimestamp
  rw [Nat.zero_add] at hfound hfilter
  obtain ⟨alone, halone, hsame, hindex, hzero⟩ := rowViolations_alone hfound
  -- The row of the batch, sorted among the others, is the row sorted alone.
  have hrowVerdicts : QualityValidation.ofRow ⟨rows.length, violations.insertionSort fun a b =>
      violationKey features a ≤ violationKey features b⟩ index =
        sortVerdicts features (verdicts alone.flatten) := by
    have hsorted : (violations.insertionSort fun a b =>
        violationKey features a ≤ violationKey features b).filter
          (fun violation => decide (violation.rowIndex = index)) =
        found.flatten.insertionSort fun a b =>
          violationKey features a ≤ violationKey features b := by
      rw [← hfilter]
      apply KeyedSort.filter_insertionSort
      · exact fun a b => le_total (violationKey features a) (violationKey features b)
      · exact fun _ _ _ hab hbc => le_trans hab hbc
    rw [QualityValidation.ofRow, hsorted, verdicts_insertionSort hindex, filter_sortVerdicts, hsame]
  rw [hrowVerdicts]
  refine ⟨⟨_, validateQualityEvent_iff.mpr ⟨reference, alone, href, halone, rfl⟩,
    verdicts_insertionSort hzero⟩, ?_⟩
  intro ingestionTime event hevent
  obtain ⟨instant, earlier, htime, hearlier, rfl⟩ := validateQualityEvent_iff.mp hevent
  obtain ⟨_, _, _, hzero', _⟩ := rowViolations_alone hearlier
  obtain ⟨hother, hmore⟩ := rowViolations_later hearlier halone
  dsimp only
  rw [verdicts_insertionSort hzero']
  constructor
  · rw [timeless, timeless, filter_sortVerdicts, filter_sortVerdicts]
    exact congrArg _ hother
  · intro hle verdict hverdict
    rw [mem_sortVerdicts] at hverdict ⊢
    refine hmore ?_ verdict hverdict
    rw [(toUtc_eq_ok_iff.mp htime).2, (toUtc_eq_ok_iff.mp href).2]
    exact hle

open Sample

/-- A count below its minimum that is too old, which another row repeats: as an event it is below
its minimum and too old. -/
theorem repeated_count_as_event : ∃ event,
    validateQualityEvent (fun _ _ => false) (countRow 1) [agedCount 60] dayBefore newYear =
      .ok event ∧
    verdicts event.violations =
      [("purchase_count", .minimum), ("purchase_count", .maxAgeSeconds)] :=
  (event_verdict_in_batch (fun _ _ => false) [agedCount 60] [countRow 1, countRow 1]
    [dayBefore, newYear] newYear true ⟨2,
      [⟨0, "purchase_count", .minimum⟩, ⟨0, "purchase_count", .unique⟩,
        ⟨0, "purchase_count", .maxAgeSeconds⟩, ⟨1, "purchase_count", .minimum⟩,
        ⟨1, "purchase_count", .unique⟩]⟩ rfl 0 (countRow 1) dayBefore rfl rfl).1

end FeatureStore
