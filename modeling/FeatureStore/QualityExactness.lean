import FeatureStore.QualityRows

/-!
# Exactness of the evaluation of quality

On rows that conform to the dtypes of the features, the reported violations are the failing
constraints, each once and in order. The evaluation returns if and only if no timestamp that it
computes leaves the calendar.
-/

namespace FeatureStore

open Manifest

/-- The value is null or of the dtype; a timestamp is aware, or an ISO text of one. A float64
feature has no other value here. -/
def Conforms : ValueType → Value → Prop
  | _, .null => True
  | .string, .str _ => True
  | .int64, .int n => -(2 ^ 63) ≤ n ∧ n < 2 ^ 63
  | .bool, .bool _ => True
  | .timestamp, .str _ => True
  | .timestamp, .timestamp timestamp => timestamp.utcOffset.isSome = true
  | _, _ => False

section Values

variable {rules : ManifestRules} {dtype : ValueType} {value other : Value}

theorem isNull_eq_false_iff : value.isNull = false ↔ value ≠ .null := by
  cases value <;> simp [Value.isNull]

theorem isJson_of_isScalar (h : value.isScalar = true) : value.isJson = true := by
  cases value with
  | null | list _ | dict _ => cases h
  | _ => exact h

theorem keyText_scalar (hscalar : value.isScalar = true) :
    value.keyText = s!"{value.typeName}:{value.jsonText}" := by
  cases value with
  | timestamp _ | list _ | dict _ => cases hscalar
  | _ => rfl

/-- A text, an integer or a boolean. -/
def Value.IsPlain : Value → Prop
  | .str _ | .int _ | .bool _ => True
  | _ => False

theorem scalarEq_plain (hplain : value.IsPlain) (htype : value.typeName = other.typeName) :
    scalarEq value other = true ↔ value = other := by
  cases value with
  | str s =>
      cases other with
      | str t => simp [scalarEq]
      | _ => simp [Value.typeName] at htype
  | int n =>
      cases other with
      | int m =>
          simp only [scalarEq, Value.asInt?, Option.any_some, beq_iff_eq, Option.some.injEq,
            Value.int.injEq]
          exact eq_comm
      | _ => simp [Value.typeName] at htype
  | bool b =>
      cases other with
      | bool c => cases b <;> cases c <;> decide
      | _ => simp [Value.typeName] at htype
  | _ => exact hplain.elim

theorem Conforms.plain_or_timestamp (h : Conforms dtype value) (hnull : value ≠ .null) :
    value.IsPlain ∨ dtype = .timestamp ∧ ∃ timestamp : DateTime, value = .timestamp timestamp ∧
      timestamp.utcOffset.isSome = true := by
  cases value with
  | null => exact absurd rfl hnull
  | str _ | int _ | bool _ => exact Or.inl trivial
  | timestamp timestamp =>
      cases dtype with
      | timestamp => exact Or.inr ⟨rfl, timestamp, rfl, h⟩
      | _ => exact h.elim
  | _ => cases dtype <;> exact h.elim

theorem Conforms.typeName_eq (h : Conforms dtype value) (hother : Conforms dtype other)
    (hplain : value.IsPlain) (hplain' : other.IsPlain) : value.typeName = other.typeName := by
  cases dtype <;> cases value <;> cases other <;>
    first | rfl | exact h.elim | exact hother.elim | exact hplain.elim | exact hplain'.elim

theorem isScalar_of_isPlain (h : value.IsPlain) : value.isScalar = true := by
  cases value with
  | str _ | int _ | bool _ => rfl
  | _ => exact h.elim

/-- Plain values of one type have the same key exactly if they are the same. -/
theorem keyText_plain (hplain : value.IsPlain) (hplain' : other.IsPlain)
    (htype : value.typeName = other.typeName) :
    other.keyText = value.keyText ↔ value = other := by
  have hscalar := isScalar_of_isPlain hplain
  have hscalar' := isScalar_of_isPlain hplain'
  rw [keyText_scalar hscalar, keyText_scalar hscalar', htype, String.append_right_inj]
  constructor
  · intro h
    exact (Value.jsonText_inj (isJson_of_isScalar hscalar') (isJson_of_isScalar hscalar) h).symm
  · rintro rfl
    rfl

/-- The key of a plain value is no key of a timestamp. -/
theorem keyText_plain_ne (hplain : value.IsPlain) (timestamp : DateTime) :
    value.keyText ≠ (Value.timestamp timestamp).keyText := by
  intro h
  have hfirst := congrArg (fun text : String => text.toList.head?) h
  cases value with
  | str _ | int _ | bool _ => simp [Value.keyText, Value.typeName, toString] at hfirst
  | _ => exact hplain.elim

/-- Values of one dtype have the same key exactly if they are equal. -/
theorem keyText_eq_iff (hvalue : Conforms dtype value) (hother : Conforms dtype other)
    (hnull : value ≠ .null) (hnull' : other ≠ .null) (hconvert : value.IsConvertible)
    (hconvert' : other.IsConvertible) :
    other.keyText = value.keyText ↔ scalarEq value other = true := by
  rcases hvalue.plain_or_timestamp hnull with hplain | ⟨-, t, rfl, haware⟩
  · rcases hother.plain_or_timestamp hnull' with hplain' | ⟨-, t', rfl, -⟩
    · have htype := hvalue.typeName_eq hother hplain hplain'
      rw [keyText_plain hplain hplain' htype, scalarEq_plain hplain htype]
    · refine iff_of_false (keyText_plain_ne hplain t').symm ?_
      cases value with
      | str _ | int _ | bool _ => simp [scalarEq, Value.asInt?]
      | _ => exact hplain.elim
  · rcases hother.plain_or_timestamp hnull' with hplain' | ⟨-, t', rfl, haware'⟩
    · refine iff_of_false (keyText_plain_ne hplain' t) ?_
      cases other with
      | str _ | int _ | bool _ => simp [scalarEq, Value.asInt?]
      | _ => exact hplain'.elim
    · have hequal : scalarEq (.timestamp t) (.timestamp t') = true ↔ t.asUtc = t'.asUtc := by
        simp [scalarEq, haware, haware']
      rw [Value.keyText, Value.keyText, String.append_right_inj, hequal]
      exact (isoMicroseconds_inj (hconvert' t' rfl) (hconvert t rfl)).trans eq_comm

end Values

section Contracts

variable {rules : ManifestRules} {dtype : ValueType} {value : Value}

theorem of_require {check : Prop} [Decidable check] {message : String}
    (h : require check message = .ok ()) : check := by
  rw [require] at h
  split at h
  · assumption
  · cases h

/-- What the validator of a feature says of its contract. -/
structure Manifest.FeatureQuality.Fits (dtype : ValueType)
    (quality : Manifest.FeatureQuality) : Prop where
  numeric : ∀ bound ∈ quality.minimum.toList ++ quality.maximum.toList,
    dtype = .int64 ∨ dtype = .float64
  integral : dtype = .int64 →
    ∀ bound ∈ quality.minimum.toList ++ quality.maximum.toList, bound.isInt = true
  accepted : ∀ values, quality.acceptedValues = some values → ∀ value ∈ values,
    dtype ≠ .timestamp ∧ matchesDtype dtype value = true

theorem contract_fits {feature : Manifest.Feature} (h : feature.Valid rules)
    {quality : FeatureQuality}
    (hquality : feature.quality = some quality) : quality.Fits feature.dtype := by
  have hchecked := h.quality quality hquality
  rw [validateQuality] at hchecked
  obtain ⟨_, hnumeric, hchecked⟩ := ok_of_bind hchecked
  obtain ⟨_, hintegral, hchecked⟩ := ok_of_bind hchecked
  refine ⟨fun bound hbound => of_require hnumeric ?_, fun hdtype bound hbound => ?_, ?_⟩
  · change (quality.minimum.isSome || quality.maximum.isSome) = true
    rw [Bool.or_eq_true]
    exact (List.mem_append.mp hbound).imp
      (fun hmem => Option.isSome_iff_exists.mpr ⟨bound, Option.mem_toList.mp hmem⟩)
      (fun hmem => Option.isSome_iff_exists.mpr ⟨bound, Option.mem_toList.mp hmem⟩)
  · exact List.all_eq_true.mp (of_require hintegral hdtype) bound hbound
  · intro values hvalues value hvalue
    have haccepted : quality.fields.acceptedValues = some values := hvalues
    rw [haccepted] at hchecked
    obtain ⟨_, hscalar, hchecked⟩ := ok_of_bind hchecked
    obtain ⟨_, hall, -⟩ := ok_of_bind hchecked
    refine ⟨of_require hscalar, ?_⟩
    have hone := forM_ok_iff.mp hall value hvalue
    cases value with
    | null => cases hone
    | _ => exact of_require hone

/-- A bound on a value that is not null bounds an integer by an integer. -/
theorem Manifest.FeatureQuality.Fits.bound {quality : FeatureQuality} (h : quality.Fits dtype)
    (hvalue : Conforms dtype value) (hnull : value ≠ .null) {bound : Number}
    (hbound : bound ∈ quality.minimum.toList ++ quality.maximum.toList) :
    (∃ n, value = .int n) ∧ ∃ m, bound = .int m := by
  rcases h.numeric bound hbound with rfl | rfl
  · constructor
    · cases value with
      | null => exact absurd rfl hnull
      | int n => exact ⟨n, rfl⟩
      | _ => exact hvalue.elim
    · have hint := h.integral rfl bound hbound
      cases bound with
      | int m => exact ⟨m, rfl⟩
      | float token isFloat => cases hint
  · cases value with
    | null => exact absurd rfl hnull
    | _ => exact hvalue.elim

/-- A value equals an accepted one exactly if it is the same. -/
theorem Manifest.FeatureQuality.Fits.accepted_iff {quality : FeatureQuality}
    (h : quality.Fits dtype) (hvalue : Conforms dtype value) (hnull : value ≠ .null)
    {values : List Value}
    (hvalues : quality.acceptedValues = some values) :
    (values.any fun other => scalarEq value other) = true ↔ value ∈ values := by
  have hsame : ∀ other ∈ values, scalarEq value other = true ↔ value = other := by
    intro other hother
    obtain ⟨hdtype, hmatches⟩ := h.accepted values hvalues other hother
    rcases hvalue.plain_or_timestamp hnull with hplain | ⟨htimestamp, -⟩
    · apply scalarEq_plain hplain
      cases dtype <;> cases value <;> cases other <;>
        first | rfl | exact hvalue.elim | exact hplain.elim | cases hmatches
    · exact absurd htimestamp hdtype
  rw [List.any_eq_true]
  constructor
  · rintro ⟨other, hother, hequal⟩
    rw [(hsame other hother).mp hequal]
    exact hother
  · exact fun hmem => ⟨value, hmem, (hsame value hmem).mpr rfl⟩

end Contracts

section Specification

/-- The constraint of a contract fails at the value of a feature in a row. -/
def ConstraintFails (rows : List Dict) (reference : Instant) (checkUnique : Bool) (index : Nat)
    (timestamp : DateTime) (name : String) (quality : FeatureQuality) (value : Value) :
    QualityConstraintType → Prop
  | .nullable => value = .null ∧ quality.nullable = false
  | .minimum => ∃ n m, value = .int n ∧ quality.minimum = some (.int m) ∧ n < m
  | .maximum => ∃ n m, value = .int n ∧ quality.maximum = some (.int m) ∧ m < n
  | .acceptedValues => value ≠ .null ∧
      ∃ values, quality.acceptedValues = some values ∧ value ∉ values
  | .unique => checkUnique = true ∧ quality.unique = true ∧ value ≠ .null ∧
      ∃ j other, j ≠ index ∧ rows[j]? = some other ∧ scalarEq value (valueOf other name) = true
  | .maxAgeSeconds => ∃ age, quality.maxAgeSeconds = some age ∧
      timestamp.asUtc < reference - seconds age

/-- The order in which constraints are reported. -/
def allConstraints : List QualityConstraintType :=
  [.nullable, .minimum, .maximum, .acceptedValues, .unique, .maxAgeSeconds]

open Classical in
/-- The constraints of a feature that fail, in their order. -/
noncomputable def failingConstraints (fails : FeatureQuality → QualityConstraintType → Prop)
    (feature : Manifest.Feature) : List QualityConstraintType :=
  feature.quality.elim [] fun quality =>
    allConstraints.filter fun constraint => decide (fails quality constraint)

/-- The violations of a feature in a row that these constraints are. -/
noncomputable def failures (fails : FeatureQuality → QualityConstraintType → Prop) (index : Nat)
    (feature : Manifest.Feature) : List QualityViolation :=
  (failingConstraints fails feature).map fun constraint => ⟨index, feature.name, constraint⟩

end Specification

section Cells

variable {less : Value → Value → Bool} {reference : Instant} {rows : List Dict}
  {duplicates : List (String × List Nat)} {checkUnique : Bool} {index : Nat} {row : Dict}
  {timestamp : DateTime} {feature : Manifest.Feature} {quality : FeatureQuality} {value : Value}

theorem checkOptional_bound {check : Number → Except PyException Bool} {rel : Int → Int → Prop}
    [DecidableRel rel] {bound : Option Number}
    (hcheck : ∀ n m, value = .int n → check (.int m) = .ok (decide (rel n m)))
    (hbound : ∀ b, bound = some b → (∃ n, value = .int n) ∧ ∃ m, b = .int m) :
    ∃ violated, checkOptional check bound = .ok violated ∧
      (violated = true ↔ ∃ n m, value = .int n ∧ bound = some (.int m) ∧ rel n m) := by
  cases bound with
  | none => exact ⟨false, rfl, iff_of_false Bool.false_ne_true fun ⟨_, _, _, h, _⟩ => nomatch h⟩
  | some b =>
      obtain ⟨⟨n, hn⟩, m, rfl⟩ := hbound b rfl
      refine ⟨_, hcheck n m hn, ?_⟩
      rw [decide_eq_true_eq]
      constructor
      · exact fun h => ⟨n, m, hn, rfl, h⟩
      · rintro ⟨n', m', hn', hm', h⟩
        obtain rfl := Value.int.inj (hn.symm.trans hn')
        obtain rfl := Number.int.inj (Option.some.inj hm')
        exact h

/-- The checks that report a violation are those of the failing constraints. -/
theorem filter_checks {fails : QualityConstraintType → Prop} [DecidablePred fails]
    {checks : List (QualityConstraintType × Bool)}
    (h : ∀ check ∈ checks, check.2 = true ↔ fails check.1) :
    (checks.filter (·.2)).map (·.1) =
      (checks.map (·.1)).filter fun constraint => decide (fails constraint) := by
  rw [List.filter_map]
  apply congrArg
  apply List.filter_congr
  intro check hcheck
  exact Bool.eq_iff_iff.mpr ((h check hcheck).trans decide_eq_true_iff.symm)

/-- The entry of a feature among the duplicates is what the specification says. -/
def DuplicatesExact (rows : List Dict) (features : List Manifest.Feature) (checkUnique : Bool)
    (duplicates : List (String × List Nat)) : Prop :=
  ∀ feature ∈ features, ∀ quality, feature.quality = some quality → ∀ index row,
    rows[index]? = some row → valueOf row feature.name ≠ .null →
      (index ∈ (duplicates.lookup feature.name).getD [] ↔
        checkUnique = true ∧ quality.unique = true ∧ ∃ j other, j ≠ index ∧
          rows[j]? = some other ∧
          scalarEq (valueOf row feature.name) (valueOf other feature.name) = true)

open Classical in
/-- The checks of a value and the one of its age report the failing constraints. -/
theorem valueChecks_ok (less : Value → Value → Bool) {features : List Manifest.Feature}
    (hduplicates : DuplicatesExact rows features checkUnique duplicates)
    (hfeature : feature ∈ features) (hquality : feature.quality = some quality)
    (hfits : quality.Fits feature.dtype) (hrow : rows[index]? = some row)
    (hvalue : Conforms feature.dtype (valueOf row feature.name))
    {fails : QualityConstraintType → Prop}
    (hfails : fails = ConstraintFails rows reference checkUnique index timestamp feature.name
      quality (valueOf row feature.name)) {old : Bool} (hold : old = true ↔ fails .maxAgeSeconds) :
    ∃ checks, valueChecks less duplicates quality feature.name index (valueOf row feature.name) =
        .ok checks ∧
      ((checks ++ [(QualityConstraintType.maxAgeSeconds, old)]).filter (·.2)).map (·.1) =
        allConstraints.filter fun constraint => decide (fails constraint) := by
  by_cases hnull : valueOf row feature.name = .null
  · have hchecks : ∀ check ∈ [(QualityConstraintType.nullable, !quality.nullable),
        (.maxAgeSeconds, old)], check.2 = true ↔ fails check.1 := by
      simp only [List.forall_mem_cons, hold, hfails, ConstraintFails, hnull]
      simp
    have hothers : ∀ constraint ∈ [QualityConstraintType.minimum, .maximum, .acceptedValues,
        .unique], ¬fails constraint := by
      simp [hfails, ConstraintFails, hnull]
    simp only [List.forall_mem_cons] at hothers
    obtain ⟨hminimum, hmaximum, haccepted, hunique, -⟩ := hothers
    refine ⟨[(.nullable, !quality.nullable)], by rw [valueChecks, hnull]; rfl, ?_⟩
    rw [List.singleton_append, filter_checks hchecks]
    simp [allConstraints, List.filter_cons, hminimum, hmaximum, haccepted, hunique]
  · have hbound : ∀ b ∈ quality.minimum.toList ++ quality.maximum.toList,
        (∃ n, valueOf row feature.name = .int n) ∧ ∃ m, b = .int m :=
      fun b => hfits.bound hvalue hnull
    obtain ⟨low, hlow, hlowfails⟩ : ∃ low,
        checkOptional (isBelow less (valueOf row feature.name)) quality.minimum = .ok low ∧
        (low = true ↔ fails .minimum) := by
      rw [hfails]
      exact checkOptional_bound (fun n m hn => by rw [hn]; rfl)
        fun b hb => hbound b (List.mem_append_left _ (Option.mem_toList.mpr hb))
    obtain ⟨high, hhigh, hhighfails⟩ : ∃ high,
        checkOptional (isAbove less (valueOf row feature.name)) quality.maximum = .ok high ∧
        (high = true ↔ fails .maximum) := by
      rw [hfails]
      exact checkOptional_bound (fun n m hn => by rw [hn]; rfl)
        fun b hb => hbound b (List.mem_append_right _ (Option.mem_toList.mpr hb))
    have hacceptedfails : (quality.acceptedValues.any fun values =>
        !values.any fun other => scalarEq (valueOf row feature.name) other) = true ↔
          fails .acceptedValues := by
      rw [hfails]
      simp only [ConstraintFails]
      cases haccepted : quality.acceptedValues with
      | none => simp
      | some values =>
          rw [Option.any_some, Bool.not_eq_true', ← Bool.not_eq_true,
            hfits.accepted_iff hvalue hnull haccepted]
          simp [hnull]
    have huniquefails : ((duplicates.lookup feature.name).getD []).contains index = true ↔
        fails .unique := by
      rw [hfails, List.contains_iff_mem,
        hduplicates feature hfeature quality hquality index row hrow hnull]
      simp only [ConstraintFails, ne_eq, hnull, not_false_eq_true, true_and]
    have hnullable : ¬fails .nullable := by
      rw [hfails]
      exact fun h => hnull h.1
    have hchecked : valueChecks less duplicates quality feature.name index
        (valueOf row feature.name) = .ok [(.minimum, low), (.maximum, high), (.acceptedValues,
          quality.acceptedValues.any fun values =>
            !values.any fun other => scalarEq (valueOf row feature.name) other),
          (.unique, ((duplicates.lookup feature.name).getD []).contains index)] := by
      rw [valueChecks, isNull_eq_false_iff.mpr hnull]
      simp only [hlow, hhigh, bind, Except.bind]
      rfl
    refine ⟨_, hchecked, ?_⟩
    have hall : ∀ check ∈ [(QualityConstraintType.minimum, low), (.maximum, high),
        (.acceptedValues, quality.acceptedValues.any fun values =>
          !values.any fun other => scalarEq (valueOf row feature.name) other),
        (.unique, ((duplicates.lookup feature.name).getD []).contains index),
        (.maxAgeSeconds, old)], check.2 = true ↔ fails check.1 := by
      simp only [List.forall_mem_cons]
      exact ⟨hlowfails, hhighfails, hacceptedfails, huniquefails, hold, List.forall_mem_nil _⟩
    simp only [List.cons_append, List.nil_append]
    rw [filter_checks hall]
    simp [allConstraints, List.filter_cons, hnullable]

/-- The violations of a feature in a row are its failing constraints. -/
theorem featureViolations_ok {features : List Manifest.Feature}
    (hduplicates : DuplicatesExact rows features checkUnique duplicates)
    (hfeature : feature ∈ features)
    (hfits : ∀ quality, feature.quality = some quality → quality.Fits feature.dtype)
    (hrow : rows[index]? = some row) (hvalue : Conforms feature.dtype (valueOf row feature.name))
    (htime : feature.quality.isSome = true → Instant.IsRepresentable timestamp.asUtc)
    (hage : ∀ quality, feature.quality = some quality → ∀ age,
      quality.maxAgeSeconds = some age → Instant.IsRepresentable (reference - seconds age)) :
    featureViolations less reference duplicates index row timestamp feature =
      .ok (failures (fun quality => ConstraintFails rows reference checkUnique index timestamp
        feature.name quality (valueOf row feature.name)) index feature) := by
  rw [featureViolations, failures, failingConstraints]
  cases hquality : feature.quality with
  | none => rfl
  | some quality =>
      have hutc := toUtc_eq_ok_iff.mpr ⟨htime (by rw [hquality]; rfl), rfl⟩
      obtain ⟨old, hold, holdfails⟩ : ∃ old, checkOptional (fun age =>
          (cutoff reference age).map fun oldest => decide (timestamp.asUtc < oldest))
            quality.maxAgeSeconds = .ok old ∧
          (old = true ↔ ∃ age, quality.maxAgeSeconds = some age ∧
            timestamp.asUtc < reference - seconds age) := by
        cases hmax : quality.maxAgeSeconds with
        | none => exact ⟨false, rfl, by simp⟩
        | some age =>
            have hcutoff := cutoff_eq_ok_iff.mpr ⟨hage quality hquality age hmax, rfl⟩
            refine ⟨_, by rw [checkOptional, hcutoff]; rfl, ?_⟩
            simp
      obtain ⟨checks, hchecks, hfailing⟩ := valueChecks_ok less hduplicates hfeature hquality
        (hfits quality hquality) hrow hvalue rfl holdfails
      simp only [hchecks, hutc, hold, bind, Except.bind, pure, Except.pure]
      rw [Option.elim_some, ← hfailing, List.map_map]
      rfl

end Cells

section Order

variable {features : List Manifest.Feature}

/-- Where a violation stands: its row, its feature as declared, and its constraint. -/
def position (features : List Manifest.Feature) (violation : QualityViolation) : List Nat :=
  [violation.rowIndex, (features.map (·.name)).idxOf violation.feature, violation.constraint.order]

theorem position_lt_iff {a b : QualityViolation} : position features a < position features b ↔
    a.rowIndex < b.rowIndex ∨ a.rowIndex = b.rowIndex ∧
      ((features.map (·.name)).idxOf a.feature < (features.map (·.name)).idxOf b.feature ∨
        (features.map (·.name)).idxOf a.feature = (features.map (·.name)).idxOf b.feature ∧
          a.constraint.order < b.constraint.order) := by
  simp only [position, List.cons_lt_cons_iff, List.not_lt_nil, and_false, or_false]

theorem violationKey_eq (hnames : (features.map (·.name)).Nodup) {violation : QualityViolation}
    (h : violation.feature ∈ features.map (·.name)) :
    violationKey features violation = position features violation := by
  rw [violationKey, lookup_featureOrder hnames h]
  rfl

/-- The final sort leaves violations that are in the order of their positions. -/
theorem insertionSort_violations (hnames : (features.map (·.name)).Nodup)
    {violations : List QualityViolation}
    (h : violations.Pairwise fun a b => position features a < position features b)
    (hfeatures : ∀ violation ∈ violations, violation.feature ∈ features.map (·.name)) :
    (violations.insertionSort fun a b => violationKey features a ≤ violationKey features b) =
      violations := by
  have hsorted : violations.Pairwise
      fun a b => violationKey features a ≤ violationKey features b := by
    refine h.imp_of_mem ?_
    intro a b ha hb hlt
    rw [violationKey_eq hnames (hfeatures a ha), violationKey_eq hnames (hfeatures b hb)]
    exact le_of_lt hlt
  exact hsorted.insertionSort_eq

/-- Features with different names stand in the order of their names. -/
theorem pairwise_idxOf (hnames : (features.map (·.name)).Nodup) :
    features.Pairwise fun a b =>
      (features.map (·.name)).idxOf a.name < (features.map (·.name)).idxOf b.name := by
  rw [List.pairwise_iff_getElem]
  intro i j hi hj hij
  have hat : ∀ k (hk : k < features.length),
      (features.map (·.name)).idxOf features[k].name = k := by
    intro k hk
    have hlength : k < (features.map (·.name)).length := by rwa [List.length_map]
    have hname : (features.map (·.name))[k] = features[k].name := List.getElem_map _
    rw [← hname]
    exact hnames.idxOf_getElem k _
  rw [hat i hi, hat j hj]
  exact hij

/-- What the features find in the rows one after the other comes in the order of its positions. -/
theorem pairwise_position {α : Type} {items : List α} (hnames : (features.map (·.name)).Nodup)
    {found : α × Nat → Manifest.Feature → List QualityConstraintType}
    (h : ∀ item feature, (found item feature).Sublist allConstraints) :
    (items.zipIdx.flatMap fun item => features.flatMap fun feature =>
      (found item feature).map fun constraint =>
        (⟨item.2, feature.name, constraint⟩ : QualityViolation)).Pairwise
      fun a b => position features a < position features b := by
  have hconstraints : allConstraints.Pairwise fun a b => a.order < b.order := by
    decide
  have hindexes : items.zipIdx.Pairwise fun a b => a.2 < b.2 := by
    rw [← List.pairwise_map (f := Prod.snd), List.zipIdx_map_snd]
    exact List.pairwise_lt_range'
  rw [List.pairwise_flatMap]
  constructor
  · intro item _
    rw [List.pairwise_flatMap]
    constructor
    · intro feature _
      rw [List.pairwise_map]
      refine (hconstraints.sublist (h item feature)).imp ?_
      intro a b hlt
      exact position_lt_iff.mpr (Or.inr ⟨rfl, Or.inr ⟨rfl, hlt⟩⟩)
    · refine (pairwise_idxOf hnames).imp ?_
      intro feature other hlt a ha b hb
      obtain ⟨_, -, rfl⟩ := List.mem_map.mp ha
      obtain ⟨_, -, rfl⟩ := List.mem_map.mp hb
      exact position_lt_iff.mpr (Or.inr ⟨rfl, Or.inl hlt⟩)
  · refine hindexes.imp ?_
    intro item other hlt a ha b hb
    obtain ⟨_, -, ha⟩ := List.mem_flatMap.mp ha
    obtain ⟨_, -, rfl⟩ := List.mem_map.mp ha
    obtain ⟨_, -, hb⟩ := List.mem_flatMap.mp hb
    obtain ⟨_, -, rfl⟩ := List.mem_map.mp hb
    exact position_lt_iff.mpr (Or.inl hlt)

end Order

section Rows

variable {less : Value → Value → Bool} {rules : ManifestRules} {rows : List Dict}
  {features : List Manifest.Feature} {eventTimestamps : List DateTime} {referenceTime : DateTime}
  {checkUnique : Bool} {violation : QualityViolation}

/-- What the violations of a validation should be. -/
def Fails (rows : List Dict) (features : List Manifest.Feature) (eventTimestamps : List DateTime)
    (referenceTime : DateTime) (checkUnique : Bool) (violation : QualityViolation) : Prop :=
  ∃ row timestamp feature quality, rows[violation.rowIndex]? = some row ∧
    eventTimestamps[violation.rowIndex]? = some timestamp ∧ feature ∈ features ∧
    feature.name = violation.feature ∧ feature.quality = some quality ∧
    ConstraintFails rows referenceTime.asUtc checkUnique violation.rowIndex timestamp feature.name
      quality (valueOf row feature.name) violation.constraint

theorem mem_failures {fails : FeatureQuality → QualityConstraintType → Prop} {index : Nat}
    {feature : Manifest.Feature} : violation ∈ failures fails index feature ↔
      violation.rowIndex = index ∧ violation.feature = feature.name ∧
        ∃ quality, feature.quality = some quality ∧ fails quality violation.constraint := by
  rw [failures, failingConstraints]
  cases hquality : feature.quality with
  | none => simp
  | some quality =>
      have hall : ∀ constraint : QualityConstraintType, constraint ∈ allConstraints := by
        intro constraint
        cases constraint <;> simp [allConstraints]
      simp only [Option.elim_some, List.mem_map, List.mem_filter, decide_eq_true_eq, hall, true_and,
        Option.some.injEq, exists_eq_left']
      constructor
      · rintro ⟨constraint, hfails, rfl⟩
        exact ⟨rfl, rfl, hfails⟩
      · rintro ⟨rfl, hname, hfails⟩
        exact ⟨violation.constraint, hfails, by rw [← hname]⟩

/-- The failing constraints of the features of one row. -/
noncomputable def rowFailures (rows : List Dict) (features : List Manifest.Feature)
    (reference : Instant) (checkUnique : Bool) (index : Nat) (row : Dict) (timestamp : DateTime) :
    List (List QualityViolation) :=
  features.map fun feature => failures (fun quality => ConstraintFails rows reference checkUnique
    index timestamp feature.name quality (valueOf row feature.name)) index feature

/-- The failing constraints of all rows. -/
noncomputable def allFailures (rows : List Dict) (features : List Manifest.Feature)
    (eventTimestamps : List DateTime) (referenceTime : DateTime) (checkUnique : Bool) :
    List QualityViolation :=
  (rows.zip eventTimestamps).zipIdx.flatMap fun item =>
    (rowFailures rows features referenceTime.asUtc checkUnique item.2 item.1.1 item.1.2).flatten

theorem mem_allFailures : violation ∈
    allFailures rows features eventTimestamps referenceTime checkUnique ↔
      Fails rows features eventTimestamps referenceTime checkUnique violation := by
  simp only [allFailures, rowFailures, List.mem_flatMap, Prod.exists,
    List.mk_mem_zipIdx_iff_getElem?, List.getElem?_zip_eq_some, ← List.flatMap_def, mem_failures]
  constructor
  · rintro ⟨row, timestamp, index, ⟨hrow, htime⟩, feature, hfeature, rfl, hname, quality, hquality,
      hfails⟩
    exact ⟨row, timestamp, feature, quality, hrow, htime, hfeature, hname.symm, hquality, hfails⟩
  · rintro ⟨row, timestamp, feature, quality, hrow, htime, hfeature, hname, hquality, hfails⟩
    exact ⟨row, timestamp, violation.rowIndex, ⟨hrow, htime⟩, feature, hfeature, rfl, hname.symm,
      quality, hquality, hfails⟩

/-- The failing constraints come in the order of their positions. -/
theorem pairwise_allFailures (hnames : (features.map (·.name)).Nodup) :
    (allFailures rows features eventTimestamps referenceTime checkUnique).Pairwise
      fun a b => position features a < position features b := by
  have hsublist : ∀ fails feature, (failingConstraints fails feature).Sublist allConstraints := by
    intro fails feature
    rw [failingConstraints]
    cases feature.quality with
    | none => exact List.nil_sublist _
    | some quality => exact List.filter_sublist
  simp only [allFailures, rowFailures, ← List.flatMap_def, failures]
  exact pairwise_position hnames fun _ _ => hsublist _ _

/-- The validation reports exactly the failing constraints, each once and in order, and its row
indexes are those of the invalid and of the valid rows. -/
structure IsExact (rows : List Dict) (features : List Manifest.Feature)
    (eventTimestamps : List DateTime) (referenceTime : DateTime) (checkUnique : Bool)
    (validation : QualityValidation) : Prop where
  evaluated : validation.evaluatedRows = rows.length
  violations : ∀ violation, violation ∈ validation.violations ↔
    Fails rows features eventTimestamps referenceTime checkUnique violation
  sorted : validation.violations.Pairwise
    fun a b => position features a < position features b
  nodup : validation.violations.Nodup
  invalid : ∀ index, index ∈ validation.invalidRowIndexes ↔
    ∃ violation, Fails rows features eventTimestamps referenceTime checkUnique violation ∧
      violation.rowIndex = index
  partition : (validation.invalidRowIndexes ++ validation.validRowIndexes).Perm
    (List.range rows.length)

/-- The rows of a validation are its invalid and its valid ones. -/
theorem partition_rowIndexes {validation : QualityValidation}
    (h : ∀ violation ∈ validation.violations, violation.rowIndex < validation.evaluatedRows) :
    (validation.invalidRowIndexes ++ validation.validRowIndexes).Perm
      (List.range validation.evaluatedRows) := by
  have hperm := List.perm_insertionSort (· ≤ ·) (validation.violations.map (·.rowIndex)).dedup
  have hinvalid : validation.invalidRowIndexes.Perm ((List.range validation.evaluatedRows).filter
      fun index => validation.invalidRowIndexes.contains index) := by
    have hnodup : validation.invalidRowIndexes.Nodup := hperm.nodup_iff.mpr (List.nodup_dedup _)
    rw [List.perm_ext_iff_of_nodup hnodup (List.nodup_range.filter _)]
    intro index
    rw [List.mem_filter, List.contains_iff_mem, List.mem_range]
    refine ⟨fun hmem => ⟨?_, hmem⟩, fun hmem => hmem.2⟩
    obtain ⟨violation, hviolation, rfl⟩ :=
      List.mem_map.mp (List.mem_dedup.mp (hperm.mem_iff.mp hmem))
    exact h violation hviolation
  exact (hinvalid.append_right _).trans (List.filter_append_perm _ _)

/-- No timestamp that the evaluation computes leaves the calendar: the reference, the timestamps
among unique values, the event timestamps if there is a contract, and the oldest timestamps that
the contracts allow. -/
structure InCalendar (rows : List Dict) (features : List Manifest.Feature)
    (eventTimestamps : List DateTime) (referenceTime : DateTime) (checkUnique : Bool) : Prop where
  reference : Instant.IsRepresentable referenceTime.asUtc
  values : checkUnique = true → ∀ feature ∈ features, feature.isUnique = true →
    ∀ row ∈ rows, ∀ timestamp, valueOf row feature.name = .timestamp timestamp →
      Instant.IsRepresentable timestamp.asUtc
  timestamps : ∀ feature ∈ features, feature.quality.isSome = true →
    ∀ timestamp ∈ eventTimestamps, Instant.IsRepresentable timestamp.asUtc
  ages : ∀ feature ∈ features, ∀ quality, feature.quality = some quality →
    ∀ age, quality.maxAgeSeconds = some age → rows ≠ [] →
      minInstant ≤ referenceTime.asUtc - seconds age

theorem InCalendar.cutoff (h : InCalendar rows features eventTimestamps referenceTime checkUnique)
    {feature : Manifest.Feature} (hfeature : feature ∈ features) {quality : FeatureQuality}
    (hquality : feature.quality = some quality) {age : Nat}
    (hage : quality.maxAgeSeconds = some age) (hrows : rows ≠ []) :
    Instant.IsRepresentable (referenceTime.asUtc - seconds age) := by
  refine ⟨h.ages feature hfeature quality hquality age hage hrows, ?_⟩
  have hend := h.reference.2
  simp only [seconds, Instant] at hend ⊢
  omega

/-- What the uniqueness pass computes is what the specification says. -/
theorem duplicates_ok (hnames : (features.map (·.name)).Nodup)
    (hrows : ∀ row ∈ rows, ∀ feature ∈ features,
      Conforms feature.dtype (valueOf row feature.name))
    (h : checkUnique = true → ∀ feature ∈ features, feature.isUnique = true →
      ColumnConvertible rows feature.name) :
    ∃ duplicates, checkedDuplicates rows features checkUnique = .ok duplicates ∧
      DuplicatesExact rows features checkUnique duplicates := by
  cases checkUnique with
  | false =>
      refine ⟨[], rfl, fun feature _ quality _ index row _ _ => ?_⟩
      simp
  | true =>
      have hcolumns := h rfl
      refine ⟨_, duplicateRows_ok hnames hcolumns, ?_⟩
      intro feature hfeature quality hquality index row hrow hnull
      have hunique : feature.isUnique = quality.unique := by
        rw [Manifest.Feature.isUnique, hquality, Option.any_some]
      rw [lookup_sharedEntries hnames hfeature, hunique]
      cases hflag : quality.unique with
      | false => simp
      | true =>
          rw [if_pos rfl, Option.getD_some, mem_sharedIndexes]
          have hcolumn := hcolumns feature hfeature (hunique.trans hflag)
          have hequal : ∀ other ∈ rows, (valueOf other feature.name).isNull = false →
              ((valueOf other feature.name).keyText = (valueOf row feature.name).keyText ↔
                scalarEq (valueOf row feature.name) (valueOf other feature.name) = true) := by
            intro other hother hpresent
            have hmem := List.mem_of_getElem? hrow
            exact keyText_eq_iff (hrows row hmem feature hfeature)
              (hrows other hother feature hfeature) hnull (isNull_eq_false_iff.mp hpresent)
              (hcolumn row hmem) (hcolumn other hother)
          constructor
          · rintro ⟨row', hrow', -, j, other, hne, hother, hpresent, hkey⟩
            obtain rfl := Option.some.inj (hrow.symm.trans hrow')
            exact ⟨rfl, rfl, j, other, hne, hother,
              (hequal other (List.mem_of_getElem? hother) hpresent).mp hkey⟩
          · rintro ⟨-, -, j, other, hne, hother, hsame⟩
            have hpresent : (valueOf other feature.name).isNull = false := by
              cases hvalue : valueOf other feature.name with
              | null =>
                  rw [hvalue] at hsame
                  cases hrowvalue : valueOf row feature.name with
                  | null => exact absurd hrowvalue hnull
                  | _ =>
                      rw [hrowvalue] at hsame
                      simp [scalarEq, Value.asInt?] at hsame
              | _ => rfl
            exact ⟨row, hrow, isNull_eq_false_iff.mpr hnull, j, other, hne, hother, hpresent,
              (hequal other (List.mem_of_getElem? hother) hpresent).mpr hsame⟩

/-- Inside the calendar the evaluation returns the failing constraints. -/
theorem validateQualityRows_ok (hnames : (features.map (·.name)).Nodup)
    (hvalid : ∀ feature ∈ features, feature.Valid rules)
    (hrows : ∀ row ∈ rows, ∀ feature ∈ features,
      Conforms feature.dtype (valueOf row feature.name))
    (hlength : eventTimestamps.length = rows.length)
    (h : InCalendar rows features eventTimestamps referenceTime checkUnique) :
    validateQualityRows less rows features eventTimestamps referenceTime checkUnique =
      .ok ⟨rows.length,
        allFailures rows features eventTimestamps referenceTime checkUnique⟩ := by
  have href := toUtc_eq_ok_iff.mpr ⟨h.reference, rfl⟩
  obtain ⟨duplicates, hduplicates, hexact⟩ := duplicates_ok hnames hrows
    fun hcheck feature hfeature hunique row hrow =>
      h.values hcheck feature hfeature hunique row hrow
  have hloop : rowViolationsFrom less referenceTime.asUtc duplicates features 0 rows
      eventTimestamps = .ok (allFailures rows features eventTimestamps referenceTime
        checkUnique) := by
    apply rowViolationsFrom_ok hlength
    intro row timestamp index hitem
    have hzip := List.mk_mem_zipIdx_iff_getElem?.mp hitem
    obtain ⟨hrow, htime⟩ := List.getElem?_zip_eq_some.mp hzip
    have hmem := List.mem_of_getElem? hrow
    apply mapM_eq_ok_map
    intro feature hfeature
    exact featureViolations_ok hexact hfeature
      (fun quality hquality => contract_fits (hvalid feature hfeature) hquality) hrow
      (hrows row hmem feature hfeature)
      (fun hsome => h.timestamps feature hfeature hsome timestamp (List.mem_of_getElem? htime))
      fun quality hquality age hage =>
        h.cutoff hfeature hquality hage (List.ne_nil_of_mem hmem)
  have hfeatures : ∀ violation ∈ allFailures rows features eventTimestamps referenceTime
      checkUnique, violation.feature ∈ features.map (·.name) := by
    intro violation hviolation
    obtain ⟨-, -, feature, -, -, -, hfeature, hname, -⟩ := mem_allFailures.mp hviolation
    exact hname ▸ List.mem_map_of_mem hfeature
  rw [validateQualityRows, href]
  simp only [hduplicates, hloop, bind, Except.bind, pure, Except.pure]
  rw [insertionSort_violations hnames (pairwise_allFailures hnames) hfeatures]

/-- The failing constraints are an exact validation. -/
theorem isExact_allFailures (hnames : (features.map (·.name)).Nodup) :
    IsExact rows features eventTimestamps referenceTime checkUnique
      ⟨rows.length, allFailures rows features eventTimestamps referenceTime checkUnique⟩ := by
  have hsorted : (allFailures rows features eventTimestamps referenceTime checkUnique).Pairwise
      fun a b => position features a < position features b := pairwise_allFailures hnames
  refine ⟨rfl, fun _ => mem_allFailures, hsorted, hsorted.imp ?_, ?_, ?_⟩
  · rintro a b hlt rfl
    exact lt_irrefl _ hlt
  · intro index
    have hmem : index ∈ QualityValidation.invalidRowIndexes ⟨rows.length,
        allFailures rows features eventTimestamps referenceTime checkUnique⟩ ↔
          index ∈ ((allFailures rows features eventTimestamps referenceTime checkUnique).map
            (·.rowIndex)).dedup := (List.perm_insertionSort _ _).mem_iff
    rw [hmem, List.mem_dedup, List.mem_map]
    simp only [mem_allFailures]
  · apply partition_rowIndexes
    intro violation hviolation
    obtain ⟨row, -, -, -, hrow, -⟩ := mem_allFailures.mp hviolation
    exact (List.getElem?_eq_some_iff.mp hrow).1

/-- A feature with a contract has its timestamp converted, and its oldest one computed. -/
theorem inCalendar_of_featureViolations {reference : Instant}
    {duplicates : List (String × List Nat)} {index : Nat} {row : Dict} {timestamp : DateTime}
    {feature : Manifest.Feature} {found : List QualityViolation} {quality : FeatureQuality}
    (hquality : feature.quality = some quality)
    (h : featureViolations less reference duplicates index row timestamp feature = .ok found) :
    Instant.IsRepresentable timestamp.asUtc ∧ ∀ age, quality.maxAgeSeconds = some age →
      Instant.IsRepresentable (reference - seconds age) := by
  rw [featureViolations, hquality] at h
  obtain ⟨_, -, h⟩ := ok_of_bind h
  obtain ⟨_, htime, h⟩ := ok_of_bind h
  obtain ⟨_, hold, -⟩ := ok_of_bind h
  refine ⟨(toUtc_eq_ok_iff.mp htime).1, fun age hage => ?_⟩
  rw [hage, checkOptional] at hold
  cases hcutoff : cutoff reference age with
  | error exc =>
      rw [hcutoff] at hold
      cases hold
  | ok oldest => exact (cutoff_eq_ok_iff.mp hcutoff).1

/-- An evaluation that returns has left the calendar nowhere. -/
theorem inCalendar_of_ok (hlength : eventTimestamps.length = rows.length)
    {validation : QualityValidation}
    (h : validateQualityRows less rows features eventTimestamps referenceTime checkUnique =
      .ok validation) :
    InCalendar rows features eventTimestamps referenceTime checkUnique := by
  obtain ⟨reference, href, h⟩ := ok_of_bind h
  obtain ⟨hrepresentable, rfl⟩ := toUtc_eq_ok_iff.mp href
  obtain ⟨duplicates, hduplicates, h⟩ := ok_of_bind h
  obtain ⟨violations, hloop, -⟩ := ok_of_bind h
  have hcell : ∀ (index : Nat) (row : Dict) (timestamp : DateTime), rows[index]? = some row →
      eventTimestamps[index]? = some timestamp → ∀ feature ∈ features, ∀ quality,
        feature.quality = some quality → Instant.IsRepresentable timestamp.asUtc ∧
          ∀ age, quality.maxAgeSeconds = some age →
            Instant.IsRepresentable (referenceTime.asUtc - seconds age) := by
    intro index row timestamp hrow htime feature hfeature quality hquality
    have hzip : ((row, timestamp), index) ∈ (rows.zip eventTimestamps).zipIdx 0 :=
      List.mk_mem_zipIdx_iff_getElem?.mpr (List.getElem?_zip_eq_some.mpr ⟨hrow, htime⟩)
    obtain ⟨found, hfound⟩ := mapM_of_rowViolationsFrom hloop hzip
    obtain ⟨violations, -, hviolations⟩ := (mem_of_mapM hfound).2 feature hfeature
    exact inCalendar_of_featureViolations hquality hviolations
  refine ⟨hrepresentable, ?_, ?_, ?_⟩
  · rintro rfl feature hfeature hunique row hrow
    exact columnConvertible_of_duplicateRows hduplicates feature hfeature hunique row hrow
  · intro feature hfeature hsome timestamp htimestamp
    obtain ⟨quality, hquality⟩ := Option.isSome_iff_exists.mp hsome
    obtain ⟨index, htime⟩ := List.mem_iff_getElem?.mp htimestamp
    have hlt : index < rows.length := hlength ▸ (List.getElem?_eq_some_iff.mp htime).1
    exact (hcell index rows[index] timestamp (List.getElem?_eq_getElem hlt) htime feature hfeature
      quality hquality).1
  · intro feature hfeature quality hquality age hage hne
    have hlt : 0 < rows.length := List.length_pos_iff.mpr hne
    have hlt' : 0 < eventTimestamps.length := hlength ▸ hlt
    exact ((hcell 0 rows[0] eventTimestamps[0] (List.getElem?_eq_getElem hlt)
      (List.getElem?_eq_getElem hlt') feature hfeature quality hquality).2 age hage).1

/-- The evaluation of features with distinct names on conforming rows reports exactly the failing
constraints, in order, if and only if no timestamp that it computes leaves the calendar. Otherwise
it raises. -/
theorem validateQualityRows_exact_iff (less : Value → Value → Bool) (rules : ManifestRules)
    (rows : List Dict) (features : List Manifest.Feature) (eventTimestamps : List DateTime)
    (referenceTime : DateTime) (checkUnique : Bool) (hnames : (features.map (·.name)).Nodup)
    (hvalid : ∀ feature ∈ features, feature.Valid rules)
    (hrows : ∀ row ∈ rows, ∀ feature ∈ features,
      Conforms feature.dtype (valueOf row feature.name))
    (hlength : eventTimestamps.length = rows.length) :
    (∃ validation,
      validateQualityRows less rows features eventTimestamps referenceTime checkUnique =
        .ok validation ∧
      IsExact rows features eventTimestamps referenceTime checkUnique validation) ↔
      InCalendar rows features eventTimestamps referenceTime checkUnique := by
  constructor
  · rintro ⟨validation, hok, -⟩
    exact inCalendar_of_ok hlength hok
  · intro h
    exact ⟨_, validateQualityRows_ok hnames hvalid hrows hlength h, isExact_allFailures hnames⟩

end Rows

namespace Sample

/-- A count that is at least 2, unique, and at most so many seconds old. -/
def agedCount (age : Nat) : Manifest.Feature where
  name := "purchase_count"
  dtype := .int64
  description := ""
  quality := some
    { nullable := false
      minimum := some (.int 2)
      maximum := none
      acceptedValues := none
      unique := true
      maxAgeSeconds := some age
      accepted_scalar := no_accepted_scalar }

theorem agedCount_valid (age : Nat) : ∀ feature ∈ [agedCount age],
    feature.Valid ManifestRules.strict := by
  intro feature hfeature
  rw [List.mem_singleton.mp hfeature]
  have hname : isName "purchase_count" = true := by decide
  refine ⟨hname, ?_, ?_⟩
  · rintro quality ⟨⟩
    rfl
  · rintro quality ⟨⟩
    rfl

/-- A purchase count. -/
def countRow (n : Int) : Dict := [("purchase_count", .int n)]

/-- Midnight of 2 January 2025, and the midnight before. -/
def newYear : DateTime := ⟨1735776000000000, some 0⟩

def dayBefore : DateTime := ⟨1735689600000000, none⟩

theorem countRows_conform (age : Nat) : ∀ row ∈ [countRow 1, countRow 1],
    ∀ feature ∈ [agedCount age], Conforms feature.dtype (valueOf row feature.name) := by
  intro row hrow feature hfeature
  rw [List.mem_singleton.mp hfeature]
  simp only [List.mem_cons, List.not_mem_nil, or_false, or_self] at hrow
  rw [hrow]
  have hbounds : -(2 ^ 63 : Int) ≤ 1 ∧ (1 : Int) < 2 ^ 63 := by omega
  exact hbounds

theorem inCalendar_minute : InCalendar [countRow 1, countRow 1] [agedCount 60]
    [dayBefore, newYear] newYear true where
  reference := by decide
  values := by
    intro _ feature hfeature _ row hrow timestamp htimestamp
    rw [List.mem_singleton.mp hfeature] at htimestamp
    simp only [List.mem_cons, List.not_mem_nil, or_false, or_self] at hrow
    rw [hrow] at htimestamp
    cases htimestamp
  timestamps := by
    intro _ _ _
    simp only [List.forall_mem_cons]
    exact ⟨by decide, by decide, List.forall_mem_nil _⟩
  ages := by
    intro feature hfeature quality hquality age hage _
    rw [List.mem_singleton.mp hfeature] at hquality
    cases hquality
    cases hage
    decide

/-- Two equal counts below their minimum are evaluated against a maximal age of a minute. -/
theorem minute_evaluated : ∃ validation,
    validateQualityRows (fun _ _ => false) [countRow 1, countRow 1] [agedCount 60]
      [dayBefore, newYear] newYear true = .ok validation ∧
    IsExact [countRow 1, countRow 1] [agedCount 60] [dayBefore, newYear] newYear true
      validation :=
  (validateQualityRows_exact_iff _ ManifestRules.strict [countRow 1, countRow 1] [agedCount 60]
    [dayBefore, newYear] newYear true (by decide) (agedCount_valid 60) (countRows_conform 60)
    rfl).mpr inCalendar_minute

example : validateQualityRows (fun _ _ => false) [countRow 1, countRow 1] [agedCount 60]
    [dayBefore, newYear] newYear true = .ok ⟨2,
      [⟨0, "purchase_count", .minimum⟩, ⟨0, "purchase_count", .unique⟩,
        ⟨0, "purchase_count", .maxAgeSeconds⟩, ⟨1, "purchase_count", .minimum⟩,
        ⟨1, "purchase_count", .unique⟩]⟩ := by
  rfl

/-- A maximal age of 100 000 000 000 seconds is accepted, and its evaluation raises. -/
theorem old_counts_raise : ([agedCount 100000000000].map (·.name)).Nodup ∧
    (∀ feature ∈ [agedCount 100000000000], feature.Valid ManifestRules.strict) ∧
    (∀ row ∈ [countRow 1, countRow 1], ∀ feature ∈ [agedCount 100000000000],
      Conforms feature.dtype (valueOf row feature.name)) ∧
    [dayBefore, newYear].length = [countRow 1, countRow 1].length ∧
    validateQualityRows (fun _ _ => false) [countRow 1, countRow 1] [agedCount 100000000000]
      [dayBefore, newYear] newYear true = .error overflowError ∧
    ¬∃ validation, validateQualityRows (fun _ _ => false) [countRow 1, countRow 1]
        [agedCount 100000000000] [dayBefore, newYear] newYear true = .ok validation ∧
      IsExact [countRow 1, countRow 1] [agedCount 100000000000] [dayBefore, newYear] newYear true
        validation := by
  have hraise : validateQualityRows (fun _ _ => false) [countRow 1, countRow 1]
      [agedCount 100000000000] [dayBefore, newYear] newYear true = .error overflowError := by
    rfl
  refine ⟨by decide, agedCount_valid _, countRows_conform _, rfl, hraise, ?_⟩
  rintro ⟨validation, hok, -⟩
  rw [hraise] at hok
  cases hok

end Sample

end FeatureStore
