import FeatureStore.BatchOutput
import FeatureStore.Library.Grouping
import FeatureStore.ManifestParsing

/-!
# The evaluation of quality contracts

`validate_quality_rows` on rows of any values. Timestamps are compared in UTC, and a conversion or
a subtraction that leaves the years 1 to 9999 raises.
-/

namespace FeatureStore

open Dictionaries

/-- `OverflowError`, which no handler tells from other errors. -/
def overflowError : PyException := ⟨.runtime, "date value out of range"⟩

/-- `type(value).__name__` -/
def Value.typeName : Value → String
  | .null => "NoneType"
  | .bool _ => "bool"
  | .int _ => "int"
  | .float _ => "float"
  | .str _ => "str"
  | .timestamp _ => "datetime"
  | .list _ => "list"
  | .dict _ => "dict"

mutual

/-- `json.dumps(value, default=str)` -/
def Value.spacedChars : Value → List Char
  | .list items => '[' :: (spacedItems items ++ [']'])
  | .dict members => '{' :: (spacedMembers members ++ ['}'])
  | value => value.jsonChars

def spacedItems : List Value → List Char
  | [] => []
  | [value] => value.spacedChars
  | value :: other :: rest => value.spacedChars ++ ',' :: ' ' :: spacedItems (other :: rest)

def spacedMembers : List (String × Value) → List Char
  | [] => []
  | [(key, value)] => quoted key ++ ':' :: ' ' :: value.spacedChars
  | (key, value) :: other :: rest =>
      quoted key ++ ':' :: ' ' :: (value.spacedChars ++ ',' :: ' ' :: spacedMembers (other :: rest))

end

/-- The conversion of a timestamp to UTC. A naive one is only labelled, and its wall clock has a
year from 1 to 9999. -/
def DateTime.toUtc (timestamp : DateTime) : Except PyException Instant :=
  if Instant.IsRepresentable timestamp.asUtc then .ok timestamp.asUtc else .error overflowError

/-- `_value_key` -/
def valueKey : Value → Except PyException String
  | .timestamp timestamp => do return s!"datetime:{isoMicroseconds (← timestamp.toUtc)}"
  | value => .ok s!"{value.typeName}:{String.ofList value.sortKeys.spacedChars}"

/-- `row.get(feature.name)` -/
def valueOf (row : Dict) (name : String) : Value := (row.lookup name).getD .null

section Bounds

-- `<` where an operand is a float.
variable (less : Value → Value → Bool)

/-- `value < bound` -/
def isBelow : Value → Manifest.Number → Except PyException Bool
  | .int n, .int m => .ok (decide (n < m))
  | .bool b, .int m => .ok (decide (b.toInt < m))
  | .float token, bound => .ok (less (.float token) bound.value)
  | .int n, .float token _ => .ok (less (.int n) (.float token))
  | .bool b, .float token _ => .ok (less (.int b.toInt) (.float token))
  | value, bound => .error ⟨.type,
      s!"'<' not supported between instances of '{value.typeName}' and '{bound.value.typeName}'"⟩

/-- `value > bound` -/
def isAbove : Value → Manifest.Number → Except PyException Bool
  | .int n, .int m => .ok (decide (m < n))
  | .bool b, .int m => .ok (decide (m < b.toInt))
  | .float token, bound => .ok (less bound.value (.float token))
  | .int n, .float token _ => .ok (less (.float token) (.int n))
  | .bool b, .float token _ => .ok (less (.float token) (.int b.toInt))
  | value, bound => .error ⟨.type,
      s!"'>' not supported between instances of '{value.typeName}' and '{bound.value.typeName}'"⟩

end Bounds

/-- A check that an absent bound passes. -/
def checkOptional {α : Type} (check : α → Except PyException Bool) :
    Option α → Except PyException Bool
  | none => .ok false
  | some a => check a

section Rows

variable (rows : List Dict) (features : List Manifest.Feature)

/-- The keys of the values of a feature, with the indexes of their rows. -/
def keyedIndexes (name : String) : Except PyException (List (String × Nat)) :=
  (rows.zipIdx.filter fun item => !(valueOf item.1 name).isNull).mapM fun item =>
    (valueKey (valueOf item.1 name)).map fun key => (key, item.2)

/-- The entry of a feature in `duplicate_rows`. -/
def duplicateIndexes (name : String) : Except PyException (List Nat) :=
  (keyedIndexes rows name).map fun items => Grouping.repeated (Grouping.group items)

def Manifest.Feature.isUnique (feature : Manifest.Feature) : Bool :=
  feature.quality.any (·.unique)

/-- `duplicate_rows` -/
def duplicateRows : Except PyException (List (String × List Nat)) :=
  ((features.filter (·.isUnique)).mapM fun feature =>
    (duplicateIndexes rows feature.name).map fun indexes => (feature.name, indexes)).map ofItems

/-- `duplicate_rows` stays empty where uniqueness is not checked. -/
def checkedDuplicates (checkUnique : Bool) : Except PyException (List (String × List Nat)) :=
  if checkUnique then duplicateRows rows features else .ok []

end Rows

section Violations

variable (less : Value → Value → Bool) (reference : Instant)
  (duplicates : List (String × List Nat))

/-- `reference - timedelta(seconds=age)`. A difference that a `timedelta` cannot hold is out of
range as well. -/
def cutoff (age : Nat) : Except PyException Instant :=
  if Instant.IsRepresentable (reference - seconds age) then .ok (reference - seconds age)
  else .error overflowError

/-- The constraints that apply to a value, with whether it violates them. -/
def valueChecks (quality : Manifest.FeatureQuality) (name : String) (index : Nat) (value : Value) :
    Except PyException (List (QualityConstraintType × Bool)) := do
  if value.isNull then return [(.nullable, !quality.nullable)]
  let low ← checkOptional (isBelow less value) quality.minimum
  let high ← checkOptional (isAbove less value) quality.maximum
  return [(.minimum, low), (.maximum, high),
    (.acceptedValues,
      quality.acceptedValues.any fun accepted => !accepted.any fun other => scalarEq value other),
    (.unique, ((duplicates.lookup name).getD []).contains index)]

/-- The constraints of a feature that a row violates. -/
def featureViolations (index : Nat) (row : Dict) (eventTimestamp : DateTime)
    (feature : Manifest.Feature) : Except PyException (List QualityViolation) :=
  match feature.quality with
  | none => .ok []
  | some quality => do
      let checks ← valueChecks less duplicates quality feature.name index (valueOf row feature.name)
      let timestamp ← eventTimestamp.toUtc
      let isOld ← checkOptional (fun age => (cutoff reference age).map fun oldest =>
        decide (timestamp < oldest)) quality.maxAgeSeconds
      let all := checks ++ [(QualityConstraintType.maxAgeSeconds, isOld)]
      return (all.filter (·.2)).map fun check => ⟨index, feature.name, check.1⟩

/-- The loop over `zip(rows, event_timestamps, strict=True)`. -/
def rowViolationsFrom (features : List Manifest.Feature) :
    Nat → List Dict → List DateTime → Except PyException (List QualityViolation)
  | _, [], [] => .ok []
  | _, [], _ :: _ => .error (valueError "zip() argument 2 is longer than argument 1")
  | _, _ :: _, [] => .error (valueError "zip() argument 2 is shorter than argument 1")
  | index, row :: rows, timestamp :: timestamps => do
      let found ← features.mapM (featureViolations less reference duplicates index row timestamp)
      let others ← rowViolationsFrom features (index + 1) rows timestamps
      return found.flatten ++ others

end Violations

/-- `_CONSTRAINT_ORDER` -/
def QualityConstraintType.order : QualityConstraintType → Nat
  | .nullable => 0
  | .minimum => 1
  | .maximum => 2
  | .acceptedValues => 3
  | .unique => 4
  | .maxAgeSeconds => 5

/-- `feature_order` -/
def featureOrder (features : List Manifest.Feature) : List (String × Nat) :=
  ofItems (features.zipIdx.map fun item => (item.1.name, item.2))

/-- The key of the final sort. -/
def violationKey (features : List Manifest.Feature) (violation : QualityViolation) : List Nat :=
  [violation.rowIndex, ((featureOrder features).lookup violation.feature).getD 0,
    violation.constraint.order]

/-- `validate_quality_rows` -/
def validateQualityRows (less : Value → Value → Bool) (rows : List Dict)
    (features : List Manifest.Feature) (eventTimestamps : List DateTime) (referenceTime : DateTime)
    (checkUnique : Bool) : Except PyException QualityValidation := do
  let reference ← referenceTime.toUtc
  let duplicates ← checkedDuplicates rows features checkUnique
  let violations ← rowViolationsFrom less reference duplicates features 0 rows eventTimestamps
  return ⟨rows.length,
    violations.insertionSort fun a b => violationKey features a ≤ violationKey features b⟩

section Conversions

variable {timestamp : DateTime} {instant reference : Instant} {value : Value}

theorem toUtc_eq_ok_iff : timestamp.toUtc = .ok instant ↔
    Instant.IsRepresentable timestamp.asUtc ∧ instant = timestamp.asUtc := by
  rw [DateTime.toUtc]
  by_cases h : Instant.IsRepresentable timestamp.asUtc
  · simp [h, eq_comm]
  · simp [h]

theorem cutoff_eq_ok_iff {age : Nat} : cutoff reference age = .ok instant ↔
    Instant.IsRepresentable (reference - seconds age) ∧ instant = reference - seconds age := by
  rw [cutoff]
  by_cases h : Instant.IsRepresentable (reference - seconds age)
  · simp [h, eq_comm]
  · simp [h]

/-- The timestamp that a value is, if any, can be converted. -/
def Value.IsConvertible (value : Value) : Prop :=
  ∀ timestamp, value = .timestamp timestamp → Instant.IsRepresentable timestamp.asUtc

/-- The key of a value that can be converted. -/
def Value.keyText : Value → String
  | .timestamp timestamp => s!"datetime:{isoMicroseconds timestamp.asUtc}"
  | value => s!"{value.typeName}:{String.ofList value.sortKeys.spacedChars}"

theorem valueKey_of_isConvertible (h : value.IsConvertible) :
    valueKey value = .ok value.keyText := by
  cases value with
  | timestamp timestamp =>
      have htime := toUtc_eq_ok_iff.mpr ⟨h timestamp rfl, rfl⟩
      simp only [valueKey, htime, bind, Except.bind, pure, Except.pure, Value.keyText]
  | _ => rfl

theorem isConvertible_of_valueKey {key : String} (h : valueKey value = .ok key) :
    value.IsConvertible := by
  rintro timestamp rfl
  obtain ⟨instant, htime, -⟩ := ok_of_bind h
  exact (toUtc_eq_ok_iff.mp htime).1

end Conversions

section Duplicates

variable {rows : List Dict} {features : List Manifest.Feature} {name : String}

/-- The values of the feature that are timestamps can be converted. -/
def ColumnConvertible (rows : List Dict) (name : String) : Prop :=
  ∀ row ∈ rows, (valueOf row name).IsConvertible

/-- The rows with a value of the feature. -/
def presentRows (rows : List Dict) (name : String) : List (Dict × Nat) :=
  rows.zipIdx.filter fun item => !(valueOf item.1 name).isNull

theorem mem_presentRows {row : Dict} {index : Nat} :
    (row, index) ∈ presentRows rows name ↔
      rows[index]? = some row ∧ (valueOf row name).isNull = false := by
  rw [presentRows, List.mem_filter, List.mk_mem_zipIdx_iff_getElem?, Bool.not_eq_true']

theorem keyedIndexes_ok (h : ColumnConvertible rows name) : keyedIndexes rows name =
    .ok ((presentRows rows name).map fun item => ((valueOf item.1 name).keyText, item.2)) := by
  apply mapM_eq_ok_map
  rintro ⟨row, index⟩ hitem
  have hrow := List.mem_of_getElem? (mem_presentRows.mp hitem).1
  rw [valueKey_of_isConvertible (h row hrow)]
  rfl

/-- The rows whose value of the feature has the key of another one. -/
def sharedIndexes (rows : List Dict) (name : String) : List Nat :=
  Grouping.repeated (Grouping.group ((presentRows rows name).map fun item =>
    ((valueOf item.1 name).keyText, item.2)))

theorem duplicateIndexes_ok (h : ColumnConvertible rows name) :
    duplicateIndexes rows name = .ok (sharedIndexes rows name) := by
  rw [duplicateIndexes, keyedIndexes_ok h]
  rfl

theorem mem_sharedIndexes {index : Nat} : index ∈ sharedIndexes rows name ↔
    ∃ row, rows[index]? = some row ∧ (valueOf row name).isNull = false ∧
      ∃ j other, j ≠ index ∧ rows[j]? = some other ∧ (valueOf other name).isNull = false ∧
        (valueOf other name).keyText = (valueOf row name).keyText := by
  have hnodup : (((presentRows rows name).map fun item =>
      ((valueOf item.1 name).keyText, item.2)).map (·.2)).Nodup := by
    have hall : (rows.zipIdx.map Prod.snd).Nodup := by
      rw [List.zipIdx_map_snd]
      exact List.nodup_range'
    rw [List.map_map]
    exact hall.sublist (List.filter_sublist.map _)
  rw [sharedIndexes, Grouping.mem_repeated hnodup]
  simp only [List.mem_map, Prod.mk.injEq, Prod.exists, mem_presentRows]
  constructor
  · rintro ⟨key, ⟨row, i, ⟨hrow, hvalue⟩, rfl, rfl⟩, j, hne, other, j', ⟨hother, hnull⟩, hkey, rfl⟩
    exact ⟨row, hrow, hvalue, j', other, hne, hother, hnull, hkey⟩
  · rintro ⟨row, hrow, hvalue, j, other, hne, hother, hnull, hkey⟩
    exact ⟨_, ⟨row, index, ⟨hrow, hvalue⟩, rfl, rfl⟩, j, hne, other, j, ⟨hother, hnull⟩, hkey, rfl⟩

theorem columnConvertible_of_duplicateIndexes {indexes : List Nat}
    (h : duplicateIndexes rows name = .ok indexes) : ColumnConvertible rows name := by
  intro row hrow timestamp htime
  cases hkeyed : keyedIndexes rows name with
  | error exc =>
      rw [duplicateIndexes, hkeyed] at h
      cases h
  | ok items =>
      obtain ⟨index, hindex⟩ := List.mem_iff_getElem?.mp hrow
      have hpresent : (row, index) ∈ presentRows rows name :=
        mem_presentRows.mpr ⟨hindex, by rw [htime]; rfl⟩
      obtain ⟨item, -, hkey⟩ := (mem_of_mapM hkeyed).2 _ hpresent
      cases hvalue : valueKey (valueOf row name) with
      | error exc =>
          rw [hvalue] at hkey
          cases hkey
      | ok key => exact isConvertible_of_valueKey hvalue timestamp htime

/-- The entries of `duplicate_rows`. -/
def sharedEntries (rows : List Dict) (features : List Manifest.Feature) :
    List (String × List Nat) :=
  (features.filter (·.isUnique)).map fun feature => (feature.name, sharedIndexes rows feature.name)

theorem nodup_sharedEntries (hnames : (features.map (·.name)).Nodup) :
    ((sharedEntries rows features).map (·.1)).Nodup := by
  rw [sharedEntries, List.map_map]
  exact hnames.sublist (List.filter_sublist.map _)

/-- The entry of a feature, which it has if its values should be unique. -/
theorem lookup_sharedEntries (hnames : (features.map (·.name)).Nodup)
    {feature : Manifest.Feature} (hfeature : feature ∈ features) :
    (sharedEntries rows features).lookup feature.name =
      if feature.isUnique then some (sharedIndexes rows feature.name) else none := by
  cases hunique : feature.isUnique with
  | false =>
      rw [if_neg Bool.false_ne_true, lookup_eq_none_iff]
      intro hmem
      rw [sharedEntries, List.map_map, List.mem_map] at hmem
      obtain ⟨other, hother, hname⟩ := hmem
      obtain ⟨hother, hset⟩ := List.mem_filter.mp hother
      have hsame := List.inj_on_of_nodup_map hnames hother hfeature hname
      rw [hsame, hunique] at hset
      cases hset
  | true =>
      rw [if_pos rfl, lookup_eq_some_iff (nodup_sharedEntries hnames)]
      exact List.mem_map.mpr ⟨feature, List.mem_filter.mpr ⟨hfeature, hunique⟩, rfl⟩

theorem duplicateRows_ok (hnames : (features.map (·.name)).Nodup)
    (h : ∀ feature ∈ features, feature.isUnique = true → ColumnConvertible rows feature.name) :
    duplicateRows rows features = .ok (sharedEntries rows features) := by
  have hloop : ((features.filter (·.isUnique)).mapM fun feature =>
      (duplicateIndexes rows feature.name).map fun indexes => (feature.name, indexes)) =
        .ok (sharedEntries rows features) := by
    apply mapM_eq_ok_map
    intro feature hfeature
    obtain ⟨hmem, hunique⟩ := List.mem_filter.mp hfeature
    rw [duplicateIndexes_ok (h feature hmem hunique)]
    rfl
  rw [duplicateRows, hloop]
  exact congrArg Except.ok (ofItems_of_nodup (nodup_sharedEntries hnames))

theorem columnConvertible_of_duplicateRows {duplicates : List (String × List Nat)}
    (h : duplicateRows rows features = .ok duplicates) :
    ∀ feature ∈ features, feature.isUnique = true → ColumnConvertible rows feature.name := by
  intro feature hfeature hunique
  cases hloop : (features.filter (·.isUnique)).mapM fun feature =>
      (duplicateIndexes rows feature.name).map fun indexes => (feature.name, indexes) with
  | error exc =>
      rw [duplicateRows, hloop] at h
      cases h
  | ok items =>
      obtain ⟨item, -, hitem⟩ :=
        (mem_of_mapM hloop).2 feature (List.mem_filter.mpr ⟨hfeature, hunique⟩)
      cases hindexes : duplicateIndexes rows feature.name with
      | error exc =>
          rw [hindexes] at hitem
          cases hitem
      | ok indexes => exact columnConvertible_of_duplicateIndexes hindexes

end Duplicates

section Loop

variable {less : Value → Value → Bool} {reference : Instant}
  {duplicates : List (String × List Nat)} {features : List Manifest.Feature} {rows : List Dict}
  {timestamps : List DateTime} {index : Nat}

/-- The loop over rows and timestamps of the same number collects what each pair adds. -/
theorem rowViolationsFrom_ok {found : Nat → Dict → DateTime → List (List QualityViolation)}
    (hlength : timestamps.length = rows.length)
    (h : ∀ row timestamp i, ((row, timestamp), i) ∈ (rows.zip timestamps).zipIdx index →
      features.mapM (featureViolations less reference duplicates i row timestamp) =
        .ok (found i row timestamp)) :
    rowViolationsFrom less reference duplicates features index rows timestamps =
      .ok (((rows.zip timestamps).zipIdx index).flatMap fun item =>
        (found item.2 item.1.1 item.1.2).flatten) := by
  induction rows generalizing index timestamps with
  | nil =>
      obtain rfl := List.eq_nil_of_length_eq_zero hlength
      rfl
  | cons row rest ih =>
      cases timestamps with
      | nil => cases hlength
      | cons timestamp others =>
          rw [List.zip_cons_cons, List.zipIdx_cons] at h ⊢
          have hfirst := h row timestamp index List.mem_cons_self
          have hrest := ih (Nat.succ.inj hlength) fun row timestamp i hitem =>
            h row timestamp i (List.mem_cons_of_mem _ hitem)
          rw [rowViolationsFrom, hfirst, hrest, List.flatMap_cons]
          rfl

/-- A loop that does not raise has not raised at any pair. -/
theorem mapM_of_rowViolationsFrom {violations : List QualityViolation}
    (h : rowViolationsFrom less reference duplicates features index rows timestamps =
      .ok violations) {row : Dict} {timestamp : DateTime} {i : Nat}
    (hitem : ((row, timestamp), i) ∈ (rows.zip timestamps).zipIdx index) :
    ∃ found, features.mapM (featureViolations less reference duplicates i row timestamp) =
      .ok found := by
  induction rows generalizing index timestamps violations with
  | nil => cases hitem
  | cons first rest ih =>
      cases timestamps with
      | nil => cases hitem
      | cons time others =>
          rw [rowViolationsFrom] at h
          obtain ⟨found, hfound, h⟩ := ok_of_bind h
          obtain ⟨remaining, hrest, -⟩ := ok_of_bind h
          rw [List.zip_cons_cons, List.zipIdx_cons, List.mem_cons] at hitem
          cases hitem with
          | inl heq =>
              cases heq
              exact ⟨found, hfound⟩
          | inr hmem => exact ih hrest hmem

end Loop

section Order

variable {features : List Manifest.Feature}

/-- Features are ordered as they are declared. -/
theorem lookup_featureOrder (hnames : (features.map (·.name)).Nodup) {name : String}
    (h : name ∈ features.map (·.name)) :
    (featureOrder features).lookup name = some ((features.map (·.name)).idxOf name) := by
  have hkeys : (features.zipIdx.map fun item => (item.1.name, item.2)).map (·.1) =
      features.map (·.name) := by
    rw [List.map_map]
    change features.zipIdx.map ((·.name) ∘ Prod.fst) = _
    rw [← List.map_map, List.zipIdx_map_fst]
  rw [featureOrder, ofItems_of_nodup (hkeys ▸ hnames), lookup_eq_some_iff (hkeys ▸ hnames)]
  have hlt := List.idxOf_lt_length_iff.mpr h
  have hat := List.getElem_idxOf hlt
  rw [List.getElem_map] at hat
  rw [List.length_map] at hlt
  exact List.mem_map.mpr ⟨(features[(features.map (·.name)).idxOf name], _),
    List.mk_mem_zipIdx_iff_getElem?.mpr (List.getElem?_eq_getElem hlt), Prod.ext hat rfl⟩

end Order

end FeatureStore
