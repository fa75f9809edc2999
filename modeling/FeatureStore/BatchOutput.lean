import FeatureStore.Backfill
import FeatureStore.HistoricalTable
import FeatureStore.ValueEncoding

/-!
# The output of the batch SQL

What `_backfill` makes of one output of the batch SQL: the columns of the view, cast to their
types, the rows in the range of the chunk, and the evaluation of their quality. A row violates
its contracts or not by its content alone, so the row indexes of the source select by it.
-/

namespace FeatureStore

/-- `FeatureView.effective_quality_policy`. -/
def Manifest.FeatureView.effectiveQualityPolicy (view : Manifest.FeatureView) : QualityPolicy :=
  view.qualityPolicy.getD .reject

section Output

variable (arrow : ArrowCast) (entity : Manifest.Entity) (view : Manifest.FeatureView)

/-- The columns that `_validate_output` selects, with the types to which it casts them. -/
def declaredColumns : List (String × ValueType) :=
  entity.joinKeys ++ [("event_timestamp", .timestamp), ("event_id", .string)] ++ view.columns

/-- `_validate_output`. A name that the table or the selection has twice is not found. -/
def ArrowCast.validateTable (table : ArrowTable) : Except PyException (List Dict) :=
  let names := (declaredColumns entity view).map (·.1)
  let missing := names.filter fun name => !table.names.contains name
  if missing ≠ [] then
    let listed := ", ".intercalate ((sortedNames missing.dedup).map fun name => s!"'{name}'")
    .error (valueError s!"batch SQL missing required columns: [{listed}]")
  else if names.Nodup ∧ ∀ name ∈ names, table.names.count name = 1 then
    match table.rows.mapM fun row =>
        arrow.columns (declaredColumns entity view) (table.record row) with
    | some rows => .ok rows
    | none => .error ⟨.arrow, "a value cannot be cast to the type of its column"⟩
  else .error (keyError "a field exists 2 times in schema")

/-- The row of a selected record, with its `event_date`, unless its timestamp is null. -/
def batchRow (record : Dict) : Option OfflineRow :=
  (eventTimestampOf record).map fun eventTimestamp =>
    .dated (entity.joinKeys.map fun key => (key.1, columnOf record key.1)) eventTimestamp
      (eventIdOf record)
      (view.features.map fun feature => (feature.name, columnOf record feature.name))

/-- The rows under the mask of a chunk; a null timestamp is not. -/
def chunkRows (cursor chunkEnd : Instant) (records : List Dict) : List OfflineRow :=
  (records.filterMap (batchRow entity view)).filter fun row =>
    decide (cursor ≤ row.eventTimestamp) && decide (row.eventTimestamp < chunkEnd)

end Output

/-- What Python's `<`, `==` and `_value_key` make of the values in a table. -/
structure ValueComparison where
  less : Value → Value → Bool
  equal : Value → Value → Bool
  key : Value → String

/-- `value is None` -/
def Value.isNull : Value → Bool
  | .null => true
  | _ => false

/-- `row.get(feature.name)` -/
def OfflineRow.feature (row : OfflineRow) (name : String) : Value :=
  (row.values.lookup name).getD .null

section Quality

variable (compare : ValueComparison) (features : List Manifest.Feature) (reference : Instant)
variable (rows : List OfflineRow)

/-- Whether a feature that should be unique has the value of the row in another one. -/
def isRepeated (quality : Manifest.FeatureQuality) (name : String) (row : OfflineRow) : Bool :=
  quality.unique && decide (1 < rows.countP fun other =>
    !(other.feature name).isNull &&
      compare.key (other.feature name) == compare.key (row.feature name))

/-- The constraints of a feature that a row violates. -/
def violatedBy (quality : Manifest.FeatureQuality) (name : String) (row : OfflineRow) :
    List QualityConstraintType :=
  let value := row.feature name
  [(.nullable, value.isNull && !quality.nullable),
    (.minimum, !value.isNull && quality.minimum.any fun m => compare.less value m.value),
    (.maximum, !value.isNull && quality.maximum.any fun m => compare.less m.value value),
    (.acceptedValues, !value.isNull &&
      quality.acceptedValues.any fun accepted => !accepted.any fun v => compare.equal value v),
    (.unique, !value.isNull && isRepeated compare rows quality name row),
    (.maxAgeSeconds, quality.maxAgeSeconds.any fun age =>
      decide (row.eventTimestamp < reference - seconds age))].filterMap
    fun (constraint, violated) => if violated then some constraint else none

/-- The violations of a row, by feature. -/
def rowViolations (row : OfflineRow) : List (String × QualityConstraintType) :=
  features.flatMap fun feature =>
    match feature.quality with
    | none => []
    | some quality =>
        (violatedBy compare reference rows quality feature.name row).map fun constraint =>
          (feature.name, constraint)

/-- A row without violations. -/
def isValidRow (row : OfflineRow) : Bool :=
  (rowViolations compare features reference rows row).isEmpty

/-- `QualityValidation` -/
structure QualityValidation where
  evaluatedRows : Nat
  violations : List QualityViolation
deriving DecidableEq, Repr

/-- `validate_quality_table`. Its loops give the violations in the order of its final sort. -/
def validateQualityTable : QualityValidation where
  evaluatedRows := rows.length
  violations := rows.zipIdx.flatMap fun (row, index) =>
    (rowViolations compare features reference rows row).map fun (feature, constraint) =>
      ⟨index, feature, constraint⟩

end Quality

namespace QualityValidation

variable (validation : QualityValidation)

/-- `invalid_row_indexes` -/
def invalidRowIndexes : List Nat :=
  (validation.violations.map (·.rowIndex)).dedup.insertionSort (· ≤ ·)

/-- `valid_row_indexes` -/
def validRowIndexes : List Nat :=
  (List.range validation.evaluatedRows).filter fun index =>
    !validation.invalidRowIndexes.contains index

/-- `counts_by_constraint` -/
def countsByConstraint : List (QualityConstraintType × Nat) :=
  (violatedConstraints validation.violations).map fun constraint =>
    (constraint, validation.violations.countP fun violation =>
      decide (violation.constraint = constraint))

end QualityValidation

/-- `DataQualitySummary` before any chunk. -/
def emptySummary (policy : QualityPolicy) : DataQualitySummary := ⟨policy, 0, 0, 0, 0, []⟩

/-- `next_summary` -/
def DataQualitySummary.add (summary : DataQualitySummary) (policy : QualityPolicy)
    (validation : QualityValidation) : DataQualitySummary where
  policy := policy
  evaluatedRows := summary.evaluatedRows + validation.evaluatedRows
  validRows := summary.validRows + validation.validRowIndexes.length
  invalidRows := summary.invalidRows + validation.invalidRowIndexes.length
  quarantinedRows := summary.quarantinedRows +
    if policy = .quarantine then validation.invalidRowIndexes.length else 0
  countsByConstraint := validation.countsByConstraint.foldl
    (fun counts item => Dictionaries.setItem counts item.1 ((counts.lookup item.1).getD 0 + item.2))
    summary.countsByConstraint

/-- `table.take(pa.array(indexes))` -/
def takeRows (rows : List OfflineRow) (indexes : List Nat) : List OfflineRow :=
  indexes.filterMap fun index => rows[index]?

/-- A row of a quarantine table, whose `quality_policy` is the same in all rows. -/
structure QuarantinedRow where
  row : OfflineRow
  qualityErrors : List String

/-- The rows that `_quarantine_batch` writes. -/
def quarantinedRows (rows : List OfflineRow) (validation : QualityValidation) :
    List QuarantinedRow :=
  validation.invalidRowIndexes.filterMap fun index => rows[index]?.map fun row =>
    ⟨row, (validation.violations.filter fun violation => decide (violation.rowIndex = index)).map
      fun violation => s!"{violation.feature}:{violation.constraint.text}"⟩

/-- `_quarantine_batch` on the table of a job, at the date of the chunk. -/
def quarantineBatch (table : Option (List QuarantinedRow)) (rows : List OfflineRow)
    (validation : QualityValidation) (date : Date) : Option (List QuarantinedRow) :=
  if validation.invalidRowIndexes = [] then table
  else
    match table with
    | some stored =>
        some (stored.filter (fun quarantined => decide (quarantined.row.eventDate ≠ date)) ++
          quarantinedRows rows validation)
    | none => some (quarantinedRows rows validation)

section Rows

variable {compare : ValueComparison} {features : List Manifest.Feature} {reference : Instant}
variable {rows : List OfflineRow}

/-- The indexes of the rows that satisfy a predicate select these rows. -/
theorem takeRows_filter (P : OfflineRow → Bool) :
    takeRows rows ((List.range rows.length).filter fun index => rows[index]?.any P) =
      rows.filter P := by
  induction rows with
  | nil => rfl
  | cons row rest ih =>
      rw [List.length_cons, List.range_succ_eq_map, List.filter_cons, List.filter_map,
        List.filter_cons]
      have hrest : takeRows (row :: rest) (((List.range rest.length).filter
          ((fun index => (row :: rest)[index]?.any P) ∘ Nat.succ)).map Nat.succ) =
            rest.filter P := by
        rw [← ih, takeRows, takeRows, List.filterMap_map]
        rfl
      cases hrow : P row with
      | true =>
          simp only [List.getElem?_cons_zero, Option.any_some, hrow, if_true]
          rw [← hrest]
          rfl
      | false =>
          simpa only [List.getElem?_cons_zero, Option.any_some, hrow, Bool.false_eq_true, if_false]
            using hrest

theorem mem_violations {violation : QualityViolation} :
    violation ∈ (validateQualityTable compare features reference rows).violations ↔
      ∃ row, rows[violation.rowIndex]? = some row ∧
        (violation.feature, violation.constraint) ∈
          rowViolations compare features reference rows row := by
  rw [validateQualityTable, List.mem_flatMap]
  constructor
  · rintro ⟨⟨row, index⟩, hrow, hviolation⟩
    obtain ⟨⟨feature, constraint⟩, hmem, rfl⟩ := List.mem_map.mp hviolation
    exact ⟨row, List.mem_zipIdx_iff_getElem?.mp hrow, hmem⟩
  · rintro ⟨row, hrow, hmem⟩
    exact ⟨(row, violation.rowIndex), List.mem_zipIdx_iff_getElem?.mpr hrow,
      List.mem_map.mpr ⟨_, hmem, rfl⟩⟩

/-- The invalid rows are those with violations, in the order of the table. -/
theorem invalidRowIndexes_eq :
    (validateQualityTable compare features reference rows).invalidRowIndexes =
      (List.range rows.length).filter fun index =>
        rows[index]?.any fun row => !isValidRow compare features reference rows row := by
  have hperm := List.perm_insertionSort (· ≤ ·)
    ((validateQualityTable compare features reference rows).violations.map (·.rowIndex)).dedup
  have hsorted : (List.range rows.length).Pairwise (· ≤ ·) := List.pairwise_lt_range.imp le_of_lt
  refine (hperm.trans ?_).eq_of_pairwise' (List.pairwise_insertionSort (· ≤ ·) _)
    (hsorted.filter _)
  rw [List.perm_ext_iff_of_nodup (List.nodup_dedup _) (List.nodup_range.filter _)]
  intro index
  rw [List.mem_dedup, List.mem_map, List.mem_filter, List.mem_range]
  constructor
  · rintro ⟨violation, hviolation, rfl⟩
    obtain ⟨row, hrow, hmem⟩ := mem_violations.mp hviolation
    refine ⟨(List.getElem?_eq_some_iff.mp hrow).1, ?_⟩
    rw [hrow, Option.any_some, isValidRow, Bool.not_eq_true', List.isEmpty_eq_false_iff]
    exact List.ne_nil_of_mem hmem
  · rintro ⟨hlt, hinvalid⟩
    rw [List.getElem?_eq_getElem hlt, Option.any_some, isValidRow, Bool.not_eq_true',
      List.isEmpty_eq_false_iff] at hinvalid
    obtain ⟨⟨feature, constraint⟩, hmem⟩ := List.exists_mem_of_ne_nil _ hinvalid
    exact ⟨⟨index, feature, constraint⟩,
      mem_violations.mpr ⟨_, List.getElem?_eq_getElem hlt, hmem⟩, rfl⟩

theorem validRowIndexes_eq :
    (validateQualityTable compare features reference rows).validRowIndexes =
      (List.range rows.length).filter fun index =>
        rows[index]?.any fun row => isValidRow compare features reference rows row := by
  rw [QualityValidation.validRowIndexes, invalidRowIndexes_eq]
  apply List.filter_congr
  intro index hindex
  have hlt : index < rows.length := List.mem_range.mp hindex
  rw [Bool.eq_iff_iff, Bool.not_eq_true', ← Bool.not_eq_true, List.contains_iff_mem,
    List.mem_filter, List.mem_range, List.getElem?_eq_getElem hlt]
  simp [hlt]

theorem takeRows_length {indexes : List Nat} (h : ∀ index ∈ indexes, index < rows.length) :
    (takeRows rows indexes).length = indexes.length := by
  induction indexes with
  | nil => rfl
  | cons index rest ih =>
      have hindex := List.getElem?_eq_getElem (h index List.mem_cons_self)
      rw [takeRows, List.filterMap_cons_some hindex, List.length_cons, List.length_cons, ← takeRows,
        ih fun other hother => h other (List.mem_cons_of_mem _ hother)]

theorem filter_range_length (P : OfflineRow → Bool) :
    ((List.range rows.length).filter fun index => rows[index]?.any P).length =
      (rows.filter P).length := by
  rw [← takeRows_filter, takeRows_length]
  intro index hindex
  exact List.mem_range.mp (List.mem_filter.mp hindex).1

theorem invalidRowIndexes_length :
    (validateQualityTable compare features reference rows).invalidRowIndexes.length =
      (rows.filter fun row => !isValidRow compare features reference rows row).length := by
  rw [invalidRowIndexes_eq, filter_range_length]

theorem validRowIndexes_length :
    (validateQualityTable compare features reference rows).validRowIndexes.length =
      (rows.filter (isValidRow compare features reference rows)).length := by
  rw [validRowIndexes_eq, filter_range_length]

theorem invalidRowIndexes_eq_nil :
    (validateQualityTable compare features reference rows).invalidRowIndexes = [] ↔
      ∀ row ∈ rows, isValidRow compare features reference rows row = true := by
  rw [← List.length_eq_zero_iff, invalidRowIndexes_length, List.length_eq_zero_iff,
    List.filter_eq_nil_iff]
  simp only [Bool.not_eq_true', Bool.not_eq_false]

theorem takeRows_valid :
    takeRows rows (validateQualityTable compare features reference rows).validRowIndexes =
      rows.filter (isValidRow compare features reference rows) := by
  rw [validRowIndexes_eq, takeRows_filter]

theorem quarantinedRows_rows :
    (quarantinedRows rows (validateQualityTable compare features reference rows)).map (·.row) =
      rows.filter fun row => !isValidRow compare features reference rows row := by
  rw [quarantinedRows, List.map_filterMap, invalidRowIndexes_eq, ← takeRows_filter, takeRows]
  simp only [Option.map_map, Function.comp_def, Option.map_id']

end Rows

end FeatureStore
