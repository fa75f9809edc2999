import FeatureStore.HistoricalTable

/-!
# The rows of a historical query

How the table of the observations is made, how its columns are found by name, and how the
requested references are grouped by view.
-/

namespace FeatureStore

namespace Observation

def instant (observation : Observation) : Instant := observation.eventTimestamp.asUtc

/-- What a query sees of an observation. -/
def items (observation : Observation) : Dict :=
  observation.entityValues ++ [("event_timestamp", .timestamp (.utc observation.instant))]

/-- The same by names without case. -/
def seen (observation : Observation) : Dict :=
  observation.items.map fun item => (item.1.toLower, item.2)

end Observation

/-- The feature references of the request, by view. -/
def requestedGroups (resolved : List String) : List (String × List String) :=
  match resolved.mapM splitLastColon with
  | .ok refs => refs.foldl groupRef []
  | .error _ => []

/-- The view of a reference. -/
def viewRefOf (ref : String) : Option String :=
  match splitLastColon ref with
  | .ok parts => some parts.1
  | .error _ => none

section Columns

variable {items : Dict} {names : List String} {cells : List Value} {name : String}

theorem columnOf_eq {value : Value} (h : (items.map (·.1)).Nodup) (hmem : (name, value) ∈ items) :
    columnOf items name = value := by
  rw [columnOf, (Dictionaries.lookup_eq_some_iff h).mpr hmem]
  rfl

theorem mem_columnOf (h : name ∈ items.map (·.1)) : (name, columnOf items name) ∈ items := by
  obtain ⟨value, hvalue⟩ := Option.isSome_iff_exists.mp (Dictionaries.lookup_isSome_iff.mpr h)
  obtain ⟨first, rest, hsplit, -⟩ := List.lookup_eq_some_iff.mp hvalue
  rw [columnOf, hvalue, hsplit]
  exact List.mem_append_right _ List.mem_cons_self

/-- Names that are distinct up to case are found without their case. -/
theorem columnOf_lower (h : ((items.map (·.1)).map String.toLower).Nodup)
    (hname : name ∈ items.map (·.1)) :
    columnOf (items.map fun item => (item.1.toLower, item.2)) name.toLower =
      columnOf items name := by
  apply columnOf_eq
  · rwa [List.map_map] at h ⊢
  · exact List.mem_map_of_mem (f := fun item : String × Value => (item.1.toLower, item.2))
      (mem_columnOf hname)

theorem zip_lower : (names.map String.toLower).zip cells =
    (names.zip cells).map fun item => (item.1.toLower, item.2) := by
  rw [List.zip_map_left]
  rfl

theorem nodup_of_lower (h : (names.map String.toLower).Nodup) : names.Nodup :=
  h.of_map _

end Columns

section Tables

variable {engine : TableEngine} {table : ArrowTable}

theorem appendMissing_eq (table : ArrowTable) (viewName : String) (featureNames : List String) :
    appendMissing table viewName featureNames =
      ⟨table.names ++ outputNames viewName featureNames,
        table.rows.map (· ++ .str "missing" :: featureNames.map fun _ => .null)⟩ := by
  have hfold : ∀ (names : List String) (result : ArrowTable),
      names.foldl (fun result name => result.appendColumn s!"{viewName}__{name}" .null) result =
        ⟨result.names ++ names.map fun name => s!"{viewName}__{name}",
          result.rows.map (· ++ names.map fun _ => .null)⟩ := by
    intro names
    induction names with
    | nil =>
        intro result
        simp
    | cons name rest ih =>
        intro result
        rw [List.foldl_cons, ih]
        simp [ArrowTable.appendColumn]
  rw [appendMissing, hfold]
  simp [ArrowTable.appendColumn, outputNames]

/-- The last column is dropped from rows that are as long as there are names. -/
theorem drop_last {α : Type} {names : List String} {name : String} {items : List α}
    {row : α → List Value} {cell : α → Value} (hname : name ∉ names)
    (hrows : ∀ item ∈ items, (row item).length = names.length) :
    (ArrowTable.mk (names ++ [name]) (items.map fun item => row item ++ [cell item])).drop name =
      .ok ⟨names, items.map row⟩ := by
  have hcount : (names ++ [name]).count name = 1 := by
    rw [List.count_append, List.count_eq_zero_of_not_mem hname, List.count_singleton_self]
  have hindex : (names ++ [name]).idxOf name = names.length := by
    rw [List.idxOf_append_of_notMem hname, List.idxOf_cons_self, Nat.add_zero]
  have hself : ∀ item ∈ items, (row item ++ [cell item]).eraseIdx names.length = row item := by
    intro item hitem
    rw [← hrows item hitem, List.eraseIdx_append_of_length_le (le_refl _), Nat.sub_self,
      List.eraseIdx_cons_zero, List.append_nil]
  rw [ArrowTable.drop, if_pos hcount]
  simp only [hindex, List.eraseIdx_append_of_length_le (le_refl _), Nat.sub_self,
    List.eraseIdx_cons_zero, List.append_nil, List.map_map]
  exact congrArg Except.ok (congrArg (ArrowTable.mk names) (List.map_congr_left hself))

theorem column_ok {name : String} (hnodup : table.names.Nodup) (hname : name ∈ table.names) :
    ∃ cells, table.column name = .ok cells := by
  rw [ArrowTable.column, List.count_eq_one_of_mem hnodup hname]
  exact ⟨_, rfl⟩

/-- The age is dropped from a table whose names are distinct. -/
theorem dropAge_eq {viewName : String} (hnodup : table.names.Nodup)
    (hstatus : statusName viewName ∈ table.names) (hage : ageName viewName ∈ table.names) :
    table.dropAge viewName = table.drop (ageName viewName) := by
  obtain ⟨statuses, hstatuses⟩ := column_ok hnodup hstatus
  obtain ⟨ages, hages⟩ := column_ok hnodup hage
  simp only [ArrowTable.dropAge, hstatuses, hages, bind, Except.bind]

theorem drop_first {names : List String} {name : String} {rows : List (List Value)}
    (hname : name ∉ names) :
    (ArrowTable.mk (name :: names) rows).drop name = .ok ⟨names, rows.map List.tail⟩ := by
  have hcount : (name :: names).count name = 1 := by
    rw [List.count_cons_self, List.count_eq_zero_of_not_mem hname]
  rw [ArrowTable.drop, if_pos hcount, List.idxOf_cons_self]
  simp

end Tables

section Groups

variable {refs : List (String × String)} {group : String × List String}

theorem lookup_grouped (refs : List (String × String)) (groups : List (String × List String))
    (viewRef : String) : (refs.foldl groupRef groups).lookup viewRef =
      if viewRef ∈ refs.map (·.1) then
        some ((groups.lookup viewRef).getD [] ++
          (refs.filter fun ref => ref.1 = viewRef).map (·.2))
      else groups.lookup viewRef := by
  induction refs generalizing groups with
  | nil => simp
  | cons ref rest ih =>
      rw [List.foldl_cons, ih, groupRef, Dictionaries.lookup_setItem]
      by_cases href : viewRef = ref.1
      · subst href
        by_cases hrest : ref.1 ∈ rest.map (·.1)
        · simp [hrest]
        · have hnone : (rest.filter fun other => other.1 = ref.1) = [] := by
            rw [List.filter_eq_nil_iff]
            intro other hother hsame
            exact hrest (of_decide_eq_true hsame ▸ List.mem_map_of_mem hother)
          simp [hrest, hnone]
      · have hfirst : ¬ref.1 = viewRef := fun heq => href heq.symm
        simp only [List.map_cons, List.mem_cons, href, false_or, List.filter_cons,
          hfirst, decide_false, Bool.false_eq_true, if_false]

theorem nodup_grouped (refs : List (String × String)) :
    ((refs.foldl groupRef []).map (·.1)).Nodup := by
  have hfold : ∀ groups : List (String × List String), (groups.map (·.1)).Nodup →
      ((refs.foldl groupRef groups).map (·.1)).Nodup := by
    induction refs with
    | nil => exact fun _ hgroups => hgroups
    | cons ref rest ih => exact fun groups hgroups => ih _ (Dictionaries.nodup_setItem hgroups _ _)
  exact hfold [] List.nodup_nil

/-- The features of a group are those of its view, which has some. -/
theorem mem_grouped : group ∈ refs.foldl groupRef [] ↔
    group.1 ∈ refs.map (·.1) ∧ group.2 = (refs.filter fun ref => ref.1 = group.1).map (·.2) := by
  rw [← Dictionaries.lookup_eq_some_iff (nodup_grouped refs), lookup_grouped]
  split
  · rename_i hmem
    simp only [List.lookup_nil, Option.getD_none, List.nil_append, Option.some.injEq, hmem,
      true_and]
    exact eq_comm
  · rename_i hnot
    exact iff_of_false (by simp) fun h => hnot h.1

/-- The references of one view are its group. -/
theorem grouped_filter (h : group ∈ refs.foldl groupRef []) :
    (refs.filter fun ref => ref.1 = group.1).foldl groupRef [] = [group] := by
  obtain ⟨hmem, hnames⟩ := mem_grouped.mp h
  have hrefs : (refs.filter fun ref => ref.1 = group.1) =
      group.2.map fun name => (group.1, name) := by
    rw [hnames, List.map_map]
    symm
    apply (List.map_congr_left fun ref href => ?_).trans (List.map_id _)
    rw [← of_decide_eq_true (List.mem_filter.mp href).2]
    rfl
  rw [hrefs]
  apply grouped_view
  intro hempty
  obtain ⟨ref, href, hview⟩ := List.mem_map.mp hmem
  have hin : ref ∈ refs.filter fun ref => ref.1 = group.1 :=
    List.mem_filter.mpr ⟨href, decide_eq_true hview⟩
  rw [hrefs, hempty] at hin
  cases hin

theorem mapM_filter {α β : Type} {f : α → Except PyException β} {p : α → Bool} {q : β → Bool}
    {items : List α} {results : List β} (h : items.mapM f = .ok results)
    (hpq : ∀ item result, f item = .ok result → p item = q result) :
    (items.filter p).mapM f = .ok (results.filter q) := by
  have hrelated := forall₂_of_mapM h
  clear h
  induction hrelated with
  | nil => rfl
  | @cons item result rest others hitem _ ih =>
      rw [List.filter_cons, List.filter_cons, hpq item result hitem]
      split
      · rw [List.mapM_cons, hitem, ih]
        rfl
      · exact ih

/-- The references of one view of the request are its group alone. -/
theorem requestedGroups_filter {resolved : List String} (h : group ∈ requestedGroups resolved) :
    requestedGroups (resolved.filter fun ref => viewRefOf ref = some group.1) = [group] := by
  unfold requestedGroups at h
  split at h
  · rename_i refs hrefs
    have hfiltered := mapM_filter (p := fun ref => decide (viewRefOf ref = some group.1))
      (q := fun ref => decide (ref.1 = group.1)) hrefs
      fun ref parts hparts => by simp [viewRefOf, hparts]
    rw [requestedGroups, hfiltered]
    exact grouped_filter h
  · cases h

/-- A request for one view refers to no other. -/
theorem filter_sole {resolved : List String} (hrefs : resolved.mapM splitLastColon = .ok refs)
    (h : group ∈ requestedGroups resolved) (hone : (requestedGroups resolved).length ≤ 1) :
    (resolved.filter fun ref => viewRefOf ref = some group.1) = resolved := by
  rw [List.filter_eq_self]
  intro ref href
  obtain ⟨parts, hparts, hsplit⟩ := (mem_of_mapM hrefs).2 ref href
  have hown : (parts.1, (refs.filter fun ref => ref.1 = parts.1).map (·.2)) ∈
      requestedGroups resolved := by
    rw [requestedGroups, hrefs, mem_grouped]
    exact ⟨List.mem_map_of_mem (f := fun ref : String × String => ref.1) hparts, rfl⟩
  obtain ⟨sole, hsole⟩ := List.length_eq_one_iff.mp (hone.antisymm (List.length_pos_of_mem h))
  rw [hsole, List.mem_singleton] at hown h
  rw [viewRefOf, hsplit, h, ← hown]
  exact decide_eq_true rfl

end Groups

section Rows

theorem map_fst_zipIdx {α β : Type} (f : α → β) (items : List α) :
    (items.zipIdx.map fun item => f item.1) = items.map f := by
  calc (items.zipIdx.map fun item => f item.1)
      = (items.zipIdx.map Prod.fst).map f := (List.map_map ..).symm
    _ = items.map f := by rw [List.zipIdx_map_fst]

theorem exists_mem_zipIdx {α : Type} {a : α} {items : List α} (h : a ∈ items) :
    ∃ index, (a, index) ∈ items.zipIdx := by
  obtain ⟨index, hindex⟩ := List.getElem?_of_mem h
  refine ⟨index, List.mem_of_getElem? (i := index) ?_⟩
  rw [List.getElem?_zipIdx, hindex]
  simp

/-- A table is made of rows whose columns have types. -/
theorem fromPylist_ok {arrow : ArrowTyping} {first : Dict} {rest : List Dict}
    (h : ∀ name ∈ first.map (·.1),
      arrow.convert ((first :: rest).map fun row => columnOf row name) =
        .ok ((first :: rest).map fun row => columnOf row name)) :
    arrow.fromPylist (first :: rest) = .ok ⟨first.map (·.1),
      (first :: rest).map fun row => (first.map (·.1)).map (columnOf row)⟩ := by
  have hcolumns := mapM_eq_ok_map h
  have hrows : ((List.range (first :: rest).length).map fun index =>
      ((first.map (·.1)).map fun name => (first :: rest).map fun row => columnOf row name).map
        fun column => column.getD index .null) =
      (first :: rest).map fun row => (first.map (·.1)).map (columnOf row) := by
    apply List.ext_getElem
    · simp
    · intro index hindex _
      simp only [List.getElem_map, List.getElem_range, List.map_map]
      apply List.map_congr_left
      intro item _
      have hlength : index < (first :: rest).length := by simpa using hindex
      change ((first :: rest).map fun row => columnOf row item.1).getD index .null = _
      rw [List.getD_eq_getElem?_getD, List.getElem?_map,
        List.getElem?_eq_getElem hlength]
      rfl
  unfold ArrowTyping.fromPylist
  simp only [List.head?_cons, Option.getD_some, hcolumns, bind, Except.bind, pure, Except.pure]
  exact congrArg Except.ok (congrArg _ hrows)

/-- The names and the cells of the table of the observations. -/
def observationNames (keys : List String) : List String :=
  "_row_id" :: keys ++ ["event_timestamp"]

def observationCells (keys : List String) (item : Observation × Nat) : List Value :=
  .int item.2 :: keys.map (columnOf item.1.entityValues) ++ [.timestamp (.utc item.1.instant)]

variable {keys : List String} {observation : Observation}

theorem row_names_nodup (hnames : (observationNames keys).Nodup)
    (hkeys : ∀ key ∈ observation.entityValues.map (·.1), key ∈ keys) (index : Nat) :
    (((("_row_id", .int index) :: observation.items : Dict)).map (·.1)).Nodup := by
  simp only [observationNames, List.cons_append, List.nodup_cons, List.nodup_append,
    List.mem_append, not_or] at hnames
  simp only [Observation.items, List.map_cons, List.map_append, List.map_nil, List.nodup_cons,
    List.nodup_append, List.mem_append, not_or]
  refine ⟨⟨fun hmem => hnames.1.1 (hkeys _ hmem), hnames.1.2⟩, observation.keys_nodup,
    ⟨List.not_mem_nil, List.nodup_nil⟩, fun key hkey => hnames.2.2.2 key (hkeys key hkey)⟩

theorem observationRow_ok (hnames : (observationNames keys).Nodup)
    (hkeys : ∀ key ∈ observation.entityValues.map (·.1), key ∈ keys)
    (hrepresentable : Instant.IsRepresentable observation.instant) (index : Nat) :
    observationRow observation index = .ok (("_row_id", .int index) :: observation.items) := by
  rw [observationRow]
  refine (if_pos hrepresentable).trans ?_
  exact congrArg Except.ok (Dictionaries.ofItems_of_nodup (row_names_nodup hnames hkeys index))

theorem columnOf_items (hnames : (observationNames keys).Nodup) {key : String} (hkey : key ∈ keys) :
    columnOf observation.items key = columnOf observation.entityValues key := by
  have hne : key ≠ "event_timestamp" := by
    rintro rfl
    rw [observationNames, List.nodup_append] at hnames
    exact hnames.2.2 _ (List.mem_cons_of_mem _ hkey) _ (List.mem_singleton_self _) rfl
  rw [columnOf, columnOf, Observation.items, List.lookup_append, List.lookup_cons,
    beq_eq_false_iff_ne.mpr hne]
  exact congrArg (Option.getD · Value.null) Option.or_none

theorem columnOf_timestamp (hnames : (observationNames keys).Nodup)
    (hkeys : ∀ key ∈ observation.entityValues.map (·.1), key ∈ keys) :
    columnOf observation.items "event_timestamp" = .timestamp (.utc observation.instant) := by
  have hnodup := row_names_nodup hnames hkeys 0
  rw [List.map_cons, List.nodup_cons] at hnodup
  exact columnOf_eq hnodup.2 (List.mem_append_right _ (List.mem_singleton_self _))

theorem columnOf_row {name : String} (hnames : (observationNames keys).Nodup)
    (hname : name ∈ keys ++ ["event_timestamp"]) (index : Nat) :
    columnOf (("_row_id", .int index) :: observation.items) name =
      columnOf observation.items name := by
  have hne : name ≠ "_row_id" := by
    rintro rfl
    rw [observationNames, List.cons_append, List.nodup_cons] at hnames
    exact hnames.1 hname
  rw [columnOf, List.lookup_cons, beq_eq_false_iff_ne.mpr hne]
  rfl

/-- The cells of the row of an observation, null where it lacks a key. -/
theorem row_columns (hnames : (observationNames keys).Nodup)
    (hkeys : ∀ key ∈ observation.entityValues.map (·.1), key ∈ keys) (index : Nat) :
    (observationNames keys).map (columnOf (("_row_id", .int index) :: observation.items)) =
      observationCells keys (observation, index) := by
  rw [observationNames, List.cons_append, List.map_cons,
    List.map_congr_left fun name hname => columnOf_row hnames hname index, List.map_append,
    List.map_singleton, columnOf_timestamp hnames hkeys,
    List.map_congr_left fun key hkey => columnOf_items hnames hkey]
  rfl

theorem row_ids_column (observations : List Observation) :
    (observations.zipIdx.map fun item =>
        columnOf (("_row_id", .int item.2) :: item.1.items) "_row_id") =
      (List.range observations.length).map fun i : Nat => .int i := by
  rw [List.range_eq_range', ← List.zipIdx_map_snd, List.map_map]
  rfl

theorem row_key_column (hnames : (observationNames keys).Nodup) {key : String} (hkey : key ∈ keys)
    (observations : List Observation) :
    (observations.zipIdx.map fun item =>
        columnOf (("_row_id", .int item.2) :: item.1.items) key) =
      observations.map fun observation => columnOf observation.entityValues key := by
  rw [← map_fst_zipIdx fun observation : Observation => columnOf observation.entityValues key]
  apply List.map_congr_left
  intro item _
  rw [columnOf_row hnames (List.mem_append_left _ hkey), columnOf_items hnames hkey]

/-- The columns of the observations have types. -/
theorem row_columns_typed {arrow : ArrowTyping} {observations : List Observation}
    (hnames : (observationNames keys).Nodup)
    (hkeys : ∀ observation ∈ observations, ∀ key ∈ observation.entityValues.map (·.1),
      key ∈ keys)
    (htyped : ∀ key ∈ keys,
      arrow.convert (observations.map fun observation => columnOf observation.entityValues key) =
        .ok (observations.map fun observation => columnOf observation.entityValues key))
    {name : String} (hname : name ∈ observationNames keys) :
    arrow.convert (observations.zipIdx.map fun item =>
        columnOf (("_row_id", .int item.2) :: item.1.items) name) =
      .ok (observations.zipIdx.map fun item =>
        columnOf (("_row_id", .int item.2) :: item.1.items) name) := by
  rw [observationNames, List.cons_append, List.mem_cons] at hname
  cases hname with
  | inl hid =>
      subst hid
      rw [row_ids_column]
      exact arrow.indices _
  | inr hother =>
      cases List.mem_append.mp hother with
      | inl hkey =>
          rw [row_key_column hnames hkey]
          exact htyped name hkey
      | inr htimestamp =>
          obtain rfl := List.mem_singleton.mp htimestamp
          have hcells : (observations.zipIdx.map fun item =>
              columnOf (("_row_id", .int item.2) :: item.1.items) "event_timestamp") =
                observations.map fun observation => .timestamp (.utc observation.instant) := by
            rw [← map_fst_zipIdx fun observation : Observation =>
              Value.timestamp (.utc observation.instant)]
            apply List.map_congr_left
            intro item hitem
            rw [columnOf_row hnames hother,
              columnOf_timestamp hnames (hkeys _ (List.fst_mem_of_mem_zipIdx hitem))]
          have hinstants := arrow.instants (observations.map Observation.instant)
          rw [List.map_map] at hinstants
          rw [hcells]
          exact hinstants

/-- The table of the observations has a column for every key of the first. -/
theorem observations_table {arrow : ArrowTyping} {first : Observation} {rest : List Observation}
    (hnames : (observationNames (first.entityValues.map (·.1))).Nodup)
    (hkeys : ∀ observation ∈ first :: rest, ∀ key ∈ observation.entityValues.map (·.1),
      key ∈ first.entityValues.map (·.1))
    (hrepresentable : ∀ observation ∈ first :: rest, Instant.IsRepresentable observation.instant)
    (htyped : ∀ key ∈ first.entityValues.map (·.1),
      arrow.convert ((first :: rest).map fun observation => columnOf observation.entityValues key) =
        .ok ((first :: rest).map fun observation => columnOf observation.entityValues key)) :
    ∃ rows, ((first :: rest).zipIdx.mapM fun item => observationRow item.1 item.2) = .ok rows ∧
      arrow.fromPylist rows = .ok ⟨observationNames (first.entityValues.map (·.1)),
        (first :: rest).zipIdx.map (observationCells (first.entityValues.map (·.1)))⟩ := by
  let row := fun item : Observation × Nat => ("_row_id", Value.int item.2) :: item.1.items
  have hmem : ∀ item ∈ (first :: rest).zipIdx, item.1 ∈ first :: rest :=
    fun item hitem => List.fst_mem_of_mem_zipIdx hitem
  have hrow : ∀ item ∈ (first :: rest).zipIdx, observationRow item.1 item.2 = .ok (row item) :=
    fun item hitem => observationRow_ok hnames (hkeys _ (hmem item hitem))
      (hrepresentable _ (hmem item hitem)) item.2
  have hcells : ∀ item ∈ (first :: rest).zipIdx,
      (observationNames (first.entityValues.map (·.1))).map (columnOf (row item)) =
        observationCells (first.entityValues.map (·.1)) item :=
    fun item hitem => row_columns hnames (hkeys _ (hmem item hitem)) item.2
  refine ⟨_, mapM_eq_ok_map hrow, ?_⟩
  have hfirst : (row (first, 0)).map (·.1) = observationNames (first.entityValues.map (·.1)) := by
    simp [row, observationNames, Observation.items]
  rw [List.zipIdx_cons, List.map_cons, fromPylist_ok, hfirst, ← List.map_cons, ← List.zipIdx_cons,
    List.map_map]
  · exact congrArg Except.ok (congrArg _ (List.map_congr_left hcells))
  · intro name hname
    rw [hfirst] at hname
    rw [← List.map_cons, ← List.zipIdx_cons, List.map_map]
    exact row_columns_typed hnames hkeys htyped hname

end Rows

end FeatureStore
