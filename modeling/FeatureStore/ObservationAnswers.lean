import FeatureStore.ObservationRows
import Mathlib.Data.List.Perm.Subperm

/-!
# One answer for each observation

If the columns of a historical query have distinct names, up to case where a table is joined,
and every observation has its values under the keys of the first, the rows of the query stay
those of the observations through every join, and each view answers an observation as if asked
alone.
-/

namespace FeatureStore

/-- The columns that a view adds to the result. -/
def Retriever.columns (retriever : Retriever) (group : String × List String) : List String :=
  match retriever.store.featureView group.1 with
  | .ok view => outputNames view.name group.2
  | .error _ => []

/-- The columns that a view adds while its table is joined. -/
def Retriever.joinedColumns (retriever : Retriever) (group : String × List String) : List String :=
  match retriever.store.featureView group.1 with
  | .ok view => outputNames view.name group.2 ++ [ageName view.name]
  | .error _ => []

/-- The rows of a stored table as a query sees them. -/
def Retriever.storedRows (retriever : Retriever) (viewRef : String) : List Dict :=
  match retriever.tables viewRef with
  | some table => retriever.engine.scan table
  | none => []

/-- The table of the view has rows to join. -/
def Retriever.populated (retriever : Retriever) (viewRef : String) : Bool :=
  match retriever.tables viewRef with
  | some table => !table.rows.isEmpty
  | none => false

/-- The cells that a view without rows adds. -/
def missingCells (featureNames : List String) : List Value :=
  .str "missing" :: featureNames.map fun _ => .null

/-- The columns of the observations. -/
def ownColumns (keys : List String) : List (String × Option Value) :=
  (observationNames keys).map fun name => (name, none)

/-- The columns that a view shows, with what it shows in every row if it has no rows itself. -/
def Retriever.shownColumns (retriever : Retriever) (group : String × List String) :
    List (String × Option Value) :=
  if retriever.populated group.1 then (retriever.columns group).map (·, none)
  else (Dictionaries.ofItems ((retriever.columns group).zip (missingCells group.2))).map
    fun item => (item.1, some item.2)

/-- Columns have different names, or show one cell in every row. -/
def NamedApart (a b : String × Option Value) : Prop :=
  a.1 = b.1 → a.2 = b.2 ∧ a.2.isSome = true

instance (a b : String × Option Value) : Decidable (NamedApart a b) :=
  inferInstanceAs (Decidable (a.1 = b.1 → a.2 = b.2 ∧ a.2.isSome = true))

/-- The columns of a historical query are told apart by their names, where a table is joined
without their case. -/
structure Retriever.NamesApart (retriever : Retriever) (observations : List Observation)
    (resolved : List String) : Prop where
  names : ∀ observation ∈ observations,
    (ownColumns (observation.entityValues.map (·.1)) ++
      (requestedGroups resolved).flatMap retriever.shownColumns).Pairwise NamedApart
  joinedNames : ∀ first ∈ observations.head?, ∀ done group rest,
    requestedGroups resolved = done ++ group :: rest → retriever.populated group.1 = true →
      ((observationNames (first.entityValues.map (·.1)) ++ done.flatMap retriever.columns ++
        retriever.joinedColumns group).map String.toLower).Nodup

/-- The observations form a table of which every column keeps its values, and every populated
table can be joined with it. -/
structure Retriever.Joinable (retriever : Retriever) (observations : List Observation)
    (resolved : List String) : Prop where
  representable : ∀ observation ∈ observations, Instant.IsRepresentable observation.instant
  sameKeys : ∀ first ∈ observations.head?, ∀ observation ∈ observations,
    ∀ key ∈ observation.entityValues.map (·.1), key ∈ first.entityValues.map (·.1)
  typed : ∀ first ∈ observations.head?, ∀ key ∈ first.entityValues.map (·.1),
    retriever.arrow.convert (observations.map fun observation =>
        columnOf observation.entityValues key) =
      .ok (observations.map fun observation => columnOf observation.entityValues key)
  comparable : observations ≠ [] → ∀ group ∈ requestedGroups resolved, ∀ view entity table,
    retriever.store.featureView group.1 = .ok view →
    retriever.store.entity view.entity = .ok entity → retriever.tables group.1 = some table →
    table.rows ≠ [] →
      (∀ name ∈ entity.joinKeys.map (·.1) ++ ["event_timestamp", "event_id"] ++ group.2,
        name.toLower ∈ retriever.engine.scannedNames table) ∧
      ∀ key ∈ entity.joinKeys.map (·.1), retriever.engine.comparable
        (observations.map fun observation => columnOf observation.entityValues key)
        ((retriever.engine.scan table).map fun row => columnOf row key.toLower) = true

/-- Where there are several observations or views, the rows of one rank for an observation do
not differ in what is shown of them. -/
def Retriever.Untied (retriever : Retriever) (observations : List Observation)
    (resolved : List String) : Prop :=
  1 < observations.length ∨ 1 < (requestedGroups resolved).length →
    ∀ group ∈ requestedGroups resolved, ∀ view entity,
    retriever.store.featureView group.1 = .ok view →
    retriever.store.entity view.entity = .ok entity →
    ∀ observation ∈ observations, ∀ a ∈ retriever.storedRows group.1,
    ∀ b ∈ retriever.storedRows group.1,
      retriever.engine.Eligible ((entity.joinKeys.map (·.1)).map String.toLower)
        observation.seen a →
      retriever.engine.Eligible ((entity.joinKeys.map (·.1)).map String.toLower)
        observation.seen b →
      windowRank (some a) = windowRank (some b) →
      ttlExpired view.ttlSeconds observation.seen (some a) = false →
        ∀ name ∈ group.2, columnOf a name.toLower = columnOf b name.toLower

/-- Nothing of a historical query depends on names that are shared or on rows that are tied. -/
structure Retriever.Unambiguous (retriever : Retriever) (observations : List Observation)
    (resolved : List String) : Prop extends retriever.NamesApart observations resolved,
    retriever.Joinable observations resolved where
  untied : retriever.Untied observations resolved

/-- The result has a row for each observation, with its values and its timestamp, in which the
columns of each view are those of a query for that view and that observation alone. -/
def Retriever.OneAnswer (retriever : Retriever) (observations : List Observation)
    (resolved : List String) : Prop :=
  ∃ table, retriever.queryTable observations resolved = .ok table ∧
    table.rows.length = observations.length ∧
    ∀ (index : Nat) (observation : Observation), observations[index]? = some observation →
      ∃ row : Dict, table.toPylist[index]? = some row ∧
        (∀ item ∈ observation.items, row.lookup item.1 = some item.2) ∧
        ∀ group ∈ requestedGroups resolved, ∃ (single : ArrowTable) (answer : Dict),
          retriever.queryTable [observation]
            (resolved.filter fun ref => viewRefOf ref = some group.1) = .ok single ∧
          single.toPylist = [answer] ∧
          ∀ column ∈ retriever.columns group, ∃ cell,
            row.lookup column = some cell ∧ answer.lookup column = some cell

/-- The cells that a view adds for an observation with the selected row. -/
def answerCells (viewName : String) (featureNames : List String) (ttlSeconds : Option Nat)
    (observation : Dict) (selected : Option Dict) : List Value :=
  let columns :=
    caseColumns viewName (featureNames.map String.toLower) ttlSeconds observation selected
  .str columns.status :: columns.features.map (·.2)

/-- The cells are an answer of the view for the observation. -/
def Retriever.ViewAnswer (retriever : Retriever) (observation : Observation)
    (group : String × List String) (cells : List Value) : Prop :=
  ∃ view entity selected, retriever.store.featureView group.1 = .ok view ∧
    retriever.store.entity view.entity = .ok entity ∧
    retriever.engine.IsNewest ((entity.joinKeys.map (·.1)).map String.toLower)
      (retriever.storedRows group.1) observation.seen selected ∧
    cells = answerCells view.name group.2 view.ttlSeconds observation.seen selected

/-- The table holds the rows of the observations, each with an answer of every view so far. -/
structure Retriever.Progress (retriever : Retriever) (keys : List String)
    (observations : List Observation) (done : List (String × List String))
    (current : ArrowTable) : Prop where
  names : current.names = observationNames keys ++ done.flatMap retriever.columns
  rows : ∃ answers : Observation × Nat → List (List Value),
    (∀ item ∈ observations.zipIdx,
      List.Forall₂ (retriever.ViewAnswer item.1) done (answers item)) ∧
    current.rows = observations.zipIdx.map fun item =>
      observationCells keys item ++ (answers item).flatten

section Joins

variable {engine : TableEngine} {viewName : String} {featureNames joinKeys : List String}
  {featureRows current : ArrowTable}

theorem answerCells_length (ttlSeconds : Option Nat) (observation : Dict)
    (selected : Option Dict) :
    (answerCells viewName featureNames ttlSeconds observation selected).length =
      (outputNames viewName featureNames).length := by
  simp [answerCells, caseColumns, outputNames]

/-- Rows whose ids count them are returned in their order. -/
theorem ordered_eq {rows ordered : List Dict}
    (hids : (rows.map fun row => columnOf row "_row_id") =
      (List.range rows.length).map fun i : Nat => .int i)
    (hperm : ordered.Perm rows) (hsorted : ordered.Pairwise fun a b =>
      engine.rowIdLe (columnOf a "_row_id") (columnOf b "_row_id") = true) : ordered = rows := by
  have hinjective : Function.Injective fun i : Nat => Value.int i :=
    fun i j heq => Int.ofNat.inj (Value.int.inj heq)
  have hnodup : (rows.map fun row => columnOf row "_row_id").Nodup := by
    rw [hids]
    exact List.nodup_range.map hinjective
  have hrows : rows.Pairwise fun a b =>
      engine.rowIdLe (columnOf a "_row_id") (columnOf b "_row_id") = true := by
    rw [← List.pairwise_map (f := fun row => columnOf row "_row_id")
      (R := fun a b => engine.rowIdLe a b = true), hids, List.pairwise_map]
    exact List.pairwise_lt_range.imp fun hlt => engine.rowIdLe_int.mpr (by omega)
  have hnumber : ∀ row ∈ rows, ∃ i : Nat, columnOf row "_row_id" = .int i := by
    intro row hrow
    have hid : columnOf row "_row_id" ∈ rows.map fun row => columnOf row "_row_id" :=
      List.mem_map_of_mem (f := fun row => columnOf row "_row_id") hrow
    rw [hids] at hid
    obtain ⟨i, -, hi⟩ := List.mem_map.mp hid
    exact ⟨i, hi.symm⟩
  refine hperm.eq_of_pairwise (fun a b ha hb hab hba => ?_) hsorted hrows
  have ha' := hperm.subset ha
  obtain ⟨i, hi⟩ := hnumber a ha'
  obtain ⟨j, hj⟩ := hnumber b hb
  rw [hi, hj, engine.rowIdLe_int] at hab hba
  apply List.inj_on_of_nodup_map hnodup ha' hb
  rw [hi, hj, le_antisymm hab hba]

/-- A join whose columns are told apart adds the answers of the selected rows. -/
theorem joinTables_answers (ttlSeconds : Option Nat)
    (hnames : ((current.names ++ outputNames viewName featureNames ++
      [ageName viewName]).map String.toLower).Nodup)
    (haligned : ∀ row ∈ current.rows, row.length = current.names.length)
    (hids : (current.rows.map fun row =>
        columnOf ((current.names.map String.toLower).zip row) "_row_id") =
      (List.range current.rows.length).map fun i : Nat => .int i)
    (hbinds : engine.binds featureNames joinKeys featureRows current = true) :
    ∃ selection : Dict → Option Dict,
      (∀ observation, engine.IsNewest (joinKeys.map String.toLower) (engine.scan featureRows)
        observation (selection observation)) ∧
      (engine.joinTables viewName featureNames joinKeys ttlSeconds featureRows current).bind
          (·.dropAge viewName) =
        .ok ⟨current.names ++ outputNames viewName featureNames, current.rows.map fun row =>
          row ++ answerCells viewName featureNames ttlSeconds
            ((current.names.map String.toLower).zip row)
            (selection ((current.names.map String.toLower).zip row))⟩ := by
  have hcurrent : engine.deduplicate current.names = current.names := by
    apply engine.deduplicate_distinct
    rw [List.append_assoc, List.map_append] at hnames
    exact (List.nodup_append.mp hnames).1
  have hscan : engine.scan current =
      current.rows.map ((current.names.map String.toLower).zip ·) := by
    rw [TableEngine.scan, TableEngine.scannedNames, hcurrent]
  have hscanned : ((engine.scan current).map fun row => columnOf row "_row_id") =
      (List.range (engine.scan current).length).map fun i : Nat => .int i := by
    rw [hscan, List.map_map, List.length_map]
    exact hids
  have hdistinct : ((engine.scan current).map fun row => columnOf row "_row_id").Nodup := by
    rw [hscanned]
    exact List.nodup_range.map fun i j heq => Int.ofNat.inj (Value.int.inj heq)
  obtain ⟨selection, ordered, hperm, hsorted, hnewest, hrows⟩ :=
    joinView_rows engine.toQueryEngine viewName (featureNames.map String.toLower)
      (joinKeys.map String.toLower) ttlSeconds (engine.scan featureRows) (engine.scan current)
      hdistinct
  refine ⟨selection, hnewest, ?_⟩
  rw [ordered_eq hscanned hperm hsorted, hscan, List.map_map] at hrows
  have hresult : engine.deduplicate (engine.deduplicate current.names ++
      outputNames viewName featureNames ++ [ageName viewName]) =
        current.names ++ outputNames viewName featureNames ++ [ageName viewName] := by
    rw [hcurrent]
    exact engine.deduplicate_distinct _ hnames
  have hage : ageName viewName ∉ current.names ++ outputNames viewName featureNames := by
    have hnodup := nodup_of_lower hnames
    rw [List.nodup_append] at hnodup
    exact fun hmem => hnodup.2.2 _ hmem _ (List.mem_singleton_self _) rfl
  have hlength : ∀ row ∈ current.rows,
      (row ++ answerCells viewName featureNames ttlSeconds
        ((current.names.map String.toLower).zip row)
        (selection ((current.names.map String.toLower).zip row))).length =
        (current.names ++ outputNames viewName featureNames).length := by
    intro row hrow
    rw [List.length_append, List.length_append, haligned row hrow, answerCells_length]
  rw [TableEngine.joinTables, if_pos hbinds]
  simp only [Except.bind, hresult, hscan, hrows, List.map_map]
  have hstatus : statusName viewName ∈
      current.names ++ outputNames viewName featureNames ++ [ageName viewName] := by
    simp [outputNames]
  rw [dropAge_eq (nodup_of_lower hnames) hstatus (by simp)]
  let age := fun row : List Value =>
    (caseColumns viewName (featureNames.map String.toLower) ttlSeconds
      ((current.names.map String.toLower).zip row)
      (selection ((current.names.map String.toLower).zip row))).age.elim Value.null engine.epoch
  rw [← @drop_last _ _ _ _ _ age hage hlength]
  refine congrArg (ArrowTable.drop · _) (congrArg (ArrowTable.mk _) ?_)
  apply List.map_congr_left
  intro row hrow
  have hcells : ((current.names.map String.toLower).zip row).map Prod.snd = row := by
    apply List.map_snd_zip
    rw [List.length_map, haligned row hrow]
  simp only [Function.comp_apply, List.map_append, hcells, QueryEngine.addedColumns, answerCells,
    List.map_cons, List.map_nil, List.append_assoc, List.cons_append, age]

end Joins

section Scans

variable {retriever : Retriever} {keys : List String} {observations : List Observation}
  {done : List (String × List String)} {current : ArrowTable} {group : String × List String}

theorem Retriever.ViewAnswer.length_eq {observation : Observation} {cells : List Value}
    (h : retriever.ViewAnswer observation group cells) :
    cells.length = (retriever.columns group).length := by
  obtain ⟨view, entity, selected, hview, -, -, rfl⟩ := h
  rw [answerCells_length, Retriever.columns, hview]

theorem answers_length {observation : Observation} {answers : List (List Value)}
    (h : List.Forall₂ (retriever.ViewAnswer observation) done answers) :
    answers.flatten.length = (done.flatMap retriever.columns).length := by
  induction h with
  | nil => rfl
  | cons hanswer _ ih =>
      rw [List.flatten_cons, List.flatMap_cons, List.length_append, List.length_append, ih,
        hanswer.length_eq]

theorem observationCells_length (item : Observation × Nat) :
    (observationCells keys item).length = (observationNames keys).length := by
  simp [observationCells, observationNames]

theorem zip_observation (item : Observation × Nat) :
    (observationNames keys).zip (observationCells keys item) =
      ("_row_id", .int item.2) :: keys.map (fun key => (key, columnOf item.1.entityValues key)) ++
        [("event_timestamp", .timestamp (.utc item.1.instant))] := by
  have hkeys := @List.zip_map' _ _ _ id (columnOf item.1.entityValues) keys
  rw [List.map_id] at hkeys
  rw [observationNames, observationCells, List.cons_append, List.cons_append, List.zip_cons_cons,
    List.zip_append (by simp), hkeys]
  rfl

/-- What a query sees in a row that begins with the given cells. -/
theorem columnOf_scanned {own names : List String} {row cells : List Value}
    (hnames : ((own ++ names).map String.toLower).Nodup) (hrow : row.length = own.length)
    (hlength : cells.length = names.length) {name : String} {value : Value}
    (hmem : (name, value) ∈ own.zip row) :
    columnOf (((own ++ names).map String.toLower).zip (row ++ cells)) name.toLower = value := by
  have hkeys : ((own ++ names).zip (row ++ cells)).map (·.1) = own ++ names := by
    apply List.map_fst_zip
    rw [List.length_append, List.length_append, hrow, hlength]
  have hin : (name, value) ∈ (own ++ names).zip (row ++ cells) := by
    rw [List.zip_append hrow.symm]
    exact List.mem_append_left _ hmem
  rw [zip_lower, columnOf_lower (by rwa [hkeys])]
  · exact columnOf_eq (by rw [hkeys]; exact nodup_of_lower hnames) hin
  · exact List.mem_map_of_mem (f := fun item : String × Value => item.1) hin

theorem Retriever.Progress.aligned (h : retriever.Progress keys observations done current) :
    ∀ row ∈ current.rows, row.length = current.names.length := by
  obtain ⟨answers, hanswers, hrows⟩ := h.rows
  intro row hrow
  rw [hrows] at hrow
  obtain ⟨item, hitem, rfl⟩ := List.mem_map.mp hrow
  rw [h.names, List.length_append, List.length_append, observationCells_length,
    answers_length (hanswers item hitem)]

theorem eventTimestampOf_eq {row : Dict} {t : Instant}
    (h : columnOf row "event_timestamp" = .timestamp (.utc t)) : eventTimestampOf row = some t := by
  rw [eventTimestampOf, h]
  exact congrArg some (DateTime.asUtc_utc t)

theorem lower_rowId : "_row_id".toLower = "_row_id" := by decide +kernel

theorem lower_timestamp : "event_timestamp".toLower = "event_timestamp" := by decide +kernel

/-- The row of an observation in a table, as a query sees it. -/
def scannedRow (names keys : List String) (item : Observation × Nat) (cells : List Value) : Dict :=
  (names.map String.toLower).zip (observationCells keys item ++ cells)

section Rows

variable {names : List String} {cells : List Value} {item : Observation × Nat}
  (hnames : ((observationNames keys ++ names).map String.toLower).Nodup)
  (hlength : cells.length = names.length)

include hnames hlength

theorem scanned_rowId :
    columnOf (scannedRow (observationNames keys ++ names) keys item cells) "_row_id" =
      .int item.2 := by
  have hmem : ("_row_id", Value.int item.2) ∈
      (observationNames keys).zip (observationCells keys item) := by
    rw [zip_observation]
    exact List.mem_cons_self
  have hfound := columnOf_scanned hnames (observationCells_length item) hlength hmem
  rwa [lower_rowId] at hfound

theorem scanned_key {key : String} (hkey : key ∈ keys) :
    columnOf (scannedRow (observationNames keys ++ names) keys item cells) key.toLower =
      columnOf item.1.entityValues key := by
  refine columnOf_scanned hnames (observationCells_length item) hlength ?_
  rw [zip_observation]
  exact List.mem_append_left _ (List.mem_cons_of_mem _
    (List.mem_map_of_mem (f := fun key => (key, columnOf item.1.entityValues key)) hkey))

theorem scanned_timestamp :
    eventTimestampOf (scannedRow (observationNames keys ++ names) keys item cells) =
      some item.1.instant := by
  have hmem : ("event_timestamp", Value.timestamp (.utc item.1.instant)) ∈
      (observationNames keys).zip (observationCells keys item) := by
    rw [zip_observation]
    exact List.mem_append_right _ (List.mem_singleton_self _)
  have hfound := columnOf_scanned hnames (observationCells_length item) hlength hmem
  rw [lower_timestamp] at hfound
  exact eventTimestampOf_eq hfound

end Rows

section Seen

variable {observation : Observation}
  (hnames : ((observationNames keys).map String.toLower).Nodup)
  (hkeys : ∀ key ∈ observation.entityValues.map (·.1), key ∈ keys)

include hnames hkeys

theorem items_lower_nodup :
    ((observation.items.map (·.1)).map String.toLower).Nodup := by
  have hsub : ∀ name ∈ observation.items.map (·.1), name ∈ observationNames keys := by
    intro name hname
    rw [Observation.items, List.map_append, List.mem_append] at hname
    exact List.mem_append.mpr (hname.imp (fun h => List.mem_cons_of_mem _ (hkeys name h)) id)
  have hnodup := row_names_nodup (nodup_of_lower hnames) hkeys 0
  rw [List.map_cons, List.nodup_cons] at hnodup
  apply hnodup.2.map_on
  intro a ha b hb heq
  exact List.inj_on_of_nodup_map hnames (hsub a ha) (hsub b hb) heq

theorem seen_key {key : String} (hkey : key ∈ observation.entityValues.map (·.1)) :
    columnOf observation.seen key.toLower = columnOf observation.entityValues key := by
  rw [Observation.seen, columnOf_lower (items_lower_nodup hnames hkeys)]
  · exact columnOf_items (nodup_of_lower hnames) (hkeys key hkey)
  · rw [Observation.items, List.map_append]
    exact List.mem_append_left _ hkey

theorem seen_timestamp : eventTimestampOf observation.seen = some observation.instant := by
  have hmem : "event_timestamp" ∈ observation.items.map (·.1) := by
    rw [Observation.items, List.map_append]
    exact List.mem_append_right _ (List.mem_singleton_self _)
  have hfound := columnOf_lower (items_lower_nodup hnames hkeys) hmem
  rw [lower_timestamp, columnOf_timestamp (nodup_of_lower hnames) hkeys] at hfound
  exact eventTimestampOf_eq hfound

end Seen

end Scans

section Progress

variable {retriever : Retriever} {keys : List String} {observations : List Observation}
  {done : List (String × List String)} {current : ArrowTable} {group : String × List String}
  {view : Manifest.FeatureView} {entity : Manifest.Entity}

theorem storedRows_eq_nil {viewRef : String} (h : retriever.populated viewRef = false) :
    retriever.storedRows viewRef = [] := by
  rw [Retriever.populated] at h
  unfold Retriever.storedRows
  cases htable : retriever.tables viewRef with
  | none => rfl
  | some table =>
      rw [htable] at h
      have hrows : table.rows = [] := by simpa using h
      simp only [TableEngine.scan, hrows, List.map_nil]

theorem columns_eq (hview : retriever.store.featureView group.1 = .ok view) :
    retriever.columns group = outputNames view.name group.2 := by
  rw [Retriever.columns, hview]

/-- Cells that answer every observation are an answer of the next view. -/
theorem Retriever.Progress.extend (h : retriever.Progress keys observations done current)
    {added : List Value → List Value}
    (hadded : ∀ item ∈ observations.zipIdx, ∀ cells,
      cells.length = (done.flatMap retriever.columns).length →
      retriever.ViewAnswer item.1 group (added (observationCells keys item ++ cells))) :
    retriever.Progress keys observations (done ++ [group])
      ⟨current.names ++ retriever.columns group, current.rows.map fun row => row ++ added row⟩ := by
  obtain ⟨answers, hanswers, hrows⟩ := h.rows
  constructor
  · rw [h.names, List.flatMap_append, List.flatMap_singleton, List.append_assoc]
  · refine ⟨fun item => answers item ++
      [added (observationCells keys item ++ (answers item).flatten)], fun item hitem => ?_, ?_⟩
    · apply List.rel_append (hanswers item hitem)
      exact .cons (hadded item hitem _ (answers_length (hanswers item hitem))) .nil
    · simp only [hrows, List.map_map]
      apply List.map_congr_left
      intro item _
      rw [Function.comp_apply, List.flatten_append, List.flatten_singleton, List.append_assoc]

/-- Without rows, every observation is answered with nulls. -/
theorem viewAnswer_missing {observation : Observation}
    (hview : retriever.store.featureView group.1 = .ok view)
    (hentity : retriever.store.entity view.entity = .ok entity)
    (hempty : retriever.storedRows group.1 = []) :
    retriever.ViewAnswer observation group
      (.str "missing" :: group.2.map fun _ => .null) := by
  refine ⟨view, entity, none, hview, hentity, ?_, ?_⟩
  · rw [hempty]
    exact fun row hrow => absurd hrow List.not_mem_nil
  · simp only [answerCells, caseColumns, List.map_map]
    rfl

/-- What the join selects for the row of an observation answers the observation. -/
theorem viewAnswer_selected (hview : retriever.store.featureView group.1 = .ok view)
    (hentity : retriever.store.entity view.entity = .ok entity) {names : List String}
    {item : Observation × Nat} {cells : List Value} {selected : Option Dict}
    (hnames : ((observationNames keys ++ names).map String.toLower).Nodup)
    (hlength : cells.length = names.length)
    (hkeys : ∀ key ∈ item.1.entityValues.map (·.1), key ∈ keys)
    (hjoin : ∀ key ∈ entity.joinKeys.map (·.1), key ∈ item.1.entityValues.map (·.1))
    (hnewest : retriever.engine.IsNewest ((entity.joinKeys.map (·.1)).map String.toLower)
      (retriever.storedRows group.1)
      (scannedRow (observationNames keys ++ names) keys item cells) selected) :
    retriever.ViewAnswer item.1 group (answerCells view.name group.2 view.ttlSeconds
      (scannedRow (observationNames keys ++ names) keys item cells) selected) := by
  have hbase : ((observationNames keys).map String.toLower).Nodup := by
    rw [List.map_append] at hnames
    exact (List.nodup_append.mp hnames).1
  have htime : eventTimestampOf (scannedRow (observationNames keys ++ names) keys item cells) =
      eventTimestampOf item.1.seen :=
    (scanned_timestamp hnames hlength).trans (seen_timestamp hbase hkeys).symm
  have hsame : ∀ key ∈ (entity.joinKeys.map (·.1)).map String.toLower,
      columnOf (scannedRow (observationNames keys ++ names) keys item cells) key =
        columnOf item.1.seen key := by
    intro key hkey
    obtain ⟨name, hname, rfl⟩ := List.mem_map.mp hkey
    have hown := hjoin name hname
    rw [scanned_key hnames hlength (hkeys name hown), seen_key hbase hkeys hown]
  refine ⟨view, entity, selected, hview, hentity,
    (isNewest_iff_of_same hsame htime).mp hnewest, ?_⟩
  rw [answerCells, answerCells, caseColumns_of_same _ _ _ htime]

/-- A column that a query computes from the rows of the observations. -/
theorem Retriever.Progress.scanned (h : retriever.Progress keys observations done current)
    {f : Dict → Value} {g : Observation × Nat → Value}
    (hfg : ∀ item ∈ observations.zipIdx, ∀ cells,
      cells.length = (done.flatMap retriever.columns).length →
      f (scannedRow (observationNames keys ++ done.flatMap retriever.columns) keys item cells) =
        g item) :
    (current.rows.map fun row => f ((current.names.map String.toLower).zip row)) =
      observations.zipIdx.map g := by
  obtain ⟨answers, hanswers, hrows⟩ := h.rows
  rw [hrows, List.map_map]
  apply List.map_congr_left
  intro item hitem
  rw [Function.comp_apply, h.names]
  exact hfg item hitem _ (answers_length (hanswers item hitem))

/-- A round that joins the rows of the view answers every observation. -/
theorem Retriever.Progress.join (h : retriever.Progress keys observations done current)
    (hview : retriever.store.featureView group.1 = .ok view)
    (hentity : retriever.store.entity view.entity = .ok entity) {featureRows : ArrowTable}
    (htable : retriever.tables group.1 = some featureRows)
    (hnames : ((current.names ++ outputNames view.name group.2 ++
      [ageName view.name]).map String.toLower).Nodup)
    (hkeys : ∀ observation ∈ observations, ∀ key ∈ observation.entityValues.map (·.1), key ∈ keys)
    (hpresent : ∀ key ∈ entity.joinKeys.map (·.1), key ∈ keys)
    (hjoin : ∀ observation ∈ observations, ∀ key ∈ entity.joinKeys.map (·.1),
      key ∈ observation.entityValues.map (·.1))
    (hcolumns : ∀ name ∈ entity.joinKeys.map (·.1) ++ ["event_timestamp", "event_id"] ++ group.2,
      name.toLower ∈ retriever.engine.scannedNames featureRows)
    (hcomparable : ∀ key ∈ entity.joinKeys.map (·.1), retriever.engine.comparable
      (observations.map fun observation => columnOf observation.entityValues key)
      ((retriever.engine.scan featureRows).map fun row => columnOf row key.toLower) = true) :
    ∃ next, (retriever.engine.joinTables view.name group.2 (entity.joinKeys.map (·.1))
        view.ttlSeconds featureRows current).bind (·.dropAge view.name) = .ok next ∧
      retriever.Progress keys observations (done ++ [group]) next := by
  have hbase : (current.names.map String.toLower).Nodup := by
    rw [List.append_assoc, List.map_append] at hnames
    exact (List.nodup_append.mp hnames).1
  have hcurrent : ((observationNames keys ++ done.flatMap retriever.columns).map
      String.toLower).Nodup := h.names ▸ hbase
  have hids : (current.rows.map fun row =>
      columnOf ((current.names.map String.toLower).zip row) "_row_id") =
        (List.range current.rows.length).map fun i : Nat => .int i := by
    obtain ⟨answers, -, hrows⟩ := h.rows
    rw [h.scanned (f := (columnOf · "_row_id")) (g := fun item => .int item.2)
      fun item _ cells hlength => scanned_rowId hcurrent hlength, hrows, List.length_map,
      List.length_zipIdx, List.range_eq_range', ← List.zipIdx_map_snd, List.map_map]
    rfl
  have hscan : retriever.engine.scan current =
      current.rows.map ((current.names.map String.toLower).zip ·) := by
    rw [TableEngine.scan, TableEngine.scannedNames, retriever.engine.deduplicate_distinct _ hbase]
  have hbinds : retriever.engine.binds group.2 (entity.joinKeys.map (·.1)) featureRows current =
      true := by
    rw [TableEngine.binds, Bool.and_eq_true, List.all_eq_true, List.all_eq_true]
    refine ⟨fun name hname => List.contains_iff_mem.mpr (hcolumns name hname), fun key hkey => ?_⟩
    rw [hscan, List.map_map]
    have hcells := h.scanned (f := (columnOf · key.toLower))
      (g := fun item => columnOf item.1.entityValues key)
      fun item _ cells hlength => scanned_key hcurrent hlength (hpresent key hkey)
    rw [map_fst_zipIdx fun observation : Observation => columnOf observation.entityValues key]
      at hcells
    exact hcells ▸ hcomparable key hkey
  obtain ⟨selection, hnewest, hjoined⟩ :=
    joinTables_answers view.ttlSeconds hnames h.aligned hids hbinds
  refine ⟨_, hjoined, ?_⟩
  rw [← columns_eq hview]
  apply h.extend
  intro item hitem cells hlength
  have hobservation := List.fst_mem_of_mem_zipIdx hitem
  rw [h.names]
  apply viewAnswer_selected hview hentity hcurrent hlength (hkeys _ hobservation)
    (hjoin _ hobservation)
  rw [Retriever.storedRows, htable]
  exact hnewest _

/-- One round of the loop answers every observation for one more view. -/
theorem Retriever.Progress.step (h : retriever.Progress keys observations done current)
    (hview : retriever.store.featureView group.1 = .ok view)
    (hentity : retriever.store.entity view.entity = .ok entity)
    (hnames : retriever.populated group.1 = true →
      ((current.names ++ outputNames view.name group.2 ++
        [ageName view.name]).map String.toLower).Nodup)
    (hne : observations ≠ [])
    (hkeys : ∀ observation ∈ observations, ∀ key ∈ observation.entityValues.map (·.1), key ∈ keys)
    (hjoin : ∀ observation ∈ observations, ∀ key ∈ entity.joinKeys.map (·.1),
      key ∈ observation.entityValues.map (·.1))
    (hcomparable : ∀ table, retriever.tables group.1 = some table → table.rows ≠ [] →
      (∀ name ∈ entity.joinKeys.map (·.1) ++ ["event_timestamp", "event_id"] ++ group.2,
        name.toLower ∈ retriever.engine.scannedNames table) ∧
      ∀ key ∈ entity.joinKeys.map (·.1), retriever.engine.comparable
        (observations.map fun observation => columnOf observation.entityValues key)
        ((retriever.engine.scan table).map fun row => columnOf row key.toLower) = true) :
    ∃ next, retriever.queryView current group = .ok next ∧
      retriever.Progress keys observations (done ++ [group]) next := by
  have hpresent : ∀ key ∈ entity.joinKeys.map (·.1), key ∈ keys := by
    intro key hkey
    obtain ⟨observation, hobservation⟩ := List.exists_mem_of_ne_nil _ hne
    exact hkeys observation hobservation key (hjoin observation hobservation key hkey)
  have hmissing : ((entity.joinKeys.map (·.1)).filter fun key => !current.names.contains key) =
      [] := by
    rw [List.filter_eq_nil_iff]
    intro key hkey
    have hmem : key ∈ current.names := by
      rw [h.names]
      exact List.mem_append_left _ (List.mem_append_left _
        (List.mem_cons_of_mem _ (hpresent key hkey)))
    simp [hmem]
  have hempty : retriever.storedRows group.1 = [] → ∃ next,
      Except.ok (appendMissing current view.name group.2) = (.ok next : Except PyException _) ∧
        retriever.Progress keys observations (done ++ [group]) next := by
    intro hrows
    refine ⟨_, rfl, ?_⟩
    rw [appendMissing_eq, ← columns_eq hview]
    exact h.extend fun item _ cells _ => viewAnswer_missing hview hentity hrows
  unfold Retriever.queryView
  simp only [hview, hentity, hmissing, bind, Except.bind, pure, Except.pure, ne_eq,
    not_true_eq_false, if_false]
  cases htable : retriever.tables group.1 with
  | none => exact hempty (storedRows_eq_nil (by simp [Retriever.populated, htable]))
  | some featureRows =>
      by_cases hrows : featureRows.rows = []
      · simp only [hrows, if_true]
        exact hempty (storedRows_eq_nil (by simp [Retriever.populated, htable, hrows]))
      · obtain ⟨hcolumns, hkeyTypes⟩ := hcomparable featureRows htable hrows
        simp only [hrows, if_false]
        have hpopulated : retriever.populated group.1 = true := by
          simp [Retriever.populated, htable, hrows]
        exact h.join hview hentity htable (hnames hpopulated) hkeys hpresent hjoin hcolumns
          hkeyTypes

end Progress

/-- The view and its entity are registered, every observation has the join keys, and a table
with rows has columns that can be joined. -/
def Retriever.Accepts (retriever : Retriever) (observations : List Observation)
    (group : String × List String) : Prop :=
  ∃ view entity, retriever.store.featureView group.1 = .ok view ∧
    retriever.store.entity view.entity = .ok entity ∧
    (∀ observation ∈ observations, ∀ key ∈ entity.joinKeys.map (·.1),
      key ∈ observation.entityValues.map (·.1)) ∧
    ∀ table, retriever.tables group.1 = some table → table.rows ≠ [] →
      (∀ name ∈ entity.joinKeys.map (·.1) ++ ["event_timestamp", "event_id"] ++ group.2,
        name.toLower ∈ retriever.engine.scannedNames table) ∧
      ∀ key ∈ entity.joinKeys.map (·.1), retriever.engine.comparable
        (observations.map fun observation => columnOf observation.entityValues key)
        ((retriever.engine.scan table).map fun row => columnOf row key.toLower) = true

section Queries

variable {retriever : Retriever} {keys : List String} {observations : List Observation}
  {done groups : List (String × List String)} {current : ArrowTable}

/-- The loop answers every observation for all views. -/
theorem Retriever.Progress.views (h : retriever.Progress keys observations done current)
    (hne : observations ≠ [])
    (hkeys : ∀ observation ∈ observations, ∀ key ∈ observation.entityValues.map (·.1), key ∈ keys)
    (haccepted : ∀ group ∈ groups, retriever.Accepts observations group)
    (hnames : ∀ before group after, groups = before ++ group :: after →
      retriever.populated group.1 = true → ((current.names ++ before.flatMap retriever.columns ++
        retriever.joinedColumns group).map String.toLower).Nodup) :
    ∃ final, groups.foldlM retriever.queryView current = .ok final ∧
      retriever.Progress keys observations (done ++ groups) final := by
  induction groups generalizing done current with
  | nil =>
      rw [List.append_nil]
      exact ⟨current, rfl, h⟩
  | cons group rest ih =>
      obtain ⟨view, entity, hview, hentity, hjoin, hcomparable⟩ :=
        haccepted group List.mem_cons_self
      have hjoined : retriever.joinedColumns group =
          outputNames view.name group.2 ++ [ageName view.name] := by
        rw [Retriever.joinedColumns, hview]
      have hfirst : retriever.populated group.1 = true →
          ((current.names ++ outputNames view.name group.2 ++
            [ageName view.name]).map String.toLower).Nodup := by
        intro hpopulated
        have hown := hnames [] group rest rfl hpopulated
        rwa [List.flatMap_nil, List.append_nil, hjoined, ← List.append_assoc] at hown
      obtain ⟨next, hnext, hprogress⟩ := h.step hview hentity hfirst hne hkeys hjoin hcomparable
      have hnextNames : next.names = current.names ++ outputNames view.name group.2 := by
        rw [hprogress.names, h.names, List.flatMap_append, List.flatMap_singleton, columns_eq hview,
          List.append_assoc]
      have hrest : ∀ before other after, rest = before ++ other :: after →
          retriever.populated other.1 = true → ((next.names ++ before.flatMap retriever.columns ++
            retriever.joinedColumns other).map String.toLower).Nodup := by
        intro before other after hsplit hpopulated
        have hlater := hnames (group :: before) other after (by rw [hsplit]; rfl) hpopulated
        rwa [List.flatMap_cons, columns_eq hview, ← List.append_assoc, ← hnextNames] at hlater
      obtain ⟨final, hfinal, hdone⟩ := ih hprogress
        (fun other hother => haccepted other (List.mem_cons_of_mem group hother)) hrest
      refine ⟨final, ?_, ?_⟩
      · rw [List.foldlM_cons, hnext]
        exact hfinal
      · rwa [List.append_assoc, List.singleton_append] at hdone

section Names

theorem columns_length_le (group : String × List String) :
    (retriever.columns group).length ≤ (missingCells group.2).length := by
  unfold Retriever.columns
  split
  · simp [outputNames, missingCells]
  · exact Nat.zero_le _

/-- A view shows all of its columns. -/
theorem mem_shown_names {group : String × List String} {name : String} :
    name ∈ (retriever.shownColumns group).map (·.1) ↔ name ∈ retriever.columns group := by
  unfold Retriever.shownColumns
  split
  · rw [List.map_map]
    exact (congrArg (name ∈ ·) (List.map_id _)).to_iff
  · rw [List.map_map]
    change name ∈ (Dictionaries.ofItems _).map Prod.fst ↔ _
    rw [Dictionaries.mem_ofItems_keys, List.map_fst_zip (columns_length_le group)]

variable {columns : List (String × Option Value)}

theorem observationNames_nodup
    (h : (ownColumns keys ++ columns).Pairwise NamedApart) :
    (observationNames keys).Nodup := by
  have hown := (List.pairwise_append.mp h).1
  rw [ownColumns, List.pairwise_map] at hown
  refine hown.imp fun {a b} hapart heq => ?_
  exact Bool.false_ne_true (hapart heq).2

/-- No view adds a column of the observations. -/
theorem observationName_not_mem
    (h : (ownColumns keys ++ groups.flatMap retriever.shownColumns).Pairwise NamedApart)
    {name : String} (hown : name ∈ observationNames keys) :
    name ∉ groups.flatMap retriever.columns := by
  intro hmem
  obtain ⟨group, hgroup, hcolumn⟩ := List.mem_flatMap.mp hmem
  obtain ⟨column, hshown, hname⟩ := List.mem_map.mp (mem_shown_names.mpr hcolumn)
  have hapart := (List.pairwise_append.mp h).2.2 (name, none)
    (List.mem_map_of_mem (f := fun name => (name, none)) hown) column
    (List.mem_flatMap.mpr ⟨group, hgroup, hshown⟩) hname.symm
  exact Bool.false_ne_true hapart.2

theorem rowId_not_mem
    (h : (ownColumns keys ++ groups.flatMap retriever.shownColumns).Pairwise NamedApart) :
    "_row_id" ∉ keys ++ ["event_timestamp"] ++ groups.flatMap retriever.columns := by
  have hbase := observationNames_nodup h
  rw [observationNames, List.cons_append, List.nodup_cons] at hbase
  rw [List.mem_append, not_or]
  exact ⟨hbase.1, observationName_not_mem h List.mem_cons_self⟩

/-- Distinct columns stay distinct with fewer keys and columns. -/
theorem nodup_of_fewer {own columns columns' : List String}
    (h : ((observationNames keys ++ columns).map String.toLower).Nodup) (hown : own.Nodup)
    (hkeys : ∀ key ∈ own, key ∈ keys) (hcolumns : columns'.Sublist columns) :
    ((observationNames own ++ columns').map String.toLower).Nodup := by
  obtain ⟨kept, hperm, hkept⟩ := hown.subperm hkeys
  have hnames : (observationNames kept).Perm (observationNames own) :=
    (hperm.cons "_row_id").append_right ["event_timestamp"]
  rw [← ((hnames.append_right columns').map String.toLower).nodup_iff]
  exact h.sublist ((((hkept.cons_cons "_row_id").append_right ["event_timestamp"]).append
    hcolumns).map String.toLower)

/-- Without rows, the answer has the cells of a view without rows. -/
theorem missing_of_unpopulated {observation : Observation} {group : String × List String}
    {cells : List Value} (h : retriever.ViewAnswer observation group cells)
    (hempty : retriever.populated group.1 = false) : cells = missingCells group.2 := by
  obtain ⟨view, entity, selected, -, -, hnewest, rfl⟩ := h
  cases selected with
  | none =>
      simp only [answerCells, caseColumns, missingCells, List.map_map]
      rfl
  | some row =>
      rw [storedRows_eq_nil hempty] at hnewest
      exact absurd hnewest.1 List.not_mem_nil

/-- What is shown of an answer. -/
def shownCell (names : List String) (cells : List Value) (name : String) : Option Value :=
  (Dictionaries.ofItems (names.zip cells)).lookup name

theorem mem_of_shownCell {names : List String} {cells : List Value} {name : String}
    {cell : Value} (h : shownCell names cells name = some cell) : name ∈ names := by
  have hname := Dictionaries.lookup_isSome_iff.mp (Option.isSome_of_eq_some h)
  rw [Dictionaries.mem_ofItems_keys] at hname
  obtain ⟨item, hitem, rfl⟩ := List.mem_map.mp hname
  exact (List.of_mem_zip hitem).1

/-- A name that no later column has keeps its own cell. -/
theorem shownCell_own {own names : List String} {cells others : List Value}
    (hlength : cells.length = own.length) (hnodup : own.Nodup) {name : String}
    (hname : name ∈ own) (hapart : name ∉ names) :
    shownCell (own ++ names) (cells ++ others) name = some (columnOf (own.zip cells) name) := by
  have hfirst : (own.zip cells).map (·.1) = own := List.map_fst_zip hlength.ge
  rw [shownCell, List.zip_append hlength.symm, Dictionaries.lookup_ofItems_append]
  cases hlater : (Dictionaries.ofItems (names.zip others)).lookup name with
  | some cell => exact absurd (mem_of_shownCell hlater) hapart
  | none =>
      rw [Option.none_or, Dictionaries.ofItems_of_nodup (by rwa [hfirst]),
        Dictionaries.lookup_eq_some_iff (by rwa [hfirst])]
      apply mem_columnOf
      rwa [hfirst]

theorem Retriever.ViewAnswer.shown {observation : Observation} {group : String × List String}
    {cells : List Value} (h : retriever.ViewAnswer observation group cells) {name : String}
    (hname : name ∈ retriever.columns group) :
    ∃ cell, shownCell (retriever.columns group) cells name = some cell := by
  rw [← Option.isSome_iff_exists, shownCell, Dictionaries.lookup_isSome_iff,
    Dictionaries.mem_ofItems_keys, List.map_fst_zip h.length_eq.ge]
  exact hname

/-- A column with one cell in every row shows it. -/
theorem Retriever.ViewAnswer.shown_eq {observation : Observation} {group : String × List String}
    {cells : List Value} (h : retriever.ViewAnswer observation group cells) {name : String}
    {cell : Value} (hshown : (name, some cell) ∈ retriever.shownColumns group) :
    shownCell (retriever.columns group) cells name = some cell := by
  unfold Retriever.shownColumns at hshown
  split at hshown
  · obtain ⟨_, -, hcell⟩ := List.mem_map.mp hshown
    cases hcell
  · rename_i hempty
    obtain ⟨item, hitem, heq⟩ := List.mem_map.mp hshown
    cases heq
    rw [missing_of_unpopulated h (Bool.not_eq_true _ ▸ hempty)]
    exact (Dictionaries.lookup_eq_some_iff (Dictionaries.nodup_ofItems _)).mpr hitem

/-- What is shown of the answers of all views is shown of each of them. -/
theorem shown_of_answers {observation : Observation} {answers : List (List Value)}
    (h : List.Forall₂ (retriever.ViewAnswer observation) groups answers)
    (happart : (groups.flatMap retriever.shownColumns).Pairwise NamedApart) :
    ∀ group ∈ groups, ∃ cells, retriever.ViewAnswer observation group cells ∧
      ∀ name ∈ retriever.columns group,
        shownCell (groups.flatMap retriever.columns) answers.flatten name =
          shownCell (retriever.columns group) cells name := by
  induction h with
  | nil => exact fun _ hgroup => absurd hgroup List.not_mem_nil
  | @cons first cells rest others hanswer _ ih =>
      rw [List.flatMap_cons, List.pairwise_append] at happart
      obtain ⟨-, hrest, hcross⟩ := happart
      have hsplit : ∀ name, shownCell ((first :: rest).flatMap retriever.columns)
          (cells :: others).flatten name =
            (shownCell (rest.flatMap retriever.columns) others.flatten name).or
              (shownCell (retriever.columns first) cells name) := by
        intro name
        rw [List.flatMap_cons, List.flatten_cons, shownCell,
          List.zip_append hanswer.length_eq.symm]
        exact Dictionaries.lookup_ofItems_append _ _ _
      intro group hgroup
      cases List.mem_cons.mp hgroup with
      | inl heq =>
          subst heq
          refine ⟨cells, hanswer, fun name hname => ?_⟩
          rw [hsplit]
          cases hlater : shownCell (rest.flatMap retriever.columns) others.flatten name with
          | none => exact Option.none_or
          | some cell =>
              -- A later view shows the name as well, so both show one cell in every row.
              have hin : name ∈ rest.flatMap retriever.columns :=
                mem_of_shownCell hlater
              obtain ⟨other, hother, hcolumn⟩ := List.mem_flatMap.mp hin
              obtain ⟨cells', hanswer', hshown⟩ := ih hrest other hother
              rw [hshown name hcolumn] at hlater
              obtain ⟨⟨name, mark⟩, ha, rfl⟩ := List.mem_map.mp (mem_shown_names.mpr hname)
              obtain ⟨⟨name', mark'⟩, hb, rfl⟩ := List.mem_map.mp (mem_shown_names.mpr hcolumn)
              have hboth : mark = mark' ∧ mark.isSome = true :=
                hcross _ ha _ (List.mem_flatMap.mpr ⟨other, hother, hb⟩) rfl
              obtain ⟨rfl, hsome⟩ := hboth
              obtain ⟨value, rfl⟩ := Option.isSome_iff_exists.mp hsome
              rw [hanswer'.shown_eq hb] at hlater
              rw [hanswer.shown_eq ha, ← hlater]
              rfl
      | inr hmem =>
          obtain ⟨cells', hanswer', hshown⟩ := ih hrest group hmem
          refine ⟨cells', hanswer', fun name hname => ?_⟩
          obtain ⟨cell, hcell⟩ := hanswer'.shown hname
          rw [hsplit, hshown name hname, hcell]
          rfl

end Names

/-- The result of a query, without the row ids. -/
structure Retriever.Answered (retriever : Retriever) (keys : List String)
    (observations : List Observation) (groups : List (String × List String))
    (table : ArrowTable) : Prop where
  names : table.names = keys ++ ["event_timestamp"] ++ groups.flatMap retriever.columns
  rows : ∃ answers : Observation × Nat → List (List Value),
    (∀ item ∈ observations.zipIdx,
      List.Forall₂ (retriever.ViewAnswer item.1) groups (answers item)) ∧
    table.rows = observations.zipIdx.map fun item =>
      keys.map (columnOf item.1.entityValues) ++ [.timestamp (.utc item.1.instant)] ++
        (answers item).flatten

/-- An unambiguous query of accepted views answers every observation. -/
theorem queryTable_answered {first : Observation} {rest : List Observation}
    {resolved : List String} {refs : List (String × String)}
    (h : retriever.Unambiguous (first :: rest) resolved)
    (hrefs : resolved.mapM splitLastColon = .ok refs)
    (haccepted : ∀ group ∈ requestedGroups resolved, retriever.Accepts (first :: rest) group) :
    ∃ table, retriever.queryTable (first :: rest) resolved = .ok table ∧
      retriever.Answered (first.entityValues.map (·.1)) (first :: rest)
        (requestedGroups resolved) table := by
  have hnames := h.names first List.mem_cons_self
  have hkeys := h.sameKeys first rfl
  have hbase := observationNames_nodup hnames
  obtain ⟨rows, hrows, htable⟩ :=
    observations_table hbase hkeys h.representable (h.typed first rfl)
  have hstart : retriever.Progress (first.entityValues.map (·.1)) (first :: rest) []
      ⟨observationNames (first.entityValues.map (·.1)),
        (first :: rest).zipIdx.map (observationCells (first.entityValues.map (·.1)))⟩ := by
    constructor
    · exact (List.append_nil _).symm
    · refine ⟨fun _ => [], fun _ _ => .nil, List.map_congr_left fun item _ => ?_⟩
      exact (List.append_nil _).symm
  have hgroups : requestedGroups resolved = refs.foldl groupRef [] := by
    rw [requestedGroups, hrefs]
  obtain ⟨final, hfinal, hdone⟩ := hstart.views (List.cons_ne_nil _ _) hkeys haccepted
    (h.joinedNames first rfl)
  rw [List.nil_append] at hdone
  obtain ⟨answers, hanswers, hcells⟩ := hdone.rows
  have hfinalNames : final.names = "_row_id" :: (first.entityValues.map (·.1) ++
      ["event_timestamp"] ++ (requestedGroups resolved).flatMap retriever.columns) := by
    rw [hdone.names, observationNames, List.cons_append, List.cons_append]
  have hdrop : final.drop "_row_id" = .ok ⟨first.entityValues.map (·.1) ++ ["event_timestamp"] ++
      (requestedGroups resolved).flatMap retriever.columns, final.rows.map List.tail⟩ := by
    obtain ⟨finalNames, finalRows⟩ := final
    obtain rfl : finalNames = _ := hfinalNames
    exact drop_first (rowId_not_mem hnames)
  have hquery : retriever.queryTable (first :: rest) resolved =
      .ok ⟨first.entityValues.map (·.1) ++ ["event_timestamp"] ++
        (requestedGroups resolved).flatMap retriever.columns, final.rows.map List.tail⟩ := by
    rw [hgroups] at hfinal
    unfold Retriever.queryTable
    simp only [List.isEmpty_cons, Bool.false_eq_true, if_false, hrows, htable, hrefs, hfinal, bind,
      Except.bind]
    exact hgroups ▸ hdrop
  refine ⟨_, hquery, rfl, answers, hanswers, ?_⟩
  rw [hcells, List.map_map]
  exact List.map_congr_left fun item _ => rfl

/-- Rows of one rank give one answer, unless they differ in a feature that is shown. -/
theorem answerCells_of_tied {joinKeys featureNames : List String} {viewName : String}
    {ttlSeconds : Option Nat} {observation a b : Dict}
    (ha : retriever.engine.Eligible joinKeys observation a)
    (hb : retriever.engine.Eligible joinKeys observation b)
    (hrank : windowRank (some a) = windowRank (some b))
    (hsame : ttlExpired ttlSeconds observation (some a) = false →
      ∀ name ∈ featureNames, columnOf a name.toLower = columnOf b name.toLower) :
    answerCells viewName featureNames ttlSeconds observation (some a) =
      answerCells viewName featureNames ttlSeconds observation (some b) := by
  obtain ⟨-, t, time, ht, -⟩ := ha
  obtain ⟨-, t', time', ht', -⟩ := hb
  have htimes : t = t' := by
    have hfirst := congrArg Prod.fst (toLex.injective hrank)
    simp only [Option.bind_some, ht, ht', Option.elim_some] at hfirst
    exact WithBot.coe_injective hfirst
  subst htimes
  have hexpired : ttlExpired ttlSeconds observation (some a) =
      ttlExpired ttlSeconds observation (some b) := by
    simp only [ttlExpired, Option.bind_some, ht, ht']
  simp only [answerCells, caseColumns, Option.bind_some, ht, ht', ← hexpired, List.map_map]
  refine congrArg (List.cons _) (List.map_congr_left fun name hname => ?_)
  cases hfresh : ttlExpired ttlSeconds observation (some a) with
  | true => rfl
  | false => exact hsame hfresh name hname

/-- Where the rows of one rank do not differ in what is shown, a view has one answer for an
observation. -/
theorem viewAnswer_unique {resolved : List String}
    (h : retriever.Unambiguous observations resolved)
    (hseveral : 1 < observations.length ∨ 1 < (requestedGroups resolved).length)
    {group : String × List String} (hgroup : group ∈ requestedGroups resolved)
    {observation : Observation} (hobservation : observation ∈ observations)
    {cells others : List Value}
    (hcells : retriever.ViewAnswer observation group cells)
    (hothers : retriever.ViewAnswer observation group others) : cells = others := by
  obtain ⟨view, entity, selected, hview, hentity, hnewest, rfl⟩ := hcells
  obtain ⟨view', entity', selected', hview', hentity', hnewest', rfl⟩ := hothers
  obtain rfl := Except.ok.inj (hview.symm.trans hview')
  obtain rfl := Except.ok.inj (hentity.symm.trans hentity')
  cases selected with
  | none =>
      cases selected' with
      | none => rfl
      | some row' => exact absurd hnewest'.2.1 (hnewest row' hnewest'.1)
  | some row =>
      cases selected' with
      | none => exact absurd hnewest.2.1 (hnewest' row hnewest.1)
      | some row' =>
          have hrank : windowRank (some row) = windowRank (some row') :=
            le_antisymm (hnewest'.2.2 row hnewest.1 hnewest.2.1)
              (hnewest.2.2 row' hnewest'.1 hnewest'.2.1)
          exact answerCells_of_tied hnewest.2.1 hnewest'.2.1 hrank
            (h.untied hseveral group hgroup view entity hview hentity observation hobservation row
              hnewest.1 row' hnewest'.1 hnewest.2.1 hnewest'.2.1 hrank)

/-- What the result shows for an observation. -/
theorem answered_row {observation : Observation} {index : Nat} {table : ArrowTable}
    (h : retriever.Answered keys observations groups table)
    (happart : (ownColumns keys ++ groups.flatMap retriever.shownColumns).Pairwise NamedApart)
    (hobservation : observations[index]? = some observation)
    (hkeys : ∀ key ∈ observation.entityValues.map (·.1), key ∈ keys) :
    ∃ row : Dict, table.toPylist[index]? = some row ∧
      (∀ item ∈ observation.items, row.lookup item.1 = some item.2) ∧
      ∀ group ∈ groups, ∃ cells, retriever.ViewAnswer observation group cells ∧
        ∀ name ∈ retriever.columns group,
          row.lookup name = shownCell (retriever.columns group) cells name := by
  obtain ⟨answers, hanswers, hrows⟩ := h.rows
  have hitem : observations.zipIdx[index]? = some (observation, index) := by
    rw [List.getElem?_zipIdx, hobservation]
    simp
  have hmem := List.mem_of_getElem? hitem
  let own := keys.map (columnOf observation.entityValues) ++
    [.timestamp (.utc observation.instant)]
  let views := (answers (observation, index)).flatten
  have hlength : own.length = (keys ++ ["event_timestamp"]).length := by simp [own]
  have hnodup : (keys ++ ["event_timestamp"]).Nodup := by
    have hbase := observationNames_nodup happart
    rw [observationNames, List.cons_append, List.nodup_cons] at hbase
    exact hbase.2
  have hzip : (keys ++ ["event_timestamp"]).zip own =
      keys.map (fun key => (key, columnOf observation.entityValues key)) ++
        [("event_timestamp", .timestamp (.utc observation.instant))] := by
    have hkeyCells := @List.zip_map' _ _ _ id (columnOf observation.entityValues) keys
    rw [List.map_id] at hkeyCells
    rw [List.zip_append (by simp), hkeyCells]
    rfl
  have hrow : ∀ name, (Dictionaries.ofItems (table.names.zip (own ++ views))).lookup name =
      shownCell (keys ++ ["event_timestamp"] ++ groups.flatMap retriever.columns) (own ++ views)
        name := fun name => by rw [h.names, shownCell]
  refine ⟨Dictionaries.ofItems (table.names.zip (own ++ views)), ?_, fun item hin => ?_,
    fun group hgroup => ?_⟩
  · rw [ArrowTable.toPylist, List.getElem?_map, hrows, List.getElem?_map, hitem]
    rfl
  · have hcell : item ∈ (keys ++ ["event_timestamp"]).zip own := by
      rw [hzip]
      cases List.mem_append.mp hin with
      | inl hvalue =>
          have hname := List.mem_map_of_mem (f := fun item : String × Value => item.1) hvalue
          apply List.mem_append_left
          refine List.mem_map.mpr ⟨item.1, hkeys _ hname, ?_⟩
          rw [columnOf_eq observation.keys_nodup hvalue]
      | inr htimestamp => exact List.mem_append_right _ htimestamp
    have hname := (List.of_mem_zip hcell).1
    rw [hrow, shownCell_own hlength hnodup hname
      (observationName_not_mem happart (List.mem_cons_of_mem _ hname))]
    refine congrArg some (columnOf_eq ?_ hcell)
    rwa [List.map_fst_zip hlength.ge]
  · obtain ⟨found, hanswer, hshown⟩ := shown_of_answers (hanswers _ hmem)
      (List.pairwise_append.mp happart).2.1 group hgroup
    refine ⟨found, hanswer, fun name hname => ?_⟩
    obtain ⟨cell, hcell⟩ := hanswer.shown hname
    have hviews : shownCell (groups.flatMap retriever.columns) views name = some cell :=
      (hshown name hname).trans hcell
    rw [hrow, hcell, shownCell, List.zip_append hlength.symm, Dictionaries.lookup_ofItems_append,
      ← shownCell, hviews]
    rfl

theorem Retriever.Answered.toPylist_single {observation : Observation} {table : ArrowTable}
    (h : retriever.Answered keys [observation] groups table) {index : Nat} {row : Dict}
    (hrow : table.toPylist[index]? = some row) : table.toPylist = [row] := by
  obtain ⟨answers, -, hrows⟩ := h.rows
  rw [ArrowTable.toPylist, hrows] at hrow ⊢
  exact congrArg (fun row => [row]) (List.mem_singleton.mp (List.mem_of_getElem? hrow)).symm

theorem singleton_eq_append_cons {α : Type} {a b : α} {before after : List α}
    (h : [a] = before ++ b :: after) : before = [] ∧ a = b ∧ after = [] := by
  cases before with
  | nil =>
      obtain ⟨rfl, rfl⟩ := List.cons.inj h
      exact ⟨rfl, rfl, rfl⟩
  | cons _ rest => simp at h

/-- A query for one view and one observation is unambiguous if the whole query is. -/
theorem Retriever.Unambiguous.single {first : Observation} {rest : List Observation}
    {resolved : List String} (h : retriever.Unambiguous (first :: rest) resolved)
    {group : String × List String} (hgroup : group ∈ requestedGroups resolved)
    {observation : Observation} (hobservation : observation ∈ first :: rest) :
    retriever.Unambiguous [observation]
      (resolved.filter fun ref => viewRefOf ref = some group.1) := by
  have hgroups := requestedGroups_filter hgroup
  have hkeys := h.sameKeys first rfl observation hobservation
  have hcell : ∀ key, columnOf observation.entityValues key ∈
      (first :: rest).map fun observation => columnOf observation.entityValues key :=
    fun key => List.mem_map_of_mem
      (f := fun observation : Observation => columnOf observation.entityValues key) hobservation
  refine ⟨⟨?_, ?_⟩, ⟨?_, ?_, ?_, ?_⟩, ?_⟩
  · intro other hother
    rw [List.mem_singleton.mp hother, hgroups, List.flatMap_singleton]
    refine (h.names observation hobservation).sublist (List.Sublist.append_left ?_ _)
    exact List.sublist_flatten_of_mem (List.mem_map_of_mem hgroup)
  · intro other hother done joined later hsplit hpopulated
    obtain rfl := Option.some.inj hother
    rw [hgroups] at hsplit
    obtain ⟨rfl, rfl, rfl⟩ := singleton_eq_append_cons hsplit
    obtain ⟨before, after, hbefore⟩ := List.append_of_mem hgroup
    have hall := h.joinedNames first rfl before group after hbefore hpopulated
    rw [List.append_assoc] at hall
    rw [List.flatMap_nil, List.append_nil]
    exact nodup_of_fewer hall observation.keys_nodup hkeys (List.sublist_append_right _ _)
  · intro other hother
    rw [List.mem_singleton.mp hother]
    exact h.representable observation hobservation
  · intro other hother another hanother
    obtain rfl := Option.some.inj hother
    rw [List.mem_singleton.mp hanother]
    exact fun key hkey => hkey
  · intro other hother key hkey
    obtain rfl := Option.some.inj hother
    exact retriever.arrow.single (h.typed first rfl key (hkeys key hkey)) (hcell key)
  · intro _ other hother view entity table hview hentity htable hrows
    rw [hgroups, List.mem_singleton] at hother
    subst hother
    obtain ⟨hcolumns, hcomparable⟩ := h.comparable (List.cons_ne_nil _ _) other hgroup view entity
      table hview hentity htable hrows
    refine ⟨hcolumns, fun key hkey => ?_⟩
    exact retriever.engine.comparable_single (hcomparable key hkey) (hcell key)
  · rw [Retriever.Untied, hgroups]
    intro hseveral
    exact absurd hseveral (by simp)

/-- A query that is accepted for all observations is accepted for each of them. -/
theorem Retriever.Accepts.single {group : String × List String}
    (h : retriever.Accepts observations group) {observation : Observation}
    (hobservation : observation ∈ observations) : retriever.Accepts [observation] group := by
  obtain ⟨view, entity, hview, hentity, hjoin, htables⟩ := h
  refine ⟨view, entity, hview, hentity, fun other hother => ?_, fun table htable hrows => ?_⟩
  · rw [List.mem_singleton.mp hother]
    exact hjoin observation hobservation
  · obtain ⟨hcolumns, hcomparable⟩ := htables table htable hrows
    refine ⟨hcolumns, fun key hkey => ?_⟩
    exact retriever.engine.comparable_single (hcomparable key hkey) (List.mem_map_of_mem
      (f := fun observation : Observation => columnOf observation.entityValues key) hobservation)

/-- What `validate` checks of the views of the request. -/
theorem registered_of_validate {features resolved : List String} {featureService : Option String}
    (hvalid : retriever.validate observations features featureService = .ok resolved) :
    (∃ refs, resolved.mapM splitLastColon = .ok refs) ∧
      ∀ group ∈ requestedGroups resolved, ∃ view entity,
        retriever.store.featureView group.1 = .ok view ∧
        retriever.store.entity view.entity = .ok entity ∧
        ∀ observation ∈ observations, ∀ key ∈ entity.joinKeys.map (·.1),
          key ∈ observation.entityValues.map (·.1) := by
  obtain ⟨resolved', -, hvalid⟩ := ok_of_bind hvalid
  obtain ⟨_, hchecked, hvalid⟩ := ok_of_bind hvalid
  cases hvalid
  rw [forM_ok_iff] at hchecked
  have hparsed : ∀ ref ∈ resolved, ∃ parts view entity, splitLastColon ref = .ok parts ∧
      retriever.store.featureView parts.1 = .ok view ∧
      retriever.store.entity view.entity = .ok entity ∧
      ∀ observation ∈ observations, ∀ key ∈ entity.joinKeys.map (·.1),
        key ∈ observation.entityValues.map (·.1) := by
    intro ref href
    obtain ⟨parts, hparts, hcheck⟩ := ok_of_bind (hchecked ref href)
    obtain ⟨view, hview, hcheck⟩ := ok_of_bind hcheck
    obtain ⟨entity, hentity, hcheck⟩ := ok_of_bind hcheck
    refine ⟨parts, view, entity, hparts, hview, hentity,
      fun observation hobservation key hkey => ?_⟩
    rw [forM_ok_iff] at hcheck
    obtain ⟨index, hitem⟩ := exists_mem_zipIdx hobservation
    have hnone := hcheck _ hitem
    by_contra hmissing
    rw [if_pos] at hnone
    · cases hnone
    · intro hempty
      rw [List.filter_eq_nil_iff] at hempty
      apply hempty key hkey
      simpa using hmissing
  have hrefs : ∃ refs, resolved.mapM splitLastColon = .ok refs := by
    apply mapM_ok
    intro ref href
    obtain ⟨parts, -, -, hparts, -⟩ := hparsed ref href
    exact ⟨parts, hparts⟩
  refine ⟨hrefs, fun group hgroup => ?_⟩
  obtain ⟨refs, hrefs⟩ := hrefs
  have hmem := hgroup
  rw [requestedGroups, hrefs, mem_grouped] at hmem
  obtain ⟨parts, hparts, hname⟩ := List.mem_map.mp hmem.1
  obtain ⟨ref, href, hsplit⟩ := (mem_of_mapM hrefs).1 parts hparts
  obtain ⟨parts', view, entity, hparts', hview, hentity, hjoin⟩ := hparsed ref href
  obtain rfl := Except.ok.inj (hsplit.symm.trans hparts')
  rw [hname] at hview
  exact ⟨view, entity, hview, hentity, hjoin⟩

/-- What a query for one view and one observation shows. -/
theorem single_answer {first : Observation} {rest : List Observation} {resolved : List String}
    {refs : List (String × String)} (h : retriever.Unambiguous (first :: rest) resolved)
    (hrefs : resolved.mapM splitLastColon = .ok refs)
    (haccepted : ∀ group ∈ requestedGroups resolved, retriever.Accepts (first :: rest) group)
    {group : String × List String} (hgroup : group ∈ requestedGroups resolved)
    {observation : Observation} (hobservation : observation ∈ first :: rest) :
    ∃ (single : ArrowTable) (answer : Dict) (cells : List Value),
      retriever.queryTable [observation]
        (resolved.filter fun ref => viewRefOf ref = some group.1) = .ok single ∧
      single.toPylist = [answer] ∧ retriever.ViewAnswer observation group cells ∧
      ∀ name ∈ retriever.columns group,
        answer.lookup name = shownCell (retriever.columns group) cells name := by
  have hfilter := requestedGroups_filter hgroup
  have hsingle := h.single hgroup hobservation
  have hsplit : ∃ refs, (resolved.filter fun ref => viewRefOf ref = some group.1).mapM
      splitLastColon = .ok refs := by
    apply mapM_ok
    intro ref href
    obtain ⟨parts, -, hparts⟩ := (mem_of_mapM hrefs).2 ref (List.mem_of_mem_filter href)
    exact ⟨parts, hparts⟩
  obtain ⟨refs', hrefs'⟩ := hsplit
  obtain ⟨single, hquery, hanswered⟩ := queryTable_answered hsingle hrefs' (by
    rw [hfilter]
    intro other hother
    rw [List.mem_singleton.mp hother]
    exact (haccepted group hgroup).single hobservation)
  have hzero : [observation][0]? = some observation := rfl
  obtain ⟨answer, hanswer, -, hgroups⟩ := answered_row hanswered
    (hsingle.names observation List.mem_cons_self) hzero fun key hkey => hkey
  obtain ⟨cells, hcells, hshown⟩ := hgroups group (by
    rw [hfilter]
    exact List.mem_singleton_self _)
  exact ⟨single, answer, cells, hquery, hanswered.toPylist_single hanswer, hcells, hshown⟩

/-- A query that `validate` accepts and in which nothing is ambiguous has one row for each
observation, with its values and its timestamp, and with the answers of a query for each view and
that observation alone. -/
theorem Retriever.Unambiguous.oneAnswer {features resolved : List String}
    {featureService : Option String}
    (hvalid : retriever.validate observations features featureService = .ok resolved)
    (h : retriever.Unambiguous observations resolved) :
    retriever.OneAnswer observations resolved := by
  cases observations with
  | nil => exact ⟨⟨[], []⟩, rfl, rfl, nofun⟩
  | cons first rest =>
      obtain ⟨⟨refs, hrefs⟩, hregistered⟩ := registered_of_validate hvalid
      have haccepted : ∀ group ∈ requestedGroups resolved,
          retriever.Accepts (first :: rest) group := by
        intro group hgroup
        obtain ⟨view, entity, hview, hentity, hjoin⟩ := hregistered group hgroup
        refine ⟨view, entity, hview, hentity, hjoin, fun table htable hrows => ?_⟩
        exact h.comparable (List.cons_ne_nil _ _) group hgroup view entity table hview hentity
          htable hrows
      obtain ⟨table, hquery, hanswered⟩ := queryTable_answered h hrefs haccepted
      refine ⟨table, hquery, ?_, fun index observation hobservation => ?_⟩
      · obtain ⟨answers, -, hrows⟩ := hanswered.rows
        rw [hrows, List.length_map, List.length_zipIdx]
      have hmem := List.mem_of_getElem? hobservation
      obtain ⟨row, hrow, hitems, hgroups⟩ := answered_row hanswered
        (h.names first List.mem_cons_self) hobservation (h.sameKeys first rfl observation hmem)
      refine ⟨row, hrow, hitems, fun group hgroup => ?_⟩
      obtain ⟨cells, hanswer, hcells⟩ := hgroups group hgroup
      by_cases hseveral : 1 < (first :: rest).length ∨ 1 < (requestedGroups resolved).length
      · obtain ⟨single, answer, cells', hsingle, hpylist, hanswer', hcells'⟩ :=
          single_answer h hrefs haccepted hgroup hmem
        obtain rfl := viewAnswer_unique h hseveral hgroup hmem hanswer hanswer'
        refine ⟨single, answer, hsingle, hpylist, fun column hcolumn => ?_⟩
        obtain ⟨cell, hcell⟩ := hanswer.shown hcolumn
        exact ⟨cell, (hcells column hcolumn).trans hcell, (hcells' column hcolumn).trans hcell⟩
      · -- The query is the one for that view and that observation.
        obtain ⟨hone, hgroups⟩ := not_or.mp hseveral
        obtain rfl : rest = [] := by simpa using hone
        obtain rfl := List.mem_singleton.mp hmem
        refine ⟨table, row, ?_, ?_, fun column hcolumn => ?_⟩
        · rwa [filter_sole hrefs hgroup (not_lt.mp hgroups)]
        · exact hanswered.toPylist_single hrow
        · obtain ⟨cell, hcell⟩ := hanswer.shown hcolumn
          have hshown := (hcells column hcolumn).trans hcell
          exact ⟨cell, hshown, hshown⟩

end Queries

end FeatureStore
