import FeatureStore.ObservationAnswers

/-!
# What an answered query needs

Once the columns of a historical query are told apart by their names, it has one answer for
each observation only if the observations form a table of which every column keeps its values,
and every populated table can be joined with it.
-/

namespace FeatureStore

section Typing

variable {arrow : ArrowTyping} {rows : List Dict} {table : ArrowTable}

/-- The cells of a column that has a type. -/
def ArrowTyping.typed (arrow : ArrowTyping) (cells : List Value) : List Value :=
  match arrow.convert cells with
  | .ok cells => cells
  | .error _ => []

/-- A table that `from_pylist` returns has a typed column for each name. -/
theorem fromPylist_spec (h : arrow.fromPylist rows = .ok table) :
    (∀ name ∈ (rows.head?.getD []).map (·.1), arrow.convert (rows.map (columnOf · name)) =
      .ok (arrow.typed (rows.map (columnOf · name)))) ∧
    table = ⟨(rows.head?.getD []).map (·.1), (List.range rows.length).map fun index =>
      ((rows.head?.getD []).map (·.1)).map fun name =>
        (arrow.typed (rows.map (columnOf · name))).getD index .null⟩ := by
  obtain ⟨columns, hcolumns, htable⟩ := ok_of_bind h
  have htyped : ∀ name ∈ (rows.head?.getD []).map (·.1),
      arrow.convert (rows.map (columnOf · name)) =
        .ok (arrow.typed (rows.map (columnOf · name))) := by
    intro name hname
    obtain ⟨column, -, hcolumn⟩ := (mem_of_mapM hcolumns).2 name hname
    rw [ArrowTyping.typed, hcolumn]
  obtain rfl := Except.ok.inj (hcolumns.symm.trans (mapM_eq_ok_map htyped))
  refine ⟨htyped, ?_⟩
  rw [← Except.ok.inj htable]
  simp only [List.map_map]
  rfl

/-- A column keeps its cells if it keeps those that are not null. -/
theorem typed_eq {cells typed : List Value} (h : arrow.convert cells = .ok typed)
    (hcells : ∀ (index : Nat) (cell : Value), cells[index]? = some cell → cell ≠ .null →
      typed[index]? = some cell) : typed = cells := by
  obtain ⟨hlength, hnulls⟩ := arrow.keepsNulls h
  apply List.ext_getElem?
  intro index
  cases hcell : cells[index]? with
  | none => rw [List.getElem?_eq_none_iff, hlength, ← List.getElem?_eq_none_iff, hcell]
  | some cell =>
      by_cases hnull : cell = .null
      · subst hnull
        exact hnulls index hcell
      · exact hcells index cell hcell hnull

end Typing

section Extensions

/-- The rows of the first table are continued in the second, in columns of the given names. -/
structure ArrowTable.Extends (start current : ArrowTable) (added : List String) : Prop where
  names : current.names = start.names ++ added
  length : current.rows.length = start.rows.length
  rows : ∀ (index : Nat) (row : List Value), start.rows[index]? = some row →
    ∃ cells, cells.length = added.length ∧ current.rows[index]? = some (row ++ cells)

/-- The rows are as long as there are names, and the first column counts them. -/
structure ArrowTable.Numbered (table : ArrowTable) : Prop where
  first : ∃ rest, table.names = "_row_id" :: rest
  aligned : ∀ row ∈ table.rows, row.length = table.names.length
  ids : ∀ (index : Nat) (row : List Value), table.rows[index]? = some row →
    ∃ rest, row = .int index :: rest

variable {start current next : ArrowTable} {added more : List String}

namespace ArrowTable

theorem Extends.refl (start : ArrowTable) : start.Extends start [] :=
  ⟨(List.append_nil _).symm, rfl, fun _ row hrow => ⟨[], rfl, by rw [List.append_nil, hrow]⟩⟩

theorem Extends.trans (h : start.Extends current added) (h' : current.Extends next more) :
    start.Extends next (added ++ more) where
  names := by rw [h'.names, h.names, List.append_assoc]
  length := h'.length.trans h.length
  rows index row hrow := by
    obtain ⟨cells, hcells, hcurrent⟩ := h.rows index row hrow
    obtain ⟨others, hothers, hnext⟩ := h'.rows index _ hcurrent
    refine ⟨cells ++ others, ?_, by rw [hnext, List.append_assoc]⟩
    rw [List.length_append, List.length_append, hcells, hothers]

theorem extends_map {cells : List Value → List Value}
    (h : ∀ row, (cells row).length = added.length) :
    start.Extends ⟨start.names ++ added, start.rows.map fun row => row ++ cells row⟩ added where
  names := rfl
  length := List.length_map _
  rows index row hrow := ⟨cells row, h row, by rw [List.getElem?_map, hrow]; rfl⟩

theorem Numbered.extend (h : start.Numbered) (hextends : start.Extends current added) :
    current.Numbered := by
  have hrows : ∀ (index : Nat) (row : List Value), current.rows[index]? = some row →
      ∃ own cells, row = own ++ cells ∧ cells.length = added.length ∧
        start.rows[index]? = some own := by
    intro index row hrow
    obtain ⟨hindex, -⟩ := List.getElem?_eq_some_iff.mp hrow
    rw [hextends.length] at hindex
    obtain ⟨cells, hcells, hcurrent⟩ :=
      hextends.rows index _ (List.getElem?_eq_getElem hindex)
    exact ⟨_, cells, Option.some.inj (hrow.symm.trans hcurrent), hcells,
      List.getElem?_eq_getElem hindex⟩
  constructor
  · obtain ⟨rest, hrest⟩ := h.first
    exact ⟨rest ++ added, by rw [hextends.names, hrest, List.cons_append]⟩
  · intro row hrow
    obtain ⟨index, hindex⟩ := List.getElem?_of_mem hrow
    obtain ⟨own, cells, rfl, hcells, hown⟩ := hrows index row hindex
    rw [List.length_append, hextends.names, List.length_append, hcells,
      h.aligned own (List.mem_of_getElem? hown)]
  · intro index row hrow
    obtain ⟨own, cells, rfl, -, hown⟩ := hrows index row hrow
    obtain ⟨rest, rfl⟩ := h.ids index own hown
    exact ⟨rest ++ cells, rfl⟩

/-- A query finds the row ids of a numbered table. -/
theorem Numbered.rowIds (h : start.Numbered) :
    (start.rows.map fun row => columnOf ((start.names.map String.toLower).zip row) "_row_id") =
      (List.range start.rows.length).map fun i : Nat => .int i := by
  obtain ⟨rest, hrest⟩ := h.first
  apply List.ext_getElem
  · rw [List.length_map, List.length_map, List.length_range]
  · intro index hindex _
    rw [List.length_map] at hindex
    obtain ⟨cells, hcells⟩ := h.ids index _ (List.getElem?_eq_getElem hindex)
    rw [List.getElem_map, List.getElem_map, List.getElem_range, hcells, hrest, List.map_cons,
      List.zip_cons_cons, lower_rowId]
    rfl

/-- What a query sees of a column of the first table in the second. -/
theorem Extends.scanned (h : start.Extends current added)
    (haligned : ∀ row ∈ start.rows, row.length = start.names.length)
    (hnames : (current.names.map String.toLower).Nodup) {name : String}
    (hname : name ∈ start.names) :
    (current.rows.map fun row => columnOf ((current.names.map String.toLower).zip row)
        name.toLower) = start.rows.map fun row => columnOf (start.names.zip row) name := by
  apply List.ext_getElem?
  intro index
  rw [List.getElem?_map, List.getElem?_map]
  cases hrow : start.rows[index]? with
  | none =>
      rw [List.getElem?_eq_none_iff, ← h.length, ← List.getElem?_eq_none_iff] at hrow
      rw [hrow]
      rfl
  | some row =>
      obtain ⟨cells, hcells, hcurrent⟩ := h.rows index row hrow
      have hlength := haligned row (List.mem_of_getElem? hrow)
      have hin : name ∈ (start.names.zip row).map (·.1) := by
        rwa [List.map_fst_zip hlength.ge]
      rw [hcurrent, Option.map_some, Option.map_some, h.names]
      rw [h.names] at hnames
      exact congrArg some (columnOf_scanned hnames hlength hcells (mem_columnOf hin))

end ArrowTable

end Extensions

section Rounds

variable {retriever : Retriever} {groups : List (String × List String)}
  {group : String × List String} {start current final next : ArrowTable}
  {view : Manifest.FeatureView} {entity : Manifest.Entity}

/-- A table with rows is joined with the current table. -/
def Retriever.Joined (retriever : Retriever) (current : ArrowTable)
    (group : String × List String) : Prop :=
  ∀ view entity table, retriever.store.featureView group.1 = .ok view →
    retriever.store.entity view.entity = .ok entity → retriever.tables group.1 = some table →
    table.rows ≠ [] → (current.names.map String.toLower).Nodup ∧
      retriever.engine.binds group.2 (entity.joinKeys.map (·.1)) table current = true

theorem populated_iff {table : ArrowTable} (htable : retriever.tables group.1 = some table) :
    retriever.populated group.1 = true ↔ table.rows ≠ [] := by
  simp [Retriever.populated, htable]

/-- A round that returns has added the columns of its view, by a join if the view has rows. -/
theorem queryView_extends (hnumbered : current.Numbered)
    (hview : retriever.store.featureView group.1 = .ok view)
    (hentity : retriever.store.entity view.entity = .ok entity)
    (hnames : retriever.populated group.1 = true →
      ((current.names ++ retriever.joinedColumns group).map String.toLower).Nodup)
    (hnext : retriever.queryView current group = .ok next) :
    current.Extends next (retriever.columns group) ∧ retriever.Joined current group := by
  have hmissing : (∀ table, retriever.tables group.1 = some table → table.rows = []) →
      next = appendMissing current view.name group.2 →
        current.Extends next (retriever.columns group) ∧ retriever.Joined current group := by
    rintro hempty rfl
    refine ⟨?_, fun _ _ table _ _ htable hrows => absurd (hempty table htable) hrows⟩
    rw [appendMissing_eq, columns_eq hview]
    exact ArrowTable.extends_map fun _ => by simp [outputNames]
  unfold Retriever.queryView at hnext
  simp only [hview, hentity, bind, Except.bind, pure, Except.pure, ne_eq] at hnext
  split at hnext
  · cases hnext
  · split at hnext
    · rename_i htable
      refine hmissing (fun table h => ?_) (Except.ok.inj hnext).symm
      rw [htable] at h
      cases h
    · rename_i featureRows htable
      by_cases hrows : featureRows.rows = []
      · rw [if_pos hrows] at hnext
        refine hmissing (fun table h => ?_) (Except.ok.inj hnext).symm
        rwa [← Option.some.inj (htable.symm.trans h)]
      · have hdistinct := hnames ((populated_iff htable).mpr hrows)
        rw [Retriever.joinedColumns, hview, ← List.append_assoc] at hdistinct
        have hcurrent : (current.names.map String.toLower).Nodup := by
          rw [List.append_assoc, List.map_append] at hdistinct
          exact (List.nodup_append.mp hdistinct).1
        rw [if_neg hrows] at hnext
        have hbinds : retriever.engine.binds group.2 (entity.joinKeys.map (·.1)) featureRows
            current = true := by
          by_contra hunbound
          simp [TableEngine.joinTables, hunbound] at hnext
        obtain ⟨selection, -, hjoined⟩ := joinTables_answers view.ttlSeconds hdistinct
          hnumbered.aligned hnumbered.rowIds hbinds
        obtain rfl := Except.ok.inj (hjoined.symm.trans hnext)
        constructor
        · rw [columns_eq hview]
          exact ArrowTable.extends_map fun _ => answerCells_length _ _ _
        · intro view' entity' table hview' hentity' htable' _
          obtain rfl := Except.ok.inj (hview.symm.trans hview')
          obtain rfl := Except.ok.inj (hentity.symm.trans hentity')
          obtain rfl := Option.some.inj (htable.symm.trans htable')
          exact ⟨hcurrent, hbinds⟩

/-- A loop that returns has added the columns of all views. -/
theorem queryViews_extends (hnumbered : current.Numbered)
    (hregistered : ∀ group ∈ groups, ∃ view entity,
      retriever.store.featureView group.1 = .ok view ∧
        retriever.store.entity view.entity = .ok entity)
    (hnames : ∀ before group after, groups = before ++ group :: after →
      retriever.populated group.1 = true → ((current.names ++ before.flatMap retriever.columns ++
        retriever.joinedColumns group).map String.toLower).Nodup)
    (hfinal : groups.foldlM retriever.queryView current = .ok final) :
    current.Extends final (groups.flatMap retriever.columns) ∧ ∀ group ∈ groups,
      ∃ joined added, current.Extends joined added ∧ retriever.Joined joined group := by
  induction groups generalizing current with
  | nil =>
      obtain rfl := Except.ok.inj hfinal
      exact ⟨.refl current, fun _ hgroup => absurd hgroup List.not_mem_nil⟩
  | cons group rest ih =>
      obtain ⟨view, entity, hview, hentity⟩ := hregistered group List.mem_cons_self
      obtain ⟨next, hnext, hrest⟩ := ok_of_bind hfinal
      obtain ⟨hextends, hjoined⟩ := queryView_extends hnumbered hview hentity (fun hpopulated => by
        have hown := hnames [] group rest rfl hpopulated
        rwa [List.flatMap_nil, List.append_nil] at hown) hnext
      obtain ⟨hlater, hothers⟩ := ih (hnumbered.extend hextends)
        (fun other hother => hregistered other (List.mem_cons_of_mem group hother))
        (fun before other after hsplit hpopulated => by
          have hown := hnames (group :: before) other after (by rw [hsplit]; rfl) hpopulated
          rwa [List.flatMap_cons, ← List.append_assoc, ← hextends.names] at hown) hrest
      rw [List.flatMap_cons]
      refine ⟨hextends.trans hlater, fun other hother => ?_⟩
      cases List.mem_cons.mp hother with
      | inl heq =>
          subst heq
          exact ⟨current, [], .refl current, hjoined⟩
      | inr hmem =>
          obtain ⟨joined, added, hjoinedExtends, hother⟩ := hothers other hmem
          exact ⟨joined, _, hextends.trans hjoinedExtends, hother⟩

end Rounds

section Observed

variable {arrow : ArrowTyping} {first : Observation} {rest : List Observation}

/-- The cells of a column of the observations. -/
def observedColumn (observations : List Observation) (key : String) : List Value :=
  observations.map fun observation => columnOf observation.entityValues key

theorem columnOf_zip_map {names : List String} (hnodup : names.Nodup) {name : String}
    (hname : name ∈ names) (cell : String → Value) :
    columnOf (names.zip (names.map cell)) name = cell name := by
  have hzip := @List.zip_map' _ _ _ id cell names
  rw [List.map_id] at hzip
  rw [hzip]
  apply columnOf_eq
  · rw [List.map_map]
    exact (List.map_id names).symm ▸ hnodup
  · exact List.mem_map_of_mem (f := fun name => (name, cell name)) hname

theorem range_map_getD {cells : List Value} {n : Nat} (h : cells.length = n) :
    ((List.range n).map fun index => cells.getD index .null) = cells := by
  apply List.ext_getElem
  · rw [List.length_map, List.length_range, h]
  · intro index _ hindex
    rw [List.getElem_map, List.getElem_range, List.getD_eq_getElem?_getD,
      List.getElem?_eq_getElem hindex]
    rfl

/-- The rows of the observations have been made. -/
theorem observationRows_spec {observations : List Observation} {rows : List Dict}
    (hnames : ∀ observation ∈ observations,
      (observationNames (observation.entityValues.map (·.1))).Nodup)
    (hrows : (observations.zipIdx.mapM fun item => observationRow item.1 item.2) = .ok rows) :
    (∀ observation ∈ observations, Instant.IsRepresentable observation.instant) ∧
      rows = observations.zipIdx.map fun item => ("_row_id", Value.int item.2) :: item.1.items := by
  have hrepresentable : ∀ item ∈ observations.zipIdx, Instant.IsRepresentable item.1.instant := by
    intro item hitem
    obtain ⟨row, -, hrow⟩ := (mem_of_mapM hrows).2 item hitem
    unfold observationRow at hrow
    split at hrow
    · assumption
    · cases hrow
  have hrow : ∀ item ∈ observations.zipIdx, observationRow item.1 item.2 =
      .ok (("_row_id", Value.int item.2) :: item.1.items) := fun item hitem =>
    observationRow_ok (hnames _ (List.fst_mem_of_mem_zipIdx hitem)) (fun _ hkey => hkey)
      (hrepresentable item hitem) item.2
  refine ⟨fun observation hobservation => ?_,
    Except.ok.inj (hrows.symm.trans (mapM_eq_ok_map hrow))⟩
  obtain ⟨index, hitem⟩ := exists_mem_zipIdx hobservation
  exact hrepresentable _ hitem

/-- The table of the observations numbers them, and types the column of each key. -/
theorem observations_table_spec {start : ArrowTable}
    (hnames : (observationNames (first.entityValues.map (·.1))).Nodup)
    (hstart : arrow.fromPylist ((first :: rest).zipIdx.map fun item =>
      ("_row_id", Value.int item.2) :: item.1.items) = .ok start) :
    start.names = observationNames (first.entityValues.map (·.1)) ∧ start.Numbered ∧
      ∀ key ∈ first.entityValues.map (·.1),
        arrow.convert (observedColumn (first :: rest) key) =
          .ok (arrow.typed (observedColumn (first :: rest) key)) ∧
        (start.rows.map fun row => columnOf (start.names.zip row) key) =
          arrow.typed (observedColumn (first :: rest) key) := by
  obtain ⟨htyped, rfl⟩ := fromPylist_spec hstart
  have hhead : ((((first :: rest).zipIdx.map fun item =>
      ("_row_id", Value.int item.2) :: item.1.items).head?.getD []).map (·.1)) =
        observationNames (first.entityValues.map (·.1)) := by
    simp [observationNames, Observation.items]
  rw [hhead] at htyped ⊢
  refine ⟨rfl, ?_⟩
  simp only [List.map_map, Function.comp_def, List.length_map, List.length_zipIdx] at htyped ⊢
  have hids : arrow.typed ((first :: rest).zipIdx.map fun item =>
      columnOf (("_row_id", .int item.2) :: item.1.items) "_row_id") =
        (List.range (first :: rest).length).map fun i : Nat => .int i := by
    rw [row_ids_column, ArrowTyping.typed, arrow.indices]
  refine ⟨⟨⟨_, rfl⟩, ?_, ?_⟩, fun key hkey => ?_⟩
  · intro row hrow
    obtain ⟨index, -, rfl⟩ := List.mem_map.mp hrow
    exact List.length_map _
  · intro index row hrow
    rw [List.getElem?_map, Option.map_eq_some_iff] at hrow
    obtain ⟨position, hposition, rfl⟩ := hrow
    obtain ⟨hindex, rfl⟩ := List.getElem?_eq_some_iff.mp hposition
    rw [List.length_range] at hindex
    rw [observationNames, List.cons_append, List.map_cons, hids, List.getElem_range]
    refine ⟨_, congrArg (List.cons · _) ?_⟩
    rw [List.getD_eq_getElem?_getD, List.getElem?_map, List.getElem?_range hindex]
    rfl
  · have hname : key ∈ observationNames (first.entityValues.map (·.1)) :=
      List.mem_append_left _ (List.mem_cons_of_mem _ hkey)
    have hcolumn := htyped key hname
    rw [row_key_column hnames hkey] at hcolumn
    refine ⟨hcolumn, ?_⟩
    have hlength : (arrow.typed (observedColumn (first :: rest) key)).length =
        (first :: rest).length := (arrow.keepsNulls hcolumn).1.trans (List.length_map _)
    rw [← range_map_getD hlength]
    apply List.map_congr_left
    intro index _
    rw [columnOf_zip_map hnames hname, row_key_column hnames hkey]
    rfl

end Observed

section Answers

variable {retriever : Retriever} {first : Observation} {rest : List Observation}
  {resolved : List String} {table start final : ArrowTable}

/-- What a query that returns has done: the table of the observations, that of the last round,
and the result without the row ids. -/
structure Retriever.Returned (retriever : Retriever) (observations : List Observation)
    (keys : List String) (groups : List (String × List String))
    (start final table : ArrowTable) : Prop where
  representable : ∀ observation ∈ observations, Instant.IsRepresentable observation.instant
  startNames : start.names = observationNames keys
  numbered : start.Numbered
  converted : ∀ key ∈ keys, retriever.arrow.convert (observedColumn observations key) =
    .ok (retriever.arrow.typed (observedColumn observations key))
  columns : ∀ key ∈ keys, (start.rows.map fun row => columnOf (start.names.zip row) key) =
    retriever.arrow.typed (observedColumn observations key)
  extended : start.Extends final (groups.flatMap retriever.columns)
  joined : ∀ group ∈ groups,
    ∃ joined added, start.Extends joined added ∧ retriever.Joined joined group
  result : table = ⟨keys ++ ["event_timestamp"] ++ groups.flatMap retriever.columns,
    final.rows.map List.tail⟩

theorem Retriever.NamesApart.keys (h : retriever.NamesApart (first :: rest) resolved)
    {observation : Observation} (hobservation : observation ∈ first :: rest) :
    (observationNames (observation.entityValues.map (·.1))).Nodup :=
  observationNames_nodup (h.names observation hobservation)

theorem queryTable_returned (hnames : retriever.NamesApart (first :: rest) resolved)
    (hregistered : ∀ group ∈ requestedGroups resolved, ∃ view entity,
      retriever.store.featureView group.1 = .ok view ∧
        retriever.store.entity view.entity = .ok entity)
    (hquery : retriever.queryTable (first :: rest) resolved = .ok table) :
    ∃ start final, retriever.Returned (first :: rest) (first.entityValues.map (·.1))
      (requestedGroups resolved) start final table := by
  unfold Retriever.queryTable at hquery
  simp only [List.isEmpty_cons, Bool.false_eq_true, if_false] at hquery
  obtain ⟨rows, hrows, hquery⟩ := ok_of_bind hquery
  obtain ⟨start, hstart, hquery⟩ := ok_of_bind hquery
  obtain ⟨refs, hrefs, hquery⟩ := ok_of_bind hquery
  obtain ⟨final, hfinal, hdrop⟩ := ok_of_bind hquery
  have hgroups : requestedGroups resolved = refs.foldl groupRef [] := by
    rw [requestedGroups, hrefs]
  rw [← hgroups] at hfinal
  obtain ⟨hrepresentable, rfl⟩ := observationRows_spec (fun _ h => hnames.keys h) hrows
  obtain ⟨hstartNames, hnumbered, hcolumns⟩ :=
    observations_table_spec (hnames.keys List.mem_cons_self) hstart
  obtain ⟨hextended, hjoined⟩ := queryViews_extends hnumbered hregistered
    (by rw [hstartNames]; exact hnames.joinedNames first rfl) hfinal
  refine ⟨start, final, hrepresentable, hstartNames, hnumbered,
    fun key hkey => (hcolumns key hkey).1, fun key hkey => (hcolumns key hkey).2, hextended,
    hjoined, ?_⟩
  have hfinalNames : final.names = "_row_id" :: (first.entityValues.map (·.1) ++
      ["event_timestamp"] ++ (requestedGroups resolved).flatMap retriever.columns) := by
    rw [hextended.names, hstartNames, observationNames, List.cons_append, List.cons_append]
  obtain ⟨finalNames, finalRows⟩ := final
  obtain rfl : finalNames = _ := hfinalNames
  have hfirst := rowId_not_mem (hnames.names first List.mem_cons_self)
  exact Except.ok.inj (hdrop.symm.trans (drop_first hfirst))

/-- The result shows the typed columns of the keys. -/
theorem Retriever.Returned.lookup_key {observations : List Observation} {keys : List String}
    {groups : List (String × List String)}
    (h : retriever.Returned observations keys groups start final table)
    (hkeys : (observationNames keys).Nodup) {key : String} (hkey : key ∈ keys)
    (hapart : key ∉ groups.flatMap retriever.columns) {index : Nat} {row : Dict}
    (hrow : table.toPylist[index]? = some row) :
    (retriever.arrow.typed (observedColumn observations key))[index]? = row.lookup key := by
  rw [h.result, ArrowTable.toPylist, List.getElem?_map, Option.map_eq_some_iff] at hrow
  obtain ⟨cells, hcells, rfl⟩ := hrow
  rw [List.getElem?_map, Option.map_eq_some_iff] at hcells
  obtain ⟨full, hfull, rfl⟩ := hcells
  obtain ⟨hindex, -⟩ := List.getElem?_eq_some_iff.mp hfull
  rw [h.extended.length] at hindex
  obtain ⟨added, -, hextended⟩ := h.extended.rows index _ (List.getElem?_eq_getElem hindex)
  obtain rfl := Option.some.inj (hfull.symm.trans hextended)
  obtain ⟨own, hown⟩ := h.numbered.ids index _ (List.getElem?_eq_getElem hindex)
  have hlength : own.length = (keys ++ ["event_timestamp"]).length := by
    have haligned := h.numbered.aligned _ (List.getElem_mem hindex)
    rw [hown, h.startNames, observationNames] at haligned
    exact Nat.succ.inj haligned
  rw [observationNames, List.cons_append, List.nodup_cons] at hkeys
  have hname : key ∈ keys ++ ["event_timestamp"] := List.mem_append_left _ hkey
  have hne : key ≠ "_row_id" := fun heq => hkeys.1 (heq ▸ hname)
  rw [← h.columns key hkey, List.getElem?_map, List.getElem?_eq_getElem hindex, hown,
    h.startNames, observationNames]
  refine Eq.trans ?_ (shownCell_own hlength hkeys.2 hname hapart).symm
  rw [List.cons_append, Option.map_some, List.zip_cons_cons, columnOf, List.lookup_cons,
    beq_eq_false_iff_ne.mpr hne]
  rfl

theorem name_of_lookup {index : Nat} {row : Dict} (hrow : table.toPylist[index]? = some row)
    {name : String} {value : Value} (hlookup : row.lookup name = some value) :
    name ∈ table.names := by
  rw [ArrowTable.toPylist, List.getElem?_map, Option.map_eq_some_iff] at hrow
  obtain ⟨cells, -, rfl⟩ := hrow
  exact mem_of_shownCell hlookup

/-- Where the names are apart, a query that answers each observation has a table of them to
join. -/
theorem Retriever.OneAnswer.joinable (hnames : retriever.NamesApart (first :: rest) resolved)
    (hregistered : ∀ group ∈ requestedGroups resolved, ∃ view entity,
      retriever.store.featureView group.1 = .ok view ∧
      retriever.store.entity view.entity = .ok entity ∧
      ∀ observation ∈ first :: rest, ∀ key ∈ entity.joinKeys.map (·.1),
        key ∈ observation.entityValues.map (·.1))
    (h : retriever.OneAnswer (first :: rest) resolved) :
    retriever.Joinable (first :: rest) resolved := by
  obtain ⟨table, hquery, -, hanswers⟩ := h
  obtain ⟨start, final, hreturned⟩ := queryTable_returned hnames (fun group hgroup => by
    obtain ⟨view, entity, hview, hentity, -⟩ := hregistered group hgroup
    exact ⟨view, entity, hview, hentity⟩) hquery
  have hcolumn : ∀ observation ∈ first :: rest, ∀ key ∈ observation.entityValues.map (·.1),
      key ∉ (requestedGroups resolved).flatMap retriever.columns :=
    fun observation hobservation key hkey =>
      observationName_not_mem (hnames.names observation hobservation)
        (List.mem_append_left _ (List.mem_cons_of_mem _ hkey))
  have hsame : ∀ observation ∈ first :: rest, ∀ key ∈ observation.entityValues.map (·.1),
      key ∈ first.entityValues.map (·.1) := by
    intro observation hobservation key hkey
    obtain ⟨index, hindex⟩ := List.getElem?_of_mem hobservation
    obtain ⟨row, hrow, hitems, -⟩ := hanswers index observation hindex
    have hname := name_of_lookup hrow (hitems _ (List.mem_append_left _ (mem_columnOf hkey)))
    rw [hreturned.result] at hname
    have hown := (List.mem_append.mp hname).resolve_right
      (hcolumn observation hobservation key hkey)
    refine (List.mem_append.mp hown).resolve_right fun htimestamp => ?_
    have hdistinct := hnames.keys hobservation
    rw [observationNames, List.nodup_append] at hdistinct
    exact hdistinct.2.2 key (List.mem_cons_of_mem _ hkey) key htimestamp rfl
  have htyped : ∀ key ∈ first.entityValues.map (·.1),
      retriever.arrow.typed (observedColumn (first :: rest) key) =
        observedColumn (first :: rest) key := by
    intro key hkey
    refine typed_eq (hreturned.converted key hkey) fun index cell hcell hne => ?_
    rw [observedColumn, List.getElem?_map, Option.map_eq_some_iff] at hcell
    obtain ⟨observation, hobservation, rfl⟩ := hcell
    obtain ⟨row, hrow, hitems, -⟩ := hanswers index observation hobservation
    have hown : key ∈ observation.entityValues.map (·.1) := by
      by_contra hmissing
      rw [columnOf, Dictionaries.lookup_eq_none_iff.mpr hmissing] at hne
      exact hne rfl
    rw [hreturned.lookup_key (hnames.keys List.mem_cons_self) hkey
      (hcolumn first List.mem_cons_self key hkey) hrow]
    exact hitems _ (List.mem_append_left _ (mem_columnOf hown))
  refine ⟨hreturned.representable, fun other hother => ?_, fun other hother key hkey => ?_,
    fun _ group hgroup view entity table hview hentity htable hrows => ?_⟩
  · obtain rfl := Option.some.inj hother
    exact hsame
  · obtain rfl := Option.some.inj hother
    have hconverted := hreturned.converted key hkey
    rwa [htyped key hkey] at hconverted
  · obtain ⟨joined, added, hextends, hjoined⟩ := hreturned.joined group hgroup
    obtain ⟨hdistinct, hbinds⟩ := hjoined view entity table hview hentity htable hrows
    rw [TableEngine.binds, Bool.and_eq_true, List.all_eq_true, List.all_eq_true] at hbinds
    refine ⟨fun name hname => List.contains_iff_mem.mp (hbinds.1 name hname), fun key hkey => ?_⟩
    obtain ⟨view', entity', hview', hentity', hjoin⟩ := hregistered group hgroup
    obtain rfl := Except.ok.inj (hview.symm.trans hview')
    obtain rfl := Except.ok.inj (hentity.symm.trans hentity')
    have hown := hjoin first List.mem_cons_self key hkey
    have hscan : retriever.engine.scan joined =
        joined.rows.map ((joined.names.map String.toLower).zip ·) := by
      rw [TableEngine.scan, TableEngine.scannedNames,
        retriever.engine.deduplicate_distinct _ hdistinct]
    have hname : key ∈ start.names := by
      rw [hreturned.startNames]
      exact List.mem_append_left _ (List.mem_cons_of_mem _ hown)
    have hcells := hextends.scanned hreturned.numbered.aligned hdistinct hname
    rw [hreturned.columns key hown, htyped key hown, observedColumn] at hcells
    have hcomparable := hbinds.2 key hkey
    rw [hscan, List.map_map] at hcomparable
    exact hcells ▸ hcomparable

end Answers

section Sample

/-- The engine of the sample above, on tables whose columns it need not rename. -/
def sampleTables : TableEngine where
  toQueryEngine := sampleEngine
  deduplicate names := names
  comparable _ _ := true
  deduplicate_distinct _ _ := rfl
  comparable_single _ _ := rfl
  rowIdLe_int := decide_eq_true_iff

def sampleTyping : ArrowTyping where
  convert cells := .ok cells
  single _ _ := rfl
  indices _ := rfl
  instants _ := rfl
  keepsNulls := by
    rintro cells _ ⟨⟩
    exact ⟨rfl, fun _ hnull => hnull⟩

def statsTable : ArrowTable :=
  ⟨["account_id", "event_timestamp", "event_id", "amount"],
    [[.str "a", .timestamp (.utc 0), .str "1", .int 10],
      [.str "b", .timestamp (.utc 0), .str "2", .int 20]]⟩

def statsRetriever : Retriever :=
  ⟨accountStore, fun viewRef => if viewRef = "account_stats@1.0.0" then some statsTable else none,
    sampleTyping, sampleTables⟩

def observe (values : Dict) (h : (values.map (·.1)).Nodup) : Observation :=
  ⟨values, .utc 0, h, .refl true⟩

/-- Two observations with values of the caller beside the join key. -/
def regionObservations : List Observation :=
  [observe [("account_id", .str "a"), ("region", .str "eu")] (by decide),
    observe [("region", .str "us"), ("account_id", .str "b")] (by decide)]

def countedObservations : List Observation :=
  [observe [("account_id", .str "a"), ("_row_id", .int 0)] (by decide),
    observe [("account_id", .str "b"), ("_row_id", .int 0)] (by decide)]

theorem stats_groups : requestedGroups ["account_stats@1.0.0:amount"] =
    [("account_stats@1.0.0", ["amount"])] := by decide +kernel

theorem stats_unambiguous :
    statsRetriever.Unambiguous regionObservations ["account_stats@1.0.0:amount"] where
  representable := by decide
  sameKeys := by decide
  names := by decide +kernel
  joinedNames first hfirst done group rest hsplit _ := by
    obtain rfl := Option.some.inj hfirst
    rw [stats_groups] at hsplit
    obtain ⟨rfl, rfl, rfl⟩ := singleton_eq_append_cons hsplit
    decide +kernel
  typed _ _ _ _ := rfl
  comparable _ group hgroup view entity table hview hentity htable _ := by
    rw [stats_groups, List.mem_singleton] at hgroup
    subst hgroup
    cases hview
    cases hentity
    cases htable
    exact ⟨by decide +kernel, fun _ _ => rfl⟩
  untied _ group hgroup view entity _ _ observation _ := by
    rw [stats_groups, List.mem_singleton] at hgroup
    subst hgroup
    have hranks : ∀ a ∈ statsRetriever.storedRows "account_stats@1.0.0",
        ∀ b ∈ statsRetriever.storedRows "account_stats@1.0.0",
          windowRank (some a) = windowRank (some b) → a = b := by
      decide +kernel
    intro a ha b hb _ _ hrank _ name _
    rw [hranks a ha b hb hrank]

end Sample

end FeatureStore
