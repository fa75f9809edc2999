import FeatureStore.OnlineRead

/-!
# Two encodings of an event

An event reaches the online store as the ledger keeps it, in JSON, or through a typed table.
The typed values are written like the JSON ones only if those have the declared types and are no
infinity and no NaN, of which the ledger keeps null.
-/

namespace FeatureStore

/-- The values of a column of a type, as `to_pylist` gives them. -/
def ValueType.holds : ValueType → Value → Bool
  | _, .null => true
  | .string, .str _ => true
  | .int64, .int n => decide (-(2 ^ 63) ≤ n ∧ n < 2 ^ 63)
  | .float64, .float token => isFloatToken token
  | .bool, .bool _ => true
  | .timestamp, .timestamp t => decide (t.utcOffset = some 0)
  | _, _ => false

/-- `pyarrow.compute.cast` to the type of a column, value by value: the column holds
what it gives, a value that the column can hold stays as it is, and only null becomes null. -/
structure ArrowCast where
  cast : ValueType → Value → Option Value
  typed : ∀ dtype value result, cast dtype value = some result → dtype.holds result = true
  same : ∀ dtype value, dtype.holds value = true → cast dtype value = some value
  valid : ∀ dtype value, cast dtype value = some .null → value = .null

/-- A value that is written as its column writes it: one that the column can hold, or
the `str` of the UTC timestamp that it denotes. -/
def ArrowCast.WrittenAlike (arrow : ArrowCast) (dtype : ValueType) (value : Value) : Prop :=
  dtype.holds value = true ∨
    ∃ t : DateTime, dtype = .timestamp ∧ value = .str t.str ∧
      arrow.cast .timestamp value = some (.timestamp t)

/-- The cast of the named columns of a row. -/
def ArrowCast.columns (arrow : ArrowCast) (declared : List (String × ValueType)) (values : Dict) :
    Option Dict :=
  declared.mapM fun column => do
    let value ← values.lookup column.1
    let result ← arrow.cast column.2 value
    return (column.1, result)

/-- The declared columns of the features of a view. -/
def Manifest.FeatureView.columns (view : Manifest.FeatureView) : List (String × ValueType) :=
  view.features.map fun feature => (feature.name, feature.dtype)

/-- `_validate_output` on the row of an event. A name that is selected twice is not found
again in the selection. -/
def ArrowCast.validateOutput (arrow : ArrowCast) (entity : Manifest.Entity)
    (view : Manifest.FeatureView) (event : StreamFeatureEvent) : Option OfflineRow :=
  if (entity.joinKeys.map (·.1) ++ ["event_timestamp", "event_id"] ++
      view.columns.map (·.1)).Nodup then do
    let entityValues ← arrow.columns entity.joinKeys event.entityValues
    let values ← arrow.columns view.columns event.values
    return .dated entityValues event.eventTimestamp.asUtc (some event.eventId) values
  else none

section Columns

variable {arrow : ArrowCast} {dtype : ValueType} {value result : Value}

/-- A typed value is a scalar that JSON can write. -/
theorem asJson_of_holds (h : dtype.holds value = true) :
    value.isWritable = true ∧ value.normal = value.asJson := by
  cases value with
  | list items => cases dtype <;> cases h
  | dict members => cases dtype <;> cases h
  | null => exact ⟨rfl, rfl⟩
  | bool b => exact ⟨rfl, rfl⟩
  | int n => exact ⟨rfl, rfl⟩
  | str s => exact ⟨rfl, rfl⟩
  | timestamp t => exact ⟨rfl, rfl⟩
  | float token =>
      cases dtype with
      | float64 => exact ⟨h, rfl⟩
      | string => cases h
      | int64 => cases h
      | bool => cases h
      | timestamp => cases h

/-- A scalar is not the sorted form of another value. -/
theorem eq_of_sortKeys (hholds : dtype.holds result = true)
    (h : result.asJson = value.sortKeys) : result.asJson = value := by
  cases value with
  | list items =>
      cases result with
      | list others => cases dtype <;> cases hholds
      | _ => cases h
  | dict members =>
      cases result with
      | dict others => cases dtype <;> cases hholds
      | _ => cases h
  | _ => exact h

theorem writtenAlike_of_asJson (hcast : arrow.cast dtype value = some result)
    (h : result.asJson = value) : arrow.WrittenAlike dtype value := by
  have hholds := arrow.typed dtype value result hcast
  cases result with
  | timestamp t =>
      cases dtype with
      | timestamp =>
          subst h
          exact Or.inr ⟨t, rfl, rfl, hcast⟩
      | string => cases hholds
      | int64 => cases hholds
      | float64 => cases hholds
      | bool => cases hholds
  | list items => cases dtype <;> cases hholds
  | dict members => cases dtype <;> cases hholds
  | _ => exact Or.inl (h ▸ hholds)

/-- The cast of a JSON value is written like it exactly if the value has the type or is
the text of its timestamp. -/
theorem normal_cast_iff (hjson : value.isJson = true)
    (hcast : arrow.cast dtype value = some result) :
    result.normal = value.normal ↔ arrow.WrittenAlike dtype value := by
  have hholds := arrow.typed dtype value result hcast
  have hvalue : value.normal = value.sortKeys := by
    rw [Value.normal, value.asJson_of_isJson hjson]
  rw [(asJson_of_holds hholds).2, hvalue]
  constructor
  · exact fun hsame => writtenAlike_of_asJson hcast (eq_of_sortKeys hholds hsame)
  · rintro (htyped | ⟨t, rfl, rfl, htext⟩)
    · obtain rfl := Option.some.inj ((arrow.same dtype value htyped).symm.trans hcast)
      rw [← hvalue, (asJson_of_holds htyped).2]
    · obtain rfl := Option.some.inj (htext.symm.trans hcast)
      rfl

/-- So is the text of its field in the online store. -/
theorem jsonText_cast_iff (hjson : value.isJson = true)
    (hcast : arrow.cast dtype value = some result) :
    result.jsonText = value.jsonText ↔ arrow.WrittenAlike dtype value := by
  obtain ⟨hwritable, hnormal⟩ := asJson_of_holds (arrow.typed dtype value result hcast)
  constructor
  · intro htext
    rw [← Value.jsonText_asJson] at htext
    exact writtenAlike_of_asJson hcast (Value.jsonText_inj hwritable hjson htext)
  · rintro (htyped | ⟨t, rfl, rfl, htext⟩)
    · rw [Option.some.inj ((arrow.same dtype value htyped).symm.trans hcast)]
    · rw [← Option.some.inj (htext.symm.trans hcast)]
      rfl

/-- A typed value is written as no container. -/
theorem not_container_of_holds (h : dtype.holds result = true) :
    (∀ items, result.asJson ≠ .list items) ∧ ∀ members, result.asJson ≠ .dict members := by
  cases result with
  | list items => cases dtype <;> cases h
  | dict members => cases dtype <;> cases h
  | _ =>
      constructor
      · intro items hlist
        cases hlist
      · intro members hdict
        cases hdict

/-- The cast of a value is no dump of an infinity or NaN, which is null. -/
theorem isFinite_of_cast (hcast : arrow.cast dtype value = some result)
    (h : result.asJson = value.jsonMode.sortKeys) : value.isFinite = true := by
  have hholds := arrow.typed dtype value result hcast
  have hasJson := eq_of_sortKeys hholds h
  obtain ⟨hlist, hdict⟩ := not_container_of_holds hholds
  cases value with
  | list items => exact absurd (hasJson.trans (Value.jsonMode_list items)) (hlist _)
  | dict members => exact absurd (hasJson.trans (Value.jsonMode_dict members)) (hdict _)
  | float token =>
      by_contra hinfinite
      have hnull : (Value.float token).jsonMode = .null := by
        rw [Value.jsonMode_scalar (fun _ h => by cases h) (fun _ h => by cases h),
          if_neg hinfinite]
      rw [hnull] at hasJson
      have hresult : result = .null := by
        cases result <;> first | rfl | cases hasJson
      cases arrow.valid dtype _ (hresult ▸ hcast)
  | null => rfl
  | bool b => rfl
  | int n => rfl
  | str text => rfl
  | timestamp t => rfl

/-- The cast of a JSON value is written like its dump exactly if the value is no infinity and no
NaN and is written alike. -/
theorem normal_cast_dump_iff (hjson : value.isJson = true)
    (hcast : arrow.cast dtype value = some result) :
    result.normal = value.jsonMode.normal ↔
      arrow.WrittenAlike dtype value ∧ value.isFinite = true := by
  constructor
  · intro hsame
    have hdump : value.jsonMode.normal = value.jsonMode.sortKeys := by
      rw [Value.normal, value.jsonMode.asJson_of_isJson (Value.isJson_jsonMode hjson)]
    have hfinite : value.isFinite = true := by
      apply isFinite_of_cast hcast
      rw [← hdump, ← hsame, (asJson_of_holds (arrow.typed dtype value result hcast)).2]
    rw [value.jsonMode_of_isFinite hfinite, normal_cast_iff hjson hcast] at hsame
    exact ⟨hsame, hfinite⟩
  · rintro ⟨hwritten, hfinite⟩
    rw [value.jsonMode_of_isFinite hfinite, (normal_cast_iff hjson hcast).mpr hwritten]

/-- So is the text of its field in the online store. -/
theorem jsonText_cast_dump_iff (hjson : value.isJson = true)
    (hcast : arrow.cast dtype value = some result) :
    result.jsonText = value.jsonMode.jsonText ↔
      arrow.WrittenAlike dtype value ∧ value.isFinite = true := by
  constructor
  · intro htext
    have hwritable := (asJson_of_holds (arrow.typed dtype value result hcast)).1
    have hsame : result.asJson = value.jsonMode := by
      rw [← Value.jsonText_asJson] at htext
      exact Value.jsonText_inj hwritable (Value.isJson_jsonMode hjson) htext
    rw [← normal_cast_dump_iff hjson hcast, Value.normal, Value.normal, hsame,
      value.jsonMode.asJson_of_isJson (Value.isJson_jsonMode hjson)]
  · rintro ⟨hwritten, hfinite⟩
    rw [value.jsonMode_of_isFinite hfinite, (jsonText_cast_iff hjson hcast).mpr hwritten]

/-- The cast keeps the names of the columns and casts the value of each. -/
theorem columns_spec {declared : List (String × ValueType)} {values results : Dict}
    (h : arrow.columns declared values = some results) :
    results.map (·.1) = declared.map (·.1) ∧ ∀ column ∈ declared, ∃ value result,
      values.lookup column.1 = some value ∧ arrow.cast column.2 value = some result ∧
        (column.1, result) ∈ results := by
  induction declared generalizing results with
  | nil =>
      cases h
      exact ⟨rfl, nofun⟩
  | cons column rest ih =>
      rw [ArrowCast.columns, List.mapM_cons] at h
      obtain ⟨first, hfirst, h⟩ := Option.bind_eq_some_iff.mp h
      obtain ⟨others, hothers, h⟩ := Option.bind_eq_some_iff.mp h
      obtain ⟨value, hvalue, hfirst⟩ := Option.bind_eq_some_iff.mp hfirst
      obtain ⟨result, hresult, hfirst⟩ := Option.bind_eq_some_iff.mp hfirst
      cases hfirst
      cases h
      obtain ⟨hnames, hcolumns⟩ := ih hothers
      constructor
      · rw [List.map_cons, List.map_cons, hnames]
      · rw [List.forall_mem_cons]
        refine ⟨⟨value, result, hvalue, hresult, List.mem_cons_self⟩, fun other hother => ?_⟩
        obtain ⟨value', result', hvalue', hresult', hmem⟩ := hcolumns other hother
        exact ⟨value', result', hvalue', hresult', List.mem_cons_of_mem _ hmem⟩

end Columns

/-- A materialized event has the key and the fields of the streamed one, and its key is
the one that a read computes. -/
structure EncodesAlike (codec : OnlineCodec) {d : StreamDeployment} {store : RegistryStore}
    {registered : RegisteredView store} (handled : HandledEvent d registered)
    (materialized : StreamFeatureEvent) : Prop where
  key : codec.eventKey materialized = codec.eventKey handled.durable
  fields : codec.fieldArguments materialized = codec.fieldArguments handled.durable
  read : ∀ values : Dict, SameEntity registered.joinKeys values handled.event.entityValues →
    codec.entityKey registered.view.ref (keyValues registered.joinKeys values) =
      codec.eventKey materialized

section Agreement

variable {d : StreamDeployment} {sha256 : String → String} {store : RegistryStore}
  {registered : RegisteredView store} {arrow : ArrowCast}

/-- Typed columns are written like the dump of a dictionary exactly if every value is, without
infinities and NaN, and the dictionary has no others. -/
theorem normal_columns_iff {declared : List (String × ValueType)}
    (hnodup : (declared.map (·.1)).Nodup) {values results : Dict}
    (hvalues : (values.map (·.1)).Nodup) (hjson : ∀ member ∈ values, member.2.isJson = true)
    (h : arrow.columns declared values = some results) :
    (Value.dict results).normal = (Value.dict (membersJsonMode values)).normal ↔
      (∀ key ∈ values.map (·.1), key ∈ declared.map (·.1)) ∧
        ∀ column ∈ declared, ∀ value, values.lookup column.1 = some value →
          arrow.WrittenAlike column.2 value ∧ value.isFinite = true := by
  obtain ⟨hnames, hcolumns⟩ := columns_spec h
  have hresults : (results.map (·.1)).Nodup := hnames ▸ hnodup
  have hdumped : ((membersJsonMode values).map (·.1)).Nodup := by
    rwa [membersJsonMode_keys]
  rw [Value.normal_dict_iff hresults hdumped]
  constructor
  · intro hlookup
    constructor
    · intro key hkey
      rw [← hnames, ← Dictionaries.lookup_isSome_iff, ← @Option.isSome_map _ _ Value.normal,
        hlookup, Option.isSome_map, Dictionaries.lookup_isSome_iff, membersJsonMode_keys]
      exact hkey
    · intro column hcolumn value hvalue
      obtain ⟨value', result, hvalue', hcast, hmem⟩ := hcolumns column hcolumn
      obtain rfl := Option.some.inj (hvalue.symm.trans hvalue')
      have hsame := hlookup column.1
      rw [(Dictionaries.lookup_eq_some_iff hresults).mpr hmem, lookup_membersJsonMode, hvalue]
        at hsame
      rw [Dictionaries.lookup_eq_some_iff hvalues] at hvalue
      exact (normal_cast_dump_iff (hjson _ hvalue) hcast).mp (Option.some.inj hsame)
  · rintro ⟨honly, halike⟩ key
    rw [lookup_membersJsonMode]
    by_cases hkey : key ∈ declared.map (·.1)
    · obtain ⟨column, hcolumn, rfl⟩ := List.mem_map.mp hkey
      obtain ⟨value, result, hvalue, hcast, hmem⟩ := hcolumns column hcolumn
      have hwritten := halike column hcolumn value hvalue
      rw [(Dictionaries.lookup_eq_some_iff hresults).mpr hmem, hvalue, Option.map_some,
        Option.map_some, Option.map_some]
      rw [Dictionaries.lookup_eq_some_iff hvalues] at hvalue
      rw [(normal_cast_dump_iff (hjson _ hvalue) hcast).mpr hwritten]
    · rw [Dictionaries.lookup_eq_none_iff.mpr (hnames ▸ hkey),
        Dictionaries.lookup_eq_none_iff.mpr (mt (honly key) hkey)]
      rfl

theorem columns_writable {declared : List (String × ValueType)} {values results : Dict}
    (h : arrow.columns declared values = some results) :
    ∀ member ∈ results, member.2.isWritable = true := by
  induction declared generalizing results with
  | nil =>
      cases h
      nofun
  | cons column rest ih =>
      rw [ArrowCast.columns, List.mapM_cons] at h
      obtain ⟨first, hfirst, h⟩ := Option.bind_eq_some_iff.mp h
      obtain ⟨others, hothers, h⟩ := Option.bind_eq_some_iff.mp h
      obtain ⟨value, -, hfirst⟩ := Option.bind_eq_some_iff.mp hfirst
      obtain ⟨result, hresult, hfirst⟩ := Option.bind_eq_some_iff.mp hfirst
      cases hfirst
      cases h
      rw [List.forall_mem_cons]
      exact ⟨(asJson_of_holds (arrow.typed _ _ _ hresult)).1, ih hothers⟩

/-- The selection of a row that is found has distinct names. -/
theorem validateOutput_spec {entity : Manifest.Entity} {view : Manifest.FeatureView}
    {event : StreamFeatureEvent} {row : OfflineRow}
    (h : arrow.validateOutput entity view event = some row) :
    ((entity.joinKeys.map (·.1)).Nodup ∧ (view.columns.map (·.1)).Nodup) ∧
      ∃ entityValues values, arrow.columns entity.joinKeys event.entityValues = some entityValues ∧
        arrow.columns view.columns event.values = some values ∧
        row = ⟨entityValues, event.eventTimestamp.asUtc, some event.eventId, values,
          dateOf event.eventTimestamp.asUtc, rfl⟩ := by
  rw [ArrowCast.validateOutput] at h
  split at h
  · rename_i hnodup
    obtain ⟨entityValues, hkeys, h⟩ := Option.bind_eq_some_iff.mp h
    obtain ⟨values, hvalues, h⟩ := Option.bind_eq_some_iff.mp h
    cases h
    exact ⟨⟨entity.joinKeys_nodup, (List.nodup_append.mp hnodup).2.1⟩, entityValues, values, hkeys,
      hvalues, rfl⟩
  · cases h

/-- Fields are those of the dump exactly if every feature value is written alike, without
infinities and NaN. -/
theorem fieldArguments_columns_iff {declared : List (String × ValueType)}
    (hnodup : (declared.map (·.1)).Nodup) {event materialized : StreamFeatureEvent}
    (hvalues : (event.values.map (·.1)).Nodup)
    (hjson : ∀ member ∈ event.values, member.2.isJson = true)
    (hnamed : ∀ name, name ∈ event.values.map (·.1) ↔ name ∈ declared.map (·.1))
    (h : arrow.columns declared event.values = some materialized.values) :
    (jsonCodec sha256).fieldArguments materialized =
        (jsonCodec sha256).fieldArguments (canonicalEventPayload event) ↔
      ∀ column ∈ declared, ∀ value, event.values.lookup column.1 = some value →
        arrow.WrittenAlike column.2 value ∧ value.isFinite = true := by
  obtain ⟨hnames, hcolumns⟩ := columns_spec h
  have hresults : (materialized.values.map (·.1)).Nodup := hnames ▸ hnodup
  have hdumped : ((canonicalEventPayload event).values.map (·.1)).Nodup := by
    rwa [canonicalEventPayload, membersJsonMode_keys]
  have hlookup : ∀ name, (canonicalEventPayload event).values.lookup name =
      (event.values.lookup name).map Value.jsonMode :=
    fun name => lookup_membersJsonMode _ _
  constructor
  · intro hfields column hcolumn value hvalue
    obtain ⟨value', result, hvalue', hcast, hmem⟩ := hcolumns column hcolumn
    obtain rfl := Option.some.inj (hvalue.symm.trans hvalue')
    have hsame := congrArg (List.lookup column.1) hfields
    rw [lookup_fieldArguments hresults, lookup_fieldArguments hdumped,
      (Dictionaries.lookup_eq_some_iff hresults).mpr hmem, hlookup, hvalue] at hsame
    rw [Dictionaries.lookup_eq_some_iff hvalues] at hvalue
    exact (jsonText_cast_dump_iff (hjson _ hvalue) hcast).mp (Option.some.inj hsame)
  · intro halike
    have hkeys : ∀ items : Dict, (items.map (·.1)).Nodup →
        ((items.map fun item => (item.1, (jsonCodec sha256).dumps item.2)).map (·.1)).Nodup := by
      intro items hitems
      rwa [List.map_map]
    apply sortByKey_congr (hkeys _ hresults)
    apply Dictionaries.perm_of_lookup (hkeys _ hresults) (hkeys _ hdumped)
    intro name
    rw [Dictionaries.lookup_map, Dictionaries.lookup_map, hlookup]
    by_cases hname : name ∈ declared.map (·.1)
    · obtain ⟨column, hcolumn, rfl⟩ := List.mem_map.mp hname
      obtain ⟨value, result, hvalue, hcast, hmem⟩ := hcolumns column hcolumn
      have hwritten := halike column hcolumn value hvalue
      rw [(Dictionaries.lookup_eq_some_iff hresults).mpr hmem, hvalue, Option.map_some,
        Option.map_some, Option.map_some]
      rw [Dictionaries.lookup_eq_some_iff hvalues] at hvalue
      exact congrArg some ((jsonText_cast_dump_iff (hjson _ hvalue) hcast).mpr hwritten)
    · rw [Dictionaries.lookup_eq_none_iff.mpr (hnames ▸ hname),
        Dictionaries.lookup_eq_none_iff.mpr (mt (hnamed name).mp hname)]
      rfl

/-- A dictionary whose keys are all declared is finite if its declared values are. -/
theorem isFinite_of_columns {declared : List (String × ValueType)} {values : Dict}
    (hnodup : (values.map (·.1)).Nodup)
    (honly : ∀ key ∈ values.map (·.1), key ∈ declared.map (·.1))
    (h : ∀ column ∈ declared, ∀ value, values.lookup column.1 = some value →
      value.isFinite = true) : (Value.dict values).isFinite = true := by
  rw [Value.isFinite_dict]
  intro member hmember
  obtain ⟨column, hcolumn, hname⟩ := List.mem_map.mp (honly _ (List.mem_map_of_mem hmember))
  apply h column hcolumn
  rw [hname]
  exact (Dictionaries.lookup_eq_some_iff hnodup).mpr hmember

/-- The value under a key of a finite dictionary is finite. -/
theorem isFinite_of_lookup {values : Dict} (h : (Value.dict values).isFinite = true) {key : String}
    {value : Value} (hvalue : values.lookup key = some value) : value.isFinite = true := by
  obtain ⟨before, after, hsplit, -⟩ := List.lookup_eq_some_iff.mp hvalue
  rw [Value.isFinite_dict] at h
  exact h (key, value) (by simp [hsplit])

/-- The two paths encode a handled event alike exactly if its keys are the join keys, it has no
infinity and no NaN, and every value is written as its column writes it. -/
theorem encodings_agree_iff (handled : HandledEvent d registered) {row : OfflineRow}
    {materialized : StreamFeatureEvent}
    (hrow : arrow.validateOutput registered.entity registered.view handled.event = some row)
    (hevent : row.streamEvent registered.view.ref = .ok materialized)
    (hdigest : HexDigest sha256 (entityTexts [handled.durable, materialized])) :
    EncodesAlike (jsonCodec sha256) handled materialized ↔
      (∀ key ∈ handled.event.entityValues.map (·.1), key ∈ registered.joinKeys) ∧
      handled.event.isFinite = true ∧
      (∀ column ∈ registered.entity.joinKeys, ∀ value,
        handled.event.entityValues.lookup column.1 = some value →
          arrow.WrittenAlike column.2 value) ∧
      ∀ column ∈ registered.view.columns, ∀ value,
        handled.event.values.lookup column.1 = some value →
          arrow.WrittenAlike column.2 value := by
  obtain ⟨hnodup, hloaded⟩ := handled.member_loaded handled.entityValues
  obtain ⟨hvaluesNodup, hvaluesLoaded⟩ := handled.member_loaded handled.values
  obtain ⟨hdisjoint, results, values, hkeys, hvalues, rfl⟩ := validateOutput_spec hrow
  obtain ⟨-, hview, hentity, -, hmaterialized⟩ := streamEvent_ok hevent
  have hnamed : ∀ name, name ∈ handled.event.values.map (·.1) ↔
      name ∈ registered.view.columns.map (·.1) := by
    intro name
    rw [handled.mem_values_iff, Manifest.FeatureView.columns, List.map_map, List.mem_map]
    rfl
  have hfields := @fieldArguments_columns_iff sha256 arrow _ hdisjoint.2 handled.event materialized
    hvaluesNodup (fun member hmember => member.2.isJson_of_isLoaded (hvaluesLoaded member hmember))
    hnamed (by rw [hmaterialized]; exact hvalues)
  have hwritable : (Value.dict materialized.entityValues).isWritable = true := by
    rw [hentity, Value.isWritable_dict]
    exact columns_writable hkeys
  have hdurableView : handled.durable.featureView = registered.view.ref := handled.featureView
  have hkey : (jsonCodec sha256).eventKey materialized =
      (jsonCodec sha256).eventKey handled.durable ↔
        (Value.dict results).normal =
          (Value.dict (membersJsonMode handled.event.entityValues)).normal := by
    rw [OnlineCodec.eventKey, OnlineCodec.eventKey, entityKey_inj hdigest (by simp [entityTexts])
      (by simp [entityTexts]), Value.canonicalText_inj hwritable handled.writable, hentity, hview,
      hdurableView, eq_self_iff_true, true_and]
    rfl
  have hcolumns := normal_columns_iff registered.entity.joinKeys_nodup hnodup
    (fun member hmember => member.2.isJson_of_isLoaded (hloaded member hmember)) hkeys
  rw [StreamFeatureEvent.isFinite, Bool.and_eq_true]
  constructor
  · intro halike
    obtain ⟨honly, hwritten⟩ := hcolumns.mp (hkey.mp halike.key)
    have hfeatures := hfields.mp halike.fields
    refine ⟨honly, ⟨?_, ?_⟩, ?_, ?_⟩
    · exact isFinite_of_columns hnodup honly fun column hcolumn value hvalue =>
        (hwritten column hcolumn value hvalue).2
    · exact isFinite_of_columns hvaluesNodup (fun name => (hnamed name).mp)
        fun column hcolumn value hvalue => (hfeatures column hcolumn value hvalue).2
    · exact fun column hcolumn value hvalue => (hwritten column hcolumn value hvalue).1
    · exact fun column hcolumn value hvalue => (hfeatures column hcolumn value hvalue).1
  · rintro ⟨honly, ⟨hfiniteKeys, hfiniteValues⟩, hwritten, hfeatures⟩
    have hsame := hkey.mpr (hcolumns.mpr ⟨honly, fun column hcolumn value hvalue =>
      ⟨hwritten column hcolumn value hvalue, isFinite_of_lookup hfiniteKeys hvalue⟩⟩)
    refine ⟨hsame, hfields.mpr fun column hcolumn value hvalue =>
      ⟨hfeatures column hcolumn value hvalue, isFinite_of_lookup hfiniteValues hvalue⟩, ?_⟩
    intro request hrequest
    rw [hsame, handled.read_key honly hfiniteKeys hrequest]

end Agreement

section Sample

def sessionEntity : Manifest.Entity := ⟨"session", [("started_at", .timestamp)], by decide⟩

def sessionView : Manifest.FeatureView :=
  ⟨"session_stats", "1.0.0", "session", [⟨"clicks", .int64, "", none⟩], "sessions",
    "SELECT * FROM source", none, none, "", none, by decide⟩

def sessionStore : RegistryStore :=
  ⟨⟨[⟨.entity sessionEntity, "", 0⟩, ⟨.featureView sessionView, "", 0⟩], by decide, by decide⟩,
    .empty⟩

def sessionRegistered : RegisteredView sessionStore :=
  ⟨sessionView, sessionEntity, rfl, rfl, by decide, by decide⟩

def sessionStart : Instant := 1704189600000000

/-- The cast that reads one text as the timestamp that it denotes. -/
def sessionCast : ArrowCast where
  cast dtype value :=
    if dtype.holds value then some value
    else if dtype = .timestamp ∧ value = .str "2024-01-02T10:00:00+00:00" then
      some (.timestamp (.utc sessionStart))
    else none
  typed dtype value result h := by
    split at h
    · rename_i hholds
      cases h
      exact hholds
    · split at h
      · rename_i htext
        cases h
        rw [htext.1]
        rfl
      · cases h
  same dtype value h := if_pos h
  valid dtype value h := by
    split at h
    · exact Option.some.inj h
    · split at h <;> cases h

def sessionPayload : Dict :=
  [("event_id", .str "s"), ("feature_view", .str "session_stats@1.0.0"),
    ("entity_values", .dict [("started_at", .str "2024-01-02T10:00:00+00:00")]),
    ("event_timestamp", .str "2024-01-02T10:00:00+00:00"), ("values", .dict [("clicks", .int 1)])]

/-- An event of a session that is known by its start. -/
def sessionHandled : HandledEvent accountDeployment sessionRegistered where
  event := ⟨"s", "session_stats@1.0.0", [("started_at", .str "2024-01-02T10:00:00+00:00")],
    ⟨sessionStart, some 0⟩, [("clicks", .int 1)], by decide, rfl⟩
  payload := sessionPayload
  loaded := ⟨_, jsonLoads_jsonText (by decide)⟩
  entityValues := rfl
  values := rfl
  featureView := rfl
  checked := rfl
  representable := by decide

def sessionRow : OfflineRow :=
  ⟨[("started_at", .timestamp (.utc sessionStart))], sessionStart, some "s", [("clicks", .int 1)],
    dateOf sessionStart, rfl⟩

def sessionMaterialized : StreamFeatureEvent :=
  ⟨"s", "session_stats@1.0.0", [("started_at", .timestamp (.utc sessionStart))],
    .utc sessionStart, [("clicks", .int 1)], by decide, rfl⟩

def sessionDigest (text : String) : String :=
  if text = "\x7b\"started_at\":\"2024-01-02T10:00:00+00:00\"\x7d" then
    "e6530aad3ad132e4ece26b00d5cfacfd29ec176c9367338010246c4eef5c885c"
  else "902d8789cf8d4dd49081d920f7cb519be0aacec747ad8e8fb769ad2400ee57b3"

theorem sessionDigest_texts :
    HexDigest sessionDigest (entityTexts [sessionHandled.durable, sessionMaterialized]) where
  plain := by decide
  injective := by decide

theorem session_encodings_agree_iff :
    EncodesAlike (jsonCodec sessionDigest) sessionHandled sessionMaterialized ↔
      (∀ key ∈ sessionHandled.event.entityValues.map (·.1), key ∈ sessionRegistered.joinKeys) ∧
      sessionHandled.event.isFinite = true ∧
      (∀ column ∈ sessionRegistered.entity.joinKeys, ∀ value,
        sessionHandled.event.entityValues.lookup column.1 = some value →
          sessionCast.WrittenAlike column.2 value) ∧
      ∀ column ∈ sessionRegistered.view.columns, ∀ value,
        sessionHandled.event.values.lookup column.1 = some value →
          sessionCast.WrittenAlike column.2 value :=
  encodings_agree_iff sessionHandled (show _ = some sessionRow from rfl) rfl sessionDigest_texts

/-- The materialized session is stored under a key that no JSON request computes. -/
theorem session_key_differs :
    ¬∀ (arrow : ArrowCast) (d : StreamDeployment) (sha256 : String → String)
      (store : RegistryStore) (registered : RegisteredView store)
      (handled : HandledEvent d registered) (row : OfflineRow)
      (materialized : StreamFeatureEvent),
      arrow.validateOutput registered.entity registered.view handled.event = some row →
      row.streamEvent registered.view.ref = .ok materialized →
      HexDigest sha256 (entityTexts [handled.durable, materialized]) →
      EncodesAlike (jsonCodec sha256) handled materialized := by
  intro h
  have halike := h sessionCast accountDeployment sessionDigest sessionStore sessionRegistered
    sessionHandled sessionRow sessionMaterialized rfl rfl sessionDigest_texts
  have hkeys : (jsonCodec sessionDigest).eventKey sessionMaterialized ≠
      (jsonCodec sessionDigest).eventKey sessionHandled.durable := by decide
  exact hkeys halike.key

end Sample

end FeatureStore
