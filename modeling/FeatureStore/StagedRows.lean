import FeatureStore.OnlineRead

/-!
# Staged rows and the events in them

`_flush_view` unpacks the keys, the bookkeeping and the features of an event into one flat
dictionary, from which `_materialize` picks an event again. A name that is unpacked twice
keeps its last value, and the ledger has kept null for an infinity or NaN, so an event comes
back exactly if the names are distinct and its values finite.
-/

namespace FeatureStore

/-- `timestamp.date().isoformat()` -/
def dateText (date : Date) : String :=
  String.ofList (FixedWidth.render ((dateTemplate 'T').take 3)
    (civilOf (date * microsecondsPerDay)).fields)

/-- What `_flush_view` unpacks into the dictionary of a row, in this order. -/
def OfflineRow.items (row : OfflineRow) : Dict :=
  row.entityValues ++
    [("event_timestamp", .timestamp (.utc row.eventTimestamp)),
      ("event_id", optionValue .str row.eventId)] ++
    row.values ++ [("event_date", .str (dateText row.eventDate))]

/-- The flat dictionary of a row. -/
def OfflineRow.record (row : OfflineRow) : Dict := Dictionaries.ofItems row.items

/-- The validation of the `event_timestamp` of an event. What the model makes of a value
that is no timestamp yet is a parameter. -/
def validTimestamp (coerce : Value → Option DateTime) : Value → Option DateTime
  | .timestamp t => some t
  | .null => none
  | value => coerce value

/-- `StreamFeatureEvent(...)` on the values that `_materialize` passes. -/
def validateEvent (coerce : Value → Option DateTime) (viewRef : String) (eventId : Value)
    (entityValues : Dict) (eventTimestamp : Value) (values : Dict) :
    Except PyException StreamFeatureEvent :=
  match eventId with
  | .str eventId =>
      if hlength : 1 ≤ eventId.length ∧ eventId.length ≤ 256 then
        match validTimestamp coerce eventTimestamp with
        | none => .error ⟨.validation, "event_timestamp: Input should be a valid datetime"⟩
        | some timestamp =>
            if htimezone : timestamp.utcOffset.isSome = true then
              .ok ⟨eventId, viewRef, entityValues, timestamp, values, hlength, htimezone⟩
            else .error ⟨.validation, "event_timestamp must include a timezone"⟩
      else if eventId.length = 0 then
        .error ⟨.validation, "event_id: String should have at least 1 character"⟩
      else .error ⟨.validation, "event_id: String should have at most 256 characters"⟩
  | _ => .error ⟨.validation, "event_id: Input should be a valid string"⟩

/-- The event that `_materialize` makes of a stored dictionary. -/
def decodeRow (coerce : Value → Option DateTime) (viewRef : String)
    (joinKeys features : List String) (stored : Dict) : Except PyException StreamFeatureEvent := do
  let row := stored.filter fun item => decide (item.1 ≠ "event_date")
  let eventId ← dictItem row "event_id"
  let entityValues ← joinKeys.mapM (dictItem row)
  let eventTimestamp ← dictItem row "event_timestamp"
  let values ← features.mapM (dictItem row)
  validateEvent coerce viewRef eventId.2 entityValues eventTimestamp.2 values

/-- The names of the features of a view. -/
def RegisteredView.featureNames {store : RegistryStore} (registered : RegisteredView store) :
    List String :=
  registered.view.features.map (·.name)

/-- The columns of the staging table, by the names under which they are unpacked. -/
def RegisteredView.stagedNames {store : RegistryStore} (registered : RegisteredView store) :
    List String :=
  registered.joinKeys ++ ["event_timestamp", "event_id"] ++ registered.featureNames ++
    ["event_date"]

/-- The staged row of the event, which the ledger has kept, yields the id of the event, its
instant, its join keys and its features. -/
def DecodesBack (coerce : Value → Option DateTime) {d : StreamDeployment} {store : RegistryStore}
    {registered : RegisteredView store} (handled : HandledEvent d registered) : Prop :=
  ∃ row decoded,
    stagingRow registered.entity.consumed registered.view.consumed handled.durable = .ok row ∧
    decodeRow coerce registered.view.ref registered.joinKeys registered.featureNames row.record =
      .ok decoded ∧
    decoded.eventId = handled.event.eventId ∧
    decoded.eventTimestamp.asUtc = handled.event.eventTimestamp.asUtc ∧
    (∀ key ∈ registered.joinKeys,
      decoded.entityValues.lookup key = handled.event.entityValues.lookup key) ∧
    ∀ name ∈ registered.featureNames,
      decoded.values.lookup name = handled.event.values.lookup name

/-- No join key and no feature of the event is an infinity or NaN. -/
structure HandledEvent.FiniteColumns {d : StreamDeployment} {store : RegistryStore}
    {registered : RegisteredView store} (handled : HandledEvent d registered) : Prop where
  entityValues : ∀ key ∈ registered.joinKeys, ∀ value,
    handled.event.entityValues.lookup key = some value → value.isFinite = true
  values : ∀ name ∈ registered.featureNames, ∀ value,
    handled.event.values.lookup name = some value → value.isFinite = true

section Records

variable {row : OfflineRow}

/-- A row whose columns have distinct names is the dictionary of its items. -/
theorem record_of_nodup (h : (row.items.map (·.1)).Nodup) : row.record = row.items :=
  Dictionaries.ofItems_of_nodup h

theorem mem_items {item : String × Value} : item ∈ row.items ↔
    item ∈ row.entityValues ∨ item = ("event_timestamp", .timestamp (.utc row.eventTimestamp)) ∨
      item = ("event_id", optionValue .str row.eventId) ∨ item ∈ row.values ∨
      item = ("event_date", .str (dateText row.eventDate)) := by
  simp only [OfflineRow.items, List.mem_append, List.mem_cons, List.not_mem_nil, or_false, or_assoc]

/-- Without the partition column, a name is looked up among the features, then the bookkeeping,
then the keys. -/
theorem lookup_record {name : String} (h : name ≠ "event_date") : row.record.lookup name =
    (row.values.reverse.lookup name).or
      (if name = "event_id" then some (optionValue .str row.eventId)
        else if name = "event_timestamp" then some (.timestamp (.utc row.eventTimestamp))
        else row.entityValues.reverse.lookup name) := by
  have hdate : (name == "event_date") = false := beq_eq_false_iff_ne.mpr h
  rw [OfflineRow.record, Dictionaries.lookup_ofItems, OfflineRow.items]
  simp only [List.reverse_append, List.reverse_cons, List.reverse_nil, List.nil_append,
    List.cons_append, List.lookup_cons, List.lookup_append, hdate]
  by_cases hid : name = "event_id"
  · simp [hid]
  · by_cases htimestamp : name = "event_timestamp"
    · simp [htimestamp]
    · simp [hid, htimestamp, beq_eq_false_iff_ne.mpr hid, beq_eq_false_iff_ne.mpr htimestamp]

end Records

section Comprehensions

variable {keys : List String} {values others : Dict}

/-- A comprehension that does not raise has found every key. -/
theorem mapM_dictItem_ok {items : Dict} (h : keys.mapM (dictItem values) = .ok items) :
    (∀ key ∈ keys, key ∈ values.map (·.1)) ∧ items = keyValues keys values := by
  have hmem : ∀ key ∈ keys, key ∈ values.map (·.1) := by
    intro key hkey
    obtain ⟨item, -, hitem⟩ := (mem_of_mapM h).2 key hkey
    rw [← Dictionaries.lookup_isSome_iff, (dictItem_ok hitem).2]
    rfl
  exact ⟨hmem, Except.ok.inj (h.symm.trans (mapM_dictItem hmem))⟩

theorem keyValues_congr (h : ∀ key ∈ keys, values.lookup key = others.lookup key) :
    keyValues keys values = keyValues keys others := by
  apply List.filterMap_congr
  intro key hkey
  rw [h key hkey]

/-- The row of an event with the values of its join keys and features. -/
theorem stagingRow_of_names {entity : Entity} {view : FeatureView} {event : StreamFeatureEvent}
    (hkeys : ∀ key ∈ entity.joinKeys, key ∈ event.entityValues.map (·.1))
    (hnames : ∀ name ∈ view.features.map (·.name), name ∈ event.values.map (·.1)) :
    stagingRow entity view event = .ok ⟨keyValues entity.joinKeys event.entityValues,
      event.eventTimestamp.asUtc, some event.eventId,
      keyValues (view.features.map (·.name)) event.values, dateOf event.eventTimestamp.asUtc,
      rfl⟩ := by
  have hvalues : (view.features.mapM fun feature => dictItem event.values feature.name) =
      .ok (keyValues (view.features.map (·.name)) event.values) := by
    rw [← mapM_dictItem hnames, List.mapM_map]
    rfl
  rw [stagingRow, mapM_dictItem hkeys, hvalues]

end Comprehensions

section Decoding

variable {coerce : Value → Option DateTime} {viewRef : String} {joinKeys features : List String}
  {stored : Dict} {decoded : StreamFeatureEvent}

/-- A stored dictionary is decoded when it has every name other than the partition column,
and the values that these have there are valid. -/
theorem decodeRow_ok_iff : decodeRow coerce viewRef joinKeys features stored = .ok decoded ↔
    (∀ name ∈ joinKeys ++ features, name ≠ "event_date" ∧ name ∈ stored.map (·.1)) ∧
      ∃ eventId eventTimestamp, stored.lookup "event_id" = some eventId ∧
        stored.lookup "event_timestamp" = some eventTimestamp ∧
        validateEvent coerce viewRef eventId (keyValues joinKeys stored) eventTimestamp
          (keyValues features stored) = .ok decoded := by
  have hlookup := Dictionaries.lookup_filter_ne stored "event_date"
  have hmem : ∀ name, name ∈ (stored.filter fun item => decide (item.1 ≠ "event_date")).map (·.1) ↔
      name ≠ "event_date" ∧ name ∈ stored.map (·.1) := by
    intro name
    rw [← Dictionaries.lookup_isSome_iff, hlookup, ← Dictionaries.lookup_isSome_iff]
    by_cases hname : name = "event_date" <;> simp [hname]
  have hvalues : ∀ names : List String, (∀ name ∈ names, name ≠ "event_date") →
      keyValues names (stored.filter fun item => decide (item.1 ≠ "event_date")) =
        keyValues names stored := by
    intro names hnames
    apply keyValues_congr
    intro name hname
    rw [hlookup, if_neg (hnames name hname)]
  have hid := hlookup "event_id"
  have htimestamp := hlookup "event_timestamp"
  rw [if_neg (by decide)] at hid htimestamp
  constructor
  · intro h
    obtain ⟨eventId, hfoundId, h⟩ := ok_of_bind h
    obtain ⟨entityValues, hkeys, h⟩ := ok_of_bind h
    obtain ⟨eventTimestamp, hfoundTimestamp, h⟩ := ok_of_bind h
    obtain ⟨others, hfeatures, h⟩ := ok_of_bind h
    obtain ⟨hkeysMem, rfl⟩ := mapM_dictItem_ok hkeys
    obtain ⟨hfeaturesMem, rfl⟩ := mapM_dictItem_ok hfeatures
    have hnames : ∀ name ∈ joinKeys ++ features,
        name ≠ "event_date" ∧ name ∈ stored.map (·.1) := by
      intro name hname
      rw [← hmem]
      exact (List.mem_append.mp hname).elim (hkeysMem name) (hfeaturesMem name)
    refine ⟨hnames, eventId.2, eventTimestamp.2, ?_, ?_, ?_⟩
    · rw [← hid]
      exact (dictItem_ok hfoundId).2
    · rw [← htimestamp]
      exact (dictItem_ok hfoundTimestamp).2
    · rw [← hvalues _ fun name hname => (hnames name (List.mem_append_left _ hname)).1,
        ← hvalues _ fun name hname => (hnames name (List.mem_append_right _ hname)).1]
      exact h
  · rintro ⟨hnames, eventId, eventTimestamp, hstoredId, hstoredTimestamp, hvalid⟩
    have hkeys := fun name hname => hnames name (List.mem_append_left _ hname)
    have hfeatures := fun name hname => hnames name (List.mem_append_right _ hname)
    rw [decodeRow, dictItem, dictItem, hid, htimestamp, hstoredId, hstoredTimestamp,
      mapM_dictItem fun name hname => (hmem name).mpr (hkeys name hname),
      mapM_dictItem fun name hname => (hmem name).mpr (hfeatures name hname),
      hvalues _ fun name hname => (hkeys name hname).1,
      hvalues _ fun name hname => (hfeatures name hname).1]
    exact hvalid

theorem validateEvent_ok {eventId eventTimestamp : Value} {entityValues values : Dict}
    (h : validateEvent coerce viewRef eventId entityValues eventTimestamp values = .ok decoded) :
    eventId = .str decoded.eventId ∧
      validTimestamp coerce eventTimestamp = some decoded.eventTimestamp ∧
      decoded.entityValues = entityValues ∧ decoded.values = values := by
  unfold validateEvent at h
  split at h
  · split at h
    · split at h
      · cases h
      · rename_i timestamp htimestamp
        split at h
        · cases h
          exact ⟨rfl, htimestamp, rfl, rfl⟩
        · cases h
    · split at h <;> cases h
  · cases h

end Decoding

section Columns

variable {d : StreamDeployment} {coerce : Value → Option DateTime} {store : RegistryStore}
  {registered : RegisteredView store} {event : StreamFeatureEvent}

/-- The event has the join keys and the features of the view. -/
structure HasColumns (registered : RegisteredView store) (event : StreamFeatureEvent) : Prop where
  keys : ∀ key ∈ registered.joinKeys, key ∈ event.entityValues.map (·.1)
  features : ∀ name ∈ registered.featureNames, name ∈ event.values.map (·.1)

/-- What the ledger keeps of an event that has passed the checks has them. -/
theorem HandledEvent.hasColumns (handled : HandledEvent d registered) :
    HasColumns registered handled.durable := by
  obtain ⟨hkeys, hnames⟩ := checkSchema_ok handled.checked
  constructor
  · intro key hkey
    rw [durable, canonicalEventPayload, membersJsonMode_keys]
    exact hkeys key hkey
  · intro name hname
    rw [durable, canonicalEventPayload, membersJsonMode_keys, hnames,
      Manifest.FeatureView.consumed, List.map_map]
    exact hname

/-- The row that `_flush_view` writes for an event that has the columns. -/
def stagedRow (registered : RegisteredView store) (event : StreamFeatureEvent) : OfflineRow :=
  .dated (keyValues registered.joinKeys event.entityValues) event.eventTimestamp.asUtc
    (some event.eventId) (keyValues registered.featureNames event.values)

theorem stagingRow_registered (h : HasColumns registered event) :
    stagingRow registered.entity.consumed registered.view.consumed event =
      .ok (stagedRow registered event) := by
  have hnames : registered.view.consumed.features.map (·.name) = registered.featureNames := by
    rw [Manifest.FeatureView.consumed, List.map_map]
    rfl
  rw [stagingRow_of_names h.keys (hnames ▸ h.features), hnames]
  rfl

/-- The keys and the features of the row are there, under their names. -/
theorem stagedRow_names (h : HasColumns registered event) :
    (stagedRow registered event).entityValues.map (·.1) = registered.joinKeys ∧
      (stagedRow registered event).values.map (·.1) = registered.featureNames :=
  ⟨keyValues_keys h.keys, keyValues_keys h.features⟩

theorem stagedRow_items_names (h : HasColumns registered event) :
    (stagedRow registered event).items.map (·.1) = registered.stagedNames := by
  obtain ⟨hkeys, hvalues⟩ := stagedRow_names h
  rw [OfflineRow.items, RegisteredView.stagedNames, List.map_append, List.map_append,
    List.map_append, hkeys, hvalues]
  rfl

/-- Under distinct names a row keeps every value that is unpacked into it. -/
theorem lookup_record_of_mem (h : HasColumns registered event)
    (hdistinct : registered.stagedNames.Nodup) {item : String × Value}
    (hitem : item ∈ (stagedRow registered event).items) :
    (stagedRow registered event).record.lookup item.1 = some item.2 := by
  rw [← stagedRow_items_names h] at hdistinct
  rw [record_of_nodup hdistinct]
  exact (Dictionaries.lookup_eq_some_iff hdistinct).mpr hitem

/-- Then the picked keys and features are those of the event. -/
theorem decodeRow_of_distinct (h : HasColumns registered event)
    (hdistinct : registered.stagedNames.Nodup) :
    ∃ decoded, decodeRow coerce registered.view.ref registered.joinKeys registered.featureNames
        (stagedRow registered event).record = .ok decoded ∧
      decoded.eventId = event.eventId ∧
      decoded.eventTimestamp.asUtc = event.eventTimestamp.asUtc ∧
      (∀ key ∈ registered.joinKeys,
        decoded.entityValues.lookup key = event.entityValues.lookup key) ∧
      ∀ name ∈ registered.featureNames, decoded.values.lookup name = event.values.lookup name := by
  have hrecord : ∀ {item : String × Value}, item ∈ (stagedRow registered event).items →
      (stagedRow registered event).record.lookup item.1 = some item.2 :=
    fun hitem => lookup_record_of_mem h hdistinct hitem
  have hid := hrecord (mem_items.mpr (Or.inr (Or.inr (Or.inl rfl))))
  have htimestamp := hrecord (mem_items.mpr (Or.inr (Or.inl rfl)))
  have hpicked : ∀ {names : List String} {values : Dict},
      (∀ name ∈ names, name ∈ values.map (·.1)) →
      (∀ item ∈ keyValues names values, item ∈ (stagedRow registered event).items) →
      ∀ name ∈ names, (stagedRow registered event).record.lookup name = values.lookup name := by
    intro names values hnames hitems name hname
    obtain ⟨value, hvalue⟩ := Option.isSome_iff_exists.mp
      (Dictionaries.lookup_isSome_iff.mpr (hnames name hname))
    rw [hvalue]
    refine @hrecord (name, value) ?_
    apply hitems
    exact List.mem_filterMap.mpr ⟨name, hname, by rw [hvalue]; rfl⟩
  have hkeys := hpicked h.keys fun item hitem => mem_items.mpr (Or.inl hitem)
  have hfeatures := hpicked h.features fun item hitem =>
    mem_items.mpr (Or.inr (Or.inr (Or.inr (Or.inl hitem))))
  refine ⟨⟨event.eventId, registered.view.ref,
    keyValues registered.joinKeys (stagedRow registered event).record,
    .utc event.eventTimestamp.asUtc,
    keyValues registered.featureNames (stagedRow registered event).record,
    event.eventId_length, rfl⟩, ?_, rfl, DateTime.asUtc_utc _, ?_, ?_⟩
  · rw [decodeRow_ok_iff]
    refine ⟨fun name hname => ⟨?_, ?_⟩, _, _, hid, htimestamp, ?_⟩
    · rintro rfl
      rw [RegisteredView.stagedNames, List.nodup_append] at hdistinct
      refine hdistinct.2.2 "event_date" ?_ _ (List.mem_singleton_self _) rfl
      simp only [List.mem_append] at hname ⊢
      exact hname.imp_left Or.inl
    · rw [← Dictionaries.lookup_isSome_iff]
      cases List.mem_append.mp hname with
      | inl hkey =>
          rw [hkeys name hkey, Dictionaries.lookup_isSome_iff]
          exact h.keys name hkey
      | inr hfeature =>
          rw [hfeatures name hfeature, Dictionaries.lookup_isSome_iff]
          exact h.features name hfeature
    · exact dif_pos event.eventId_length
  · intro key hkey
    rw [lookup_keyValues, if_pos hkey]
    exact hkeys key hkey
  · intro name hname
    rw [lookup_keyValues, if_pos hname]
    exact hfeatures name hname

end Columns

section Finite

variable {d : StreamDeployment} {coerce : Value → Option DateTime} {store : RegistryStore}
  {registered : RegisteredView store} (handled : HandledEvent d registered)

/-- The columns of an event without infinities and NaN are kept as they are. -/
theorem HandledEvent.lookup_durable_columns (h : handled.FiniteColumns) :
    (∀ key ∈ registered.joinKeys,
      handled.durable.entityValues.lookup key = handled.event.entityValues.lookup key) ∧
    ∀ name ∈ registered.featureNames,
      handled.durable.values.lookup name = handled.event.values.lookup name := by
  have hkept : ∀ {values : Dict} {name : String},
      (∀ value, values.lookup name = some value → value.isFinite = true) →
      (membersJsonMode values).lookup name = values.lookup name := by
    intro values name hfinite
    rw [lookup_membersJsonMode]
    cases hvalue : values.lookup name with
    | none => rfl
    | some value => exact congrArg some (value.jsonMode_of_isFinite (hfinite value hvalue))
  exact ⟨fun key hkey => hkept (h.entityValues key hkey),
    fun name hname => hkept (h.values name hname)⟩

theorem HandledEvent.decodesBack_of_distinct (h : handled.FiniteColumns)
    (hdistinct : registered.stagedNames.Nodup) : DecodesBack coerce handled := by
  obtain ⟨hentity, hvalues⟩ := handled.lookup_durable_columns h
  have hinstant : handled.durable.eventTimestamp.asUtc = handled.event.eventTimestamp.asUtc :=
    DateTime.asUtc_utc _
  obtain ⟨decoded, hdecode, hid, htimestamp, hkeys, hfeatures⟩ :=
    @decodeRow_of_distinct coerce _ _ _ handled.hasColumns hdistinct
  exact ⟨_, decoded, stagingRow_registered handled.hasColumns, hdecode, hid,
    htimestamp.trans hinstant,
    fun key hkey => (hkeys key hkey).trans (hentity key hkey),
    fun name hname => (hfeatures name hname).trans (hvalues name hname)⟩

/-- The row of a kept event has no infinities and no NaN. -/
theorem HandledEvent.record_isFinite {name : String} {value : Value}
    (h : (stagedRow registered handled.durable).record.lookup name = some value) :
    value.isFinite = true := by
  rw [OfflineRow.record, Dictionaries.lookup_ofItems] at h
  obtain ⟨before, after, hsplit, -⟩ := List.lookup_eq_some_iff.mp h
  have hitem : (name, value) ∈ (stagedRow registered handled.durable).items := by
    rw [← List.mem_reverse, hsplit]
    exact List.mem_append_right _ List.mem_cons_self
  have hdumped : ∀ {names : List String} {values : Dict},
      (name, value) ∈ keyValues names (membersJsonMode values) → value.isFinite = true := by
    intro names values hmem
    obtain ⟨key, -, hkey⟩ := List.mem_filterMap.mp hmem
    obtain ⟨found, hfound, heq⟩ := Option.map_eq_some_iff.mp hkey
    cases heq
    rw [lookup_membersJsonMode] at hfound
    obtain ⟨original, -, rfl⟩ := Option.map_eq_some_iff.mp hfound
    exact original.isFinite_jsonMode
  rw [mem_items] at hitem
  rcases hitem with hkey | htimestamp | hid | hfeature | hdate
  · exact hdumped hkey
  · cases htimestamp
    rfl
  · cases hid
    rfl
  · exact hdumped hfeature
  · cases hdate
    rfl

/-- So an event that is decoded back had none. -/
theorem HandledEvent.finiteColumns_of_decodesBack (h : DecodesBack coerce handled) :
    handled.FiniteColumns := by
  obtain ⟨row, decoded, hrow, hdecode, -, -, hkeys, hfeatures⟩ := h
  obtain rfl := Except.ok.inj (hrow.symm.trans (stagingRow_registered handled.hasColumns))
  obtain ⟨-, eventId, eventTimestamp, -, -, hvalid⟩ := decodeRow_ok_iff.mp hdecode
  obtain ⟨-, -, hentity, hvalues⟩ := validateEvent_ok hvalid
  constructor
  · intro key hkey value hvalue
    rw [← hkeys key hkey, hentity, lookup_keyValues, if_pos hkey] at hvalue
    exact handled.record_isFinite hvalue
  · intro name hname value hvalue
    rw [← hfeatures name hname, hvalues, lookup_keyValues, if_pos hname] at hvalue
    exact handled.record_isFinite hvalue

end Finite

section Collisions

variable {d : StreamDeployment} {coerce : Value → Option DateTime} {store : RegistryStore}
  (registered : RegisteredView store)

/-- An event without feature values, whose id is not the value of its join keys. -/
def plainEvent : StreamFeatureEvent :=
  ⟨"b", registered.view.ref, registered.joinKeys.map fun key => (key, .str "a"), .utc 0,
    registered.featureNames.map fun name => (name, .null), b_length, .refl true⟩

def plainPayload : Dict :=
  [("event_id", .str "b"), ("feature_view", .str registered.view.ref),
    ("entity_values", .dict (plainEvent registered).entityValues),
    ("event_timestamp", .str "1970-01-01T00:00:00+00:00"),
    ("values", .dict (plainEvent registered).values)]

theorem names_of_map {α : Type} (names : List String) (value : α) :
    (names.map fun name => (name, value)).map (·.1) = names := by
  rw [List.map_map]
  exact List.map_id names

theorem lookup_of_map {α : Type} {names : List String} (value : α) {name : String}
    (h : name ∈ names) : (names.map fun name => (name, value)).lookup name = some value := by
  induction names with
  | nil => cases h
  | cons first rest ih =>
      rw [List.map_cons, List.lookup_cons]
      by_cases hfirst : name = first
      · rw [hfirst, beq_self_eq_true]
      · rw [beq_eq_false_iff_ne.mpr hfirst]
        exact ih ((List.mem_cons.mp h).resolve_left hfirst)

theorem plainPayload_loaded : (Value.dict (plainPayload registered)).isLoaded = true := by
  have hdict : ∀ (names : List String) (value : Value), names.Nodup → value.isLoaded = true →
      (Value.dict (names.map fun name => (name, value))).isLoaded = true := by
    intro names value hnodup hvalue
    rw [Value.isLoaded, Bool.and_eq_true, membersAreLoaded_iff, decide_eq_true_eq, names_of_map]
    refine ⟨fun member hmember => ?_, hnodup⟩
    obtain ⟨name, -, rfl⟩ := List.mem_map.mp hmember
    exact hvalue
  rw [Value.isLoaded, Bool.and_eq_true, membersAreLoaded_iff, decide_eq_true_eq]
  constructor
  · have hkeys := hdict registered.joinKeys (.str "a") registered.entity.joinKeys_nodup rfl
    have hfeatures := hdict registered.featureNames .null registered.view.features_nodup rfl
    simp only [plainPayload, List.mem_cons, List.not_mem_nil, or_false]
    rintro member (rfl | rfl | rfl | rfl | rfl)
    · rfl
    · rfl
    · exact hkeys
    · rfl
    · exact hfeatures
  · change ["event_id", "feature_view", "entity_values", "event_timestamp", "values"].Nodup
    decide

theorem plainEvent_checked : d.checkSchema registered.entity.consumed registered.view.consumed
    (plainEvent registered) = .ok () := by
  have hkeys : (plainEvent registered).entityValues.map (·.1) = registered.joinKeys :=
    names_of_map _ _
  have hvalues : (plainEvent registered).values.map (·.1) = registered.featureNames :=
    names_of_map _ _
  have hexpected : registered.view.consumed.features.map (·.name) = registered.featureNames := by
    rw [Manifest.FeatureView.consumed, List.map_map]
    rfl
  have hmissing : (registered.entity.consumed.joinKeys.filter fun key =>
      !registered.joinKeys.contains key) = [] := by
    rw [List.filter_eq_nil_iff]
    intro key (hkey : key ∈ registered.joinKeys)
    simpa using hkey
  have hsame : (registered.featureNames.all registered.featureNames.contains) = true := by
    rw [List.all_eq_true]
    exact fun name hname => List.contains_iff_mem.mpr hname
  simp only [StreamDeployment.checkSchema, hkeys, hvalues, hexpected, hmissing, hsame]
  apply forM_ok_iff.mpr
  intro feature hfeature
  have hname : feature.name ∈ registered.featureNames := by
    rw [← hexpected]
    exact List.mem_map_of_mem hfeature
  have hlookup : (plainEvent registered).values.lookup feature.name = some .null :=
    lookup_of_map _ hname
  simp only [dictItem, hlookup]
  rw [StreamDeployment.validateFeatureValue, if_pos]
  cases feature.dtype <;> rfl

def plainHandled (d : StreamDeployment) : HandledEvent d registered where
  event := plainEvent registered
  payload := plainPayload registered
  loaded := ⟨_, jsonLoads_jsonText (plainPayload_loaded registered)⟩
  entityValues := rfl
  values := rfl
  featureView := rfl
  checked := plainEvent_checked registered
  representable := (by decide : Instant.IsRepresentable (DateTime.utc 0).asUtc)

/-- The ledger keeps the plain event as it is. -/
theorem plainHandled_durable (d : StreamDeployment) :
    (plainHandled registered d).durable = plainEvent registered := by
  have hkept : ∀ (names : List String) (value : Value), value.isFinite = true →
      membersJsonMode (names.map fun name => (name, value)) =
        names.map fun name => (name, value) := by
    intro names value hvalue
    rw [membersJsonMode_eq_iff, Value.isFinite_dict]
    intro member hmember
    obtain ⟨name, -, rfl⟩ := List.mem_map.mp hmember
    exact hvalue
  rw [HandledEvent.durable, canonicalEventPayload]
  simp only [plainHandled, plainEvent, hkept _ (.str "a") rfl, hkept _ .null rfl]
  rfl

theorem plainEvent_hasColumns (d : StreamDeployment) :
    HasColumns registered (plainEvent registered) :=
  plainHandled_durable registered d ▸ (plainHandled registered d).hasColumns

theorem plainEvent_lookup (d : StreamDeployment) {name : String}
    (h : name ∈ registered.featureNames) :
    (stagedRow registered (plainEvent registered)).values.reverse.lookup name = some .null := by
  have hnames := (stagedRow_names (plainEvent_hasColumns registered d)).2
  have hnodup : ((stagedRow registered (plainEvent registered)).values.map (·.1)).Nodup := by
    rw [hnames]
    exact registered.view.features_nodup
  rw [← Dictionaries.lookup_perm (List.reverse_perm _).symm hnodup]
  change (keyValues registered.featureNames (plainEvent registered).values).lookup name = _
  rw [lookup_keyValues, if_pos h]
  exact lookup_of_map _ h

/-- If the plain event is decoded, no name is unpacked twice. -/
theorem distinct_of_decodesBack (d : StreamDeployment)
    (h : DecodesBack coerce (plainHandled registered d)) : registered.stagedNames.Nodup := by
  obtain ⟨row, decoded, hrow, hdecode, hid, -, hkeys, -⟩ := h
  rw [plainHandled_durable] at hrow
  obtain rfl := Except.ok.inj
    (hrow.symm.trans (stagingRow_registered (plainEvent_hasColumns registered d)))
  obtain ⟨hnames, eventId, eventTimestamp, hstoredId, hstoredTimestamp, hvalid⟩ :=
    decodeRow_ok_iff.mp hdecode
  obtain ⟨rfl, htimestamp, hentity, -⟩ := validateEvent_ok hvalid
  have hdate : ∀ name ∈ registered.joinKeys ++ registered.featureNames, name ≠ "event_date" :=
    fun name hname => (hnames name hname).1
  have hfeature : ∀ name ∈ registered.featureNames,
      (stagedRow registered (plainEvent registered)).record.lookup name = some .null := by
    intro name hname
    rw [lookup_record (hdate name (List.mem_append_right _ hname)),
      plainEvent_lookup registered d hname]
    rfl
  have hkey : ∀ key ∈ registered.joinKeys,
      (stagedRow registered (plainEvent registered)).record.lookup key = some (.str "a") := by
    intro key hmem
    have hpicked := hkeys key hmem
    rw [hentity, lookup_keyValues, if_pos hmem] at hpicked
    rw [hpicked]
    exact lookup_of_map _ hmem
  have hidFeature : "event_id" ∉ registered.featureNames := by
    intro hmem
    cases hstoredId.symm.trans (hfeature _ hmem)
  have htimestampFeature : "event_timestamp" ∉ registered.featureNames := by
    intro hmem
    obtain rfl := Option.some.inj (hstoredTimestamp.symm.trans (hfeature _ hmem))
    cases htimestamp
  have hidKey : "event_id" ∉ registered.joinKeys := by
    intro hmem
    have hsame := Value.str.inj (Option.some.inj (hstoredId.symm.trans (hkey _ hmem)))
    rw [hid] at hsame
    change "b" = "a" at hsame
    exact absurd hsame (by decide)
  have htimestampKey : "event_timestamp" ∉ registered.joinKeys := by
    intro hmem
    have hnone : (stagedRow registered (plainEvent registered)).values.reverse.lookup
        "event_timestamp" = none := by
      rw [Dictionaries.lookup_eq_none_iff, List.map_reverse, List.mem_reverse,
        (stagedRow_names (plainEvent_hasColumns registered d)).2]
      exact htimestampFeature
    have hsame := hkey _ hmem
    rw [lookup_record (by decide), hnone] at hsame
    cases hsame
  have hkeyFeature : ∀ name ∈ registered.joinKeys, name ∉ registered.featureNames := by
    intro name hmem hfeatureMem
    cases (hkey name hmem).symm.trans (hfeature name hfeatureMem)
  have hkeysNodup : registered.joinKeys.Nodup := registered.entity.joinKeys_nodup
  have hfeaturesNodup : registered.featureNames.Nodup := registered.view.features_nodup
  simp only [RegisteredView.stagedNames, List.nodup_append]
  refine ⟨⟨⟨hkeysNodup, by decide, ?_⟩, hfeaturesNodup, ?_⟩, List.nodup_singleton _, ?_⟩
  · rintro key hmem other hother rfl
    simp only [List.mem_cons, List.not_mem_nil, or_false] at hother
    cases hother with
    | inl heq => exact htimestampKey (heq ▸ hmem)
    | inr heq => exact hidKey (heq ▸ hmem)
  · rintro name hmem other hother rfl
    simp only [List.mem_append, List.mem_cons, List.not_mem_nil, or_false] at hmem
    rcases hmem with hkeyMem | rfl | rfl
    · exact hkeyFeature name hkeyMem hother
    · exact htimestampFeature hother
    · exact hidFeature hother
  · rintro name hmem other hother rfl
    obtain rfl := List.mem_singleton.mp hother
    simp only [List.mem_append, List.mem_cons, List.not_mem_nil, or_false] at hmem
    rcases hmem with (hkeyMem | heq | heq) | hfeatureMem
    · exact hdate _ (List.mem_append_left _ hkeyMem) rfl
    · exact absurd heq (by decide)
    · exact absurd heq (by decide)
    · exact hdate _ (List.mem_append_right _ hfeatureMem) rfl

theorem plainHandled_finiteColumns (d : StreamDeployment) :
    (plainHandled registered d).FiniteColumns := by
  have hfinite : ∀ (names : List String) (value : Value), value.isFinite = true →
      ∀ name ∈ names, ∀ found, (names.map fun name => (name, value)).lookup name = some found →
        found.isFinite = true := by
    intro names value hvalue name hname found hfound
    rw [lookup_of_map value hname] at hfound
    rwa [← Option.some.inj hfound]
  exact ⟨hfinite _ (.str "a") rfl, hfinite _ .null rfl⟩

end Collisions

section Sample

/-- The only feature of the view has the name of its join key. -/
def collidingManifest : RegistryManifest :=
  let view : Manifest.FeatureView :=
    ⟨"account_flags", "1.0.0", "account", [⟨"account_id", .string, "", none⟩], "accounts",
      "SELECT * FROM source", some "flags", none, "", none, by decide⟩
  ⟨[accountEntity], [⟨"accounts", "s3://accounts", "updated_at"⟩], [⟨"flags", "flags", none⟩],
    [view], []⟩

/-- The registry that has accepted the manifest. -/
def collidingStore : RegistryStore :=
  match RegistryStore.apply id 0 .empty collidingManifest with
  | .ok (store, _) => store
  | .error _ => .empty

def collidingRegistered : RegisteredView collidingStore :=
  ⟨⟨"account_flags", "1.0.0", "account", [⟨"account_id", .string, "", none⟩], "accounts",
    "SELECT * FROM source", some "flags", none, "", none, by decide⟩, accountEntity, rfl, rfl,
    by decide, by decide⟩

end Sample

end FeatureStore
