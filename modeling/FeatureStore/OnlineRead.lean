import FeatureStore.CanonicalJson
import FeatureStore.LatestRow
import FeatureStore.RegistryQueries

/-!
# Reading online what was streamed

`OnlineStore._read` on the texts of Redis. An event that the consumer has written is
found by the join keys of its entity alone, so only if it carries no other keys, and shown as it
was sent if it has no infinity and no NaN.
-/

namespace FeatureStore

/-- `FeatureView.ref`. -/
def Manifest.FeatureView.ref (view : Manifest.FeatureView) : String :=
  s!"{view.name}@{view.version}"

/-- The fields of a view that the consumer reads. -/
def Manifest.FeatureView.consumed (view : Manifest.FeatureView) : FeatureStore.FeatureView :=
  ⟨view.name, view.version, view.entity,
    view.features.map fun feature => ⟨feature.name, feature.dtype⟩,
    view.streamSource, view.qualityPolicy⟩

/-- The join keys of an entity, without their types. -/
def Manifest.Entity.consumed (entity : Manifest.Entity) : FeatureStore.Entity :=
  ⟨entity.name, entity.joinKeys.map (·.1)⟩

/-- `QueryResponse`. -/
structure QueryResponse where
  resolvedFeatures : List String
  rows : List Dict
  warnings : List RegistryWarning

/-- `grouped[view_ref].append(feature_name)` -/
def groupRef (groups : List (String × List String)) (ref : String × String) :
    List (String × List String) :=
  Dictionaries.setItem groups ref.1 ((groups.lookup ref.1).getD [] ++ [ref.2])

/-- `json.loads(raw)` of a stored field, which may be absent. -/
def loadField (raw : Option String) : Except PyException Value :=
  match raw with
  | none => .ok .null
  | some text =>
      match jsonLoads text with
      | some value => .ok value
      | none => .error (valueError "invalid JSON text")

/-- The columns of one view in a row of `_read`. The metrics are left out. -/
def readView (codec : OnlineCodec) (store : RegistryStore) (redis : RedisStore) (values row : Dict)
    (group : String × List String) : Except PyException Dict := do
  let view ← store.featureView group.1
  let entity ← store.entity view.entity
  let missing := (entity.joinKeys.map (·.1)).filter fun key =>
    !(values.map (·.1)).contains key
  if missing ≠ [] then
    throw (valueError s!"missing entity keys for {group.1}: {pythonList (sortedNames missing)}")
  else
    let entityValues ← (entity.joinKeys.map (·.1)).mapM (dictItem values)
    let stored := redis (codec.entityKey group.1 entityValues)
    let result := if stored = [] then "missing" else "present"
    group.2.foldlM (fun row name => do
        let value ← loadField (stored.lookup name)
        return Dictionaries.setItem row s!"{view.name}__{name}" value)
      (Dictionaries.setItem row s!"{view.name}__status" (.str result))

/-- `OnlineStore._read`. -/
def readOnline (codec : OnlineCodec) (store : RegistryStore) (redis : RedisStore)
    (entities : List Dict) (features : List String) (featureService : Option String) :
    Except PyException QueryResponse := do
  let resolved ← store.resolveFeatures features featureService
  let warnings ← store.warningsForQuery features featureService
  if entities = [] then return ⟨resolved, [], warnings⟩
  else
    let parts ← resolved.mapM splitLastColon
    let grouped := parts.foldl groupRef []
    let rows ← entities.mapM fun values =>
      grouped.foldlM (readView codec store redis values) values
    return ⟨resolved, rows, warnings⟩

/-- A registered view with its entity. Of the pattern for names, what matters here is
that no feature has a colon in its name or is named like a field of the script. -/
structure RegisteredView (store : RegistryStore) where
  view : Manifest.FeatureView
  entity : Manifest.Entity
  registered : store.featureView view.ref = .ok view
  entityRegistered : store.entity view.entity = .ok entity
  hasFeature : view.features ≠ []
  names : ∀ feature ∈ view.features, ':' ∉ feature.name.toList ∧
    feature.name ≠ timestampField ∧ feature.name ≠ idField

/-- An event that `_handle` takes out of a JSON message and accepts for a view. -/
structure HandledEvent (d : StreamDeployment) {store : RegistryStore}
    (registered : RegisteredView store) where
  event : StreamFeatureEvent
  payload : List (String × Value)
  loaded : ∃ message, jsonLoads message = some (.dict payload)
  entityValues : payload.lookup "entity_values" = some (.dict event.entityValues)
  values : payload.lookup "values" = some (.dict event.values)
  featureView : event.featureView = registered.view.ref
  checked : d.checkSchema registered.entity.consumed registered.view.consumed event = .ok ()
  representable : Instant.IsRepresentable event.eventTimestamp.asUtc

/-- The event as the ledger keeps it, which is what `_handle` buffers and writes online. -/
def HandledEvent.durable {d : StreamDeployment} {store : RegistryStore}
    {registered : RegisteredView store} (handled : HandledEvent d registered) :
    StreamFeatureEvent :=
  canonicalEventPayload handled.event

/-- The names of the join keys. -/
def RegisteredView.joinKeys {store : RegistryStore} (registered : RegisteredView store) :
    List String :=
  registered.entity.joinKeys.map (·.1)

/-- The references of all features of a view. -/
def RegisteredView.refs {store : RegistryStore} (registered : RegisteredView store) :
    List String :=
  (registered.view.features.map (·.name)).map fun name => s!"{registered.view.ref}:{name}"

/-- No event of the entity that a store accepts meanwhile is ahead of the event. -/
def Unsuperseded (codec : OnlineCodec) (joinKeys : List String) (event : StreamFeatureEvent)
    (redis : RedisStore) (after : List StreamFeatureEvent) : Prop :=
  ∀ earlier newer later, after = earlier ++ newer :: later →
    newer.featureView = event.featureView →
    SameEntity joinKeys newer.entityValues event.entityValues →
    (∃ next, (redis.upserts codec earlier).upsert? codec newer = some (next, true)) →
      newer.rank ≤ event.rank

/-- The row of a read says that the event is there and has exactly its feature values. -/
def RowShows (view : Manifest.FeatureView) (event : StreamFeatureEvent) (row : Dict) : Prop :=
  row.lookup s!"{view.name}__status" = some (.str "present") ∧
    ∀ feature ∈ view.features,
      row.lookup s!"{view.name}__{feature.name}" = event.values.lookup feature.name

/-- The canonical texts of the entities of events. -/
def entityTexts (events : List StreamFeatureEvent) : List String :=
  events.map fun event => (Value.dict event.entityValues).canonicalText

section Checks

variable {d : StreamDeployment} {store : RegistryStore} {registered : RegisteredView store}

/-- What the checks of `_handle` say of the dictionaries of an event. -/
theorem checkSchema_ok {entity : Entity} {view : FeatureView} {event : StreamFeatureEvent}
    (h : d.checkSchema entity view event = .ok ()) :
    (∀ key ∈ entity.joinKeys, key ∈ event.entityValues.map (·.1)) ∧
      (∀ name, name ∈ event.values.map (·.1) ↔ name ∈ view.features.map (·.name)) := by
  unfold StreamDeployment.checkSchema at h
  dsimp only at h
  split at h
  · cases h
  · rename_i hmissing
    split at h
    · rename_i hnames
      rw [Bool.and_eq_true, List.all_eq_true, List.all_eq_true] at hnames
      constructor
      · intro key hkey
        by_contra hnot
        apply hmissing
        apply List.ne_nil_of_mem
        rw [List.mem_filter]
        exact ⟨hkey, by simpa using hnot⟩
      · intro name
        constructor
        · exact fun hname => List.contains_iff_mem.mp (hnames.1 name hname)
        · exact fun hname => List.contains_iff_mem.mp (hnames.2 name hname)
    · cases h

namespace HandledEvent

variable (handled : HandledEvent d registered)

/-- The dictionaries of the payload are what `json.loads` returns. -/
theorem member_loaded {key : String} {members : Dict}
    (h : handled.payload.lookup key = some (.dict members)) :
    (members.map (·.1)).Nodup ∧ ∀ member ∈ members, member.2.isLoaded = true := by
  obtain ⟨message, hmessage⟩ := handled.loaded
  have hloaded := isLoaded_of_jsonLoads hmessage
  rw [Value.isLoaded, Bool.and_eq_true, membersAreLoaded_iff, decide_eq_true_eq] at hloaded
  rw [Dictionaries.lookup_eq_some_iff hloaded.2] at h
  have hdict := hloaded.1 _ h
  rw [Value.isLoaded, Bool.and_eq_true, membersAreLoaded_iff, decide_eq_true_eq] at hdict
  exact ⟨hdict.2, hdict.1⟩

theorem joinKeys_mem : ∀ key ∈ registered.joinKeys,
    key ∈ handled.event.entityValues.map (·.1) :=
  (checkSchema_ok handled.checked).1

theorem mem_values_iff (name : String) : name ∈ handled.event.values.map (·.1) ↔
    ∃ feature ∈ registered.view.features, feature.name = name := by
  rw [(checkSchema_ok handled.checked).2 name, Manifest.FeatureView.consumed, List.map_map,
    List.mem_map]
  rfl

theorem unreserved : handled.durable.Unreserved := by
  intro name hname
  rw [durable, canonicalEventPayload, membersJsonMode_keys] at hname
  obtain ⟨feature, hfeature, rfl⟩ := (handled.mem_values_iff name).mp hname
  exact (registered.names feature hfeature).2

/-- The dictionaries of the durable event have the keys of the event, and what `json.loads` can
return under them. -/
theorem durable_loaded :
    ((handled.durable.entityValues.map (·.1)).Nodup ∧
      ∀ member ∈ handled.durable.entityValues, member.2.isLoaded = true) ∧
    (handled.durable.values.map (·.1)).Nodup ∧
      ∀ member ∈ handled.durable.values, member.2.isLoaded = true := by
  have hdump : ∀ {key : String} {members : Dict},
      handled.payload.lookup key = some (.dict members) →
        ((membersJsonMode members).map (·.1)).Nodup ∧
          ∀ member ∈ membersJsonMode members, member.2.isLoaded = true := by
    intro key members hlookup
    obtain ⟨hnodup, hloaded⟩ := handled.member_loaded hlookup
    rw [membersJsonMode_keys]
    refine ⟨hnodup, fun member hmember => ?_⟩
    obtain ⟨value, hvalue, hdumped⟩ := mem_membersJsonMode hmember
    rw [hdumped]
    exact Value.isLoaded_jsonMode (hloaded _ hvalue)
  exact ⟨hdump handled.entityValues, hdump handled.values⟩

theorem writable : (Value.dict handled.durable.entityValues).isWritable = true :=
  Value.isWritable_dict.mpr fun member hmember =>
    Value.isWritable_of_isLoaded (handled.durable_loaded.1.2 member hmember)

theorem keyValues_writable :
    (Value.dict (keyValues registered.joinKeys handled.event.entityValues)).isWritable = true := by
  obtain ⟨hnodup, hloaded⟩ := handled.member_loaded handled.entityValues
  rw [Value.isWritable_dict]
  intro member hmember
  have hlookup := mem_keyValues hmember
  rw [Dictionaries.lookup_eq_some_iff hnodup] at hlookup
  exact Value.isWritable_of_isLoaded (hloaded _ hlookup)

/-- The text of the stored field of a feature reads back as its durable value. -/
theorem loadField_value {name : String} {value : Value}
    (h : handled.durable.values.lookup name = some value) :
    loadField (some value.jsonText) = .ok value := by
  obtain ⟨hnodup, hloaded⟩ := handled.durable_loaded.2
  rw [Dictionaries.lookup_eq_some_iff hnodup] at h
  rw [loadField, jsonLoads_jsonText (hloaded _ h)]

/-- The values of an event are the durable ones exactly if none is an infinity or NaN. -/
theorem lookup_durable_iff : (∀ feature ∈ registered.view.features,
      handled.durable.values.lookup feature.name = handled.event.values.lookup feature.name) ↔
    (Value.dict handled.event.values).isFinite = true := by
  obtain ⟨hnodup, -⟩ := handled.member_loaded handled.values
  have hdurable : ∀ name, handled.durable.values.lookup name =
      (handled.event.values.lookup name).map Value.jsonMode :=
    fun name => lookup_membersJsonMode _ _
  constructor
  · intro h
    rw [Value.isFinite_dict]
    intro member hmember
    obtain ⟨feature, hfeature, hname⟩ :=
      (handled.mem_values_iff member.1).mp (List.mem_map_of_mem hmember)
    have hlookup := (Dictionaries.lookup_eq_some_iff hnodup).mpr hmember
    have hsame := h feature hfeature
    rw [hdurable, hname, hlookup] at hsame
    exact Value.jsonMode_eq_iff.mp (Option.some.inj hsame)
  · intro hfinite feature _
    rw [durable, canonicalEventPayload, membersJsonMode_eq_iff.mpr hfinite]

end HandledEvent

/-- The first write of an event to an empty store is accepted. -/
theorem upsert?_empty (codec : OnlineCodec) {event : StreamFeatureEvent}
    (h : Instant.IsRepresentable event.eventTimestamp.asUtc) :
    ∃ written, RedisStore.empty.upsert? codec event = some (written, true) := by
  rw [RedisStore.upsert?, DateTime.utcText?, if_pos h]
  exact ⟨_, rfl⟩

theorem SameEntity.mem {joinKeys : List String} {a b : Dict} (h : SameEntity joinKeys a b)
    (hb : ∀ key ∈ joinKeys, key ∈ b.map (·.1)) : ∀ key ∈ joinKeys, key ∈ a.map (·.1) := by
  intro key hkey
  have hlookup := Dictionaries.lookup_isSome_iff.mpr (hb key hkey)
  rw [← Dictionaries.lookup_isSome_iff, ← Option.isSome_map, h key hkey, Option.isSome_map]
  exact hlookup

end Checks

section Writes

variable {sha256 : String → String} {codec : OnlineCodec} {redis written : RedisStore}
  {event : StreamFeatureEvent} {joinKeys : List String} {after : List StreamFeatureEvent}

theorem upsertScript_accepted {hash after : RedisHash} {timestamp eventId : String}
    {arguments : List (String × String)}
    (h : upsertScript hash timestamp eventId arguments = some (after, true)) :
    after = arguments.foldl setField
      (setField (setField hash (timestampField, timestamp)) (idField, eventId)) := by
  unfold upsertScript at h
  dsimp only at h
  repeat' split at h
  all_goals cases h
  all_goals rfl

/-- The fields that an accepted event leaves under its key. -/
theorem upsert?_fields (hnodup : (event.values.map (·.1)).Nodup) (hnames : event.Unreserved)
    (h : redis.upsert? codec event = some (written, true)) :
    (∀ key, key ≠ codec.eventKey event → written key = redis key) ∧
    (written (codec.eventKey event)).lookup timestampField =
        some (isoMicroseconds event.eventTimestamp.asUtc) ∧
      (written (codec.eventKey event)).lookup idField = some event.eventId ∧
      ∀ name value, event.values.lookup name = some value →
        (written (codec.eventKey event)).lookup name = some (codec.dumps value) := by
  obtain ⟨timestamp, htext, h⟩ := Option.bind_eq_some_iff.mp h
  obtain ⟨⟨hash, accepted⟩, hscript, h⟩ := Option.bind_eq_some_iff.mp h
  cases h
  obtain rfl : isoMicroseconds event.eventTimestamp.asUtc = timestamp := by
    unfold DateTime.utcText? at htext
    split at htext
    · exact Option.some.inj htext
    · cases htext
  have hhash := upsertScript_accepted hscript
  have hargs : ((codec.fieldArguments event).map (·.1)).Nodup :=
    (fieldArguments_names codec event).nodup_iff.mpr hnodup
  have hreserved : ∀ field, field = timestampField ∨ field = idField →
      (codec.fieldArguments event).lookup field = none := by
    intro field hfield
    rw [lookup_fieldArguments hnodup, Option.map_eq_none_iff, Dictionaries.lookup_eq_none_iff]
    intro hmem
    rcases hfield with rfl | rfl
    · exact (hnames _ hmem).1 rfl
    · exact (hnames _ hmem).2 rfl
  have hdistinct : timestampField ≠ idField := by decide
  refine ⟨fun key hkey => Function.update_of_ne hkey _ _, ?_, ?_, ?_⟩
  · rw [Function.update_self, hhash, lookup_foldl_setField hargs, hreserved _ (Or.inl rfl),
      Option.none_or, lookup_setField, if_neg hdistinct, lookup_setField, if_pos rfl]
  · rw [Function.update_self, hhash, lookup_foldl_setField hargs, hreserved _ (Or.inr rfl),
      Option.none_or, lookup_setField, if_pos rfl]
  · intro name value hvalue
    rw [Function.update_self, hhash, lookup_foldl_setField hargs, lookup_fieldArguments hnodup,
      hvalue]
    rfl

/-- The script refuses an event unless it is ahead of what is stored. -/
theorem upsertScript_ahead {hash : RedisHash} {a b : Instant} {old new : String}
    (ha : Instant.IsRepresentable a) (hb : Instant.IsRepresentable b)
    (htimestamp : hash.lookup timestampField = some (isoMicroseconds a))
    (hid : hash.lookup idField = some old) (arguments : List (String × String)) :
    upsertScript hash (isoMicroseconds b) new arguments = some (hash, false) ∨
      (∃ after, upsertScript hash (isoMicroseconds b) new arguments = some (after, true)) ∧
        ¬eventRank b (some new) ≤ eventRank a (some old) := by
  simp only [upsertScript, htimestamp, hid, isoMicroseconds_lt_iff hb ha,
    isoMicroseconds_inj ha hb, eventRank_le]
  by_cases hlt : b < a
  · rw [if_pos hlt]
    exact Or.inl rfl
  · rw [if_neg hlt]
    by_cases heq : a = b
    · rw [if_pos heq]
      by_cases hle : new ≤ old
      · rw [if_pos hle]
        exact Or.inl rfl
      · rw [if_neg hle]
        refine Or.inr ⟨⟨_, rfl⟩, ?_⟩
        rintro (hb | ⟨-, hids⟩)
        · exact hlt hb
        · exact hle (hids new rfl)
    · rw [if_neg heq]
      refine Or.inr ⟨⟨_, rfl⟩, ?_⟩
      rintro (hb | ⟨hsame, -⟩)
      · exact hlt hb
      · exact heq hsame.symm

/-- Events of other entities, and events that are not ahead, leave the hash of an event. -/
theorem upserts_keep (hrep : Instant.IsRepresentable event.eventTimestamp.asUtc)
    (htimestamp : (written (codec.eventKey event)).lookup timestampField =
      some (isoMicroseconds event.eventTimestamp.asUtc))
    (hid : (written (codec.eventKey event)).lookup idField = some event.eventId)
    (hkeys : ∀ newer ∈ after, codec.eventKey newer = codec.eventKey event →
      newer.featureView = event.featureView ∧
        SameEntity joinKeys newer.entityValues event.entityValues)
    (h : Unsuperseded codec joinKeys event written after) :
    written.upserts codec after (codec.eventKey event) = written (codec.eventKey event) := by
  induction after generalizing written with
  | nil => rfl
  | cons newer rest ih =>
      have hstep : (((written.upsert? codec newer).map (·.1)).getD written)
          (codec.eventKey event) = written (codec.eventKey event) := by
        by_cases hown : codec.eventKey newer = codec.eventKey event ∧
            Instant.IsRepresentable newer.eventTimestamp.asUtc
        · have hresult : ∀ hash accepted,
              upsertScript (written (codec.eventKey event))
                (isoMicroseconds newer.eventTimestamp.asUtc) newer.eventId
                (codec.fieldArguments newer) = some (hash, accepted) →
              written.upsert? codec newer =
                some (Function.update written (codec.eventKey event) hash, accepted) := by
            intro hash accepted hscript
            rw [RedisStore.upsert?, DateTime.utcText?, if_pos hown.2, hown.1]
            change (upsertScript (written (codec.eventKey event)) _ newer.eventId _).bind _ = _
            rw [hscript]
            rfl
          rcases upsertScript_ahead hrep hown.2 htimestamp hid (codec.fieldArguments newer) with
            hrefused | ⟨⟨hash, haccepted⟩, hahead⟩
          · rw [hresult _ _ hrefused, Option.map_some, Option.getD_some]
            exact Function.update_self _ _ _
          · obtain ⟨hview, hentity⟩ := hkeys newer List.mem_cons_self hown.1
            exact absurd (h [] newer rest rfl hview hentity ⟨_, hresult _ _ haccepted⟩) hahead
        · exact upsert?_other hown
      have hrest : Unsuperseded codec joinKeys event
          (((written.upsert? codec newer).map (·.1)).getD written) rest := by
        intro earlier other later hsplit
        exact h (newer :: earlier) other later (congrArg (newer :: ·) hsplit)
      have hkeep := ih (hstep.symm ▸ htimestamp) (hstep.symm ▸ hid)
        (fun other hother => hkeys other (List.mem_cons_of_mem _ hother)) hrest
      exact hkeep.trans hstep

end Writes

section Reads

variable {codec : OnlineCodec} {store : RegistryStore} {redis : RedisStore} {values : Dict}

theorem column_inj (view : String) {a b : String} :
    s!"{view}__{a}" = s!"{view}__{b}" ↔ a = b := by
  simp [String.ext_iff, toString]

/-- The status column is named like that of a feature `status`. -/
theorem statusColumn (view : String) :
    s!"{view}__status" = let name := "status"; s!"{view}__{name}" := by
  simp [String.ext_iff, toString]

theorem grouped_view (viewRef : String) {names : List String} (hne : names ≠ []) :
    (names.map fun name => (viewRef, name)).foldl groupRef [] = [(viewRef, names)] := by
  have hfold : ∀ (rest grouped : List String), (rest.map fun name => (viewRef, name)).foldl groupRef
      [(viewRef, grouped)] = [(viewRef, grouped ++ rest)] := by
    intro rest
    induction rest with
    | nil => simp
    | cons name rest ih =>
        intro grouped
        have hgroup : groupRef [(viewRef, grouped)] (viewRef, name) =
            [(viewRef, grouped ++ [name])] := by
          simp [groupRef, Dictionaries.setItem]
        rw [List.map_cons, List.foldl_cons, hgroup, ih, List.append_assoc, List.singleton_append]
  cases names with
  | nil => exact absurd rfl hne
  | cons name rest => exact hfold rest [name]

theorem mapM_splitLastColon (viewRef : String) {names : List String}
    (h : ∀ name ∈ names, ':' ∉ name.toList) :
    (names.map fun name => s!"{viewRef}:{name}").mapM splitLastColon =
      .ok (names.map fun name => (viewRef, name)) := by
  induction names with
  | nil => rfl
  | cons name rest ih =>
      have hsplit := splitLastColon_append viewRef (h name List.mem_cons_self)
      rw [List.map_cons, List.mapM_cons, hsplit,
        ih fun other hother => h other (List.mem_cons_of_mem _ hother)]
      rfl

/-- The columns of features that are read in turn. -/
theorem foldlM_columns (view : String) {stored : RedisHash} {names : List String}
    {loads : String → Value} (h : ∀ name ∈ names, loadField (stored.lookup name) = .ok (loads name))
    (row : Dict) :
    ∃ after, names.foldlM (fun (row : Dict) name => do
        let value ← loadField (stored.lookup name)
        return Dictionaries.setItem row s!"{view}__{name}" value) row = .ok after ∧
      ∀ name, after.lookup s!"{view}__{name}" =
        if name ∈ names then some (loads name) else row.lookup s!"{view}__{name}" := by
  induction names generalizing row with
  | nil => exact ⟨row, rfl, fun name => by simp⟩
  | cons first rest ih =>
      obtain ⟨after, hafter, hlookup⟩ := ih
        (fun name hname => h name (List.mem_cons_of_mem _ hname))
        (Dictionaries.setItem row s!"{view}__{first}" (loads first))
      refine ⟨after, ?_, fun name => ?_⟩
      · rw [List.foldlM_cons, h first List.mem_cons_self]
        exact hafter
      · rw [hlookup name, Dictionaries.lookup_setItem]
        by_cases hrest : name ∈ rest
        · rw [if_pos hrest, if_pos (List.mem_cons_of_mem _ hrest)]
        · rw [if_neg hrest]
          by_cases hfirst : name = first
          · rw [if_pos ((column_inj view).mpr hfirst), if_pos (hfirst ▸ List.mem_cons_self), hfirst]
          · rw [if_neg (mt (column_inj view).mp hfirst), if_neg]
            exact fun hmem => (List.mem_cons.mp hmem).elim hfirst hrest

/-- The columns of a view, where the dictionary has the join keys of its entity. -/
theorem readView_eq (registered : RegisteredView store)
    (hkeys : ∀ key ∈ registered.joinKeys, key ∈ values.map (·.1)) (row : Dict)
    (names : List String) :
    readView codec store redis values row (registered.view.ref, names) =
      names.foldlM (fun row name => do
          let value ← loadField ((redis (codec.entityKey registered.view.ref
            (keyValues registered.joinKeys values))).lookup name)
          return Dictionaries.setItem row s!"{registered.view.name}__{name}" value)
        (Dictionaries.setItem row s!"{registered.view.name}__status"
          (.str (if redis (codec.entityKey registered.view.ref
            (keyValues registered.joinKeys values)) = [] then "missing" else "present"))) := by
  have hmissing : (registered.entity.joinKeys.map (·.1)).filter
      (fun key => !(values.map (·.1)).contains key) = [] := by
    rw [List.filter_eq_nil_iff]
    intro key hkey
    simpa using hkeys key hkey
  have hvalues : (registered.entity.joinKeys.map (·.1)).mapM (dictItem values) =
      .ok (keyValues registered.joinKeys values) := mapM_dictItem hkeys
  rw [readView, registered.registered]
  simp only [bind, Except.bind, registered.entityRegistered, hmissing, ne_eq, not_true_eq_false,
    if_false]
  rw [hvalues]

/-- The row of a read of all features of a view. -/
theorem readOnline_row (registered : RegisteredView store)
    (hkeys : ∀ key ∈ registered.joinKeys, key ∈ values.map (·.1)) {loads : String → Value}
    (hloads : ∀ feature ∈ registered.view.features,
      loadField ((redis (codec.entityKey registered.view.ref
        (keyValues registered.joinKeys values))).lookup feature.name) =
          .ok (loads feature.name)) :
    ∃ row warnings, readOnline codec store redis [values] registered.refs none =
        .ok ⟨registered.refs, [row], warnings⟩ ∧
      (∀ feature ∈ registered.view.features,
        row.lookup s!"{registered.view.name}__{feature.name}" = some (loads feature.name)) ∧
      ((∀ feature ∈ registered.view.features, feature.name ≠ "status") →
        row.lookup s!"{registered.view.name}__status" =
          some (.str (if redis (codec.entityKey registered.view.ref
            (keyValues registered.joinKeys values)) = [] then "missing" else "present"))) := by
  have hnames : ∀ name ∈ registered.view.features.map (·.name),
      ∃ feature ∈ registered.view.features, feature.name = name :=
    fun name hname => List.mem_map.mp hname
  have hcolon : ∀ name ∈ registered.view.features.map (·.name), ':' ∉ name.toList := by
    intro name hname
    obtain ⟨feature, hfeature, rfl⟩ := hnames name hname
    exact (registered.names feature hfeature).1
  have hne : registered.view.features.map (·.name) ≠ [] := by
    simpa using registered.hasFeature
  have hresolve := resolveFeatures_ok registered.registered hne hcolon (fun _ h => h)
    registered.view.features_nodup
  obtain ⟨warnings, hwarnings⟩ := warningsForQuery_ok registered.registered hcolon
  obtain ⟨row, hrow, hlookup⟩ := foldlM_columns registered.view.name
    (fun name hname => by
      obtain ⟨feature, hfeature, rfl⟩ := hnames name hname
      exact hloads feature hfeature)
    (Dictionaries.setItem values s!"{registered.view.name}__status"
      (.str (if redis (codec.entityKey registered.view.ref
        (keyValues registered.joinKeys values)) = [] then "missing" else "present")))
  refine ⟨row, warnings, ?_, ?_, ?_⟩
  · rw [readOnline, RegisteredView.refs, hresolve, hwarnings]
    have hcolumns : [(registered.view.ref, registered.view.features.map (·.name))].foldlM
        (readView codec store redis values) values = .ok row := by
      rw [List.foldlM_cons, readView_eq registered hkeys, hrow]
      rfl
    have hrows : [values].mapM (fun values =>
        [(registered.view.ref, registered.view.features.map (·.name))].foldlM
          (readView codec store redis values) values) = .ok [row] := by
      rw [List.mapM_cons, hcolumns]
      rfl
    simp only [bind, Except.bind, mapM_splitLastColon _ hcolon, grouped_view _ hne,
      List.cons_ne_nil, if_false]
    rw [hrows]
    rfl
  · intro feature hfeature
    rw [hlookup, if_pos (List.mem_map_of_mem hfeature)]
  · intro hstatus
    have hnot : "status" ∉ registered.view.features.map (·.name) := by
      intro hmem
      obtain ⟨feature, hfeature, hname⟩ := hnames _ hmem
      exact hstatus feature hfeature hname
    rw [statusColumn, hlookup, if_neg hnot, ← statusColumn, Dictionaries.lookup_setItem,
      if_pos rfl]

end Reads

section ReadYourWrites

variable (d : StreamDeployment) (sha256 : String → String) {store : RegistryStore}
  (registered : RegisteredView store)

theorem unsuperseded_nil (codec : OnlineCodec) (joinKeys : List String)
    (event : StreamFeatureEvent) (redis : RedisStore) :
    Unsuperseded codec joinKeys event redis [] := by
  intro earlier newer later hsplit
  simp at hsplit

variable {d sha256 registered}

/-- In every run of a store that accepts the durable event, a read of its view by the join keys
of its entity shows the event until a later event of the entity is accepted. -/
def HandledEvent.ReadsBack (sha256 : String → String) (handled : HandledEvent d registered) :
    Prop :=
  ∀ (redis written : RedisStore) (after : List StreamFeatureEvent) (values : Dict),
    redis.upsert? (jsonCodec sha256) handled.durable = some (written, true) →
    HexDigest sha256 (entityTexts (handled.durable :: after)) →
    (∀ newer ∈ after, (Value.dict newer.entityValues).isWritable = true ∧
      (newer.entityValues.map (·.1)).Nodup) →
    Unsuperseded (jsonCodec sha256) registered.joinKeys handled.event written after →
    SameEntity registered.joinKeys values handled.event.entityValues →
    ∃ row warnings, readOnline (jsonCodec sha256) store
        (written.upserts (jsonCodec sha256) after) [values] registered.refs none =
        .ok ⟨registered.refs, [row], warnings⟩ ∧
      RowShows registered.view handled.event row

/-- The text that a write digests, and the one that a read digests. -/
def HandledEvent.keyTexts (handled : HandledEvent d registered) : List String :=
  [(Value.dict handled.durable.entityValues).canonicalText,
    (Value.dict (keyValues registered.joinKeys handled.event.entityValues)).canonicalText]

/-- A read under a key that the event was not written to does not say that it is there. -/
theorem HandledEvent.not_present (handled : HandledEvent d registered)
    (hdigest : HexDigest sha256 handled.keyTexts)
    (htext : (Value.dict (keyValues registered.joinKeys
      handled.event.entityValues)).canonicalText ≠
        (Value.dict handled.durable.entityValues).canonicalText)
    {written : RedisStore} (hwritten : RedisStore.empty.upsert? (jsonCodec sha256) handled.durable =
      some (written, true))
    {row : Dict} {warnings : List RegistryWarning}
    (hread : readOnline (jsonCodec sha256) store written [handled.event.entityValues]
      registered.refs none = .ok ⟨registered.refs, [row], warnings⟩) :
    row.lookup s!"{registered.view.name}__status" ≠ some (.str "present") := by
  obtain ⟨hother, -⟩ := upsert?_fields handled.durable_loaded.2.1 handled.unreserved hwritten
  have hkey : (jsonCodec sha256).entityKey registered.view.ref
      (keyValues registered.joinKeys handled.event.entityValues) ≠
        (jsonCodec sha256).eventKey handled.durable := by
    intro heq
    rw [OnlineCodec.eventKey, entityKey_inj hdigest (by simp [keyTexts]) (by simp [keyTexts])]
      at heq
    exact htext heq.2
  have hempty : written ((jsonCodec sha256).entityKey registered.view.ref
      (keyValues registered.joinKeys handled.event.entityValues)) = [] := hother _ hkey
  obtain ⟨row', warnings', hread', hfeatures, hstatus⟩ := @readOnline_row (jsonCodec sha256) store
    written _ registered handled.joinKeys_mem (fun _ => .null) (fun feature _ => by
      rw [hempty]
      rfl)
  rw [hread] at hread'
  obtain rfl : row = row' := by
    cases hread'
    rfl
  by_cases hnamed : ∀ feature ∈ registered.view.features, feature.name ≠ "status"
  · rw [hstatus hnamed, hempty, if_pos rfl]
    decide
  · push Not at hnamed
    obtain ⟨feature, hfeature, hname⟩ := hnamed
    have hcolumn := hfeatures feature hfeature
    rw [hname, ← statusColumn] at hcolumn
    rw [hcolumn]
    intro hpresent
    cases hpresent

/-- The hash of an event stays until a later event of its entity is accepted. -/
theorem HandledEvent.hash_kept (handled : HandledEvent d registered)
    (hfinite : (Value.dict handled.event.entityValues).isFinite = true)
    {written : RedisStore} {after : List StreamFeatureEvent}
    (hdigest : HexDigest sha256 (entityTexts (handled.durable :: after)))
    (hafter : ∀ newer ∈ after, (Value.dict newer.entityValues).isWritable = true ∧
      (newer.entityValues.map (·.1)).Nodup)
    (h : Unsuperseded (jsonCodec sha256) registered.joinKeys handled.event written after)
    {redis : RedisStore}
    (hwritten : redis.upsert? (jsonCodec sha256) handled.durable = some (written, true)) :
    written.upserts (jsonCodec sha256) after ((jsonCodec sha256).eventKey handled.durable) =
      written ((jsonCodec sha256).eventKey handled.durable) := by
  have hentity : handled.durable.entityValues = handled.event.entityValues :=
    membersJsonMode_eq_iff.mpr hfinite
  have hinstant : handled.durable.eventTimestamp.asUtc = handled.event.eventTimestamp.asUtc :=
    DateTime.asUtc_utc _
  have hunsuperseded : Unsuperseded (jsonCodec sha256) registered.joinKeys handled.durable written
      after := by
    intro earlier newer later hsplit hview hsame haccepted
    have hrank := h earlier newer later hsplit hview (hentity ▸ hsame) haccepted
    rwa [StreamFeatureEvent.rank, StreamFeatureEvent.rank, ← hinstant] at hrank
  obtain ⟨-, htimestamp, hid, -⟩ :=
    upsert?_fields handled.durable_loaded.2.1 handled.unreserved hwritten
  apply upserts_keep (hinstant ▸ handled.representable) htimestamp hid _ hunsuperseded
  intro newer hnewer hkey
  rw [OnlineCodec.eventKey, OnlineCodec.eventKey, entityKey_inj hdigest
    (List.mem_map_of_mem (List.mem_cons_of_mem _ hnewer)) (List.mem_map_of_mem List.mem_cons_self),
    Value.canonicalText_inj (hafter newer hnewer).1 handled.writable,
    Value.normal_dict_iff (hafter newer hnewer).2 handled.durable_loaded.1.1] at hkey
  exact ⟨hkey.1, fun key _ => hkey.2 key⟩

/-- A read under the key of the event has its durable values. -/
theorem HandledEvent.row_durable (handled : HandledEvent d registered)
    {redis written : RedisStore}
    (hwritten : redis.upsert? (jsonCodec sha256) handled.durable = some (written, true))
    {final : RedisStore} {values : Dict}
    (hfinal : final ((jsonCodec sha256).entityKey registered.view.ref
      (keyValues registered.joinKeys values)) =
        written ((jsonCodec sha256).eventKey handled.durable))
    (hkeys : ∀ key ∈ registered.joinKeys, key ∈ values.map (·.1)) :
    ∃ row warnings, readOnline (jsonCodec sha256) store final [values] registered.refs none =
        .ok ⟨registered.refs, [row], warnings⟩ ∧
      (∀ feature ∈ registered.view.features, row.lookup s!"{registered.view.name}__{feature.name}" =
        handled.durable.values.lookup feature.name) ∧
      ((∀ feature ∈ registered.view.features, feature.name ≠ "status") →
        row.lookup s!"{registered.view.name}__status" = some (.str "present")) := by
  obtain ⟨-, htimestamp, -, hfields⟩ :=
    upsert?_fields handled.durable_loaded.2.1 handled.unreserved hwritten
  have hvalue : ∀ feature ∈ registered.view.features,
      ∃ value, handled.durable.values.lookup feature.name = some value := by
    intro feature hfeature
    apply Option.isSome_iff_exists.mp
    rw [Dictionaries.lookup_isSome_iff, durable, canonicalEventPayload, membersJsonMode_keys]
    exact (handled.mem_values_iff _).mpr ⟨feature, hfeature, rfl⟩
  obtain ⟨row, warnings, hread, hfeatures, hcolumn⟩ := @readOnline_row (jsonCodec sha256) store
    final values registered hkeys (fun name => (handled.durable.values.lookup name).getD .null)
    (fun feature hfeature => by
      obtain ⟨value, hlookup⟩ := hvalue feature hfeature
      rw [hfinal, hfields _ _ hlookup, hlookup]
      exact handled.loadField_value hlookup)
  refine ⟨row, warnings, hread, fun feature hfeature => ?_, fun hnamed => ?_⟩
  · obtain ⟨value, hlookup⟩ := hvalue feature hfeature
    rw [hfeatures feature hfeature, hlookup, Option.getD_some]
  · have hstored : written ((jsonCodec sha256).eventKey handled.durable) ≠ [] := by
      intro hnil
      rw [hnil] at htimestamp
      cases htimestamp
    rw [hcolumn hnamed, hfinal, if_neg hstored]

/-- If these are the values of the event, the row shows it. -/
theorem HandledEvent.row_shows (handled : HandledEvent d registered)
    (hfinite : (Value.dict handled.event.values).isFinite = true)
    (hstatus : ∀ value, handled.event.values.lookup "status" = some value →
      value = .str "present")
    {redis written : RedisStore}
    (hwritten : redis.upsert? (jsonCodec sha256) handled.durable = some (written, true))
    {final : RedisStore} {values : Dict}
    (hfinal : final ((jsonCodec sha256).entityKey registered.view.ref
      (keyValues registered.joinKeys values)) =
        written ((jsonCodec sha256).eventKey handled.durable))
    (hkeys : ∀ key ∈ registered.joinKeys, key ∈ values.map (·.1)) :
    ∃ row warnings, readOnline (jsonCodec sha256) store final [values] registered.refs none =
        .ok ⟨registered.refs, [row], warnings⟩ ∧
      RowShows registered.view handled.event row := by
  obtain ⟨row, warnings, hread, hfeatures, hcolumn⟩ := handled.row_durable hwritten hfinal hkeys
  have hshown : ∀ feature ∈ registered.view.features,
      row.lookup s!"{registered.view.name}__{feature.name}" =
        handled.event.values.lookup feature.name :=
    fun feature hfeature => (hfeatures feature hfeature).trans
      (handled.lookup_durable_iff.mpr hfinite feature hfeature)
  refine ⟨row, warnings, hread, ?_, hshown⟩
  by_cases hnamed : ∀ feature ∈ registered.view.features, feature.name ≠ "status"
  · exact hcolumn hnamed
  · push Not at hnamed
    obtain ⟨feature, hfeature, hname⟩ := hnamed
    obtain ⟨value, hlookup⟩ := Option.isSome_iff_exists.mp (Dictionaries.lookup_isSome_iff.mpr
      ((handled.mem_values_iff feature.name).mpr ⟨feature, hfeature, rfl⟩))
    have hrow := hshown feature hfeature
    rw [hlookup, hname, ← statusColumn] at hrow
    rw [hname] at hlookup
    rw [hrow, hstatus value hlookup]

/-- A read by the dictionary of the event has the key that the event was written under if it has
the keys of its entity only, all finite. -/
theorem HandledEvent.read_key (handled : HandledEvent d registered)
    (honly : ∀ key ∈ handled.event.entityValues.map (·.1), key ∈ registered.joinKeys)
    (hfinite : (Value.dict handled.event.entityValues).isFinite = true) {values : Dict}
    (hsame : SameEntity registered.joinKeys values handled.event.entityValues) :
    (jsonCodec sha256).entityKey registered.view.ref (keyValues registered.joinKeys values) =
      (jsonCodec sha256).eventKey handled.durable := by
  obtain ⟨hnodup, -⟩ := handled.member_loaded handled.entityValues
  have hkeysNodup : registered.joinKeys.Nodup := registered.entity.joinKeys_nodup
  have hentity : handled.durable.entityValues = handled.event.entityValues :=
    membersJsonMode_eq_iff.mpr hfinite
  have htext : (Value.dict (keyValues registered.joinKeys values)).canonicalText =
      (Value.dict handled.durable.entityValues).canonicalText := by
    rw [Value.canonicalText_eq, Value.canonicalText_eq, hentity,
      (normal_keyValues_iff hkeysNodup hnodup (hsame.mem handled.joinKeys_mem) hsame).mpr honly]
  have hdigests : (jsonCodec sha256).digest (keyValues registered.joinKeys values) =
      (jsonCodec sha256).digest handled.durable.entityValues := congrArg sha256 htext
  have hview : handled.durable.featureView = registered.view.ref := handled.featureView
  rw [OnlineCodec.eventKey, OnlineCodec.entityKey, OnlineCodec.entityKey, hview, hdigests]

/-- A handled event is read back exactly if it has no other keys than the join keys, no infinity
and no NaN, and no feature of another value takes its status column. -/
theorem read_your_writes_iff (handled : HandledEvent d registered)
    (hdigest : HexDigest sha256 handled.keyTexts) :
    handled.ReadsBack sha256 ↔
      (∀ key ∈ handled.event.entityValues.map (·.1), key ∈ registered.joinKeys) ∧
        handled.event.isFinite = true ∧
        ∀ value, handled.event.values.lookup "status" = some value → value = .str "present" := by
  obtain ⟨hnodup, -⟩ := handled.member_loaded handled.entityValues
  have hkeysNodup : registered.joinKeys.Nodup := registered.entity.joinKeys_nodup
  rw [StreamFeatureEvent.isFinite, Bool.and_eq_true]
  constructor
  · intro hread
    have hrepresentable : Instant.IsRepresentable handled.durable.eventTimestamp.asUtc :=
      (DateTime.asUtc_utc _).symm ▸ handled.representable
    obtain ⟨first, hfirst⟩ := upsert?_empty (jsonCodec sha256) hrepresentable
    have hown : HexDigest sha256 (entityTexts [handled.durable]) :=
      hdigest.mono fun text htext => by
        rw [List.mem_singleton.mp htext]
        exact List.mem_cons_self
    obtain ⟨row, warnings, hrow, hstatus, hfeatures⟩ := hread _ first [] handled.event.entityValues
      hfirst hown (fun _ h => absurd h List.not_mem_nil) (unsuperseded_nil _ _ _ _) fun _ _ => rfl
    obtain ⟨honly, hentities⟩ : (∀ key ∈ handled.event.entityValues.map (·.1),
        key ∈ registered.joinKeys) ∧ (Value.dict handled.event.entityValues).isFinite = true := by
      by_contra hextra
      have htext : ¬(Value.dict (keyValues registered.joinKeys
          handled.event.entityValues)).canonicalText =
            (Value.dict handled.durable.entityValues).canonicalText := by
        rw [Value.canonicalText_inj handled.keyValues_writable handled.writable]
        exact mt (normal_keyValues_dump_iff hkeysNodup hnodup handled.joinKeys_mem).mp hextra
      exact handled.not_present hdigest htext hfirst hrow hstatus
    refine ⟨honly, ⟨hentities, ?_⟩, fun value hvalue => ?_⟩
    · obtain ⟨row', warnings', hrow', hdurable, -⟩ := handled.row_durable hfirst
        (congrArg first (handled.read_key honly hentities fun _ _ => rfl)) handled.joinKeys_mem
      obtain rfl : row = row' := by
        have hsame := hrow.symm.trans hrow'
        cases hsame
        rfl
      rw [← handled.lookup_durable_iff]
      exact fun feature hfeature =>
        (hdurable feature hfeature).symm.trans (hfeatures feature hfeature)
    · obtain ⟨feature, hfeature, hname⟩ := (handled.mem_values_iff "status").mp
        (Dictionaries.lookup_isSome_iff.mp (by rw [hvalue]; rfl))
      have hcolumn := hfeatures feature hfeature
      rw [hname, hvalue, ← statusColumn, hstatus] at hcolumn
      exact (Option.some.inj hcolumn).symm
  · rintro ⟨honly, ⟨hentities, hvalues⟩, hstatus⟩ redis written after values hwritten hhex hafter
      hmeanwhile hsame
    apply handled.row_shows hvalues hstatus hwritten _ (hsame.mem handled.joinKeys_mem)
    rw [handled.read_key honly hentities hsame]
    exact handled.hash_kept hentities hhex hafter hmeanwhile hwritten

end ReadYourWrites

section Sample

/-- A registry with the account entity and its view. -/
def accountStore : RegistryStore :=
  ⟨⟨[⟨.entity accountEntity, "", 0⟩, ⟨.featureView accountView, "", 0⟩], by decide, by decide⟩,
    .empty⟩

def accountDeployment : StreamDeployment where
  config := defaultConfig
  codec := accountCodec
  canonicalRow := fun _ => ""
  decode := fun _ => .error (valueError "no message")
  fromIsoFormat := fun _ => none
  reprValue := Value.jsonText
  validateQualityEvent := fun _ _ _ => []

def accountRegistered : RegisteredView accountStore :=
  ⟨accountView, accountEntity, rfl, rfl, by decide, by decide⟩

/-- A message about account `a1` of the region `eu`. -/
def regionPayload : Dict :=
  [("event_id", .str "a"), ("feature_view", .str "account_stats@1.0.0"),
    ("entity_values", .dict [("account_id", .str "a1"), ("region", .str "eu")]),
    ("event_timestamp", .str "2024-01-02T10:00:00+00:00"), ("values", .dict [("amount", .int 1)])]

def regionHandled : HandledEvent accountDeployment accountRegistered where
  event := ⟨"a", "account_stats@1.0.0", [("account_id", .str "a1"), ("region", .str "eu")],
    ⟨1704189600000000, some 0⟩, [("amount", .int 1)], by decide, rfl⟩
  payload := regionPayload
  loaded := ⟨_, jsonLoads_jsonText (by decide)⟩
  entityValues := rfl
  values := rfl
  featureView := rfl
  checked := rfl
  representable := by decide

theorem regionDigest_keyTexts : HexDigest regionDigest regionHandled.keyTexts where
  plain := by decide
  injective := by decide

theorem region_reads_back_iff : regionHandled.ReadsBack regionDigest ↔
    (∀ key ∈ regionHandled.event.entityValues.map (·.1), key ∈ accountRegistered.joinKeys) ∧
      regionHandled.event.isFinite = true ∧
      ∀ value, regionHandled.event.values.lookup "status" = some value → value = .str "present" :=
  read_your_writes_iff regionHandled regionDigest_keyTexts

/-- The event of an account is not read back when it also carries the region. -/
theorem region_not_read_back :
    ¬∀ (d : StreamDeployment) (sha256 : String → String) (store : RegistryStore)
      (registered : RegisteredView store) (handled : HandledEvent d registered),
      HexDigest sha256 handled.keyTexts → handled.ReadsBack sha256 := by
  intro h
  have hrepresentable : Instant.IsRepresentable regionHandled.durable.eventTimestamp.asUtc := by
    decide
  obtain ⟨written, hwritten⟩ := upsert?_empty (jsonCodec regionDigest) hrepresentable
  have hown : HexDigest regionDigest (entityTexts [regionHandled.durable]) :=
    regionDigest_keyTexts.mono fun text htext => by
      rw [List.mem_singleton.mp htext]
      exact List.mem_cons_self
  obtain ⟨row, warnings, hread, hstatus, -⟩ := h accountDeployment regionDigest accountStore
    accountRegistered regionHandled regionDigest_keyTexts _ written []
    regionHandled.event.entityValues hwritten hown (fun _ h => absurd h List.not_mem_nil)
    (unsuperseded_nil _ _ _ _) fun _ _ => rfl
  have htexts : (Value.dict (keyValues accountRegistered.joinKeys
      regionHandled.event.entityValues)).canonicalText ≠
        (Value.dict regionHandled.durable.entityValues).canonicalText := by decide
  exact regionHandled.not_present regionDigest_keyTexts htexts hwritten hread hstatus

end Sample

end FeatureStore
