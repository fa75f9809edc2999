import FeatureStore.CursorChunks
import FeatureStore.ValueEncoding

/-!
# Serving what training sees

The historical join reads the table of a view, an online read what materializations have
put of it into Redis. Both answer with the same row of an entity, up to the time to live,
which only the join knows.
-/

namespace FeatureStore

open FixedWidth LastWriter

/-- A stored key: the join keys, of their types, with timestamps that have a text. -/
structure StoredKey (entity : Manifest.Entity) (key : Dict) : Prop where
  names : key.map (·.1) = entity.joinKeys.map (·.1)
  typed : ∀ column ∈ entity.joinKeys, ∀ value, key.lookup column.1 = some value →
    column.2.holds value = true
  representable : ∀ item ∈ key, ∀ t, item.2 = .timestamp t → Instant.IsRepresentable t.asUtc

/-- The rows of a view with typed keys, and features that JSON can write and read. -/
structure ServedRows (entity : Manifest.Entity) (view : Manifest.FeatureView)
    extends ViewRows entity view where
  keys : ∀ row ∈ rows, StoredKey entity row.entityValues
  loaded : ∀ row ∈ rows, ∀ item ∈ row.values, item.2.asJson.isLoaded = true

/-- What materializations up to a time have upserted: rows of the table, in any order and
any number of times, with what the query for the latest rows returns among them. -/
structure Materialized (rows : List OfflineRow) (t : Instant) (upserted : List OfflineRow) :
    Prop where
  scanned : ∀ row ∈ upserted, row ∈ rows ∧ row.eventTimestamp ≤ t
  latest : ∀ row ∈ latestRows (rows.filter fun row => decide (row.eventTimestamp ≤ t)),
    row ∈ upserted

/-- The row of an online read has the status and the features of a historical answer. -/
def RowAnswers (view : Manifest.FeatureView) (answer : JoinedColumns) (row : Dict) : Prop :=
  row.lookup s!"{view.name}__status" = some (.str answer.status) ∧
    ∀ feature ∈ view.features, row.lookup s!"{view.name}__{feature.name}" =
      (answer.features.lookup s!"{view.name}__{feature.name}").map Value.asJson

section Keys

variable {entity : Manifest.Entity} {dtype : ValueType} {a b : Value}

/-- The text of a timestamp in UTC, with its fraction apart. -/
theorem str_utc (t : Instant) : (DateTime.utc t).str =
    String.ofList (render (dateTemplate ' ') ((civilOf t).fields.take 6) ++
      ((if (civilOf t).microsecond = 0 then [] else render [⟨['.'], 6⟩] [(civilOf t).microsecond]) ++
        "+00:00".toList)) := by
  have hwall : (DateTime.utc t).wall = t := rfl
  have hzone : offsetText (some 0) = "+00:00".toList := by decide
  have hoffset : offsetText (DateTime.utc t).utcOffset = "+00:00".toList := hzone
  rw [DateTime.str, hwall, hoffset]
  by_cases hzero : (civilOf t).microsecond = 0
  · simp [hzero, dateTemplate, render, Calendar.Civil.fields]
  · simp [hzero, dateTemplate, render, Calendar.Civil.fields]

/-- Timestamps in UTC with the same text are the same. -/
theorem str_utc_inj {s t : Instant} (hs : Instant.IsRepresentable s)
    (ht : Instant.IsRepresentable t) (h : (DateTime.utc s).str = (DateTime.utc t).str) : s = t := by
  have hfits : ∀ {u : Instant}, Instant.IsRepresentable u →
      Fits (dateTemplate ' ') ((civilOf u).fields.take 6) := by
    intro u hu
    have hall := fits_civilOf hu
    simp [dateTemplate, Calendar.Civil.fields, Fits] at hall ⊢
    omega
  rw [str_utc, str_utc] at h
  obtain ⟨hdate, hfraction⟩ := List.append_inj (String.ofList_injective h) (by
    rw [length_render (hfits hs), length_render (hfits ht)])
  have hfields := render_inj (hfits hs) (hfits ht) hdate
  have hmicro : (civilOf s).microsecond = (civilOf t).microsecond :=
    CursorChunk.fraction_inj (Calendar.civil_bounds _).2.2.2.2.2
      (Calendar.civil_bounds _).2.2.2.2.2 hfraction
  apply (isoMicroseconds_inj hs ht).mp
  have hsame : (civilOf s).fields = (civilOf t).fields := by
    simp [Calendar.Civil.fields] at hfields ⊢
    omega
  rw [isoMicroseconds, isoMicroseconds, hsame]

/-- A value of a column is null or, if the type is not that of timestamps, written as
itself. -/
theorem asJson_eq_self (hholds : dtype.holds a = true) (hdtype : dtype ≠ .timestamp) :
    a.asJson = a := by
  cases a with
  | timestamp t => cases dtype <;> first | exact absurd rfl hdtype | cases hholds
  | list items => cases dtype <;> cases hholds
  | dict members => cases dtype <;> cases hholds
  | _ => rfl

theorem timestamp_of_holds (hholds : ValueType.timestamp.holds a = true) :
    a = .null ∨ ∃ t, a = .timestamp (.utc t) := by
  cases a with
  | timestamp t =>
      obtain ⟨wall, offset⟩ := t
      obtain rfl : offset = some 0 := of_decide_eq_true hholds
      exact Or.inr ⟨wall, rfl⟩
  | null => exact Or.inl rfl
  | _ => cases hholds

/-- Values of one column that are written alike are the same. -/
theorem eq_of_normal (ha : dtype.holds a = true) (hb : dtype.holds b = true)
    (hrepA : ∀ t, a = .timestamp t → Instant.IsRepresentable t.asUtc)
    (hrepB : ∀ t, b = .timestamp t → Instant.IsRepresentable t.asUtc)
    (h : a.normal = b.normal) : a = b := by
  rw [(asJson_of_holds ha).2, (asJson_of_holds hb).2] at h
  by_cases hdtype : dtype = .timestamp
  · subst hdtype
    rcases timestamp_of_holds ha with rfl | ⟨s, rfl⟩
    · rcases timestamp_of_holds hb with rfl | ⟨t, rfl⟩
      · rfl
      · cases h
    · rcases timestamp_of_holds hb with rfl | ⟨t, rfl⟩
      · cases h
      · have hs := hrepA _ rfl
        have ht := hrepB _ rfl
        rw [DateTime.asUtc_utc] at hs ht
        rw [str_utc_inj hs ht (Value.str.inj h)]
  · rwa [asJson_eq_self ha hdtype, asJson_eq_self hb hdtype] at h

namespace StoredKey

variable {key other : Dict}

theorem nodup (h : StoredKey entity key) : (key.map (·.1)).Nodup :=
  h.names ▸ entity.joinKeys_nodup

theorem lookup (h : StoredKey entity key) {column : String × ValueType}
    (hcolumn : column ∈ entity.joinKeys) : ∃ value, key.lookup column.1 = some value := by
  rw [← Option.isSome_iff_exists, Dictionaries.lookup_isSome_iff, h.names]
  exact List.mem_map_of_mem hcolumn

theorem writable (h : StoredKey entity key) : (Value.dict key).isWritable = true := by
  rw [Value.isWritable_dict]
  intro member hmember
  have hname : member.1 ∈ entity.joinKeys.map (·.1) := h.names ▸ List.mem_map_of_mem hmember
  obtain ⟨column, hcolumn, hsame⟩ := List.mem_map.mp hname
  have hlookup : key.lookup column.1 = some member.2 := by
    rw [hsame, Dictionaries.lookup_eq_some_iff h.nodup]
    exact hmember
  exact (asJson_of_holds (h.typed column hcolumn member.2 hlookup)).1

/-- Stored keys with the same text are the same. -/
theorem eq_of_normal (h : StoredKey entity key) (hother : StoredKey entity other)
    (hnormal : (Value.dict key).normal = (Value.dict other).normal) : key = other := by
  rw [Value.normal_dict_iff h.nodup hother.nodup] at hnormal
  apply Dictionaries.eq_of_lookup hother.nodup (h.names.trans hother.names.symm)
  intro name hname
  rw [hother.names] at hname
  obtain ⟨column, hcolumn, rfl⟩ := List.mem_map.mp hname
  obtain ⟨a, ha⟩ := h.lookup hcolumn
  obtain ⟨b, hb⟩ := hother.lookup hcolumn
  have hsame := hnormal column.1
  rw [ha, hb] at hsame ⊢
  have hmemA := (Dictionaries.lookup_eq_some_iff h.nodup).mp ha
  have hmemB := (Dictionaries.lookup_eq_some_iff hother.nodup).mp hb
  rw [FeatureStore.eq_of_normal (h.typed column hcolumn a ha) (hother.typed column hcolumn b hb)
    (h.representable _ hmemA) (hother.representable _ hmemB) (Option.some.inj hsame)]

end StoredKey

end Keys

section Hashes

variable {sha256 : String → String} {entity : Manifest.Entity} {view : Manifest.FeatureView}
  {data : ServedRows entity view} {viewRef : String} {t : Instant} {upserted : List OfflineRow}
  {events : List StreamFeatureEvent} {redis : RedisStore} {key : Dict}

/-- The events of materializations under the key of an entity are those of its rows. -/
theorem mem_storable_iff (hmaterialized : Materialized data.rows t upserted)
    (hevents : upserted.mapM (·.streamEvent viewRef) = .ok events)
    (hreps : ∀ event ∈ events, Instant.IsRepresentable event.eventTimestamp.asUtc)
    (hkey : StoredKey entity key)
    (hdigest : HexDigest sha256 ((Value.dict key).canonicalText :: entityTexts events))
    {event : StreamFeatureEvent} :
    event ∈ storable (jsonCodec sha256) ((jsonCodec sha256).entityKey viewRef key) events ↔
      ∃ row ∈ upserted, row ∈ rowsOf data.rows key t ∧ row.streamEvent viewRef = .ok event := by
  obtain ⟨hfrom, hinto⟩ := mem_of_mapM hevents
  rw [mem_storable]
  constructor
  · rintro ⟨hmem, hsame, -⟩
    obtain ⟨row, hrow, hok⟩ := hfrom event hmem
    obtain ⟨hscanned, hle⟩ := hmaterialized.scanned row hrow
    obtain ⟨-, href, hentity, -, -⟩ := streamEvent_ok hok
    have htexts : (Value.dict event.entityValues).canonicalText ∈
        (Value.dict key).canonicalText :: entityTexts events :=
      List.mem_cons_of_mem _ (List.mem_map_of_mem hmem)
    have hstored := data.keys row hscanned
    rw [OnlineCodec.eventKey, entityKey_inj hdigest htexts List.mem_cons_self, hentity,
      Value.canonicalText_inj hstored.writable hkey.writable] at hsame
    refine ⟨row, hrow, List.mem_filter.mpr ⟨hscanned, ?_⟩, hok⟩
    rw [Bool.and_eq_true, decide_eq_true_eq, decide_eq_true_eq]
    exact ⟨hstored.eq_of_normal hkey hsame.2, hle⟩
  · rintro ⟨row, hrow, hrows, hok⟩
    obtain ⟨event', hmem, hok'⟩ := hinto row hrow
    obtain rfl : event = event' := Except.ok.inj (hok.symm.trans hok')
    obtain ⟨-, href, hentity, -, -⟩ := streamEvent_ok hok
    have hmatch := (List.mem_filter.mp hrows).2
    simp only [Bool.and_eq_true, decide_eq_true_eq] at hmatch
    refine ⟨hmem, ?_, hreps event hmem⟩
    rw [OnlineCodec.eventKey, href, hentity, hmatch.1]

/-- The hash of an entity is empty, or that of the row which the join selects. -/
theorem hash_of_materialized (hmaterialized : Materialized data.rows t upserted)
    (hevents : upserted.mapM (·.streamEvent viewRef) = .ok events)
    (hredis : RedisStore.empty.upsertAll? (jsonCodec sha256) events = some redis)
    (hkey : StoredKey entity key)
    (hdigest : HexDigest sha256 ((Value.dict key).canonicalText :: entityTexts events)) :
    (joinedRow (entity.joinKeys.map (·.1)) data.rows ⟨key, t⟩ = none →
      redis ((jsonCodec sha256).entityKey viewRef key) = []) ∧
    ∀ row, joinedRow (entity.joinKeys.map (·.1)) data.rows ⟨key, t⟩ = some row →
      ∃ event, row.streamEvent viewRef = .ok event ∧
        HoldsEvent (jsonCodec sha256) (redis ((jsonCodec sha256).entityKey viewRef key)) event := by
  obtain ⟨hreps, rfl⟩ := upsertAll?_eq hredis
  have hmem := fun event => @mem_storable_iff sha256 entity view data viewRef t upserted events key
    hmaterialized hevents hreps hkey hdigest event
  have hsource : ∀ event ∈ storable (jsonCodec sha256)
      ((jsonCodec sha256).entityKey viewRef key) events,
      ∃ row ∈ rowsOf data.rows key t, row.streamEvent viewRef = .ok event := by
    intro event hevent
    obtain ⟨row, -, hrow, hok⟩ := (hmem event).mp hevent
    exact ⟨row, hrow, hok⟩
  obtain ⟨hempty, hlatest⟩ := upserts_holds (data.coherent hsource)
  obtain ⟨hjoinNone, hjoin⟩ := @joinedRow_spec entity view key t data.toViewRows hkey.names
  obtain ⟨hqueryNone, hquery⟩ := @latestRows_spec data.rows key t
  constructor
  · intro hnone
    apply hempty
    rw [List.eq_nil_iff_forall_not_mem]
    intro event hevent
    obtain ⟨row, hrow, -⟩ := hsource event hevent
    rw [hjoinNone.mp hnone] at hrow
    cases hrow
  · intro row hrow
    have hselected := eq_of_isLatest data.rank_injective hjoin hquery
      (hjoinNone.trans hqueryNone.symm)
    have hupserted : row ∈ upserted :=
      hmaterialized.latest row (List.mem_of_find?_eq_some (hselected.symm.trans hrow))
    obtain ⟨event, -, hok⟩ := (mem_of_mapM hevents).2 row hupserted
    have hrows := (hjoin row hrow).1
    refine ⟨event, hok, hlatest event ⟨(hmem event).mpr ⟨row, hupserted, hrows, hok⟩, ?_⟩⟩
    intro other hother
    obtain ⟨source, hsourceRow, hotherOk⟩ := hsource other hother
    rw [streamEvent_rank hok, streamEvent_rank hotherOk]
    exact (hjoin row hrow).2 source hsourceRow

/-- The field of a feature reads back as the value of the row, as JSON has it. -/
theorem loadField_materialized {row : OfflineRow} (hrow : row ∈ data.rows)
    {event : StreamFeatureEvent} (hok : row.streamEvent viewRef = .ok event) {hash : RedisHash}
    (hholds : HoldsEvent (jsonCodec sha256) hash event) {feature : Manifest.Feature}
    (hfeature : feature ∈ view.features) :
    ∃ value, row.values.lookup feature.name = some value ∧
      loadField (hash.lookup feature.name) = .ok value.asJson := by
  have hnames := data.features row hrow
  have hnodup : (row.values.map (·.1)).Nodup := hnames ▸ view.features_nodup
  obtain ⟨value, hvalue⟩ := Option.isSome_iff_exists.mp (Dictionaries.lookup_isSome_iff.mpr
    (show feature.name ∈ row.values.map (·.1) from hnames ▸ List.mem_map_of_mem hfeature))
  have hloaded := data.loaded row hrow _ ((Dictionaries.lookup_eq_some_iff hnodup).mp hvalue)
  have hreserved := data.unreserved feature hfeature
  have hfield : hash.lookup feature.name = some value.jsonText := by
    rw [hholds, OnlineCodec.eventFields]
    simp only [List.cons_append, List.nil_append, List.lookup_cons,
      beq_eq_false_iff_ne.mpr hreserved.1, beq_eq_false_iff_ne.mpr hreserved.2,
      Dictionaries.lookup_map, (streamEvent_ok hok).2.2.2.2, hvalue]
    rfl
  refine ⟨value, hvalue, ?_⟩
  rw [hfield, loadField, ← Value.jsonText_asJson, jsonLoads_jsonText hloaded]

end Hashes

section Parity

variable {viewName : String} {names joinKeys : List String} {rows : List OfflineRow}
  {observation : ObservationRow} {row : OfflineRow}

/-- The column of a feature in a historical answer. -/
theorem lookup_answer (viewName : String) {names : List String} {f : String → Value}
    {name : String} (h : name ∈ names) :
    (names.map fun name => (s!"{viewName}__{name}", f name)).lookup s!"{viewName}__{name}" =
      some (f name) := by
  induction names with
  | nil => cases h
  | cons first rest ih =>
      rw [List.map_cons, List.lookup_cons]
      by_cases hfirst : name = first
      · rw [hfirst, beq_self_eq_true]
      · rw [beq_eq_false_iff_ne.mpr (mt (column_inj viewName).mp hfirst)]
        exact ih ((List.mem_cons.mp h).resolve_left hfirst)

theorem joinView_missing (ttl : Option Nat) (h : joinedRow joinKeys rows observation = none) :
    joinView viewName names joinKeys ttl rows observation =
      ⟨"missing", names.map fun name => (s!"{viewName}__{name}", .null), none⟩ := by
  simp only [joinView, h, Option.filter_none, Option.bind_none, Option.getD_none, Option.map_none]

/-- The answer of a row whose time to live is not over. -/
theorem joinView_kept {ttl : Option Nat} (h : joinedRow joinKeys rows observation = some row)
    (hkept : isExpired ttl observation row = false) :
    joinView viewName names joinKeys ttl rows observation =
      ⟨"present", names.map fun name => (s!"{viewName}__{name}",
        (row.values.lookup name).getD .null),
        some (observation.eventTimestamp - row.eventTimestamp)⟩ := by
  have hfilter : (some row).filter (fun row => !isExpired ttl observation row) = some row := by
    rw [Option.filter_some, hkept]
    rfl
  simp only [joinView, h, hfilter, hkept, Bool.false_eq_true, if_false, Option.bind_some,
    Option.map_some]

/-- A time to live leaves an answer, or says that the row which was there is expired. -/
theorem joinView_ttl (ttl : Option Nat) :
    (joinView viewName names joinKeys ttl rows observation).status ≠ "expired" ∧
        joinView viewName names joinKeys ttl rows observation =
          joinView viewName names joinKeys none rows observation ∨
      (joinView viewName names joinKeys ttl rows observation).status = "expired" ∧
        (joinView viewName names joinKeys none rows observation).status = "present" := by
  cases hjoined : joinedRow joinKeys rows observation with
  | none =>
      left
      have hmissing : "missing" ≠ "expired" := by decide
      rw [joinView_missing ttl hjoined, joinView_missing none hjoined]
      exact ⟨hmissing, rfl⟩
  | some row =>
      have hnone : isExpired none observation row = false := rfl
      rw [joinView_kept hjoined hnone]
      cases hexpired : isExpired ttl observation row with
      | false =>
          left
          have hpresent : "present" ≠ "expired" := by decide
          rw [joinView_kept hjoined hexpired]
          exact ⟨hpresent, rfl⟩
      | true => exact Or.inr ⟨by simp only [joinView, hjoined, hexpired, if_true], rfl⟩

/-- A read by values that are written like a stored key goes to its hash. -/
theorem entityKey_of_sameEntity (sha256 : String → String) {store : RegistryStore}
    (registered : RegisteredView store) {key values : Dict}
    (hkey : StoredKey registered.entity key) (hsame : SameEntity registered.joinKeys values key) :
    (jsonCodec sha256).entityKey registered.view.ref (keyValues registered.joinKeys values) =
      (jsonCodec sha256).entityKey registered.view.ref key := by
  have hnames : key.map (·.1) = registered.joinKeys := hkey.names
  have hkeys : ∀ name ∈ registered.joinKeys, name ∈ values.map (·.1) :=
    hsame.mem fun name hname => hnames ▸ hname
  have hnormal : (Value.dict (keyValues registered.joinKeys values)).normal =
      (Value.dict key).normal :=
    (normal_keyValues_iff registered.entity.joinKeys_nodup hkey.nodup hkeys hsame).mpr
      fun _ hname => by rwa [hnames] at hname
  have hdigests : (jsonCodec sha256).digest (keyValues registered.joinKeys values) =
      (jsonCodec sha256).digest key := by
    change sha256 (Value.dict _).canonicalText = sha256 (Value.dict key).canonicalText
    rw [Value.canonicalText_eq, Value.canonicalText_eq, hnormal]
  rw [OnlineCodec.entityKey, OnlineCodec.entityKey, hdigests]

end Parity

section Sample

/-- The rows of one account, and the key by which it is read. -/
theorem accountRows_keys : ∀ row ∈ accountRows.rows, StoredKey accountEntity row.entityValues := by
  have hkey : StoredKey accountEntity [("account_id", .str "a1")] :=
    ⟨rfl, by decide, fun item hitem t ht => by
      rw [List.mem_singleton.mp hitem] at ht
      cases ht⟩
  intro row hrow
  rcases List.mem_pair.mp hrow with rfl | rfl
  · exact hkey
  · exact hkey

theorem accountRows_loaded : ∀ row ∈ accountRows.rows, ∀ item ∈ row.values,
    item.2.asJson.isLoaded = true := by
  decide

def servedAccounts : ServedRows accountEntity accountView :=
  ⟨accountRows, accountRows_keys, accountRows_loaded⟩

end Sample

end FeatureStore
