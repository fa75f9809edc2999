import FeatureStore.CanonicalJson
import FeatureStore.LedgerEvolution
import FeatureStore.StagedRows

/-!
# Identity in the ledger

The ledger compares the fingerprints of canonical payloads, in which the timestamp is a UTC
text, the keys are sorted and the infinities and NaN are null. So an event of a known id, without
such floats, is a duplicate exactly when it has the same instant and the same values, and the
event that a record decodes to always is.
-/

namespace FeatureStore

open Relational

/-- The dump of an event with the text of its timestamp. -/
def eventPayload (event : StreamFeatureEvent) (timestamp : String) : Value :=
  .dict [("event_id", .str event.eventId), ("feature_view", .str event.featureView),
    ("entity_values", (Value.dict event.entityValues).jsonMode),
    ("event_timestamp", .str timestamp), ("values", (Value.dict event.values).jsonMode)]

/-- `canonical_event_payload` as a dictionary; the conversion to UTC may overflow. -/
def canonicalPayload (event : StreamFeatureEvent) : Except PyException Value :=
  match event.eventTimestamp.utcText? with
  | some text => .ok (eventPayload event text)
  | none => .error ⟨.runtime, "date value out of range"⟩

/-- The dictionary of an event whose timestamp has a UTC text. -/
def StreamFeatureEvent.payload (event : StreamFeatureEvent) : Value :=
  eventPayload event (isoMicroseconds event.eventTimestamp.asUtc)

/-- The fingerprint of a canonical event, by the given SHA-256. -/
def ledgerFingerprint (sha256 : String → String) (event : StreamFeatureEvent) : String :=
  payloadFingerprint sha256 event.payload

/-- `StreamEventLedger.register`, with the fingerprint of the payload. -/
def registerEvent (sha256 : String → String) (db : Database) (event : StreamFeatureEvent)
    (topic : String) (partition offset : Nat) (id : Uuid) (now : Instant) :
    Database × Except PyException Registration :=
  match canonicalPayload event with
  | .error exc => (db, .error exc)
  | .ok _ => register (ledgerFingerprint sha256) db event topic partition offset id now

def eventFields : List String :=
  ["event_id", "feature_view", "entity_values", "event_timestamp", "values"]

/-- `StreamFeatureEvent.model_validate` on a dictionary, without the texts of its errors. -/
def payloadEvent (coerce : Value → Option DateTime) (payload : Dict) :
    Except PyException StreamFeatureEvent :=
  let invalid := ⟨.validation, "validation error for StreamFeatureEvent"⟩
  if (payload.map (·.1)).all eventFields.contains then
    match payload.lookup "event_id", payload.lookup "feature_view",
      payload.lookup "entity_values", payload.lookup "event_timestamp",
      payload.lookup "values" with
    | some eventId, some (.str featureView), some (.dict entityValues), some timestamp,
      some (.dict values) => validateEvent coerce featureView eventId entityValues timestamp values
    | _, _, _, _, _ => .error invalid
  else .error invalid

/-- `StreamEventLedger.event`: the stored payload is the dictionary of the stored event. -/
def ledgerEvent (coerce : Value → Option DateTime) (record : StreamEventRecord) :
    Except PyException StreamFeatureEvent :=
  match record.payload.payload with
  | .dict payload => payloadEvent coerce payload
  | _ => .error ⟨.validation, "validation error for StreamFeatureEvent"⟩

/-- The entity values and the values of an event are JSON objects. -/
structure StreamFeatureEvent.IsJson (event : StreamFeatureEvent) : Prop where
  entityValues : (Value.dict event.entityValues).isJson = true
  entityKeys : (Value.dict event.entityValues).hasDistinctKeys = true
  values : (Value.dict event.values).isJson = true
  valueKeys : (Value.dict event.values).hasDistinctKeys = true

/-- Events with the same instant, and the same values up to the order of keys. -/
structure SameEvent (a b : StreamFeatureEvent) : Prop where
  instant : a.eventTimestamp.asUtc = b.eventTimestamp.asUtc
  entityValues : (Value.dict a.entityValues).SameJson (.dict b.entityValues)
  values : (Value.dict a.values).SameJson (.dict b.values)

/-- The record was inserted for the event. -/
structure StreamEventRecord.RegisteredFrom (sha256 : String → String)
    (record : StreamEventRecord) (event : StreamFeatureEvent) : Prop where
  identity : record.identity = event.identity
  payload : record.payload = canonicalEventPayload event
  fingerprint : record.fingerprint = ledgerFingerprint sha256 (canonicalEventPayload event)
  representable : Instant.IsRepresentable event.eventTimestamp.asUtc
  json : event.IsJson

/-- What the ledger does with an event: one of a new id is inserted as pending; the answer for a
known id tells whether the record is of the same event, if the record comes from one of the
sources; and what a record decodes to is a duplicate of it. -/
structure Identifies (sha256 : String → String) (coerce : Value → Option DateTime)
    (sources : Set StreamFeatureEvent) (db : Database) (event : StreamFeatureEvent)
    (topic : String) (partition offset : Nat) (id : Uuid) (now : Instant) : Prop where
  new : (∀ record ∈ db.streamEvents.rows, record.identity ≠ event.identity) →
    (∀ record ∈ db.streamEvents.rows, record.id ≠ id) →
    ∃ streamEvents record,
      registerEvent sha256 db event topic partition offset id now =
        ({ db with streamEvents := streamEvents }, .ok ⟨.new, record⟩) ∧
      streamEvents.rows = db.streamEvents.rows ++ [record] ∧ record.state = .pending ∧
      record.RegisteredFrom sha256 event
  duplicate : ∀ existing ∈ db.streamEvents.rows, ∀ first ∈ sources,
    existing.RegisteredFrom sha256 first → existing.identity = event.identity →
    SameEvent first event → registerEvent sha256 db event topic partition offset id now =
      (db, .ok ⟨.duplicate, existing⟩)
  conflict : ∀ existing ∈ db.streamEvents.rows, ∀ first ∈ sources,
    existing.RegisteredFrom sha256 first → existing.identity = event.identity →
    (ledgerFingerprint sha256 first = ledgerFingerprint sha256 event →
      first.payload.rawCanonicalText = event.payload.rawCanonicalText) →
    ¬SameEvent first event → registerEvent sha256 db event topic partition offset id now =
      (db, .ok ⟨.conflict, existing⟩)
  decoded : ∀ existing ∈ db.streamEvents.rows, ∀ first,
    existing.RegisteredFrom sha256 first →
    coerce (.str (isoMicroseconds first.eventTimestamp.asUtc)) =
      some (.utc first.eventTimestamp.asUtc) →
    ∃ decoded, ledgerEvent coerce existing = .ok decoded ∧
      registerEvent sha256 db decoded topic partition offset id now =
        (db, .ok ⟨.duplicate, existing⟩)

section Payloads

variable {sha256 : String → String} {a b event : StreamFeatureEvent}

theorem canonicalPayload_ok (h : Instant.IsRepresentable event.eventTimestamp.asUtc) :
    canonicalPayload event = .ok event.payload := by
  rw [canonicalPayload, DateTime.utcText?, if_pos h]
  rfl

/-- The canonical event has the payload of the event. -/
theorem payload_canonical (event : StreamFeatureEvent) :
    (canonicalEventPayload event).payload = event.payload := by
  simp [StreamFeatureEvent.payload, canonicalEventPayload, eventPayload]

/-- The canonical event is JSON, as the event is. -/
theorem StreamFeatureEvent.IsJson.canonical (h : event.IsJson) :
    (canonicalEventPayload event).IsJson where
  entityValues := Value.isJson_jsonMode h.entityValues
  entityKeys := Value.hasDistinctKeys_jsonMode h.entityKeys
  values := Value.isJson_jsonMode h.values
  valueKeys := Value.hasDistinctKeys_jsonMode h.valueKeys

/-- The payload of an event with JSON values is a JSON value. -/
def StreamFeatureEvent.IsJson.payloadJson (h : event.IsJson) : JsonValue where
  value := event.payload
  isJson := by
    have hentities := Value.isJson_jsonMode h.entityValues
    have hvalues := Value.isJson_jsonMode h.values
    simp only [StreamFeatureEvent.payload, eventPayload, Value.isJson, membersAreJson, hentities,
      hvalues, Bool.and_true]
  distinctKeys := by
    rw [StreamFeatureEvent.payload, eventPayload, Value.hasDistinctKeys_dict]
    refine ⟨?_, by simp⟩
    simp only [List.forall_mem_cons, List.not_mem_nil, false_imp_iff, implies_true, and_true]
    exact ⟨rfl, rfl, Value.hasDistinctKeys_jsonMode h.entityKeys, rfl,
      Value.hasDistinctKeys_jsonMode h.valueKeys⟩

theorem isFinite_iff : event.isFinite = true ↔
    (Value.dict event.entityValues).isFinite = true ∧
      (Value.dict event.values).isFinite = true := by
  rw [StreamFeatureEvent.isFinite, Bool.and_eq_true]

/-- Payloads of one identity are the same up to the order of keys exactly for the same event. -/
theorem payload_sameJson_iff (hidentity : a.identity = b.identity)
    (ha : Instant.IsRepresentable a.eventTimestamp.asUtc)
    (hb : Instant.IsRepresentable b.eventTimestamp.asUtc) (hfiniteA : a.isFinite = true)
    (hfiniteB : b.isFinite = true) : a.payload.SameJson b.payload ↔ SameEvent a b := by
  obtain ⟨hview, hid⟩ := Prod.mk.inj hidentity
  obtain ⟨hentitiesA, hvaluesA⟩ := isFinite_iff.mp hfiniteA
  obtain ⟨hentitiesB, hvaluesB⟩ := isFinite_iff.mp hfiniteB
  rw [StreamFeatureEvent.payload, StreamFeatureEvent.payload, eventPayload, eventPayload,
    Value.jsonMode_of_isFinite _ hentitiesA, Value.jsonMode_of_isFinite _ hvaluesA,
    Value.jsonMode_of_isFinite _ hentitiesB, Value.jsonMode_of_isFinite _ hvaluesB, sameJson_dict]
  constructor
  · rintro ⟨-, hmembers⟩
    refine ⟨?_, hmembers "entity_values" _ _ rfl rfl, hmembers "values" _ _ rfl rfl⟩
    rw [← isoMicroseconds_inj ha hb, ← sameJson_str]
    exact hmembers "event_timestamp" _ _ rfl rfl
  · rintro ⟨hinstant, hentities, hvalues⟩
    rw [← sameJson_dict, hid, hview, hinstant]
    have hself : ∀ text, (Value.str text).SameJson (.str text) := fun _ => sameJson_str.mpr rfl
    apply sameJson_members _ (by simp)
    exact .cons ⟨rfl, hself _⟩ (.cons ⟨rfl, hself _⟩ (.cons ⟨rfl, hentities⟩
      (.cons ⟨rfl, hself _⟩ (.cons ⟨rfl, hvalues⟩ .nil))))

/-- So do the texts that the ledger digests. -/
theorem rawCanonicalText_payload_iff (hidentity : a.identity = b.identity)
    (ha : Instant.IsRepresentable a.eventTimestamp.asUtc)
    (hb : Instant.IsRepresentable b.eventTimestamp.asUtc) (hfiniteA : a.isFinite = true)
    (hfiniteB : b.isFinite = true) (hjsonA : a.IsJson) (hjsonB : b.IsJson) :
    a.payload.rawCanonicalText = b.payload.rawCanonicalText ↔ SameEvent a b :=
  (hjsonA.payloadJson.rawCanonicalText_iff hjsonB.payloadJson).trans
    (payload_sameJson_iff hidentity ha hb hfiniteA hfiniteB)

theorem ledgerFingerprint_canonical (sha256 : String → String) (event : StreamFeatureEvent) :
    ledgerFingerprint sha256 (canonicalEventPayload event) = ledgerFingerprint sha256 event := by
  rw [ledgerFingerprint, payload_canonical, ledgerFingerprint]

/-- The same event has floats of the same kind. -/
theorem SameEvent.isFinite_eq (h : SameEvent a b) (ha : a.IsJson) (hb : b.IsJson) :
    a.isFinite = b.isFinite := by
  rw [StreamFeatureEvent.isFinite, StreamFeatureEvent.isFinite,
    isFinite_of_sameJson ha.entityKeys hb.entityKeys h.entityValues,
    isFinite_of_sameJson ha.valueKeys hb.valueKeys h.values]

theorem isFinite_canonical (event : StreamFeatureEvent) :
    (canonicalEventPayload event).isFinite = true :=
  isFinite_iff.mpr ⟨(Value.dict event.entityValues).isFinite_jsonMode,
    (Value.dict event.values).isFinite_jsonMode⟩

end Payloads

section Registration

variable {sha256 : String → String} {coerce : Value → Option DateTime} {db : Database}
  {event first : StreamFeatureEvent} {existing : StreamEventRecord} {topic : String}
  {partition offset : Nat} {id : Uuid} {now : Instant}

theorem registerEvent_representable (h : Instant.IsRepresentable event.eventTimestamp.asUtc) :
    registerEvent sha256 db event topic partition offset id now =
      register (ledgerFingerprint sha256) db event topic partition offset id now := by
  rw [registerEvent, canonicalPayload_ok h]

/-- An event that has no UTC text is not registered. -/
theorem registerEvent_overflow (h : ¬Instant.IsRepresentable event.eventTimestamp.asUtc) :
    registerEvent sha256 db event topic partition offset id now =
      (db, .error ⟨.runtime, "date value out of range"⟩) := by
  rw [registerEvent, canonicalPayload, DateTime.utcText?, if_neg h]

/-- An event of an unknown id is inserted. -/
theorem registerEvent_new (hjson : event.IsJson)
    (hrepresentable : Instant.IsRepresentable event.eventTimestamp.asUtc)
    (hnew : ∀ record ∈ db.streamEvents.rows, record.identity ≠ event.identity)
    (hfresh : ∀ record ∈ db.streamEvents.rows, record.id ≠ id) :
    ∃ streamEvents record,
      registerEvent sha256 db event topic partition offset id now =
        ({ db with streamEvents := streamEvents }, .ok ⟨.new, record⟩) ∧
      streamEvents.rows = db.streamEvents.rows ++ [record] ∧ record.state = .pending ∧
      record.RegisteredFrom sha256 event := by
  let record := newStreamEventRecord (ledgerFingerprint sha256) id event topic partition offset now
  have hnone : db.streamEvents.findUnique? event.identity = none :=
    Table.findUnique?_none_iff.mpr hnew
  have hfree : record.id ∉ db.streamEvents.rows.map StreamEventRecord.id ∧
      record.identity ∉ db.streamEvents.rows.map StreamEventRecord.identity := by
    constructor
    · intro hmem
      obtain ⟨other, hother, hsame⟩ := List.mem_map.mp hmem
      exact hfresh other hother hsame
    · intro hmem
      obtain ⟨other, hother, hsame⟩ := List.mem_map.mp hmem
      exact hnew other hother hsame
  obtain ⟨streamEvents, hinsert⟩ : ∃ streamEvents,
      db.streamEvents.insert? record = some streamEvents := ⟨_, dif_pos hfree⟩
  refine ⟨streamEvents, record, ?_, Table.insert?_rows hinsert, rfl, ?_⟩
  · rw [registerEvent_representable hrepresentable, register, hnone]
    simp only [record] at hinsert
    simp only [hinsert, record]
  · exact ⟨rfl, rfl, rfl, hrepresentable, hjson⟩

/-- A known id keeps its record, whose fingerprint decides the answer. -/
theorem registerEvent_known
    (hrepresentable : Instant.IsRepresentable event.eventTimestamp.asUtc)
    (hexisting : existing ∈ db.streamEvents.rows) (hidentity : existing.identity = event.identity) :
    registerEvent sha256 db event topic partition offset id now =
      (db, .ok ⟨if existing.fingerprint = ledgerFingerprint sha256 event then .duplicate
        else .conflict, existing⟩) := by
  rw [registerEvent_representable hrepresentable, register,
    Table.findUnique?_some_iff.mpr ⟨hexisting, hidentity⟩]
  simp only [ledgerFingerprint_canonical]

/-- A record decodes to the event that it holds. -/
theorem ledgerEvent_registered (hregistered : existing.RegisteredFrom sha256 first)
    (hcoerce : coerce (.str (isoMicroseconds first.eventTimestamp.asUtc)) =
      some (.utc first.eventTimestamp.asUtc)) :
    ledgerEvent coerce existing = .ok (canonicalEventPayload first) := by
  have hvalid : validateEvent coerce first.featureView (.str first.eventId)
      (membersJsonMode first.entityValues) (.str (isoMicroseconds first.eventTimestamp.asUtc))
      (membersJsonMode first.values) = .ok (canonicalEventPayload first) := by
    refine (dif_pos first.eventId_length).trans ?_
    simp only [validTimestamp, hcoerce]
    exact dif_pos rfl
  rw [ledgerEvent, hregistered.payload, payload_canonical]
  change payloadEvent coerce _ = _
  rw [payloadEvent]
  exact (if_pos rfl).trans hvalid

/-- What a record decodes to is a duplicate of it. -/
theorem registerEvent_decoded (hexisting : existing ∈ db.streamEvents.rows)
    (hregistered : existing.RegisteredFrom sha256 first) :
    registerEvent sha256 db (canonicalEventPayload first) topic partition offset id now =
      (db, .ok ⟨.duplicate, existing⟩) := by
  have hinstant : (canonicalEventPayload first).eventTimestamp.asUtc =
      first.eventTimestamp.asUtc := DateTime.asUtc_utc _
  have hrepeat : Instant.IsRepresentable (canonicalEventPayload first).eventTimestamp.asUtc := by
    rw [hinstant]
    exact hregistered.representable
  rw [registerEvent_known hrepeat hexisting hregistered.identity, hregistered.fingerprint,
    if_pos rfl]

/-- An event without infinities and NaN is told from every record of such an event. -/
theorem identifies_of_isFinite (hjson : event.IsJson)
    (hrepresentable : Instant.IsRepresentable event.eventTimestamp.asUtc)
    (hfinite : event.isFinite = true) :
    Identifies sha256 coerce {first | first.isFinite = true} db event topic partition offset id
      now where
  new := registerEvent_new hjson hrepresentable
  duplicate existing hexisting first hsource hregistered hidentity hsame := by
    have htext := (rawCanonicalText_payload_iff (hregistered.identity.symm.trans hidentity)
      hregistered.representable hrepresentable hsource hfinite hregistered.json hjson).mpr hsame
    have hprint : ledgerFingerprint sha256 first = ledgerFingerprint sha256 event :=
      congrArg sha256 htext
    rw [registerEvent_known hrepresentable hexisting hidentity, hregistered.fingerprint,
      ledgerFingerprint_canonical, if_pos hprint]
  conflict existing hexisting first hsource hregistered hidentity hsha hother := by
    have htext := rawCanonicalText_payload_iff (hregistered.identity.symm.trans hidentity)
      hregistered.representable hrepresentable hsource hfinite hregistered.json hjson
    rw [registerEvent_known hrepresentable hexisting hidentity, hregistered.fingerprint,
      ledgerFingerprint_canonical, if_neg fun hprint => hother (htext.mp (hsha hprint))]
  decoded existing hexisting first hregistered hcoerce :=
    ⟨_, ledgerEvent_registered hregistered hcoerce, registerEvent_decoded hexisting hregistered⟩

/-- The ledger with the record of one event. -/
def recordLedger (sha256 : String → String) (event : StreamFeatureEvent) : Database :=
  ⟨.empty, .empty, ⟨[newStreamEventRecord (ledgerFingerprint sha256) 0 event "" 0 0 0],
    List.nodup_singleton _, List.nodup_singleton _⟩⟩

/-- An event with an infinity or NaN is a duplicate of the one with null in its place. -/
theorem not_identifies_of_infinite (hjson : event.IsJson)
    (hrepresentable : Instant.IsRepresentable event.eventTimestamp.asUtc)
    (hinfinite : event.isFinite = false) :
    ¬Identifies sha256 coerce {first | first.isFinite = true}
      (recordLedger sha256 (canonicalEventPayload event)) event topic partition offset id now := by
  intro h
  have hinstant : (canonicalEventPayload event).eventTimestamp.asUtc =
      event.eventTimestamp.asUtc := DateTime.asUtc_utc _
  have hregistered : StreamEventRecord.RegisteredFrom sha256
      (newStreamEventRecord (ledgerFingerprint sha256) 0 (canonicalEventPayload event) "" 0 0 0)
      (canonicalEventPayload event) :=
    ⟨rfl, rfl, rfl, hinstant ▸ hrepresentable, hjson.canonical⟩
  have hother : ¬SameEvent (canonicalEventPayload event) event := by
    intro hsame
    have heq := hsame.isFinite_eq hjson.canonical hjson
    rw [isFinite_canonical, hinfinite] at heq
    cases heq
  have hconflict := h.conflict _ (List.mem_singleton_self _) _ (isFinite_canonical event)
    hregistered rfl (fun _ => by rw [payload_canonical]) hother
  rw [registerEvent_known hrepresentable (List.mem_singleton_self _) rfl, hregistered.fingerprint,
    ledgerFingerprint_canonical, ledgerFingerprint_canonical, if_pos rfl] at hconflict
  cases hconflict

/-- Among records of events without infinities and NaN, the ledger knows an event by its instant
and its values exactly if the event has none either. -/
theorem ledger_identity_iff (sha256 : String → String) (coerce : Value → Option DateTime)
    (event : StreamFeatureEvent) (hjson : event.IsJson)
    (hrepresentable : Instant.IsRepresentable event.eventTimestamp.asUtc) :
    (∀ (db : Database) (topic : String) (partition offset : Nat) (id : Uuid) (now : Instant),
      Identifies sha256 coerce {first | first.isFinite = true} db event topic partition offset id
        now) ↔ event.isFinite = true := by
  constructor
  · intro h
    by_contra hinfinite
    exact not_identifies_of_infinite hjson hrepresentable (Bool.not_eq_true _ ▸ hinfinite)
      (h (recordLedger sha256 (canonicalEventPayload event)) "" 0 0 1 0)
  · exact fun hfinite _ _ _ _ _ _ => identifies_of_isFinite hjson hrepresentable hfinite

end Registration

section Sample

/-- The SHA-256 of the one payload of the sample. -/
def payloadDigest (_ : String) : String :=
  "3c003eed7036b8792c7b7af448f51e21c7f7aa5ccccba0f9ab3a8db32d0414ef"

def firstEvent : StreamFeatureEvent :=
  ⟨"a", "account_stats@1.0.0", [("account_id", .str "a1"), ("region", .str "eu")],
    ⟨1704189600000000, some 0⟩, [("amount", .int 1)], a_length, .refl true⟩

/-- The same event an hour east, with the region first. -/
def easternEvent : StreamFeatureEvent :=
  ⟨"a", "account_stats@1.0.0", [("region", .str "eu"), ("account_id", .str "a1")],
    ⟨1704193200000000, some 3600000000⟩, [("amount", .int 1)], a_length, .refl true⟩

def firstRecord : StreamEventRecord :=
  newStreamEventRecord (ledgerFingerprint payloadDigest) 0 firstEvent "accounts" 0 0 0

def firstLedger : Database :=
  ⟨.empty, .empty, ⟨[firstRecord], List.nodup_singleton _, List.nodup_singleton _⟩⟩

theorem firstEvent_isJson : firstEvent.IsJson := ⟨rfl, by decide, rfl, by decide⟩

/-- The event that comes again from the east is a duplicate. -/
theorem eastern_event_duplicates :
    registerEvent payloadDigest firstLedger easternEvent "accounts" 0 1 1 0 =
      (firstLedger, .ok ⟨.duplicate, firstRecord⟩) := by
  have hjson : easternEvent.IsJson := ⟨rfl, by decide, rfl, by decide⟩
  have hregistered : firstRecord.RegisteredFrom payloadDigest firstEvent :=
    ⟨rfl, rfl, rfl, by decide, firstEvent_isJson⟩
  have hsame : SameEvent firstEvent easternEvent :=
    ⟨rfl, (sameJson_iff (by decide) (by decide)).mpr (by decide),
      (sameJson_iff (by decide) (by decide)).mpr rfl⟩
  have hledger := (ledger_identity_iff payloadDigest (fun _ => none) easternEvent hjson
    (by decide)).mpr rfl firstLedger "accounts" 0 1 1 0
  exact hledger.duplicate firstRecord (List.mem_singleton_self _) firstEvent rfl hregistered rfl
    hsame

/-- An event of the account with the given amount. -/
def amountEvent (amount : Value) : StreamFeatureEvent :=
  { firstEvent with values := [("amount", amount)] }

/-- An overflowing amount is a duplicate of a missing one, although the events differ. -/
theorem overflowing_amount_duplicates :
    ¬∀ (sha256 : String → String) (coerce : Value → Option DateTime) (db : Database)
      (event : StreamFeatureEvent) (topic : String) (partition offset : Nat) (id : Uuid)
      (now : Instant), event.IsJson → Instant.IsRepresentable event.eventTimestamp.asUtc →
      Identifies sha256 coerce Set.univ db event topic partition offset id now := by
  intro h
  have hjson : (amountEvent (.float "1E400")).IsJson := ⟨rfl, by decide, by decide, by decide⟩
  have hnull : StreamEventRecord.RegisteredFrom payloadDigest
      (newStreamEventRecord (ledgerFingerprint payloadDigest) 0 (amountEvent .null) "" 0 0 0)
      (amountEvent .null) :=
    ⟨rfl, rfl, rfl, by decide, ⟨rfl, by decide, rfl, by decide⟩⟩
  have hpayload : (amountEvent .null).payload = (amountEvent (.float "1E400")).payload := by
    have hamount : (Value.float "1E400").jsonMode = .null := by decide +kernel
    simp only [StreamFeatureEvent.payload, eventPayload, amountEvent, Value.jsonMode_dict,
      membersJsonMode_eq, List.map_cons, hamount]
    rfl
  have hother : ¬SameEvent (amountEvent .null) (amountEvent (.float "1E400")) := by
    intro hsame
    have hamount := (sameJson_dict.mp hsame.values).2 "amount" _ _ rfl rfl
    cases hamount
  have hconflict := (h payloadDigest (fun _ => none)
    (recordLedger payloadDigest (amountEvent .null))
    (amountEvent (.float "1E400")) "accounts" 0 1 1 0 hjson (by decide)).conflict _
    (List.mem_singleton_self _) _ (Set.mem_univ _) hnull rfl (fun _ => by rw [hpayload]) hother
  have hprint : (newStreamEventRecord (ledgerFingerprint payloadDigest) 0 (amountEvent .null) "" 0 0
      0).fingerprint = ledgerFingerprint payloadDigest (amountEvent (.float "1E400")) := rfl
  rw [registerEvent_known (by decide) (List.mem_singleton_self _) rfl, if_pos hprint] at hconflict
  cases hconflict

end Sample

end FeatureStore
