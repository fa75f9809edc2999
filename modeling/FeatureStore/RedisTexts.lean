import FeatureStore.JsonText
import FeatureStore.Library.Dictionaries
import FeatureStore.OnlineStore

/-!
# The online store in the texts of Redis

Redis knows hashes of texts only. The upsert script compares the microsecond texts of
timestamps, and on representable instants it does what the store of instants does.
-/

namespace FeatureStore

/-- `entity_key` digests the canonical text of the entity, and fields hold JSON texts. -/
def jsonCodec (sha256 : String → String) : OnlineCodec :=
  ⟨fun entityValues => sha256 (Value.dict entityValues).canonicalText, Value.jsonText⟩

/-- A hash: its fields with their texts. A key without fields is absent. -/
abbrev RedisHash := List (String × String)

abbrev RedisStore := String → RedisHash

def timestampField : String := "__event_timestamp"

def idField : String := "__event_id"

/-- `UPSERT_SCRIPT` on the hash of its key. Lua raises when it compares an absent id. -/
def upsertScript (hash : RedisHash) (timestamp eventId : String)
    (arguments : List (String × String)) : Option (RedisHash × Bool) :=
  let written := arguments.foldl setField
    (setField (setField hash (timestampField, timestamp)) (idField, eventId))
  match hash.lookup timestampField with
  | none => some (written, true)
  | some oldTimestamp =>
      if timestamp < oldTimestamp then some (hash, false)
      else if oldTimestamp = timestamp then
        match hash.lookup idField with
        | none => none
        | some oldId => if eventId ≤ oldId then some (hash, false) else some (written, true)
      else some (written, true)

/-- The key of the hash of an event's entity. -/
def OnlineCodec.eventKey (codec : OnlineCodec) (event : StreamFeatureEvent) : String :=
  codec.entityKey event.featureView event.entityValues

/-- `OnlineStore.upsert`; there is no result when it raises, which leaves the store. -/
def RedisStore.upsert? (codec : OnlineCodec) (redis : RedisStore) (event : StreamFeatureEvent) :
    Option (RedisStore × Bool) := do
  let timestamp ← event.eventTimestamp.utcText?
  let (hash, accepted) ← upsertScript (redis (codec.eventKey event)) timestamp event.eventId
    (codec.fieldArguments event)
  return (Function.update redis (codec.eventKey event) hash, accepted)

/-- Feature names are no fields of the script. -/
def StreamFeatureEvent.Unreserved (event : StreamFeatureEvent) : Prop :=
  ∀ name ∈ event.values.map (·.1), name ≠ timestampField ∧ name ≠ idField

/-- A hash of instants in the texts of Redis. -/
def Encodes : Option OnlineHash → RedisHash → Prop
  | none, texts => texts = []
  | some hash, texts =>
      Instant.IsRepresentable hash.eventTimestamp ∧
        texts.lookup timestampField = some (isoMicroseconds hash.eventTimestamp) ∧
        texts.lookup idField = some hash.eventId ∧
        ∀ field, field ≠ timestampField → field ≠ idField →
          texts.lookup field = hash.fields.lookup field

section Fields

theorem lookup_setField (fields : List (String × String)) (item : String × String)
    (field : String) :
    (setField fields item).lookup field =
      if field = item.1 then some item.2 else fields.lookup field := by
  have hkept : (fields.filter fun stored => decide (stored.1 ≠ item.1)).lookup field =
      if field = item.1 then none else fields.lookup field := by
    induction fields with
    | nil => simp
    | cons stored rest ih =>
        rw [List.filter_cons, List.lookup_cons]
        by_cases hstored : stored.1 = item.1
        · rw [if_neg (by simp [hstored]), ih]
          by_cases hfield : field = item.1
          · rw [if_pos hfield, if_pos hfield]
          · rw [if_neg hfield, if_neg hfield, hstored, beq_eq_false_iff_ne.mpr hfield]
        · rw [if_pos (by simp [hstored]), List.lookup_cons, ih]
          by_cases hfield : field = item.1
          · rw [if_pos hfield, hfield, beq_eq_false_iff_ne.mpr (Ne.symm hstored), if_pos rfl]
          · rw [if_neg hfield, if_neg hfield]
  rw [setField, List.lookup_append, hkept, List.lookup_singleton]
  by_cases hfield : field = item.1
  · simp [hfield]
  · simp [hfield]

/-- Fields written with distinct names hide those that were there. -/
theorem lookup_foldl_setField {items : List (String × String)} (h : (items.map (·.1)).Nodup)
    (fields : List (String × String)) (field : String) :
    (items.foldl setField fields).lookup field =
      (items.lookup field).or (fields.lookup field) := by
  induction items generalizing fields with
  | nil => simp
  | cons item rest ih =>
      rw [List.map_cons, List.nodup_cons] at h
      rw [List.foldl_cons, ih h.2, lookup_setField, List.lookup_cons]
      by_cases hfield : field = item.1
      · have hrest : rest.lookup field = none := by
          rw [Dictionaries.lookup_eq_none_iff, hfield]
          exact h.1
        simp [hfield, hfield ▸ hrest]
      · simp [hfield, beq_eq_false_iff_ne.mpr hfield]

variable {codec : OnlineCodec} {event : StreamFeatureEvent}

theorem fieldArguments_perm (codec : OnlineCodec) (event : StreamFeatureEvent) :
    (codec.fieldArguments event).Perm
      (event.values.map fun item => (item.1, codec.dumps item.2)) :=
  List.perm_insertionSort _ _

theorem fieldArguments_names (codec : OnlineCodec) (event : StreamFeatureEvent) :
    ((codec.fieldArguments event).map (·.1)).Perm (event.values.map (·.1)) := by
  have hnames := (fieldArguments_perm codec event).map (·.1)
  rwa [List.map_map] at hnames

/-- The field of a feature has the text of its value. -/
theorem lookup_fieldArguments (h : (event.values.map (·.1)).Nodup) (field : String) :
    (codec.fieldArguments event).lookup field = (event.values.lookup field).map codec.dumps := by
  have hnodup : ((codec.fieldArguments event).map (·.1)).Nodup :=
    (fieldArguments_names codec event).nodup_iff.mpr h
  rw [Dictionaries.lookup_perm (fieldArguments_perm codec event) hnodup, Dictionaries.lookup_map]

end Fields

section Script

variable {codec : OnlineCodec} {event : StreamFeatureEvent} {stored : Option OnlineHash}
  {texts : RedisHash}

theorem isoMicroseconds_inj {a b : Instant} (ha : Instant.IsRepresentable a)
    (hb : Instant.IsRepresentable b) : isoMicroseconds a = isoMicroseconds b ↔ a = b := by
  constructor
  · intro heq
    rcases lt_trichotomy a b with hlt | heq' | hgt
    · exact absurd (isoMicroseconds_lt ha hb hlt) (heq ▸ lt_irrefl _)
    · exact heq'
    · exact absurd (isoMicroseconds_lt hb ha hgt) (heq ▸ lt_irrefl _)
  · exact congrArg _

theorem isoMicroseconds_lt_iff {a b : Instant} (ha : Instant.IsRepresentable a)
    (hb : Instant.IsRepresentable b) : isoMicroseconds a < isoMicroseconds b ↔ a < b := by
  constructor
  · intro hlt
    by_contra hle
    rcases (not_lt.mp hle).lt_or_eq with hgt | heq
    · exact lt_asymm hlt (isoMicroseconds_lt hb ha hgt)
    · exact absurd hlt (heq ▸ lt_irrefl _)
  · exact isoMicroseconds_lt ha hb

/-- What the script writes encodes the accepted hash. -/
theorem Encodes.written (h : Encodes stored texts)
    (hrep : Instant.IsRepresentable event.eventTimestamp.asUtc) (hnames : event.Unreserved)
    (hnodup : (event.values.map (·.1)).Nodup) :
    Encodes (some (codec.accepted stored event))
      ((codec.fieldArguments event).foldl setField
        (setField (setField texts (timestampField, isoMicroseconds event.eventTimestamp.asUtc))
          (idField, event.eventId))) := by
  have hargs : ((codec.fieldArguments event).map (·.1)).Nodup :=
    (fieldArguments_names codec event).nodup_iff.mpr hnodup
  have hreserved : ∀ field, field = timestampField ∨ field = idField →
      (codec.fieldArguments event).lookup field = none := by
    intro field hfield
    rw [Dictionaries.lookup_eq_none_iff, (fieldArguments_names codec event).mem_iff]
    intro hmem
    rcases hfield with rfl | rfl
    · exact (hnames _ hmem).1 rfl
    · exact (hnames _ hmem).2 rfl
  have hdistinct : timestampField ≠ idField := by decide
  refine ⟨hrep, ?_, ?_, fun field htimestamp hid => ?_⟩
  · rw [lookup_foldl_setField hargs, hreserved _ (Or.inl rfl), Option.none_or, lookup_setField,
      if_neg hdistinct, lookup_setField, if_pos rfl]
    rfl
  · rw [lookup_foldl_setField hargs, hreserved _ (Or.inr rfl), Option.none_or, lookup_setField,
      if_pos rfl]
    rfl
  · rw [lookup_foldl_setField hargs, lookup_setField, if_neg hid, lookup_setField,
      if_neg htimestamp, OnlineCodec.accepted, lookup_foldl_setField hargs]
    cases stored with
    | none =>
        obtain rfl : texts = [] := h
        rfl
    | some hash => rw [h.2.2.2 field htimestamp hid]; rfl

/-- The script decides on texts as the store does on instants. -/
theorem upsertScript_encodes (h : Encodes stored texts)
    (hrep : Instant.IsRepresentable event.eventTimestamp.asUtc) (hnames : event.Unreserved)
    (hnodup : (event.values.map (·.1)).Nodup) :
    ∃ after, upsertScript texts (isoMicroseconds event.eventTimestamp.asUtc) event.eventId
        (codec.fieldArguments event) =
        some (after, !(stored.any (·.isCurrent event))) ∧
      (stored.any (·.isCurrent event) = true → after = texts) ∧
      Encodes (if stored.any (·.isCurrent event) then stored
        else some (codec.accepted stored event)) after := by
  have hwritten := @Encodes.written codec event stored texts h hrep hnames hnodup
  cases stored with
  | none =>
      obtain rfl : texts = [] := h
      exact ⟨_, rfl, nofun, hwritten⟩
  | some hash =>
      obtain ⟨hhash, htimestamp, hid, -⟩ := id h
      simp only [upsertScript, htimestamp, hid, isoMicroseconds_lt_iff hrep hhash,
        isoMicroseconds_inj hhash hrep, Option.any_some, OnlineHash.isCurrent]
      by_cases hlt : event.eventTimestamp.asUtc < hash.eventTimestamp
      · simp only [hlt, if_true, decide_true, Bool.true_or]
        exact ⟨_, rfl, fun _ => rfl, h⟩
      · simp only [hlt, if_false, decide_false, Bool.false_or]
        by_cases heq : hash.eventTimestamp = event.eventTimestamp.asUtc
        · simp only [heq, if_true, decide_true, Bool.true_and]
          by_cases hle : event.eventId ≤ hash.eventId
          · simp only [hle, if_true, decide_true]
            exact ⟨_, rfl, fun _ => rfl, h⟩
          · simp only [hle, if_false, decide_false]
            exact ⟨_, rfl, nofun, hwritten⟩
        · simp only [heq, if_false, decide_false, Bool.false_and]
          exact ⟨_, rfl, nofun, hwritten⟩

end Script

end FeatureStore
