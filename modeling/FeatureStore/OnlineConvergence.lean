import FeatureStore.Library.LastWriter
import FeatureStore.RedisTexts

/-!
# Convergence of online hashes

Upserts of one entity are the writes of a last-writer-wins register, ranked by instant
and event id. The hash of the entity holds the event that the register holds.
-/

namespace FeatureStore

open LastWriter

/-- Upserts one after the other; one that raises leaves the store. -/
def RedisStore.upserts (codec : OnlineCodec) (redis : RedisStore)
    (events : List StreamFeatureEvent) : RedisStore :=
  events.foldl (fun redis event => ((redis.upsert? codec event).map (·.1)).getD redis) redis

/-- No key has a hash. -/
def RedisStore.empty : RedisStore := fun _ => []

/-- The events of a key whose timestamps have a text in UTC. -/
def storable (codec : OnlineCodec) (key : String) (events : List StreamFeatureEvent) :
    List StreamFeatureEvent :=
  events.filter fun event => decide (codec.eventKey event = key) &&
    decide (Instant.IsRepresentable event.eventTimestamp.asUtc)

/-- The fields of the hash that holds an event. -/
def OnlineCodec.eventFields (codec : OnlineCodec) (event : StreamFeatureEvent) :
    List (String × String) :=
  [(timestampField, isoMicroseconds event.eventTimestamp.asUtc), (idField, event.eventId)] ++
    event.values.map fun item => (item.1, codec.dumps item.2)

/-- The hash has the fields of the event and no others. -/
def HoldsEvent (codec : OnlineCodec) (texts : RedisHash) (event : StreamFeatureEvent) : Prop :=
  ∀ field, texts.lookup field = (codec.eventFields event).lookup field

/-- Events of one view with dictionaries of the same feature names, where equal pairs of
timestamp and event id carry equal values. -/
structure Coherent (events : List StreamFeatureEvent) : Prop where
  dictionaries : ∀ e ∈ events, (e.values.map (·.1)).Nodup
  unreserved : ∀ e ∈ events, e.Unreserved
  names : ∀ e ∈ events, ∀ e' ∈ events, ∀ name,
    name ∈ e.values.map (·.1) ↔ name ∈ e'.values.map (·.1)
  identical : ∀ e ∈ events, ∀ e' ∈ events, e.rank = e'.rank →
    ∀ name, e.values.lookup name = e'.values.lookup name

/-- The hash of instants that an event leaves. -/
def Reflects (codec : OnlineCodec) : Option OnlineHash → Option StreamFeatureEvent → Prop
  | none, none => True
  | some hash, some event =>
      hash.eventTimestamp = event.eventTimestamp.asUtc ∧ hash.eventId = event.eventId ∧
        ∀ field, hash.fields.lookup field = (event.values.lookup field).map codec.dumps
  | _, _ => False

section Register

variable {codec : OnlineCodec} {stored : Option OnlineHash}
  {written : Option StreamFeatureEvent} {event : StreamFeatureEvent}

theorem Reflects.isCurrent (h : Reflects codec stored written) (event : StreamFeatureEvent) :
    stored.any (·.isCurrent event) =
      written.any fun old => decide (event.rank ≤ old.rank) := by
  cases stored with
  | none =>
      cases written with
      | none => rfl
      | some old => exact absurd h id
  | some hash =>
      cases written with
      | none => exact absurd h id
      | some old =>
          have hrank : hash.rank = old.rank := by
            rw [OnlineHash.rank, StreamFeatureEvent.rank, h.1, h.2.1]
          rw [Option.any_some, Option.any_some, Bool.eq_iff_iff, OnlineHash.isCurrent_iff,
            decide_eq_true_eq, hrank]

/-- An upsert of an event with the same feature names is a write of the register. -/
theorem Reflects.write (h : Reflects codec stored written)
    (hnodup : (event.values.map (·.1)).Nodup)
    (hnames : ∀ old, written = some old → ∀ name, name ∈ event.values.map (·.1) ↔
      name ∈ old.values.map (·.1)) :
    Reflects codec
      (if stored.any (·.isCurrent event) then stored else some (codec.accepted stored event))
      (write StreamFeatureEvent.rank written event) := by
  rw [LastWriter.write, h.isCurrent event]
  split
  · exact h
  · refine ⟨rfl, rfl, fun field => ?_⟩
    have hargs : ((codec.fieldArguments event).map (·.1)).Nodup :=
      (fieldArguments_names codec event).nodup_iff.mpr hnodup
    rw [OnlineCodec.accepted, lookup_foldl_setField hargs, lookup_fieldArguments hnodup]
    cases hfield : event.values.lookup field with
    | some value => rfl
    | none =>
        cases stored with
        | none => rfl
        | some hash =>
            cases written with
            | none => exact absurd h id
            | some old =>
                have hold : old.values.lookup field = none := by
                  rw [Dictionaries.lookup_eq_none_iff, ← hnames old rfl field,
                    ← Dictionaries.lookup_eq_none_iff, hfield]
                change (none : Option String).or (hash.fields.lookup field) = none
                rw [Option.none_or, h.2.2 field, hold]
                rfl

/-- A hash that encodes and reflects an event holds it. -/
theorem HoldsEvent.of_reflects {hash : OnlineHash} {texts : RedisHash}
    (hencodes : Encodes (some hash) texts) (hreflects : Reflects codec (some hash) (some event)) :
    HoldsEvent codec texts event := by
  obtain ⟨-, htimestamp, hid, hfields⟩ := hencodes
  intro field
  have hdistinct : (idField == timestampField) = false := by decide
  simp only [OnlineCodec.eventFields, List.cons_append, List.nil_append, List.lookup_cons,
    Dictionaries.lookup_map]
  by_cases hfirst : field = timestampField
  · rw [hfirst, htimestamp, hreflects.1, beq_self_eq_true]
  · rw [beq_eq_false_iff_ne.mpr hfirst]
    by_cases hsecond : field = idField
    · rw [hsecond, hid, hreflects.2.1, beq_self_eq_true]
    · rw [beq_eq_false_iff_ne.mpr hsecond, hfields field hfirst hsecond, hreflects.2.2]

end Register

section Runs

variable {codec : OnlineCodec} {key : String} {events others : List StreamFeatureEvent}
  {event : StreamFeatureEvent}

theorem Coherent.mono (h : Coherent events) (hsub : ∀ e ∈ others, e ∈ events) :
    Coherent others where
  dictionaries e he := h.dictionaries e (hsub e he)
  unreserved e he := h.unreserved e (hsub e he)
  names e he e' he' := h.names e (hsub e he) e' (hsub e' he')
  identical e he e' he' := h.identical e (hsub e he) e' (hsub e' he')

theorem mem_storable : event ∈ storable codec key events ↔ event ∈ events ∧
    codec.eventKey event = key ∧ Instant.IsRepresentable event.eventTimestamp.asUtc := by
  simp [storable]

theorem upserts_append_singleton (redis : RedisStore) :
    redis.upserts codec (events ++ [event]) =
      (((redis.upserts codec events).upsert? codec event).map (·.1)).getD
        (redis.upserts codec events) := by
  rw [RedisStore.upserts, List.foldl_append]
  rfl

/-- An upsert at another key, or of a timestamp without a text, leaves a hash. -/
theorem upsert?_other {redis : RedisStore}
    (h : ¬(codec.eventKey event = key ∧
      Instant.IsRepresentable event.eventTimestamp.asUtc)) :
    (((redis.upsert? codec event).map (·.1)).getD redis) key = redis key := by
  unfold RedisStore.upsert? DateTime.utcText?
  by_cases hrep : Instant.IsRepresentable event.eventTimestamp.asUtc
  · rw [if_pos hrep]
    have hkey : key ≠ codec.eventKey event := fun heq => h ⟨heq.symm, hrep⟩
    change ((((upsertScript (redis (codec.eventKey event)) _ event.eventId
      (codec.fieldArguments event)).bind _).map _).getD redis) key = redis key
    cases upsertScript (redis (codec.eventKey event))
        (isoMicroseconds event.eventTimestamp.asUtc) event.eventId
        (codec.fieldArguments event) with
    | none => rfl
    | some result => exact Function.update_of_ne hkey _ _
  · rw [if_neg hrep]
    rfl

/-- An upsert of an event with a text returns, and its hash is that of the script. -/
theorem upsert?_own {redis : RedisStore} {stored : Option OnlineHash}
    (hrep : Instant.IsRepresentable event.eventTimestamp.asUtc)
    (hnames : event.Unreserved) (hnodup : (event.values.map (·.1)).Nodup)
    (h : Encodes stored (redis (codec.eventKey event))) :
    ∃ after, redis.upsert? codec event = some (after, !(stored.any (·.isCurrent event))) ∧
      (stored.any (·.isCurrent event) = true → after = redis) ∧
      Encodes (if stored.any (·.isCurrent event) then stored
        else some (codec.accepted stored event)) (after (codec.eventKey event)) := by
  obtain ⟨hash, hscript, hsame, hencodes⟩ := upsertScript_encodes h hrep hnames hnodup
  refine ⟨Function.update redis (codec.eventKey event) hash, ?_, fun hcurrent => ?_, ?_⟩
  · rw [RedisStore.upsert?, DateTime.utcText?, if_pos hrep]
    change (upsertScript (redis (codec.eventKey event)) _ event.eventId
      (codec.fieldArguments event)).bind _ = _
    rw [hscript]
    rfl
  · rw [hsame hcurrent, Function.update_eq_self]
  · rwa [Function.update_self]

/-- After any upserts the hash of a key holds what the register of its events holds. -/
theorem upserts_reflects (h : Coherent (storable codec key events)) :
    ∃ stored, Encodes stored (RedisStore.empty.upserts codec events key) ∧
      Reflects codec stored
        (LastWriter.register StreamFeatureEvent.rank (storable codec key events)) := by
  induction events using List.reverseRecOn with
  | nil => exact ⟨none, rfl, trivial⟩
  | append_singleton events event ih =>
      have hsub : ∀ e ∈ storable codec key events, e ∈ storable codec key (events ++ [event]) := by
        intro e he
        obtain ⟨hmem, hrest⟩ := mem_storable.mp he
        exact mem_storable.mpr ⟨List.mem_append_left _ hmem, hrest⟩
      obtain ⟨stored, hencodes, hreflects⟩ := ih (h.mono hsub)
      by_cases hown : codec.eventKey event = key ∧
          Instant.IsRepresentable event.eventTimestamp.asUtc
      · obtain ⟨rfl, hrep⟩ := hown
        have hsplit : storable codec (codec.eventKey event) (events ++ [event]) =
            storable codec (codec.eventKey event) events ++ [event] := by
          simp [storable, hrep]
        have hmem : event ∈ storable codec (codec.eventKey event) (events ++ [event]) := by
          simp [hsplit]
        obtain ⟨after, hupsert, -, hafter⟩ := upsert?_own hrep (h.unreserved event hmem)
          (h.dictionaries event hmem) hencodes
        have hwritten := hreflects.write (h.dictionaries event hmem) fun old hold name =>
          h.names event hmem old (hsub old (isLatest_register hold).1) name
        rw [upserts_append_singleton, hupsert, hsplit, register_append_singleton]
        exact ⟨_, hafter, hwritten⟩
      · have hsplit : storable codec key (events ++ [event]) = storable codec key events := by
          rw [storable, List.filter_append, List.filter_cons_of_neg, List.filter_nil,
            List.append_nil, storable]
          simpa using hown
        refine ⟨stored, ?_, ?_⟩
        · rw [upserts_append_singleton, upsert?_other hown]
          exact hencodes
        · rw [hsplit]
          exact hreflects

/-- The hash of a key is empty without events and holds the latest one otherwise. -/
theorem upserts_holds (h : Coherent (storable codec key events)) :
    (storable codec key events = [] → RedisStore.empty.upserts codec events key = []) ∧
      ∀ event, IsLatest StreamFeatureEvent.rank (storable codec key events) event →
        HoldsEvent codec (RedisStore.empty.upserts codec events key) event := by
  obtain ⟨stored, hencodes, hreflects⟩ := upserts_reflects h
  constructor
  · intro hnone
    rw [hnone] at hreflects
    cases stored with
    | none => exact hencodes
    | some hash => exact absurd hreflects id
  · intro event hlatest
    cases hregister : LastWriter.register StreamFeatureEvent.rank (storable codec key events) with
    | none =>
        rw [register_eq_none] at hregister
        rw [hregister] at hlatest
        cases hlatest.1
    | some winner =>
        rw [hregister] at hreflects
        have hwinner := isLatest_register hregister
        have hrank := hwinner.rank_eq hlatest
        have hvalues := h.identical winner hwinner.1 event hlatest.1 hrank
        cases stored with
        | none => exact absurd hreflects id
        | some hash =>
            apply HoldsEvent.of_reflects hencodes
            obtain ⟨htimestamp, hid, hfields⟩ := hreflects
            have hpair : winner.eventTimestamp.asUtc = event.eventTimestamp.asUtc ∧
                winner.eventId = event.eventId := by
              simpa [StreamFeatureEvent.rank, eventRank] using hrank
            refine ⟨htimestamp.trans hpair.1, hid.trans hpair.2, fun field => ?_⟩
            rw [hfields, hvalues]

/-- An upsert is accepted when its event is ahead of all that the hash has seen, and
otherwise changes nothing. -/
theorem upsert?_accepted (h : Coherent (storable codec (codec.eventKey event) (events ++ [event])))
    (hrep : Instant.IsRepresentable event.eventTimestamp.asUtc) :
    ∃ after accepted, (RedisStore.empty.upserts codec events).upsert? codec event =
        some (after, accepted) ∧
      (accepted = true ↔ ∀ old,
        IsLatest StreamFeatureEvent.rank (storable codec (codec.eventKey event) events) old →
          old.rank < event.rank) ∧
      (accepted = false → after = RedisStore.empty.upserts codec events) := by
  have hmem : event ∈ storable codec (codec.eventKey event) (events ++ [event]) :=
    mem_storable.mpr ⟨by simp, rfl, hrep⟩
  have hsub : ∀ e ∈ storable codec (codec.eventKey event) events,
      e ∈ storable codec (codec.eventKey event) (events ++ [event]) := by
    intro e he
    obtain ⟨hmem, hrest⟩ := mem_storable.mp he
    exact mem_storable.mpr ⟨List.mem_append_left _ hmem, hrest⟩
  obtain ⟨stored, hencodes, hreflects⟩ := upserts_reflects (h.mono hsub)
  obtain ⟨after, hupsert, hsame, -⟩ := upsert?_own hrep (h.unreserved event hmem)
    (h.dictionaries event hmem) hencodes
  refine ⟨after, _, hupsert, ?_, fun hrefused => hsame (by simpa using hrefused)⟩
  rw [hreflects.isCurrent event, Bool.not_eq_true', ← Bool.not_eq_true, Option.any_eq_true]
  simp only [decide_eq_true_eq, not_exists, not_and, not_le]
  constructor
  · intro hahead old hlatest
    cases hregister : LastWriter.register StreamFeatureEvent.rank
        (storable codec (codec.eventKey event) events) with
    | none =>
        rw [register_eq_none] at hregister
        rw [hregister] at hlatest
        cases hlatest.1
    | some winner =>
        rw [hlatest.rank_eq (isLatest_register hregister)]
        exact hahead winner hregister
  · exact fun hahead old hold => hahead old (isLatest_register hold)

/-- The order of the microsecond texts is that of the instants, in any time zone. -/
theorem utcText?_lt_iff {a b : DateTime} {s t : String} (ha : a.utcText? = some s)
    (hb : b.utcText? = some t) : s < t ↔ a.asUtc < b.asUtc := by
  unfold DateTime.utcText? at ha hb
  split at ha
  · split at hb
    · rename_i hrepA hrepB
      rw [← Option.some.inj ha, ← Option.some.inj hb]
      exact isoMicroseconds_lt_iff hrepA hrepB
    · cases hb
  · cases ha

/-- Any upserts of the events of an entity leave the event of the greatest instant and
id, whatever their order and repetitions. -/
theorem online_convergence (codec : OnlineCodec) (key : String)
    (events : List StreamFeatureEvent) (h : Coherent (storable codec key events)) :
    (storable codec key events = [] → RedisStore.empty.upserts codec events key = []) ∧
    (∀ event, IsLatest StreamFeatureEvent.rank (storable codec key events) event →
      HoldsEvent codec (RedisStore.empty.upserts codec events key) event) ∧
    (∀ others, (∀ event, event ∈ others ↔ event ∈ events) → ∀ field,
      (RedisStore.empty.upserts codec others key).lookup field =
        (RedisStore.empty.upserts codec events key).lookup field) ∧
    (∀ before event after, events = before ++ event :: after → codec.eventKey event = key →
      Instant.IsRepresentable event.eventTimestamp.asUtc →
      ∃ redis accepted, (RedisStore.empty.upserts codec before).upsert? codec event =
          some (redis, accepted) ∧
        (accepted = true ↔ ∀ old,
          IsLatest StreamFeatureEvent.rank (storable codec key before) old →
            old.rank < event.rank) ∧
        (accepted = false → redis = RedisStore.empty.upserts codec before)) ∧
    ∀ a b : DateTime, ∀ s t, a.utcText? = some s → b.utcText? = some t →
      (s < t ↔ a.asUtc < b.asUtc) := by
  have hholds := upserts_holds h
  refine ⟨hholds.1, hholds.2, fun others hsame field => ?_, ?_, fun _ _ _ _ => utcText?_lt_iff⟩
  · have hstorable : ∀ event, event ∈ storable codec key others ↔
        event ∈ storable codec key events := by
      intro event
      rw [mem_storable, mem_storable, hsame]
    have hothers := upserts_holds (h.mono fun event => (hstorable event).mp)
    cases hregister : LastWriter.register StreamFeatureEvent.rank (storable codec key events) with
    | none =>
        have hempty := register_eq_none.mp hregister
        have hempty' : storable codec key others = [] :=
          List.eq_nil_iff_forall_not_mem.mpr fun event hevent => by
            simpa [hempty] using (hstorable event).mp hevent
        rw [hholds.1 hempty, hothers.1 hempty']
    | some winner =>
        have hlatest := isLatest_register hregister
        rw [hholds.2 winner hlatest field, hothers.2 winner (hlatest.congr hstorable) field]
  · rintro before event after rfl rfl hrep
    apply upsert?_accepted _ hrep
    apply h.mono
    intro e he
    obtain ⟨hmem, hrest⟩ := mem_storable.mp he
    refine mem_storable.mpr ⟨?_, hrest⟩
    rcases List.mem_append.mp hmem with hbefore | hevent
    · exact List.mem_append_left _ hbefore
    · rw [List.mem_singleton.mp hevent]
      simp

end Runs

section Sample

def accountCodec : OnlineCodec :=
  jsonCodec fun text =>
    if text = "\x7b\"account_id\":\"a1\"\x7d" then
      "1f31d0230d93ce4ed77ba93f67ebb5958d9de81b938b05a76256f5aedd3cc4e7"
    else text

/-- An event of account `a1` at 10:00 of the given offset. -/
def accountEvent (offset : Int) (eventId : String) (amount : Int)
    (h : 1 ≤ eventId.length ∧ eventId.length ≤ 256) : StreamFeatureEvent :=
  ⟨eventId, "account_stats@1.0.0", [("account_id", .str "a1")],
    ⟨1704189600000000, some offset⟩, [("amount", .int amount)], h, rfl⟩

/-- The event of the later instant is held, though its wall clock shows the same time. -/
theorem later_offset_held :
    HoldsEvent accountCodec
      (RedisStore.empty.upserts accountCodec
        [accountEvent 0 "a" 1 (by decide), accountEvent 7200000000 "b" 2 (by decide)]
        (accountCodec.eventKey (accountEvent 0 "a" 1 (by decide))))
      (accountEvent 0 "a" 1 (by decide)) := by
  have hcoherent : Coherent
      [accountEvent 0 "a" 1 (by decide), accountEvent 7200000000 "b" 2 (by decide)] := by
    constructor
    · decide
    · unfold StreamFeatureEvent.Unreserved
      decide
    · simp [accountEvent]
    · simp [accountEvent, StreamFeatureEvent.rank, eventRank]
  apply (online_convergence _ _ _ (hcoherent.mono fun e he => (mem_storable.mp he).1)).2.1
  constructor
  · apply mem_storable.mpr
    exact ⟨List.mem_cons_self, rfl, by decide⟩
  · intro e he
    rcases List.mem_pair.mp (mem_storable.mp he).1 with rfl | rfl
    · exact le_refl _
    · apply eventRank_le.mpr
      exact Or.inl (by decide)

end Sample

end FeatureStore
