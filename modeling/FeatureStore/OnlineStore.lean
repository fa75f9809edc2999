import FeatureStore.OfflineStore
import Mathlib.Data.List.Sort
import Mathlib.Data.Prod.Lex
import Mathlib.Logic.Function.Basic
import Mathlib.Order.WithBot

/-!
# The online store

One Redis hash for each entity of a view. The script of `upsert` runs atomically
and keeps the hash whose pair of timestamp and event id is greater. The text of
ids compares as in Redis, by code points.
-/

namespace FeatureStore

/-- A timestamp and an event id, in the order of the upsert script; a row without
an event id comes before every event at its timestamp. -/
abbrev EventRank := Instant ×ₗ WithBot String

def eventRank (timestamp : Instant) (eventId : Option String) : EventRank :=
  toLex (timestamp, eventId.elim ⊥ fun id => (id : WithBot String))

def OfflineRow.rank (row : OfflineRow) : EventRank :=
  eventRank row.eventTimestamp row.eventId

def StreamFeatureEvent.rank (event : StreamFeatureEvent) : EventRank :=
  eventRank event.eventTimestamp.asUtc (some event.eventId)

/-- The hash of an entity, with the JSON text of each feature value. -/
structure OnlineHash where
  eventTimestamp : Instant
  eventId : String
  fields : List (String × String)
deriving DecidableEq, Repr

def OnlineHash.rank (hash : OnlineHash) : EventRank :=
  eventRank hash.eventTimestamp (some hash.eventId)

/-- The SHA-256 of an entity's canonical JSON, and the JSON text of a value. -/
structure OnlineCodec where
  digest : Dict → String
  dumps : Value → String

/-- `entity_key`. -/
def OnlineCodec.entityKey (codec : OnlineCodec) (viewRef : String) (entityValues : Dict) :
    String :=
  s!"fs:{viewRef}:{codec.digest entityValues}"

abbrev OnlineStore := String → Option OnlineHash

/-- `HSET`, for one field. -/
def setField (fields : List (String × String)) (field : String × String) :
    List (String × String) :=
  fields.filter (fun stored => decide (stored.1 ≠ field.1)) ++ [field]

/-- The arguments of the script after the timestamp and the event id. -/
def OnlineCodec.fieldArguments (codec : OnlineCodec) (event : StreamFeatureEvent) :
    List (String × String) :=
  (event.values.map fun item => (item.1, codec.dumps item.2)).insertionSort
    fun a b => a.1 ≤ b.1

/-- The hash that the script leaves when it accepts an event. -/
def OnlineCodec.accepted (codec : OnlineCodec) (old : Option OnlineHash)
    (event : StreamFeatureEvent) : OnlineHash :=
  ⟨event.eventTimestamp.asUtc, event.eventId,
    (codec.fieldArguments event).foldl setField ((old.map (·.fields)).getD [])⟩

/-- The test of the script: the stored pair is not behind the event. -/
def OnlineHash.isCurrent (hash : OnlineHash) (event : StreamFeatureEvent) : Bool :=
  decide (event.eventTimestamp.asUtc < hash.eventTimestamp) ||
    (decide (hash.eventTimestamp = event.eventTimestamp.asUtc) &&
      decide (event.eventId ≤ hash.eventId))

/-- `OnlineStore.upsert`: the store afterwards, and whether the event was accepted. -/
def OnlineStore.upsert (codec : OnlineCodec) (store : OnlineStore)
    (event : StreamFeatureEvent) : OnlineStore × Bool :=
  let key := codec.entityKey event.featureView event.entityValues
  if (store key).any (·.isCurrent event) then (store, false)
  else (Function.update store key (some (codec.accepted (store key) event)), true)

/-- The hash under a key is not behind the pair. -/
def OnlineStore.Holds (store : OnlineStore) (key : String) (rank : EventRank) : Prop :=
  ∃ hash, store key = some hash ∧ rank ≤ hash.rank

theorem eventRank_le {timestamp other : Instant} {eventId : Option String} {id : String} :
    eventRank timestamp eventId ≤ eventRank other (some id) ↔
      timestamp < other ∨ timestamp = other ∧ ∀ e, eventId = some e → e ≤ id := by
  unfold eventRank
  rw [Prod.Lex.toLex_le_toLex]
  cases eventId <;> simp

theorem OnlineHash.isCurrent_iff {hash : OnlineHash} {event : StreamFeatureEvent} :
    hash.isCurrent event = true ↔ event.rank ≤ hash.rank := by
  unfold isCurrent StreamFeatureEvent.rank OnlineHash.rank
  rw [eventRank_le, Bool.or_eq_true, Bool.and_eq_true, decide_eq_true_eq, decide_eq_true_eq,
    decide_eq_true_eq]
  simp [eq_comm]

namespace OnlineStore

variable {codec : OnlineCodec} {store : OnlineStore} {event : StreamFeatureEvent}
  {key : String} {rank : EventRank}

theorem Holds.mono (h : store.Holds key rank) {other : EventRank} (hle : other ≤ rank) :
    store.Holds key other := by
  obtain ⟨hash, hstored, hrank⟩ := h
  exact ⟨hash, hstored, le_trans hle hrank⟩

/-- No upsert puts a hash behind what it held. -/
theorem Holds.upsert (h : store.Holds key rank) :
    (store.upsert codec event).1.Holds key rank := by
  obtain ⟨hash, hstored, hrank⟩ := h
  unfold OnlineStore.upsert
  dsimp only
  split
  · exact ⟨hash, hstored, hrank⟩
  · rename_i hcurrent
    by_cases hkey : key = codec.entityKey event.featureView event.entityValues
    · subst hkey
      rw [hstored, Option.any_some, OnlineHash.isCurrent_iff] at hcurrent
      have hevent : rank ≤ event.rank := le_trans hrank (le_of_not_ge hcurrent)
      exact ⟨_, Function.update_self .., hevent⟩
    · exact ⟨hash, (Function.update_of_ne hkey _ _).trans hstored, hrank⟩

/-- After an upsert the hash of the entity is not behind the event. -/
theorem holds_upsert (codec : OnlineCodec) (store : OnlineStore)
    (event : StreamFeatureEvent) :
    (store.upsert codec event).1.Holds
      (codec.entityKey event.featureView event.entityValues) event.rank := by
  unfold OnlineStore.upsert
  dsimp only
  split
  · rename_i hcurrent
    obtain ⟨hash, hstored, hhash⟩ := (Option.any_eq_true _ _).mp hcurrent
    exact ⟨hash, hstored, OnlineHash.isCurrent_iff.mp hhash⟩
  · exact ⟨_, Function.update_self .., le_refl _⟩

end OnlineStore

end FeatureStore
