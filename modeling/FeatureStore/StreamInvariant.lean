import FeatureStore.HandOff
import FeatureStore.StreamConsumer

/-!
# The invariant of the stream consumer

What has happened to a message is durable once its identity has left the pending
state, or it has been dead-lettered, or the REJECT policy has dropped it. The core of
the invariant speaks of the stores only, so it survives the death of the process; the
rest relates its position and its buffers to them.
-/

namespace FeatureStore

open Relational

/-- The ledger knows the identity as staged or applied. -/
def Settled (db : Database) (identity : String × String) : Prop :=
  ∃ record ∈ db.streamEvents.rows, record.identity = identity ∧ record.state ≠ .pending

/-- The ledger holds the event under this record id. -/
def Recorded (db : Database) (recordId : Uuid) (event : StreamFeatureEvent) : Prop :=
  ∃ record ∈ db.streamEvents.rows, record.id = recordId ∧ record.payload = event

/-- The message carries an event with this identity. -/
def Message.Carries (d : StreamDeployment) (message : Message) (identity : String × String) :
    Prop :=
  ∃ rawValue event, message.value = some rawValue ∧ d.decode rawValue = .ok event ∧
    event.identity = identity

/-- The outcome of the message is durable. -/
inductive Durable (d : StreamDeployment) (w : StreamWorld) (message : Message) : Prop
  | settled {identity : String × String} (carries : message.Carries d identity)
      (settled : Settled w.db identity)
  | deadLettered {letter : DeadLetter} (delivered : letter ∈ w.broker.deadLetters)
      (message : letter.message = message)
  | rejected (dropped : message ∈ w.broker.rejected)

/-- The message is at its offset, and the consumer is past it. -/
structure Passed (w : StreamWorld) (message : Message) : Prop where
  found : w.broker.message? message.source message.offset = some message
  passed : message.offset < w.process.position message.source

def Buffered (w : StreamWorld) (message : Message) : Prop :=
  ∃ viewRef, ∃ item ∈ w.process.buffers.items viewRef, message ∈ item.messages

/-- The part of the invariant that does not depend on the process. -/
structure Core (d : StreamDeployment) (w : StreamWorld) : Prop where
  backend : BackendSound w.backend w.drawn
  committed : ∀ source, ∀ offset < w.broker.committed source, ∃ message,
    w.broker.message? source offset = some message ∧ Durable d w message
  online : ∀ record ∈ w.db.streamEvents.rows, record.state ≠ .pending →
    record.payload ∈ w.served ∨ record.identity ∈ w.stagedUnserved

/-- A buffered event is a recorded one; its messages carry it, and its online write has
returned, has raised, or is to come. -/
structure ItemSound (d : StreamDeployment) (w : StreamWorld)
    (unwritten : Option StreamFeatureEvent) (viewRef : String) (item : BufferedEvent) :
    Prop where
  view : item.event.featureView = viewRef
  recorded : Recorded w.db item.recordId item.event
  messages : ∀ message ∈ item.messages, Passed w message ∧
    message.Carries d item.event.identity
  online : item.event ∈ w.served ∨ item.event.identity ∈ w.process.failed ∨
    unwritten = some item.event

structure BuffersSound (d : StreamDeployment) (w : StreamWorld)
    (unwritten : Option StreamFeatureEvent) : Prop where
  listed : ∀ viewRef, w.process.buffers.items viewRef ≠ [] →
    viewRef ∈ w.process.buffers.views
  items : ∀ viewRef, ∀ item ∈ w.process.buffers.items viewRef,
    ItemSound d w unwritten viewRef item
  distinct : ∀ viewRef,
    ((w.process.buffers.items viewRef).map (·.event.eventId)).Nodup

/-- The invariant at a point of the program: `current` is the message in hand, and
`unwritten` the buffered event whose online write is to come. -/
structure Sound (d : StreamDeployment) (current : Option Message)
    (unwritten : Option StreamFeatureEvent) (w : StreamWorld) : Prop where
  core : Core d w
  polled : ∀ source, ∀ offset < w.process.position source, ∃ message,
    w.broker.message? source offset = some message ∧
      (Durable d w message ∨ Buffered w message ∨ current = some message)
  inHand : ∀ message, current = some message →
    w.broker.message? message.source message.offset = some message ∧
      w.process.position message.source = message.offset + 1
  buffers : BuffersSound d w unwritten

/-- What neither the consumer nor another process takes back. -/
structure Grows (w w' : StreamWorld) : Prop where
  ledger : LedgerStep w.db w'.db
  log : ∀ source, w.broker.log source <+: w'.broker.log source
  deadLetters : ∀ letter ∈ w.broker.deadLetters, letter ∈ w'.broker.deadLetters
  rejected : ∀ message ∈ w.broker.rejected, message ∈ w'.broker.rejected
  position : ∀ source, w.process.position source ≤ w'.process.position source
  failed : ∀ identity ∈ w.process.failed, identity ∈ w'.process.failed
  served : ∀ event ∈ w.served, event ∈ w'.served
  stagedUnserved : ∀ identity ∈ w.stagedUnserved, identity ∈ w'.stagedUnserved

/-- A step to a state with a sound core that keeps the position and the buffers of the
process. -/
structure Steady (d : StreamDeployment) (w w' : StreamWorld) : Prop where
  core : Core d w'
  grows : Grows w w'
  position : w'.process.position = w.process.position
  buffers : w'.process.buffers = w.process.buffers

/-- A steady step that also keeps the staging tables that belong to no job. -/
structure Quiet (d : StreamDeployment) (w w' : StreamWorld) : Prop extends Steady d w w' where
  drawn : ∀ id ∈ w.drawn, id ∈ w'.drawn
  unclaimed : ∀ stagingUri, Unclaimed w.db stagingUri → Unclaimed w'.db stagingUri ∧
    w'.backend.warehouse.staging stagingUri = w.backend.warehouse.staging stagingUri

section Growth

variable {d : StreamDeployment} {w w' : StreamWorld} {message : Message}

theorem Grows.refl (w : StreamWorld) : Grows w w where
  ledger := .refl w.db
  log := fun _ => List.prefix_rfl
  deadLetters := fun _ h => h
  rejected := fun _ h => h
  position := fun _ => Nat.le_refl _
  failed := fun _ h => h
  served := fun _ h => h
  stagedUnserved := fun _ h => h

theorem Grows.message? (h : Grows w w') {source : TopicPartition} {offset : Nat}
    (hfound : w.broker.message? source offset = some message) :
    w'.broker.message? source offset = some message := by
  obtain ⟨entry, hentry, hmessage⟩ := Option.map_eq_some_iff.mp hfound
  obtain ⟨rest, hrest⟩ := h.log source
  have hentry' : (w'.broker.log source)[offset]? = some entry := by
    rw [← hrest, List.getElem?_append_left (List.getElem?_eq_some_iff.mp hentry).1, hentry]
  exact Option.map_eq_some_iff.mpr ⟨entry, hentry', hmessage⟩

theorem Settled.grows {identity : String × String} (hsettled : Settled w.db identity)
    (h : Grows w w') : Settled w'.db identity := by
  obtain ⟨record, hrecord, hidentity, hstate⟩ := hsettled
  obtain ⟨record', hrecord', hevolves⟩ := h.ledger record hrecord
  exact ⟨record', hrecord', hevolves.identity.trans hidentity, hevolves.settled hstate⟩

theorem Recorded.grows {recordId : Uuid} {event : StreamFeatureEvent}
    (hrecorded : Recorded w.db recordId event) (h : Grows w w') :
    Recorded w'.db recordId event := by
  obtain ⟨record, hrecord, hid, hpayload⟩ := hrecorded
  obtain ⟨record', hrecord', hevolves⟩ := h.ledger record hrecord
  exact ⟨record', hrecord', hevolves.id.trans hid, hevolves.payload.trans hpayload⟩

theorem Durable.grows (hdurable : Durable d w message) (h : Grows w w') :
    Durable d w' message := by
  cases hdurable with
  | settled carries settled => exact .settled carries (settled.grows h)
  | deadLettered delivered message => exact .deadLettered (h.deadLetters _ delivered) message
  | rejected dropped => exact .rejected (h.rejected _ dropped)

theorem Passed.grows (hpassed : Passed w message) (h : Grows w w') : Passed w' message :=
  ⟨h.message? hpassed.found, Nat.lt_of_lt_of_le hpassed.passed (h.position _)⟩

theorem ItemSound.grows {unwritten : Option StreamFeatureEvent} {viewRef : String}
    {item : BufferedEvent} (hitem : ItemSound d w unwritten viewRef item) (h : Grows w w') :
    ItemSound d w' unwritten viewRef item where
  view := hitem.view
  recorded := hitem.recorded.grows h
  messages := fun message hmessage =>
    ⟨(hitem.messages message hmessage).1.grows h, (hitem.messages message hmessage).2⟩
  online := hitem.online.imp (h.served _) (Or.imp_left (h.failed _))

theorem BuffersSound.grows {unwritten : Option StreamFeatureEvent}
    (hbuffers : BuffersSound d w unwritten) (h : Grows w w')
    (hsame : w'.process.buffers = w.process.buffers) : BuffersSound d w' unwritten := by
  refine ⟨?_, ?_, ?_⟩
  · rw [hsame]
    exact hbuffers.listed
  · rw [hsame]
    exact fun viewRef item hitem => (hbuffers.items viewRef item hitem).grows h
  · rw [hsame]
    exact hbuffers.distinct

theorem Buffered.of_same (hbuffered : Buffered w message)
    (hsame : w'.process.buffers = w.process.buffers) : Buffered w' message := by
  unfold Buffered
  rw [hsame]
  exact hbuffered

/-- The committed offsets stay covered when nothing more is committed. -/
theorem Core.committed_grows (hcore : Core d w) (h : Grows w w')
    (hsame : w'.broker.committed = w.broker.committed) :
    ∀ source, ∀ offset < w'.broker.committed source, ∃ message,
      w'.broker.message? source offset = some message ∧ Durable d w' message := by
  intro source offset hoffset
  rw [hsame] at hoffset
  obtain ⟨message, hfound, hdurable⟩ := hcore.committed source offset hoffset
  exact ⟨message, h.message? hfound, hdurable.grows h⟩

theorem Sound.steady {current : Option Message} {unwritten : Option StreamFeatureEvent}
    (hsound : Sound d current unwritten w) (h : Steady d w w') :
    Sound d current unwritten w' := by
  refine ⟨h.core, ?_, ?_, hsound.buffers.grows h.grows h.buffers⟩
  · intro source offset hoffset
    rw [h.position] at hoffset
    obtain ⟨message, hfound, hcases⟩ := hsound.polled source offset hoffset
    refine ⟨message, h.grows.message? hfound, ?_⟩
    rcases hcases with hdurable | hbuffered | hcurrent
    · exact Or.inl (hdurable.grows h.grows)
    · exact Or.inr (Or.inl (hbuffered.of_same h.buffers))
    · exact Or.inr (Or.inr hcurrent)
  · intro message hmessage
    obtain ⟨hfound, hposition⟩ := hsound.inHand message hmessage
    rw [h.position]
    exact ⟨h.grows.message? hfound, hposition⟩

end Growth

end FeatureStore
