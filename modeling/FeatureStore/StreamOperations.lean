import FeatureStore.Library.Programs
import FeatureStore.OfflineAppend
import FeatureStore.OnlineStore

/-!
# The operations of the stream consumer

The state that the consumer shares with the broker, the workers and the registry,
and the operations of `streaming.py` on it. Everything that leaves the process is
one operation, which may raise before or after its effect; an operation on the
process's own memory does not raise. The fields marked as observations record what
the claims speak of and no operation reads them.
-/

namespace FeatureStore

open Programs

structure Feature where
  name : String
  dtype : ValueType
deriving DecidableEq, Repr

/-- `FeatureView`: the fields that the consumer reads. -/
structure FeatureView where
  name : String
  version : String
  entity : String
  features : List Feature
  streamSource : Option String
  qualityPolicy : Option QualityPolicy
deriving DecidableEq, Repr

/-- `FeatureView.ref`. -/
def FeatureView.ref (view : FeatureView) : String := s!"{view.name}@{view.version}"

/-- `FeatureView.effective_quality_policy`. -/
def FeatureView.effectiveQualityPolicy (view : FeatureView) : QualityPolicy :=
  view.qualityPolicy.getD .reject

structure StreamSource where
  name : String
  topic : String
  deadLetterTopic : Option String
deriving DecidableEq, Repr

structure Entity where
  name : String
  joinKeys : List String
deriving DecidableEq, Repr

/-- The registered objects, in the order of `list_records`. -/
structure Registry where
  featureViews : List FeatureView
  streamSources : List StreamSource
  entities : List Entity
deriving DecidableEq, Repr

def registryNotFound (kind name : String) : PyException :=
  ⟨.registryNotFound, s!"unknown {kind}: {name}"⟩

namespace Registry

/-- `Registry.feature_view`: names and versions contain no `@`. -/
def featureView (registry : Registry) (ref : String) : Except PyException FeatureView :=
  match registry.featureViews.find? fun view => decide (view.ref = ref) with
  | some view => .ok view
  | none =>
      if ref.toList.contains '@' then .error (registryNotFound "feature_view" ref)
      else .error (valueError "feature view reference must be name@x.y.z")

/-- `Registry.stream_source`. -/
def streamSource (registry : Registry) (name : String) : Except PyException StreamSource :=
  match registry.streamSources.find? fun source => decide (source.name = name) with
  | some source => .ok source
  | none => .error (registryNotFound "stream_source" name)

/-- `Registry.entity`. -/
def entity (registry : Registry) (name : String) : Except PyException Entity :=
  match registry.entities.find? fun entity => decide (entity.name = name) with
  | some entity => .ok entity
  | none => .error (registryNotFound "entity" name)

end Registry

structure TopicPartition where
  topic : String
  partition : Nat
deriving DecidableEq, Repr

/-- What a producer has written at one offset. -/
structure LogEntry where
  key : Option String
  value : Option String
deriving DecidableEq, Repr

/-- A message as the consumer receives it. -/
structure Message where
  topic : String
  partition : Nat
  offset : Nat
  key : Option String
  value : Option String
deriving DecidableEq, Repr

def Message.source (message : Message) : TopicPartition := ⟨message.topic, message.partition⟩

/-- What `poll` returns besides `None`: a message, or one that carries an error. -/
inductive PolledMessage
  | message (message : Message)
  | error (endOfPartition : Bool)
deriving DecidableEq, Repr

/-- A produced dead letter, with the message that it stands for. -/
structure DeadLetter where
  topic : String
  message : Message
  header : String
  error : String
deriving DecidableEq, Repr

/-- The broker: its partitions, the committed offsets of the group, and the dead
letters it has delivered. Observation: the messages that the REJECT policy dropped. -/
structure Broker where
  log : TopicPartition → List LogEntry
  committed : TopicPartition → Nat
  deadLetters : List DeadLetter
  rejected : List Message

/-- The message at an offset. -/
def Broker.message? (broker : Broker) (source : TopicPartition) (offset : Nat) :
    Option Message :=
  (broker.log source)[offset]?.map fun entry =>
    ⟨source.topic, source.partition, offset, entry.key, entry.value⟩

/-- `BufferedEvent`. -/
structure BufferedEvent where
  recordId : Uuid
  event : StreamFeatureEvent
  messages : List Message

/-- `self.buffers`: the views in insertion order, and the buffered events of each. -/
structure StreamBuffers where
  views : List String
  items : String → List BufferedEvent

/-- The memory of the process and its position in each partition. Observation: the
identities whose online write has raised. -/
structure ConsumerProcess where
  subscription : List String
  position : TopicPartition → Nat
  buffers : StreamBuffers
  lastFlush : Instant
  failed : List (String × String)

/-- Observations on the append attempts, which go by their numbers: the rows that
each has found in the target or has left there, and the job that each has finished. -/
structure AppendHistory where
  sightings : List (Nat × List OfflineRow)
  successes : List (Uuid × Nat)

/-- The warehouse and the append attempts of the workers. -/
structure AppendBackend where
  warehouse : Warehouse
  attempts : List Attempt
  history : AppendHistory

/-- Observations: the events that an upsert has served, and the identities that were
staged although their online write had raised. -/
structure StreamWorld where
  backend : AppendBackend
  broker : Broker
  registry : Registry
  online : OnlineStore
  drawn : List Uuid
  process : ConsumerProcess
  served : List StreamFeatureEvent
  stagedUnserved : List (String × String)

structure QualityViolation where
  rowIndex : Nat
  feature : String
  constraint : QualityConstraintType
deriving DecidableEq, Repr

/-- A deployment of the consumer. The parsers, the JSON texts and the evaluation of
the quality constraints of a view are parameters. -/
structure StreamDeployment where
  config : Config
  codec : OnlineCodec
  canonicalRow : OfflineRow → String
  decode : String → Except PyException StreamFeatureEvent
  fromIsoFormat : String → Option DateTime
  reprValue : Value → String
  validateQualityEvent : FeatureView → StreamFeatureEvent → Instant → List QualityViolation

/-- What a poll finds. -/
inductive PollChoice
  | nothing
  | error (endOfPartition : Bool)
  | deliver (source : TopicPartition)

/-- The clock, a drawn id, and what a poll finds. -/
structure StreamChoice where
  now : Instant
  id : Uuid
  poll : PollChoice

inductive StreamOp
  | now
  | external
  | poll
  | subscribe (topics : List String)
  | close
  | commit (message : Message) (rejected : Bool)
  | produce (letter : DeadLetter)
  | registry
  | pending
  | register (event : StreamFeatureEvent) (message : Message)
  | upsert (event : StreamFeatureEvent)
  | drawUuid
  | writeStaging (stagingUri : StagingUri) (rows : List OfflineRow)
  | stageBatch (viewRef : String) (stagingUri : StagingUri) (items : List BufferedEvent)
  | memory
  | buffer (recordId : Uuid) (event : StreamFeatureEvent) (message : Option Message)
  | clearBuffer (viewRef : String)
  | touch (now : Instant)
  | noteServed (event : StreamFeatureEvent)
  | noteFailed (event : StreamFeatureEvent)

def StreamOp.Answer : StreamOp → Type
  | .now => Instant
  | .poll => Option PolledMessage
  | .registry => Registry
  | .pending => List StreamEventRecord
  | .register _ _ => Registration
  | .upsert _ => Bool
  | .drawUuid => Uuid
  | .memory => ConsumerProcess
  | .buffer _ _ _ => Bool
  | .external | .subscribe _ | .close | .commit _ _ | .produce _ | .writeStaging _ _
  | .stageBatch _ _ _ | .clearBuffer _ | .touch _ | .noteServed _ | .noteFailed _ => Unit

/-- Clocks, ids and the process's own memory do not raise. -/
def StreamOp.fallible : StreamOp → Bool
  | .external | .poll | .subscribe _ | .close | .commit _ _ | .produce _ | .registry
  | .pending | .register _ _ | .upsert _ | .writeStaging _ _ | .stageBatch _ _ _ => true
  | .now | .drawUuid | .memory | .buffer _ _ _ | .clearBuffer _ | .touch _ | .noteServed _
  | .noteFailed _ => false

/-- `uuid.uuid4()`: any id that has not been drawn. -/
def freshUuid (drawn : List Uuid) (id : Uuid) : Uuid :=
  if id ∈ drawn then drawn.foldr max 0 + 1 else id

/-- The buffers after an update of one view, which the mapping then lists. -/
def StreamBuffers.set (buffers : StreamBuffers) (viewRef : String)
    (items : List BufferedEvent) : StreamBuffers :=
  ⟨if viewRef ∈ buffers.views then buffers.views else buffers.views ++ [viewRef],
    Function.update buffers.items viewRef items⟩

/-- `buffered.messages.append(message)`, for the item under the event id. -/
def joinMessage (items : List BufferedEvent) (eventId : String) (message : Option Message) :
    List BufferedEvent :=
  items.map fun item =>
    if item.event.eventId = eventId then
      { item with messages := item.messages ++ message.toList }
    else item

/-- `_buffer`: the buffers afterwards, and whether the event was new to them. -/
def StreamBuffers.add (buffers : StreamBuffers) (recordId : Uuid) (event : StreamFeatureEvent)
    (message : Option Message) : StreamBuffers × Bool :=
  let items := buffers.items event.featureView
  if items.any fun item => decide (item.event.eventId = event.eventId) then
    (buffers.set event.featureView (joinMessage items event.eventId message), false)
  else
    (buffers.set event.featureView (items ++ [⟨recordId, event, message.toList⟩]), true)

/-- `self.buffers[view_ref] = {}`. -/
def StreamBuffers.clear (buffers : StreamBuffers) (viewRef : String) : StreamBuffers :=
  ⟨buffers.views, Function.update buffers.items viewRef []⟩

namespace StreamWorld

def setDb (w : StreamWorld) (db : Database) : StreamWorld :=
  { w with
    backend := { w.backend with warehouse := { w.backend.warehouse with db := db } } }

def db (w : StreamWorld) : Database := w.backend.warehouse.db

/-- The position after a message. -/
def receive (w : StreamWorld) (message : Message) : StreamWorld :=
  { w with
    process :=
      { w.process with
        position := Function.update w.process.position message.source (message.offset + 1) } }

/-- `consumer.poll`: the next message of a subscribed partition, if there is one. -/
def poll (w : StreamWorld) : PollChoice → StreamWorld × Option PolledMessage
  | .nothing => (w, none)
  | .error endOfPartition => (w, some (.error endOfPartition))
  | .deliver source =>
      if source.topic ∈ w.process.subscription then
        match w.broker.message? source (w.process.position source) with
        | none => (w, none)
        | some message => (w.receive message, some (.message message))
      else (w, none)

/-- `consumer.commit(message=message, asynchronous=False)`. -/
def commit (w : StreamWorld) (message : Message) (rejected : Bool) : StreamWorld :=
  { w with
    broker :=
      { w.broker with
        committed := Function.update w.broker.committed message.source (message.offset + 1)
        rejected := if rejected then message :: w.broker.rejected else w.broker.rejected } }

theorem identity_lawfulBEq : LawfulBEq (String × String) := inferInstance

/-- The staging transaction of `_flush_view`, on the buffered events of a view. -/
def stage (w : StreamWorld) (settings : Settings) (viewRef : String)
    (stagingUri : StagingUri) (items : List BufferedEvent) (jobId : Uuid) (now : Instant) :
    StreamWorld × Except PyException Unit :=
  match stageBatch settings w.db viewRef stagingUri (items.map (·.recordId)) jobId now with
  | (db, .ok ()) =>
      ({ w.setDb db with
          stagedUnserved := w.stagedUnserved ++
            (items.map (·.event.identity)).filter fun identity =>
              decide (identity ∈ w.process.failed) }, .ok ())
  | (db, .error exc) => (w.setDb db, .error exc)

/-- `offline.append` on a staging location. -/
def writeStaging (w : StreamWorld) (stagingUri : StagingUri) (rows : List OfflineRow) :
    StreamWorld :=
  { w with
    backend :=
      { w.backend with
        warehouse :=
          { w.backend.warehouse with
            staging := Function.update w.backend.warehouse.staging stagingUri
              (some (OfflineStore.append (w.backend.warehouse.staging stagingUri) rows)) } } }

def setBuffers (w : StreamWorld) (buffers : StreamBuffers) : StreamWorld :=
  { w with process := { w.process with buffers := buffers } }

end StreamWorld

/-- The effect and the answer of an operation. -/
def StreamDeployment.perform (d : StreamDeployment) (choice : StreamChoice) (w : StreamWorld) :
    (o : StreamOp) → StreamWorld × Except PyException o.Answer
  | .now => (w, .ok choice.now)
  | .external => (w, .ok ())
  | .poll =>
      let (polled, message) := w.poll choice.poll
      (polled, .ok message)
  | .subscribe topics =>
      ({ w with process := { w.process with subscription := topics } }, .ok ())
  | .close => ({ w with process := { w.process with subscription := [] } }, .ok ())
  | .commit message rejected => (w.commit message rejected, .ok ())
  | .produce letter =>
      ({ w with broker := { w.broker with deadLetters := letter :: w.broker.deadLetters } },
        .ok ())
  | .registry => (w, .ok w.registry)
  | .pending => (w, .ok (pendingRecords w.db))
  | .register event message =>
      let (db, registration) := FeatureStore.register d.config.fingerprint w.db event
        message.topic message.partition message.offset choice.id choice.now
      (w.setDb db, registration)
  | .upsert event =>
      let (online, accepted) := w.online.upsert d.codec event
      ({ w with online := online }, .ok accepted)
  | .drawUuid =>
      let id := freshUuid w.drawn choice.id
      ({ w with drawn := id :: w.drawn }, .ok id)
  | .writeStaging stagingUri rows => (w.writeStaging stagingUri rows, .ok ())
  | .stageBatch viewRef stagingUri items =>
      w.stage d.config.settings viewRef stagingUri items choice.id choice.now
  | .memory => (w, .ok w.process)
  | .buffer recordId event message =>
      let (buffers, created) := w.process.buffers.add recordId event message
      (w.setBuffers buffers, .ok created)
  | .clearBuffer viewRef => (w.setBuffers (w.process.buffers.clear viewRef), .ok ())
  | .touch now => ({ w with process := { w.process with lastFlush := now } }, .ok ())
  | .noteServed event => ({ w with served := event :: w.served }, .ok ())
  | .noteFailed event =>
      ({ w with process := { w.process with failed := event.identity :: w.process.failed } },
        .ok ())

/-- What other processes do: a database transaction, the next statement of an append
attempt or an exception in it, a write of a view table or of an online hash, a
produced message, and a change of the registry. -/
inductive StreamEvent
  | call (call : Call)
  | statement (k : Nat) (now : Instant)
  | raise (k : Nat) (exc : PyException)
  | writeView (viewRef : String) (table : Option DeltaTable)
  | upsert (event : StreamFeatureEvent)
  | produce (source : TopicPartition) (entry : LogEntry)
  | register (registry : Registry)

/-- The consumer alone registers and stages events, and workers finish append jobs
through their attempts only. -/
def Call.isForeign : Call → Bool
  | .register .. | .stageBatch .. => false
  | .finalizeSuccess job _ _ _ _ => decide (job.kind ≠ .offlineAppend)
  | .createBackfill .. | .createMaterialization .. | .createHistoricalQuery ..
  | .createIncrementalMaterialization .. | .cancel .. | .retry .. | .claimPass ..
  | .heartbeat .. | .commitCheckpoints .. | .finalizeFailure .. => true

/-- A transaction of another process, on a copy of a job that it has read. -/
def Call.Foreign (db : Database) (call : Call) : Prop :=
  call.isForeign = true ∧ ∀ job ∈ call.job?, job.SnapshotIn db

instance (db : Database) (call : Call) : Decidable (call.Foreign db) := by
  unfold Call.Foreign
  infer_instance

/-- The statements at the target: the load for the comparison, and the append. -/
def AppendStage.isAtTarget : AppendStage → Bool
  | .loadingTarget _ | .appending _ => true
  | .starting | .requiringOwnership | .loadingStaging | .confirmingOwnership _
  | .checkpointing _ | .finalizing _ | .cleaning | .failing _ | .ended => false

/-- What a statement at the target has seen there, given the warehouse that it leaves. -/
def Attempt.sighting? (a : Attempt) (w : Warehouse) : Option (List OfflineRow) :=
  if a.stage.isAtTarget then
    a.job.payload.offlineAppend?.map fun payload => OfflineStore.load (w.views payload.1)
  else none

/-- The next statement of the attempt commits a success. -/
def Attempt.succeeds (config : Config) (db : Database) (a : Attempt) (now : Instant) : Bool :=
  match a.stage with
  | .finalizing _ =>
      (finalizeSuccess config.settings db a.job a.token now none none).2.isOk
  | .starting | .requiringOwnership | .loadingStaging | .loadingTarget _
  | .confirmingOwnership _ | .appending _ | .checkpointing _ | .cleaning | .failing _
  | .ended => false

/-- The observations after a statement of an attempt that has taken `w` to `w'`. -/
def AppendHistory.after (history : AppendHistory) (config : Config) (w w' : Warehouse)
    (k : Nat) (a : Attempt) (now : Instant) : AppendHistory where
  sightings := (a.sighting? w').toList.map (fun rows => (k, rows)) ++ history.sightings
  successes :=
    if a.succeeds config w.db now then (a.job.id, k) :: history.successes
    else history.successes

/-- The next statement of the attempt with the given number. -/
def AppendBackend.advance (config : Config) (canonicalRow : OfflineRow → String)
    (b : AppendBackend) (k : Nat) (now : Instant) : AppendBackend :=
  match b.attempts[k]? with
  | none => b
  | some a =>
      let next := a.advance config canonicalRow b.warehouse now
      { warehouse := next.1
        attempts := b.attempts.set k next.2
        history := b.history.after config b.warehouse next.1 k a now }

def StreamDeployment.disturb (d : StreamDeployment) (w : StreamWorld) :
    StreamEvent → StreamWorld
  | .call call =>
      if call.Foreign w.db then
        { w.setDb (call.apply d.config w.db) with
          backend :=
            { (w.setDb (call.apply d.config w.db)).backend with
              attempts := w.backend.attempts ++ (claimedAttempt? d.config w.db call).toList } }
      else w
  | .statement k now =>
      { w with backend := w.backend.advance d.config d.canonicalRow k now }
  | .raise k exc =>
      match w.backend.attempts[k]? with
      | none => w
      | some a =>
          { w with
            backend := { w.backend with attempts := w.backend.attempts.set k (a.raise exc) } }
  | .writeView viewRef table =>
      { w with
        backend :=
          { w.backend with
            warehouse :=
              { w.backend.warehouse with
                views := Function.update w.backend.warehouse.views viewRef table } } }
  | .upsert event => { w with online := (w.online.upsert d.codec event).1 }
  | .produce source entry =>
      { w with
        broker :=
          { w.broker with
            log := Function.update w.broker.log source (w.broker.log source ++ [entry]) } }
  | .register registry => { w with registry := registry }

/-- The operations of the consumer under the interference of the other processes. -/
def StreamDeployment.interface (d : StreamDeployment) : Interface where
  State := StreamWorld
  Error := PyException
  Op := StreamOp
  Answer := StreamOp.Answer
  Choice := StreamChoice
  Event := StreamEvent
  perform := fun o choice w => d.perform choice w o
  fallible := StreamOp.fallible
  disturb := d.disturb

/-- A new process: empty buffers, and a position at the committed offsets. -/
def StreamWorld.restart (w : StreamWorld) : StreamWorld :=
  { w with process := ⟨[], w.broker.committed, ⟨[], fun _ => []⟩, 0, []⟩ }

end FeatureStore
