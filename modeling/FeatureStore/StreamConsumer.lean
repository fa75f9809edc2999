import FeatureStore.StreamOperations

/-!
# The stream consumer

The methods of `StreamConsumer` as programs over its operations, statement by
statement. The labels of metrics and the log lines are left out; a metric that is
updated stays as an operation that may raise.
-/

namespace FeatureStore

open Programs

/-- The text of a Python list of strings. -/
def pythonList (items : List String) : String :=
  "[" ++ String.intercalate ", " (items.map fun item => "'" ++ item ++ "'") ++ "]"

def singleQuote : Char := Char.ofNat 39

/-- How `repr` writes a character between quotes. -/
def reprChar (quote c : Char) : List Char :=
  if c = quote ∨ c = '\\' then ['\\', c]
  else if c = '\n' then ['\\', 'n']
  else if c = '\r' then ['\\', 'r']
  else if c = '\t' then ['\\', 't']
  else [c]

/-- `repr` of a text whose other characters are printable. -/
def pythonRepr (text : String) : String :=
  let quote : Char :=
    if text.toList.contains singleQuote && !text.toList.contains '"' then '"' else singleQuote
  String.ofList (quote :: text.toList.flatMap (reprChar quote) ++ [quote])

/-- `str(exc)`: a `KeyError`, such as that of an unknown object, shows the `repr` of its message. -/
def PyException.text (exc : PyException) : String :=
  match exc.cls with
  | .registryNotFound | .key => pythonRepr exc.message
  | _ => exc.message

/-- `sorted(names)`. -/
def sortedNames (names : List String) : List String := names.insertionSort (· ≤ ·)

def ValueType.text : ValueType → String
  | .string => "string"
  | .int64 => "int64"
  | .float64 => "float64"
  | .bool => "bool"
  | .timestamp => "timestamp"

def QualityConstraintType.text : QualityConstraintType → String
  | .nullable => "nullable"
  | .minimum => "minimum"
  | .maximum => "maximum"
  | .acceptedValues => "accepted_values"
  | .unique => "unique"
  | .maxAgeSeconds => "max_age_seconds"

/-- `counts_by_constraint`: its keys, in the order of the enumeration. -/
def violatedConstraints (violations : List QualityViolation) : List QualityConstraintType :=
  [.nullable, .minimum, .maximum, .acceptedValues, .unique, .maxAgeSeconds].filter
    fun constraint => violations.any fun violation => decide (violation.constraint = constraint)

/-- `QualityValidation.bounded_message`. -/
def boundedMessage (violations : List QualityViolation) : String :=
  let constraints := String.intercalate ","
    ((violatedConstraints violations).map QualityConstraintType.text)
  s!"data quality violations: rows={(violations.map (·.rowIndex)).dedup.length} constraints={constraints}"

/-- `mapping[key]`. -/
def dictItem (mapping : Dict) (key : String) : Except PyException (String × Value) :=
  match mapping.lookup key with
  | some value => .ok (key, value)
  | none => .error (keyError s!"'{key}'")

theorem dictItem_ok {mapping : Dict} {key : String} {item : String × Value}
    (h : dictItem mapping key = .ok item) :
    item.1 = key ∧ mapping.lookup key = some item.2 := by
  rw [dictItem] at h
  cases hvalue : mapping.lookup key with
  | none =>
      rw [hvalue] at h
      cases h
  | some value =>
      rw [hvalue] at h
      cases h
      exact ⟨rfl, rfl⟩

/-- The row that `_flush_view` writes for an event. -/
def stagingRow (entity : Entity) (view : FeatureView) (event : StreamFeatureEvent) :
    Except PyException OfflineRow :=
  match entity.joinKeys.mapM (dictItem event.entityValues) with
  | .error exc => .error exc
  | .ok entityValues =>
      match view.features.mapM fun feature => dictItem event.values feature.name with
      | .error exc => .error exc
      | .ok values =>
          .ok (.dated entityValues event.eventTimestamp.asUtc (some event.eventId) values)

/-- `latest_by_partition`, a dictionary in insertion order, after one more message. -/
def keepLatest (latest : List (TopicPartition × Message)) (message : Message) :
    List (TopicPartition × Message) :=
  match latest.lookup message.source with
  | none => latest ++ [(message.source, message)]
  | some previous =>
      if previous.offset < message.offset then
        latest.map fun entry =>
          if entry.1 = message.source then (message.source, message) else entry
      else latest

def latestByPartition (messages : List Message) : List (TopicPartition × Message) :=
  messages.foldl keepLatest []

/-- The count of `_should_flush`. -/
def StreamBuffers.count (buffers : StreamBuffers) : Nat :=
  (buffers.views.map fun viewRef =>
    ((buffers.items viewRef).map fun item => max 1 item.messages.length).sum).sum

/-- The topic of `_dead_letter`. -/
def Registry.deadLetterTopic (registry : Registry) (topic : String) : String :=
  ((registry.streamSources.filter fun source => decide (source.topic = topic)).findSome?
    fun source => source.deadLetterTopic.filter fun name => !name.isEmpty).getD s!"{topic}.dlq"

namespace StreamDeployment

variable (d : StreamDeployment)

abbrev Consumer (α : Type) := Prog d.interface α

/-- One operation of the consumer. -/
def ask (o : StreamOp) : d.Consumer o.Answer := @Prog.call d.interface o

def raise {α : Type} (exc : PyException) : d.Consumer α := @Prog.raise d.interface α exc

def ofExcept {α : Type} (result : Except PyException α) : d.Consumer α :=
  @Prog.ofExcept d.interface α result

/-- A lookup in the registry. -/
def lookup {α : Type} (find : Registry → Except PyException α) : d.Consumer α := do
  let registry ← d.ask .registry
  d.ofExcept (find registry)

/-- The validity test of `validate_feature_value`. -/
def isValidValue (dtype : ValueType) (value : Value) : Bool :=
  match dtype, value with
  | _, .null => true
  | .string, .str _ => true
  | .int64, .int n => decide (-(2 ^ 63) ≤ n ∧ n < 2 ^ 63)
  | .float64, .int _ | .float64, .float _ => true
  | .bool, .bool _ => true
  | .timestamp, .timestamp t => t.utcOffset.isSome
  | .timestamp, .str s => (d.fromIsoFormat s).any (·.utcOffset.isSome)
  | _, _ => false

/-- `validate_feature_value`. -/
def validateFeatureValue (dtype : ValueType) (value : Value) : Except PyException Unit :=
  if d.isValidValue dtype value then .ok ()
  else .error (valueError s!"value {d.reprValue value} does not match {dtype.text}")

/-- The checks of `_handle` on the keys and the values of an event. -/
def checkSchema (entity : Entity) (view : FeatureView) (event : StreamFeatureEvent) :
    Except PyException Unit :=
  let missing := entity.joinKeys.filter fun key => !(event.entityValues.map (·.1)).contains key
  let expected := view.features.map (·.name)
  let received := event.values.map (·.1)
  if missing ≠ [] then
    .error (valueError s!"missing entity keys: {pythonList (sortedNames missing)}")
  else if received.all expected.contains && expected.all received.contains then
    view.features.forM fun feature =>
      match dictItem event.values feature.name with
      | .error exc => .error exc
      | .ok item => d.validateFeatureValue feature.dtype item.2
  else
    .error (valueError
      s!"feature values must exactly match schema; expected {pythonList (sortedNames expected)}")

/-- The registry lookups and checks of `_handle`: the view of the event, which must
be configured for the topic of the message. -/
def configuredView (message : Message) (event : StreamFeatureEvent) :
    d.Consumer FeatureView := do
  let view ← d.lookup (·.featureView event.featureView)
  match view.streamSource.filter fun name => !name.isEmpty with
  | none => d.raise (valueError s!"{view.ref} has no stream source")
  | some name =>
      let stream ← d.lookup (·.streamSource name)
      if stream.topic ≠ message.topic then
        d.raise (valueError s!"{view.ref} is not configured for topic {message.topic}")
      else
        let entity ← d.lookup (·.entity view.entity)
        d.ofExcept (d.checkSchema entity view event)
        return view

/-- `_write_online`. -/
def writeOnline (event : StreamFeatureEvent) : d.Consumer Bool := do
  let accepted ← (d.ask (.upsert event)).tryCatch fun exc => do
    d.ask (.noteFailed event)
    d.ask .external
    d.raise exc
  d.ask (.noteServed event)
  d.ask .external
  return accepted

/-- `_dead_letter`; the produced letter is delivered by the flush that follows. -/
def deadLetter (message : Message) (error : String) (quality : Bool) : d.Consumer Unit := do
  let registry : Registry ← d.ask .registry
  d.ask (.produce ⟨registry.deadLetterTopic message.topic, message,
    if quality then "feature-store-quality-error" else "feature-store-error",
    String.ofList (error.toList.take 500)⟩)

/-- `_commit_latest`. -/
def commitLatest (messages : List Message) : d.Consumer Unit :=
  Prog.forEach (latestByPartition messages) fun entry => d.ask (.commit entry.2 false)

/-- `_flush_view`: the rows, a staging table, the transaction, and the metrics. -/
def flushView (viewRef : String) (buffer : List BufferedEvent) :
    d.Consumer (List Message) := do
  let view ← d.lookup (·.featureView viewRef)
  let entity ← d.lookup (·.entity view.entity)
  let rows ← d.ofExcept (buffer.mapM fun item => stagingRow entity view item.event)
  d.ask .external
  let batch : Uuid ← d.ask .drawUuid
  d.ask (.writeStaging ⟨viewRef, batch⟩ rows)
  d.ask (.stageBatch viewRef ⟨viewRef, batch⟩ buffer)
  d.ask .external
  d.ask .external
  return buffer.flatMap (·.messages)

/-- The loop of `flush` over the buffered views. -/
def flushViews : List String → List Message → d.Consumer (List Message)
  | [], staged => return staged
  | viewRef :: rest, staged => do
      let memory : ConsumerProcess ← d.ask .memory
      let buffer := memory.buffers.items viewRef
      if buffer.isEmpty then flushViews rest staged
      else
        let messages ← d.flushView viewRef buffer
        d.ask (.clearBuffer viewRef)
        flushViews rest (staged ++ messages)

/-- The body of `flush`. -/
def flushBuffers : d.Consumer Unit := do
  let memory : ConsumerProcess ← d.ask .memory
  let staged ← d.flushViews memory.buffers.views []
  d.commitLatest staged
  let now : Instant ← d.ask .now
  d.ask (.touch now)

/-- `flush`. -/
def flush : d.Consumer Unit := d.flushBuffers.ensuring (d.ask .external)

/-- `_should_flush`. -/
def shouldFlush : d.Consumer Bool := do
  let memory : ConsumerProcess ← d.ask .memory
  let now : Instant ← d.ask .now
  let count := memory.buffers.count
  return decide (d.config.settings.streamBatchSize ≤ count) ||
    (decide (0 < count) &&
      decide (d.config.settings.streamFlushMicroseconds ≤ now - memory.lastFlush))

/-- The end of `_handle` for a message whose outcome is durable without a buffer. -/
def settle (message : Message) (rejected : Bool) : d.Consumer Unit := do
  d.flush
  d.ask (.commit message rejected)
  d.ask .external

/-- `_handle` from the registration on. -/
def registerEvent (message : Message) (event : StreamFeatureEvent) : d.Consumer Unit := do
  let registration : Registration ← d.ask (.register event message)
  if registration.result = .conflict then
    d.deadLetter message s!"event identity {event.featureView}:{event.eventId} was reused with different content" false
    d.settle message false
    d.ask .external
  else if registration.record.state ≠ .pending then d.settle message false
  else
    let durableEvent := registration.record.payload
    let created : Bool ← d.ask (.buffer registration.record.id durableEvent (some message))
    if created then
      let _ ← d.writeOnline durableEvent
      d.ask .external
    else d.ask .external

/-- `_handle` from the decoded event on. -/
def handleEvent (message : Message) (event : StreamFeatureEvent) : d.Consumer Unit := do
  if event.eventTimestamp.utcOffset.isNone then
    d.raise (valueError "event_timestamp must include a timezone")
  else
    let ingestionTime : Instant ← d.ask .now
    d.ask .external
    let view ← d.configuredView message event
    let violations := d.validateQualityEvent view event ingestionTime
    Prog.forEach (violatedConstraints violations) fun _ => d.ask .external
    if violations.isEmpty then d.registerEvent message event
    else
      match view.effectiveQualityPolicy with
      | .reject => d.settle message true
      | .quarantine =>
          d.deadLetter message (boundedMessage violations) true
          d.settle message false
          d.ask .external
      | .report => d.registerEvent message event

/-- The `try` block of `_handle`. -/
def process (message : Message) : d.Consumer Unit :=
  match message.value with
  | none => d.raise (valueError "message value is empty")
  | some rawValue =>
      match d.decode rawValue with
      | .error exc => d.raise exc
      | .ok event => d.handleEvent message event

/-- `_handle`. Both handlers do the same, but for the labels of their metrics. -/
def handle : PolledMessage → d.Consumer Unit
  | .error _ => d.ask .external
  | .message message =>
      ((d.process message).tryCatch fun exc => do
        d.deadLetter message exc.text false
        d.settle message false
        d.ask .external).ensuring (d.ask .external)

/-- The loop of `recover_pending`. -/
def recoverRecord (record : StreamEventRecord) : d.Consumer Unit := do
  let created : Bool ← d.ask (.buffer record.id record.payload none)
  if created then
    let _ ← d.writeOnline record.payload
    return ()
  else return ()

/-- `recover_pending`. -/
def recoverPending : d.Consumer Unit := do
  let records : List StreamEventRecord ← d.ask .pending
  Prog.forEach records d.recoverRecord
  if records.isEmpty then return () else d.flush

/-- `subscribe`. -/
def subscribe : d.Consumer Unit := do
  let registry : Registry ← d.ask .registry
  let topics := sortedNames (registry.streamSources.map (·.topic)).dedup
  if topics.isEmpty then d.raise ⟨.runtime, "no stream sources registered"⟩
  else d.ask (.subscribe topics)

/-- The body of the loop in `loop`. -/
def pollOnce : d.Consumer Unit := do
  let polled : Option PolledMessage ← d.ask .poll
  match polled with
  | none => pure ()
  | some message => d.handle message
  let due ← d.shouldFlush
  if due then d.flush else return ()

/-- `loop`. -/
def service : Service d.interface where
  startup := do
    d.recoverPending
    d.subscribe
  body := d.pollOnce
  closing := do
    d.flush
    d.ask .close
  restart := StreamWorld.restart

end StreamDeployment

end FeatureStore
