import FeatureStore.Library.Contracts
import FeatureStore.OffsetCommit
import FeatureStore.StagedRows

/-!
# Typed stream events

`_handle` checks the types of feature values and the presence of join keys, not their
types. A flush puts all buffered events of a view in one table, so a value of another type
blocks the flush and, from the ledger, every restart. If the messages that pass the checks
have finite typed join keys and no integer that a double cannot hold, every table has typed
columns.
-/

namespace FeatureStore

open Programs Relational

/-- What the values of a column make of it in a table. -/
inductive ArrowKind
  | string | int64 | double | bool | timestamp
deriving DecidableEq, Repr

/-- The values of which such a column is made. -/
def ArrowKind.fits : ArrowKind → Value → Bool
  | _, .null => true
  | .string, .str _ => true
  | .int64, .int n => decide (-(2 ^ 63) ≤ n ∧ n < 2 ^ 63)
  | .double, .int n => decide (n.natAbs ≤ 2 ^ 53)
  | .double, .float _ => true
  | .bool, .bool _ => true
  | .timestamp, .timestamp _ => true
  | _, _ => false

/-- Whether `pa.Table.from_pylist` finds a type for the cells of a column, which it does for
cells of one kind. -/
structure ArrowInference where
  infers : List Value → Bool
  typed : ∀ (kind : ArrowKind) cells, (∀ cell ∈ cells, kind.fits cell = true) →
    infers cells = true

/-- JSON has timestamps as texts. -/
def ValueType.arrowKind : ValueType → ArrowKind
  | .string | .timestamp => .string
  | .int64 => .int64
  | .float64 => .double
  | .bool => .bool

/-- A column of the staging table of a view. -/
inductive StagedColumn
  | key (dtype : ValueType)
  | feature (dtype : ValueType)
  | instant
  | text
deriving DecidableEq, Repr

namespace StagedColumn

/-- The values of the declared type of the column, as `validate_feature_value` has it. -/
def Admits (d : StreamDeployment) : StagedColumn → Value → Prop
  | key dtype, value => value ≠ .null ∧ d.isValidValue dtype value = true
  | feature dtype, value => d.isValidValue dtype value = true
  | instant, value => ∃ t, value = .timestamp t
  | text, value => ∃ s, value = .str s

def kind : StagedColumn → ArrowKind
  | key dtype | feature dtype => dtype.arrowKind
  | instant => .timestamp
  | text => .string

/-- A value of the declared type that the table can hold. -/
def Holds (d : StreamDeployment) (column : StagedColumn) (value : Value) : Prop :=
  column.Admits d value ∧ column.kind.fits value = true

end StagedColumn

def keyColumns (entity : Manifest.Entity) : List (String × StagedColumn) :=
  entity.joinKeys.map fun key => (key.1, .key key.2)

def featureColumns (view : Manifest.FeatureView) : List (String × StagedColumn) :=
  view.features.map fun feature => (feature.name, .feature feature.dtype)

/-- The columns of the staging table, unpacked in the order of the rows. -/
def stagedColumns (entity : Manifest.Entity) (view : Manifest.FeatureView) :
    List (String × StagedColumn) :=
  Dictionaries.ofItems (keyColumns entity ++
    [("event_timestamp", .instant), ("event_id", .text)] ++ featureColumns view ++
    [("event_date", .text)])

namespace StreamDeployment

variable (d : StreamDeployment) (store : RegistryStore)

/-- The join keys and features of the event are there, with values as `R` says. -/
def HasColumns (R : StagedColumn → Value → Prop) (event : StreamFeatureEvent) : Prop :=
  ∃ view entity, store.featureView event.featureView = .ok view ∧
    store.entity view.entity = .ok entity ∧
    (∀ column ∈ keyColumns entity, ∃ value,
      event.entityValues.lookup column.1 = some value ∧ R column.2 value) ∧
    ∀ column ∈ featureColumns view, ∃ value,
      event.values.lookup column.1 = some value ∧ R column.2 value

/-- Every join key has a value of its type, and every feature one of its type or null. -/
def Typed (event : StreamFeatureEvent) : Prop := HasColumns store (StagedColumn.Admits d) event

/-- The event of a message that passes the checks has typed join keys, none of them an infinity
or NaN, and no integer that a double cannot hold. -/
def Safe (value : Option String) : Prop :=
  ∀ rawValue event view entity, value = some rawValue → d.decode rawValue = .ok event →
    store.featureView event.featureView = .ok view → store.entity view.entity = .ok entity →
    d.checkSchema entity.consumed view.consumed event = .ok () →
      (∀ key ∈ entity.joinKeys, ∀ value, event.entityValues.lookup key.1 = some value →
        (StagedColumn.key key.2).Admits d value ∧ value.isFinite = true) ∧
      (∀ key ∈ entity.joinKeys, key.2 = .float64 → ∀ n,
        event.entityValues.lookup key.1 = some (.int n) → n.natAbs ≤ 2 ^ 53) ∧
      ∀ feature ∈ view.features, feature.dtype = .float64 → ∀ n,
        event.values.lookup feature.name = some (.int n) → n.natAbs ≤ 2 ^ 53

/-- The dictionaries of a decoded event are JSON. -/
def DecodesJson : Prop :=
  ∀ rawValue event, d.decode rawValue = .ok event →
    ∀ member ∈ event.entityValues ++ event.values, member.2.isJson = true

end StreamDeployment

/-- What the consumer finds registered is in the store: objects are added, never changed. -/
structure Registry.ReadFrom (store : RegistryStore) (registry : Registry) : Prop where
  view : ∀ {ref view}, registry.featureView ref = .ok view →
    ∃ registered, store.featureView ref = .ok registered ∧ registered.consumed = view
  entity : ∀ {name entity}, registry.entity name = .ok entity →
    ∃ registered, store.entity name = .ok registered ∧ registered.consumed = entity

/-- Every event of the ledger is typed, and the table of every buffered view has columns of
the declared types, for which types are found. -/
structure Unpoisoned (d : StreamDeployment) (arrow : ArrowInference) (store : RegistryStore)
    (w : StreamWorld) : Prop where
  registered : ∀ record ∈ w.db.streamEvents.rows, d.Typed store record.payload
  tables : ∀ viewRef, w.process.buffers.items viewRef ≠ [] → ∃ view entity rows,
    store.featureView viewRef = .ok view ∧ store.entity view.entity = .ok entity ∧
    ((w.process.buffers.items viewRef).mapM fun item =>
      stagingRow entity.consumed view.consumed item.event) = .ok rows ∧
    (∀ row ∈ rows, List.Forall₂ (fun cell column => cell.1 = column.1 ∧ column.2.Admits d cell.2)
      row.record (stagedColumns entity view)) ∧
    ∀ column ∈ stagedColumns entity view,
      arrow.infers (rows.map fun row => (row.record.lookup column.1).getD .null) = true

section Values

variable {d : StreamDeployment} {store : RegistryStore} {event : StreamFeatureEvent}

/-- A valid JSON value fits into a column of its type, unless it is too large for a double. -/
theorem fits_of_valid {dtype : ValueType} {value : Value}
    (hvalid : d.isValidValue dtype value = true) (hjson : value.isJson = true)
    (hdouble : dtype = .float64 → ∀ n, value = .int n → n.natAbs ≤ 2 ^ 53) :
    dtype.arrowKind.fits value = true := by
  cases value with
  | null => cases dtype <;> rfl
  | bool b => cases dtype <;> first | rfl | cases hvalid
  | str s => cases dtype <;> first | rfl | cases hvalid
  | timestamp t => cases hjson
  | list items => cases dtype <;> cases hvalid
  | dict items => cases dtype <;> cases hvalid
  | float token => cases dtype <;> first | rfl | cases hvalid
  | int n =>
      cases dtype with
      | int64 => exact hvalid
      | float64 => exact decide_eq_true (hdouble rfl n rfl)
      | string | bool | timestamp => cases hvalid

/-- The dump of a valid value is valid: it is the value or null. -/
theorem isValidValue_jsonMode {dtype : ValueType} {value : Value}
    (h : d.isValidValue dtype value = true) :
    d.isValidValue dtype value.jsonMode = true ∧
      (value.jsonMode = value ∨ value.jsonMode = .null) := by
  have hlist : ∀ items, value ≠ .list items := by
    rintro items rfl
    cases dtype <;> cases h
  have hdict : ∀ members, value ≠ .dict members := by
    rintro members rfl
    cases dtype <;> cases h
  rw [Value.jsonMode_scalar hlist hdict]
  split
  · exact ⟨h, Or.inl rfl⟩
  · exact ⟨by cases dtype <;> rfl, Or.inr rfl⟩

/-- The checks of `_handle` validate the value of every feature. -/
theorem checkSchema_values {entity : Entity} {view : FeatureView}
    (h : d.checkSchema entity view event = .ok ()) : ∀ feature ∈ view.features, ∃ value,
      event.values.lookup feature.name = some value ∧
        d.isValidValue feature.dtype value = true := by
  unfold StreamDeployment.checkSchema at h
  dsimp only at h
  split at h
  · cases h
  · split at h
    · intro feature hfeature
      have hchecked := forM_ok_iff.mp h feature hfeature
      split at hchecked
      · cases hchecked
      · rename_i item hitem
        refine ⟨item.2, (dictItem_ok hitem).2, ?_⟩
        unfold StreamDeployment.validateFeatureValue at hchecked
        split at hchecked
        · assumption
        · cases hchecked
    · cases h

/-- What the ledger keeps of the event of a safe message that passes the checks fits into the
columns of its view. -/
theorem hasColumns_of_safe (hjson : d.DecodesJson) {rawValue : String}
    (hsafe : d.Safe store (some rawValue)) (hdecode : d.decode rawValue = .ok event)
    {view : Manifest.FeatureView} {entity : Manifest.Entity}
    (hview : store.featureView event.featureView = .ok view)
    (hentity : store.entity view.entity = .ok entity)
    (hchecked : d.checkSchema entity.consumed view.consumed event = .ok ()) :
    StreamDeployment.HasColumns store (StagedColumn.Holds d) (canonicalEventPayload event) := by
  obtain ⟨hkeys, hkeyDoubles, hdoubles⟩ :=
    hsafe rawValue event view entity rfl hdecode hview hentity hchecked
  have hmember : ∀ {name : String} {value : Value},
      (event.entityValues.lookup name = some value ∨ event.values.lookup name = some value) →
        value.isJson = true := by
    intro name value hfound
    apply hjson rawValue event hdecode (name, value)
    rw [List.mem_append]
    apply hfound.imp
    · intro hlookup
      obtain ⟨first, rest, hsplit, -⟩ := List.lookup_eq_some_iff.mp hlookup
      rw [hsplit]
      exact List.mem_append_right _ List.mem_cons_self
    · intro hlookup
      obtain ⟨first, rest, hsplit, -⟩ := List.lookup_eq_some_iff.mp hlookup
      rw [hsplit]
      exact List.mem_append_right _ List.mem_cons_self
  refine ⟨view, entity, hview, hentity, ?_, ?_⟩
  · intro column hcolumn
    obtain ⟨key, hkey, rfl⟩ := List.mem_map.mp hcolumn
    obtain ⟨value, hvalue⟩ := Option.isSome_iff_exists.mp (Dictionaries.lookup_isSome_iff.mpr
      ((checkSchema_ok hchecked).1 key.1 (List.mem_map_of_mem hkey)))
    obtain ⟨hadmitted, hfinite⟩ := hkeys key hkey value hvalue
    have hdumped : (membersJsonMode event.entityValues).lookup key.1 = some value := by
      rw [lookup_membersJsonMode, hvalue, Option.map_some, value.jsonMode_of_isFinite hfinite]
    refine ⟨value, hdumped, hadmitted, fits_of_valid hadmitted.2 (hmember (Or.inl hvalue)) ?_⟩
    rintro hfloat n rfl
    exact hkeyDoubles key hkey hfloat n hvalue
  · intro column hcolumn
    obtain ⟨feature, hfeature, rfl⟩ := List.mem_map.mp hcolumn
    obtain ⟨value, hvalue, hvalid⟩ := checkSchema_values hchecked ⟨feature.name, feature.dtype⟩
      (List.mem_map.mpr ⟨feature, hfeature, rfl⟩)
    have hdumped : (membersJsonMode event.values).lookup feature.name = some value.jsonMode := by
      rw [lookup_membersJsonMode, hvalue, Option.map_some]
    obtain ⟨hvalidDump, hsame⟩ := isValidValue_jsonMode hvalid
    refine ⟨value.jsonMode, hdumped, hvalidDump, fits_of_valid hvalidDump
      (Value.isJson_jsonMode (hmember (Or.inr hvalue))) fun hfloat n hint => ?_⟩
    rw [hint] at hsame
    cases hsame with
    | inl hsame => exact hdoubles feature hfeature hfloat n (hsame ▸ hvalue)
    | inr hnull => cases hnull

theorem StreamDeployment.HasColumns.mono {R R' : StagedColumn → Value → Prop}
    (h : StreamDeployment.HasColumns store R event)
    (hR : ∀ column value, R column value → R' column value) :
    StreamDeployment.HasColumns store R' event := by
  obtain ⟨view, entity, hview, hentity, hkeys, hfeatures⟩ := h
  refine ⟨view, entity, hview, hentity, fun column hcolumn => ?_, fun column hcolumn => ?_⟩
  · obtain ⟨value, hvalue, hholds⟩ := hkeys column hcolumn
    exact ⟨value, hvalue, hR _ _ hholds⟩
  · obtain ⟨value, hvalue, hholds⟩ := hfeatures column hcolumn
    exact ⟨value, hvalue, hR _ _ hholds⟩

end Values

namespace StreamDeployment

variable (d : StreamDeployment) (store : RegistryStore)

/-- The event fits into the columns of its view. -/
def Fits (event : StreamFeatureEvent) : Prop := HasColumns store (StagedColumn.Holds d) event

/-- The consumer registers events whose dumps fit, and buffers events that fit; what it reads are
registered objects, safe messages and records of such events. -/
def typing : Contract d.interface where
  permits := fun o =>
    match o with
    | .register event _ => d.Fits store (canonicalEventPayload event)
    | .buffer _ event _ => d.Fits store event
    | _ => True
  promises := fun o =>
    match o with
    | .registry => fun registry : Registry => registry.ReadFrom store
    | .poll => fun polled : Option PolledMessage =>
        ∀ message, polled = some (.message message) → d.Safe store message.value
    | .pending => fun records : List StreamEventRecord =>
        ∀ record ∈ records, d.Fits store record.payload
    | .register _ _ => fun registration : Registration =>
        d.Fits store registration.record.payload
    | _ => fun _ => True

end StreamDeployment

/-- The registry, the messages, the ledger and the buffers hold what `typing` promises. -/
structure TypedWorld (d : StreamDeployment) (store : RegistryStore) (w : StreamWorld) : Prop where
  registry : w.registry.ReadFrom store
  log : ∀ source, ∀ entry ∈ w.broker.log source, d.Safe store entry.value
  ledger : ∀ record ∈ w.db.streamEvents.rows, d.Fits store record.payload
  buffers : ∀ viewRef, ∀ item ∈ w.process.buffers.items viewRef,
    item.event.featureView = viewRef ∧ d.Fits store item.event

section Operations

variable {d : StreamDeployment} {store : RegistryStore} {w w' : StreamWorld}

/-- The payloads of the later ledger are among those of the earlier one. -/
theorem AppliesAtMost.payload_origin {db db' : Database} (h : AppliesAtMost db db')
    {record : StreamEventRecord} (hrecord : record ∈ db'.streamEvents.rows) :
    ∃ before ∈ db.streamEvents.rows, before.payload = record.payload := by
  rcases h with hsame | ⟨jobId, now, hupdate⟩
  · exact ⟨record, hsame ▸ hrecord, rfl⟩
  · rw [hupdate, Table.update_rows] at hrecord
    obtain ⟨before, hbefore, rfl⟩ := List.mem_map.mp hrecord
    refine ⟨before, hbefore, ?_⟩
    split <;> rfl

theorem TypedWorld.disturb (h : TypedWorld d store w) {event : StreamEvent}
    (hlog : ∀ source entry, event = .produce source entry → d.Safe store entry.value)
    (hregistry : ∀ registry, event = .register registry → registry.ReadFrom store) :
    TypedWorld d store (d.disturb w event) where
  registry := by
    cases event with
    | register registry => exact hregistry registry rfl
    | call call =>
        unfold StreamDeployment.disturb
        dsimp only
        split <;> exact h.registry
    | raise k exc =>
        unfold StreamDeployment.disturb
        dsimp only
        split <;> exact h.registry
    | statement | writeView | upsert | produce => exact h.registry
  log := by
    cases event with
    | produce source entry =>
        intro other message hmessage
        by_cases hother : other = source
        · subst hother
          simp only [StreamDeployment.disturb, Function.update_self] at hmessage
          cases List.mem_append.mp hmessage with
          | inl hold => exact h.log other message hold
          | inr hnew =>
              rw [List.mem_singleton.mp hnew]
              exact hlog other entry rfl
        · simp only [StreamDeployment.disturb, Function.update_of_ne hother] at hmessage
          exact h.log other message hmessage
    | call call =>
        unfold StreamDeployment.disturb
        dsimp only
        split <;> exact h.log
    | raise k exc =>
        unfold StreamDeployment.disturb
        dsimp only
        split <;> exact h.log
    | statement | writeView | upsert | register => exact h.log
  ledger := by
    intro record hrecord
    obtain ⟨before, hbefore, hpayload⟩ := (disturb_applies w event).payload_origin hrecord
    exact hpayload ▸ h.ledger before hbefore
  buffers := by
    rw [(disturb_spared w event).process]
    exact h.buffers

/-- An operation that leaves the registry and the log alone. -/
theorem TypedWorld.of_same (h : TypedWorld d store w) (hregistry : w'.registry = w.registry)
    (hlog : w'.broker.log = w.broker.log)
    (hledger : ∀ record ∈ w'.db.streamEvents.rows, d.Fits store record.payload)
    (hbuffers : ∀ viewRef, ∀ item ∈ w'.process.buffers.items viewRef,
      item.event.featureView = viewRef ∧ d.Fits store item.event) : TypedWorld d store w' where
  registry := hregistry ▸ h.registry
  log := hlog ▸ h.log
  ledger := hledger
  buffers := hbuffers

theorem TypedWorld.register (h : TypedWorld d store w) {event : StreamFeatureEvent}
    (hfits : d.Fits store (canonicalEventPayload event)) (topic : String)
    (partition offset : Nat) (id : Uuid) (now : Instant) :
    TypedWorld d store (w.setDb (FeatureStore.register d.config.fingerprint w.db event topic
        partition offset id now).1) ∧
      ∀ registration, (FeatureStore.register d.config.fingerprint w.db event topic partition
        offset id now).2 = .ok registration → d.Fits store registration.record.payload := by
  have hledger : ∀ record ∈ (FeatureStore.register d.config.fingerprint w.db event topic
      partition offset id now).1.streamEvents.rows, d.Fits store record.payload := by
    intro record hrecord
    rcases register_cases d.config.fingerprint w.db event topic partition offset id now with
      hsame | ⟨streamEvents, hrows, hnew⟩
    · rw [hsame] at hrecord
      exact h.ledger record hrecord
    · rw [hnew, hrows] at hrecord
      cases List.mem_append.mp hrecord with
      | inl hold => exact h.ledger record hold
      | inr hadded =>
          rw [List.mem_singleton.mp hadded]
          exact hfits
  constructor
  · exact h.of_same rfl rfl hledger h.buffers
  · intro registration hregistration
    apply hledger
    exact (register_stored (Prod.ext rfl hregistration)).1

theorem TypedWorld.stage (h : TypedWorld d store w) (viewRef : String) (stagingUri : StagingUri)
    (items : List BufferedEvent) (jobId : Uuid) (now : Instant) :
    TypedWorld d store
      (w.stage d.config.settings viewRef stagingUri items jobId now).1 := by
  unfold StreamWorld.stage
  split
  · rename_i db hstage
    obtain ⟨-, jobs, -, rfl⟩ := stageBatch_ok hstage
    refine h.of_same rfl rfl (fun record hrecord => ?_) h.buffers
    rcases mem_staged hrecord with ⟨before, hbefore, -, -, rfl⟩ | hsame
    · exact h.ledger before hbefore
    · exact h.ledger record hsame
  · rename_i db exc hstage
    rw [stageBatch_error hstage]
    exact h.of_same rfl rfl h.ledger h.buffers

theorem TypedWorld.setItems (h : TypedWorld d store w) {viewRef : String}
    {items : List BufferedEvent} {views : List String}
    (hitems : ∀ item ∈ items, item.event.featureView = viewRef ∧ d.Fits store item.event) :
    TypedWorld d store (w.setBuffers ⟨views, Function.update w.process.buffers.items viewRef
      items⟩) := by
  refine h.of_same rfl rfl h.ledger ?_
  intro other item (hitem : item ∈ Function.update w.process.buffers.items viewRef items other)
  by_cases hother : other = viewRef
  · subst hother
    rw [Function.update_self] at hitem
    exact hitems item hitem
  · rw [Function.update_of_ne hother] at hitem
    exact h.buffers other item hitem

theorem TypedWorld.buffer (h : TypedWorld d store w) {event : StreamFeatureEvent}
    (hfits : d.Fits store event) (recordId : Uuid) (message : Option Message) :
    TypedWorld d store (w.setBuffers (w.process.buffers.add recordId event message).1) := by
  unfold StreamBuffers.add
  dsimp only
  split
  · apply h.setItems
    intro item hitem
    obtain ⟨before, hbefore, rfl⟩ := List.mem_map.mp hitem
    have hold := h.buffers event.featureView before hbefore
    split <;> exact hold
  · apply h.setItems
    intro item hitem
    cases List.mem_append.mp hitem with
    | inl hold => exact h.buffers event.featureView item hold
    | inr hnew =>
        rw [List.mem_singleton.mp hnew]
        exact ⟨rfl, hfits⟩

theorem TypedWorld.poll (h : TypedWorld d store w) (choice : PollChoice) :
    TypedWorld d store (w.poll choice).1 ∧
      ∀ message, (w.poll choice).2 = some (.message message) → d.Safe store message.value := by
  rcases poll_cases w choice with ⟨hsame, hnone⟩ | ⟨message, hfound, hpoll⟩
  · rw [hsame]
    exact ⟨h, fun message hmessage => absurd hmessage (hnone message)⟩
  · rw [hpoll]
    constructor
    · exact h.of_same rfl rfl h.ledger h.buffers
    · intro other hother
      obtain rfl := PolledMessage.message.inj (Option.some.inj hother)
      obtain ⟨entry, hentry, hmessage⟩ := Option.map_eq_some_iff.mp hfound
      rw [← hmessage]
      exact h.log message.source entry (List.mem_of_getElem? hentry)

/-- The operations of the consumer keep the promises of the contract. -/
theorem typing_upheld (d : StreamDeployment) (store : RegistryStore) :
    (d.typing store).Upheld (TypedWorld d store) := by
  intro o choice w (h : TypedWorld d store w) hpermits
  have hsame : ∀ w' : StreamWorld, w'.registry = w.registry → w'.broker.log = w.broker.log →
      w'.backend.warehouse.db = w.backend.warehouse.db →
      w'.process.buffers = w.process.buffers → TypedWorld d store w' := by
    intro w' hregistry hlog hdb hbuffers
    apply h.of_same hregistry hlog
    · exact (congrArg Database.streamEvents hdb) ▸ h.ledger
    · exact hbuffers ▸ h.buffers
  cases o with
  | registry =>
      refine ⟨h, fun registry hregistry => ?_⟩
      cases hregistry
      exact h.registry
  | pending =>
      refine ⟨h, fun records hrecords => ?_⟩
      cases hrecords
      exact fun record hrecord => h.ledger record (mem_pendingRecords.mp hrecord).1
  | poll =>
      have hpolled := h.poll choice.poll
      refine ⟨hpolled.1, fun polled hanswer => ?_⟩
      cases hanswer
      exact hpolled.2
  | register event message =>
      exact h.register hpermits message.topic message.partition message.offset choice.id choice.now
  | stageBatch viewRef stagingUri items =>
      exact ⟨h.stage viewRef stagingUri items choice.id choice.now, fun _ _ => trivial⟩
  | buffer recordId event message =>
      exact ⟨h.buffer hpermits recordId message, fun _ _ => trivial⟩
  | clearBuffer viewRef => exact ⟨h.setItems nofun, fun _ _ => trivial⟩
  | now | external | subscribe | close | commit | produce | upsert | drawUuid | writeStaging
  | memory | touch | noteServed | noteFailed =>
      exact ⟨hsame _ rfl rfl rfl rfl, fun _ _ => trivial⟩

end Operations

section Methods

variable {d : StreamDeployment} {store : RegistryStore} {event : StreamFeatureEvent}
  {message : Message}

/-- The method keeps to the contract. -/
abbrev KeepsTyping (d : StreamDeployment) (store : RegistryStore) {α : Type} (x : d.Consumer α) :
    Prop :=
  x.Within (d.typing store) fun _ => True

theorem within_ask {o : StreamOp} (h : (d.typing store).permits o) :
    (d.ask o).Within (d.typing store) ((d.typing store).promises o) :=
  Prog.Within.call h

/-- An operation that every contract permits. -/
theorem keeps_ask {o : StreamOp} (h : (d.typing store).permits o) :
    KeepsTyping d store (d.ask o) :=
  (within_ask h).mono fun _ _ => trivial

theorem within_lookup {α : Type} {find : Registry → Except PyException α} {Q : α → Prop}
    (h : ∀ registry : Registry, registry.ReadFrom store → ∀ a, find registry = .ok a → Q a) :
    (d.lookup find).Within (d.typing store) Q :=
  .bind (within_ask (o := .registry) trivial) fun registry hregistry =>
    .ofExcept (h registry hregistry)

theorem flushView_keeps (viewRef : String) (buffer : List BufferedEvent) :
    KeepsTyping d store (d.flushView viewRef buffer) := by
  refine .bind (within_lookup (Q := fun _ => True) fun _ _ _ _ => trivial) fun view _ => ?_
  refine .bind (within_lookup (Q := fun _ => True) fun _ _ _ _ => trivial) fun entity _ => ?_
  refine .bind (.ofExcept (Q := fun _ => True) fun _ _ => trivial) fun rows _ => ?_
  refine .bind (keeps_ask trivial) fun _ _ => ?_
  refine .bind (keeps_ask trivial) fun batch _ => ?_
  refine .bind (keeps_ask trivial) fun _ _ => ?_
  refine .bind (keeps_ask trivial) fun _ _ => ?_
  refine .bind (keeps_ask trivial) fun _ _ => ?_
  exact .bind (keeps_ask trivial) fun _ _ => trivial

theorem flushViews_keeps (views : List String) (staged : List Message) :
    KeepsTyping d store (d.flushViews views staged) := by
  induction views generalizing staged with
  | nil => trivial
  | cons viewRef rest ih =>
      refine .bind (keeps_ask trivial) fun (memory : ConsumerProcess) _ => ?_
      dsimp only
      split
      · exact ih staged
      · refine .bind (flushView_keeps viewRef _) fun messages _ => ?_
        exact .bind (keeps_ask trivial) fun _ _ => ih _

theorem flush_keeps : KeepsTyping d store d.flush := by
  refine .ensuring ?_ (keeps_ask trivial)
  refine .bind (keeps_ask trivial) fun (memory : ConsumerProcess) _ => ?_
  refine .bind (flushViews_keeps _ _) fun staged _ => ?_
  refine .bind (.forEach fun _ _ => keeps_ask trivial) fun _ _ => ?_
  refine .bind (keeps_ask trivial) fun _ _ => ?_
  exact keeps_ask trivial

theorem settle_keeps (message : Message) (rejected : Bool) :
    KeepsTyping d store (d.settle message rejected) :=
  .bind flush_keeps fun _ _ => .bind (keeps_ask trivial) fun _ _ => keeps_ask trivial

theorem deadLetter_keeps (message : Message) (error : String) (quality : Bool) :
    KeepsTyping d store (d.deadLetter message error quality) :=
  .bind (keeps_ask trivial) fun _ _ => keeps_ask trivial

theorem discard_keeps (message : Message) (error : String) (quality : Bool) :
    KeepsTyping d store (do
      d.deadLetter message error quality
      d.settle message false
      d.ask .external) :=
  .bind (deadLetter_keeps message error quality) fun _ _ =>
    .bind (settle_keeps message false) fun _ _ => keeps_ask trivial

theorem writeOnline_keeps (event : StreamFeatureEvent) :
    KeepsTyping d store (d.writeOnline event) := by
  refine .bind (.tryCatch (keeps_ask trivial) fun exc => ?_) fun accepted _ => ?_
  · exact .bind (keeps_ask trivial) fun _ _ => .bind (keeps_ask trivial) fun _ _ => trivial
  · exact .bind (keeps_ask trivial) fun _ _ => .bind (keeps_ask trivial) fun _ _ => trivial

/-- `_handle` registers an event whose dump fits, and buffers what the ledger has. -/
theorem registerEvent_keeps (hfits : d.Fits store (canonicalEventPayload event)) :
    KeepsTyping d store (d.registerEvent message event) := by
  refine .bind (within_ask hfits) fun (registration : Registration) hregistered => ?_
  refine .ite (fun _ => discard_keeps message _ false) fun _ => ?_
  refine .ite (fun _ => settle_keeps message false) fun _ => ?_
  refine .bind (keeps_ask hregistered) fun (created : Bool) _ => ?_
  refine .ite (fun _ => ?_) fun _ => keeps_ask trivial
  exact .bind (writeOnline_keeps _) fun _ _ => keeps_ask trivial

/-- The checks of `_handle` are made on the registered view and entity. -/
theorem configuredView_within : (d.configuredView message event).Within (d.typing store) fun _ =>
    ∃ view entity, store.featureView event.featureView = .ok view ∧
      store.entity view.entity = .ok entity ∧
      d.checkSchema entity.consumed view.consumed event = .ok () := by
  refine .bind (within_lookup (Q := fun view => ∃ registered,
    store.featureView event.featureView = .ok registered ∧ registered.consumed = view)
    fun registry hregistry view hview => hregistry.view hview) fun view hview => ?_
  obtain ⟨view, hview, rfl⟩ := hview
  split
  · trivial
  · rename_i name hname
    refine .bind (within_lookup (Q := fun _ => True) fun _ _ _ _ => trivial) fun stream _ => ?_
    split
    · trivial
    · refine .bind (within_lookup (Q := fun entity => ∃ registered,
        store.entity view.entity = .ok registered ∧ registered.consumed = entity)
        fun registry hregistry entity hentity => hregistry.entity hentity) fun entity hentity => ?_
      obtain ⟨entity, hentity, rfl⟩ := hentity
      refine .bind (.ofExcept (Q := fun _ =>
        d.checkSchema entity.consumed view.consumed event = .ok ()) fun _ h => h)
        fun _ hchecked => ?_
      exact ⟨view, entity, hview, hentity, hchecked⟩

theorem handleEvent_keeps (hjson : d.DecodesJson) {rawValue : String}
    (hsafe : d.Safe store (some rawValue)) (hdecode : d.decode rawValue = .ok event) :
    KeepsTyping d store (d.handleEvent message event) := by
  unfold StreamDeployment.handleEvent
  split
  · trivial
  · refine .bind (keeps_ask trivial) fun (ingestionTime : Instant) _ => ?_
    refine .bind (keeps_ask trivial) fun _ _ => ?_
    refine .bind configuredView_within fun view hchecked => ?_
    obtain ⟨registered, entity, hview, hentity, hchecked⟩ := hchecked
    have hfits : d.Fits store (canonicalEventPayload event) :=
      hasColumns_of_safe hjson hsafe hdecode hview hentity hchecked
    refine .bind (.forEach fun _ _ => keeps_ask trivial) fun _ _ => ?_
    split
    · exact registerEvent_keeps hfits
    · split
      · exact settle_keeps message true
      · exact discard_keeps message _ true
      · exact registerEvent_keeps hfits

theorem handle_keeps (hjson : d.DecodesJson) {polled : PolledMessage}
    (hsafe : ∀ message, polled = .message message → d.Safe store message.value) :
    KeepsTyping d store (d.handle polled) := by
  cases polled with
  | error endOfPartition => exact keeps_ask trivial
  | message message =>
      refine .ensuring (.tryCatch ?_ fun exc => discard_keeps message _ false) (keeps_ask trivial)
      have hmessage := hsafe message rfl
      unfold StreamDeployment.process
      split
      · trivial
      · rename_i rawValue hvalue
        rw [hvalue] at hmessage
        split
        · trivial
        · rename_i event hdecode
          exact handleEvent_keeps hjson hmessage hdecode

theorem service_keeps (hjson : d.DecodesJson) : d.service.Within (d.typing store) where
  startup := by
    have hrecover : KeepsTyping d store d.recoverPending := by
      refine .bind (within_ask trivial) fun (records : List StreamEventRecord) hrecords => ?_
      refine .bind (.forEach fun record hrecord => ?_) fun _ _ => ?_
      · refine .bind (keeps_ask (hrecords record hrecord)) fun (created : Bool) _ => ?_
        refine .ite (fun _ => ?_) fun _ => trivial
        exact .bind (writeOnline_keeps _) fun _ _ => trivial
      · exact .ite (fun _ => trivial) fun _ => flush_keeps
    have hsubscribe : KeepsTyping d store d.subscribe :=
      .bind (keeps_ask trivial) fun (registry : Registry) _ =>
        .ite (fun _ => trivial) fun _ => keeps_ask trivial
    exact .bind hrecover fun _ _ => hsubscribe
  body := by
    have hflush : KeepsTyping d store (do
        let due ← d.shouldFlush
        if due then d.flush else pure ()) :=
      .bind (R := fun _ => True)
        (.bind (keeps_ask trivial) fun _ _ => .bind (keeps_ask trivial) fun _ _ => trivial)
        fun due _ => .ite (fun _ => flush_keeps) fun _ => trivial
    refine .bind (within_ask trivial) fun (polled : Option PolledMessage) hpolled => ?_
    cases polled with
    | none => exact hflush
    | some polled =>
        have hhandle : KeepsTyping d store (d.handle polled) :=
          handle_keeps hjson fun message hmessage => hpolled message (congrArg some hmessage)
        exact .bind hhandle fun _ _ => hflush
  closing := .bind flush_keeps fun _ _ => keeps_ask trivial

end Methods

section Tables

variable {d : StreamDeployment} {arrow : ArrowInference} {store : RegistryStore}
  {event : StreamFeatureEvent} {view : Manifest.FeatureView} {entity : Manifest.Entity}

/-- The items of a comprehension are those of its columns. -/
theorem forall₂_keyValues {R : StagedColumn → Value → Prop} {values : Dict}
    {columns : List (String × StagedColumn)}
    (h : ∀ column ∈ columns, ∃ value,
      values.lookup column.1 = some value ∧ R column.2 value) :
    List.Forall₂ (fun cell column => cell.1 = column.1 ∧ R column.2 cell.2)
      (keyValues (columns.map (·.1)) values) columns := by
  induction columns with
  | nil => exact .nil
  | cons column rest ih =>
      obtain ⟨value, hvalue, hR⟩ := h column List.mem_cons_self
      rw [List.map_cons, keyValues, List.filterMap_cons, hvalue]
      exact .cons ⟨rfl, hR⟩ (ih fun other hother => h other (List.mem_cons_of_mem column hother))

theorem mem_names_of_columns {R : StagedColumn → Value → Prop} {values : Dict}
    {columns : List (String × StagedColumn)}
    (h : ∀ column ∈ columns, ∃ value,
      values.lookup column.1 = some value ∧ R column.2 value) :
    ∀ name ∈ columns.map (·.1), name ∈ values.map (·.1) := by
  intro name hname
  obtain ⟨column, hcolumn, rfl⟩ := List.mem_map.mp hname
  obtain ⟨value, hvalue, -⟩ := h column hcolumn
  rw [← Dictionaries.lookup_isSome_iff, hvalue]
  rfl

/-- The row of an event that fits has a value in every column of the table. -/
theorem stagingRow_columns (hview : store.featureView event.featureView = .ok view)
    (hentity : store.entity view.entity = .ok entity) (h : d.Fits store event) :
    ∃ row, stagingRow entity.consumed view.consumed event = .ok row ∧
      List.Forall₂ (fun cell column => cell.1 = column.1 ∧ column.2.Holds d cell.2) row.record
        (stagedColumns entity view) := by
  obtain ⟨view', entity', hview', hentity', hkeys, hfeatures⟩ := h
  obtain rfl := Except.ok.inj (hview'.symm.trans hview)
  obtain rfl := Except.ok.inj (hentity'.symm.trans hentity)
  have hkeyNames : (keyColumns entity').map (·.1) = entity'.consumed.joinKeys := by
    rw [keyColumns, List.map_map]
    rfl
  have hfeatureNames : (featureColumns view').map (·.1) =
      view'.consumed.features.map (·.name) := by
    rw [featureColumns, List.map_map, Manifest.FeatureView.consumed, List.map_map]
    rfl
  refine ⟨_, stagingRow_of_names (hkeyNames ▸ mem_names_of_columns hkeys)
    (hfeatureNames ▸ mem_names_of_columns hfeatures), ?_⟩
  apply Dictionaries.forall₂_ofItems (R := fun value column => StagedColumn.Holds d column value)
  rw [OfflineRow.items, ← hkeyNames, ← hfeatureNames]
  have hkeyCells := forall₂_keyValues hkeys
  have hfeatureCells := forall₂_keyValues hfeatures
  refine List.rel_append (List.rel_append (List.rel_append hkeyCells ?_) hfeatureCells) ?_
  · exact .cons ⟨rfl, ⟨_, rfl⟩, rfl⟩ (.cons ⟨rfl, ⟨_, rfl⟩, rfl⟩ .nil)
  · exact .cons ⟨rfl, ⟨_, rfl⟩, rfl⟩ .nil

/-- A column of values that the table can hold has a type. -/
theorem infers_column {rows : List OfflineRow} {columns : List (String × StagedColumn)}
    (hcolumns : (columns.map (·.1)).Nodup)
    (h : ∀ row ∈ rows, List.Forall₂ (fun cell column =>
      cell.1 = column.1 ∧ column.2.Holds d cell.2) row.record columns)
    {column : String × StagedColumn} (hcolumn : column ∈ columns) :
    arrow.infers (rows.map fun row => (row.record.lookup column.1).getD .null) = true := by
  apply arrow.typed column.2.kind
  intro cell hcell
  obtain ⟨row, hrow, rfl⟩ := List.mem_map.mp hcell
  obtain ⟨value, hvalue, hholds⟩ := Dictionaries.lookup_of_forall₂
    (R := fun value column => StagedColumn.Holds d column value) (h row hrow) hcolumns hcolumn
  rw [hvalue]
  exact hholds.2

/-- In such a state no table is poisoned. -/
theorem TypedWorld.unpoisoned {w : StreamWorld} (h : TypedWorld d store w) :
    Unpoisoned d arrow store w where
  registered := fun record hrecord => (h.ledger record hrecord).mono fun _ _ hholds => hholds.1
  tables := by
    intro viewRef hbuffered
    have hbuffer := h.buffers viewRef
    obtain ⟨first, hfirst⟩ := List.exists_mem_of_ne_nil _ hbuffered
    obtain ⟨hfirstView, view, entity, hview, hentity, -⟩ := hbuffer first hfirst
    rw [hfirstView] at hview
    have hitems : ∀ item ∈ w.process.buffers.items viewRef, ∃ row,
        stagingRow entity.consumed view.consumed item.event = .ok row ∧
          List.Forall₂ (fun cell column => cell.1 = column.1 ∧ column.2.Holds d cell.2)
            row.record (stagedColumns entity view) := by
      intro item hitem
      obtain ⟨hitemView, hfits⟩ := hbuffer item hitem
      exact stagingRow_columns (hitemView ▸ hview) hentity hfits
    obtain ⟨rows, hrows⟩ := mapM_ok fun item hitem =>
      (hitems item hitem).imp fun row hrow => hrow.1
    have hcells : ∀ row ∈ rows, List.Forall₂ (fun cell column =>
        cell.1 = column.1 ∧ column.2.Holds d cell.2) row.record (stagedColumns entity view) := by
      intro row hrow
      obtain ⟨item, hitem, hstaged⟩ := (mem_of_mapM hrows).1 row hrow
      obtain ⟨staged, hsame, hcells⟩ := hitems item hitem
      rwa [Except.ok.inj (hstaged.symm.trans hsame)]
    refine ⟨view, entity, rows, hview, hentity, hrows, fun row hrow => ?_, fun column hcolumn => ?_⟩
    · exact (hcells row hrow).imp fun _ _ hcell => ⟨hcell.1, hcell.2.1⟩
    · exact infers_column (Dictionaries.nodup_ofItems _) hcells hcolumn

end Tables

section Runs

variable (d : StreamDeployment) (arrow : ArrowInference) (store : RegistryStore)
  {registry : Registry} {log : TopicPartition → List LogEntry}
  (views : String → Option DeltaTable) (online : OnlineStore)

/-- A restart loses the buffers only. -/
theorem TypedWorld.restart {w : StreamWorld} (h : TypedWorld d store w) :
    TypedWorld d store w.restart :=
  h.of_same rfl rfl h.ledger nofun

/-- In every run in which the messages are safe and the registered objects stay, the ledger
is typed and no table of a buffer, recovered or not, is poisoned. -/
theorem streams_unpoisoned {actions : List (Action d.interface)} (hjson : d.DecodesJson)
    (hregistry : registry.ReadFrom store)
    (hlog : ∀ source, ∀ entry ∈ log source, d.Safe store entry.value)
    (hproduced : ∀ source entry, .disturb (StreamEvent.produce source entry) ∈ actions →
      d.Safe store entry.value)
    (hregistered : ∀ registry, .disturb (StreamEvent.register registry) ∈ actions →
      registry.ReadFrom store) :
    Unpoisoned d arrow store (d.reach registry log views online actions).state := by
  have hfresh : TypedWorld d store (.fresh registry log views online) :=
    ⟨hregistry, hlog, fun _ hrecord => absurd hrecord List.not_mem_nil,
      fun _ _ hitem => absurd hitem List.not_mem_nil⟩
  apply TypedWorld.unpoisoned
  refine (typing_upheld d store).run (service_keeps hjson) (fun w hw => hw.restart) ?_ hfresh rfl
  intro action haction event hevent w hw
  obtain rfl : action = .disturb event := by
    cases action <;> cases hevent
    rfl
  apply hw.disturb
  · rintro source entry rfl
    exact hproduced source entry haction
  · rintro registry rfl
    exact hregistered registry haction

end Runs

section Samples

/-- The kinds of columns that `pa.Table.from_pylist` can tell. -/
def kindInference : ArrowInference where
  infers cells :=
    [ArrowKind.string, .int64, .double, .bool, .timestamp].any fun kind => cells.all kind.fits
  typed kind cells h := by
    rw [List.any_eq_true]
    exact ⟨kind, by cases kind <;> decide, List.all_eq_true.mpr h⟩

/-- The view of the accounts, with a stream source. -/
def clickView : Manifest.FeatureView :=
  ⟨"account_stats", "1.0.0", "account", [⟨"amount", .int64, "", none⟩], "accounts",
    "SELECT * FROM source", some "clicks", none, "", none, List.nodup_singleton "amount"⟩

def clickStore : RegistryStore :=
  ⟨⟨[⟨.entity accountEntity, "", 0⟩, ⟨.featureView clickView, "", 0⟩], by decide, by decide⟩,
    .empty⟩

def clickRegistry : Registry :=
  ⟨[clickView.consumed], [⟨"clicks", "clicks", none⟩], [accountEntity.consumed]⟩

theorem clickRegistry_readFrom : clickRegistry.ReadFrom clickStore where
  view := by
    intro ref view h
    unfold Registry.featureView at h
    split at h
    · rename_i found hfound
      have hview := List.find?_some hfound
      have hmem := List.mem_of_find?_eq_some hfound
      cases h
      obtain rfl := List.mem_singleton.mp hmem
      rw [← of_decide_eq_true hview]
      exact ⟨clickView, rfl, rfl⟩
    · split at h <;> cases h
  entity := by
    intro name entity h
    unfold Registry.entity at h
    split at h
    · rename_i found hfound
      have hentity := List.find?_some hfound
      have hmem := List.mem_of_find?_eq_some hfound
      cases h
      obtain rfl := List.mem_singleton.mp hmem
      rw [← of_decide_eq_true hentity]
      exact ⟨accountEntity, rfl, rfl⟩
    · cases h

/-- An event of the account `a1`. -/
def clickEvent : StreamFeatureEvent :=
  ⟨"a", "account_stats@1.0.0", [("account_id", .str "a1")], .utc 0, [("amount", .int 1)],
    a_length, .refl true⟩

/-- An event whose join key is a number. -/
def numberedEvent : StreamFeatureEvent :=
  ⟨"b", "account_stats@1.0.0", [("account_id", .int 7)], .utc 0, [("amount", .int 1)],
    b_length, .refl true⟩

def clickDeployment : StreamDeployment :=
  { accountDeployment with
    decode := fun rawValue => .ok (if rawValue = "b" then numberedEvent else clickEvent) }

def clickLog (values : List String) (source : TopicPartition) : List LogEntry :=
  if source = ⟨"clicks", 0⟩ then values.map fun value => ⟨none, some value⟩ else []

/-- The start of the consumer and its first operations. -/
def clickRun (steps : Nat) : List (Action clickDeployment.interface) :=
  .start :: (List.range steps).map fun id => .advance .none ⟨0, id, .deliver ⟨"clicks", 0⟩⟩

def clickReach (values : List String) (steps : Nat) : StreamWorld :=
  (clickDeployment.reach clickRegistry (clickLog values) (fun _ => none) (fun _ => none)
    (clickRun steps)).state

theorem clickDeployment_decodesJson : clickDeployment.DecodesJson := by
  intro rawValue event h
  cases h
  split <;> decide

theorem clickReach_safe : ∀ source, ∀ entry ∈ clickLog ["a"] source,
    clickDeployment.Safe clickStore entry.value := by
  intro source entry hentry rawValue event view entity hvalue hdecode hview hentity _
  have hraw : rawValue = "a" := by
    unfold clickLog at hentry
    split at hentry
    · obtain rfl := List.mem_singleton.mp hentry
      exact (Option.some.inj hvalue).symm
    · cases hentry
  subst hraw
  cases hdecode
  cases hview
  cases hentity
  refine ⟨?_, ?_, ?_⟩
  · intro key hkey value hlookup
    obtain rfl := List.mem_singleton.mp hkey
    cases hlookup
    exact ⟨⟨Value.noConfusion, rfl⟩, rfl⟩
  · intro key hkey hfloat
    obtain rfl := List.mem_singleton.mp hkey
    cases hfloat
  · intro feature hfeature hfloat
    obtain rfl := List.mem_singleton.mp hfeature
    cases hfloat

/-- The event of an account, registered and buffered. -/
theorem clicks_unpoisoned :
    ((clickReach ["a"] 20).process.buffers.items "account_stats@1.0.0").length = 1 ∧
      Unpoisoned clickDeployment kindInference clickStore (clickReach ["a"] 20) := by
  refine ⟨by decide +kernel, ?_⟩
  apply streams_unpoisoned clickDeployment kindInference clickStore (fun _ => none)
    (fun _ => none) clickDeployment_decodesJson clickRegistry_readFrom clickReach_safe
  · simp [clickRun]
  · simp [clickRun]

/-- With an event of the number 7 behind it, both are buffered and their table has no type. -/
theorem numbered_click_poisons :
    ¬∀ (d : StreamDeployment) (arrow : ArrowInference) (store : RegistryStore)
      (registry : Registry) (log : TopicPartition → List LogEntry)
      (views : String → Option DeltaTable) (online : OnlineStore)
      (actions : List (Action d.interface)),
      d.DecodesJson → registry.ReadFrom store →
      (∀ registry, .disturb (StreamEvent.register registry) ∈ actions →
        registry.ReadFrom store) →
      Unpoisoned d arrow store (d.reach registry log views online actions).state := by
  intro h
  have hpoisoned := h clickDeployment kindInference clickStore clickRegistry (clickLog ["a", "b"])
    (fun _ => none) (fun _ => none) (clickRun 30) clickDeployment_decodesJson
    clickRegistry_readFrom (by simp [clickRun])
  change Unpoisoned _ _ _ (clickReach ["a", "b"] 30) at hpoisoned
  have hbuffered : (clickReach ["a", "b"] 30).process.buffers.items "account_stats@1.0.0" ≠ [] := by
    rw [ne_eq, ← List.length_eq_zero_iff]
    decide +kernel
  obtain ⟨view, entity, rows, hview, hentity, hrows, -, hinfers⟩ :=
    hpoisoned.tables "account_stats@1.0.0" hbuffered
  cases hview
  cases hentity
  have hmixed : (((clickReach ["a", "b"] 30).process.buffers.items "account_stats@1.0.0").mapM
      fun item => stagingRow accountEntity.consumed clickView.consumed item.event).map (fun rows =>
        kindInference.infers (rows.map fun row => (row.record.lookup "account_id").getD .null)) =
      .ok false := by
    decide +kernel
  rw [hrows] at hmixed
  have htyped := hinfers ("account_id", .key .string) (by decide)
  exact absurd (htyped.symm.trans (Except.ok.inj hmixed)) (by decide)

end Samples

end FeatureStore
