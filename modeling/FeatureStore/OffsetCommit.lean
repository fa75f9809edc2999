import FeatureStore.ConsumerMethods

/-!
# Offset commits and the hand-off, over whole runs

A run starts on empty stores and interleaves, in any order, the operations of the
consumer with their faults, its crashes and restarts, the transactions and append
attempts of the workers, and the messages of the producers.
-/

namespace FeatureStore

open Programs Relational

/-- A deployment on which nothing has run yet. -/
def StreamWorld.fresh (registry : Registry) (log : TopicPartition → List LogEntry)
    (views : String → Option DeltaTable) (online : OnlineStore) : StreamWorld where
  backend := ⟨⟨Database.empty, fun _ => none, views⟩, [], ⟨[], []⟩⟩
  broker := ⟨log, fun _ => 0, [], []⟩
  registry := registry
  online := online
  drawn := []
  process := ⟨[], fun _ => 0, ⟨[], fun _ => []⟩, 0, []⟩
  served := []
  stagedUnserved := []

variable (d : StreamDeployment) (registry : Registry) (log : TopicPartition → List LogEntry)
  (views : String → Option DeltaTable) (online : OnlineStore)

/-- A run of the consumer on a fresh deployment. -/
def StreamDeployment.reach (actions : List (Action d.interface)) : Configuration d.interface :=
  d.service.run ⟨StreamWorld.fresh registry log views online, none⟩ actions

theorem core_fresh : Core d (.fresh registry log views online) := by
  have hrows : ∀ {p : StreamEventRecord → Prop}, ∀ record ∈ Database.empty.streamEvents.rows,
      p record := fun _ hrecord => absurd hrecord List.not_mem_nil
  have happends : ∀ {jobId stagingUri}, ¬ AppendsFrom Database.empty jobId stagingUri := by
    rintro jobId stagingUri ⟨job, viewRef, hjob, _⟩
    cases hjob
  refine ⟨⟨hrows, hrows, ?_, ?_, ?_, ?_⟩, ?_, hrows⟩
  · intro k a ha
    cases ha
  · intro jobId jobId' stagingUri happend
    exact absurd happend happends
  · intro jobId stagingUri happend
    exact absurd happend happends
  · intro stagingUri hsome
    cases hsome
  · intro source offset hoffset
    exact absurd hoffset (Nat.not_lt_zero offset)

theorem core_reach (actions : List (Action d.interface)) :
    Core d (d.reach registry log views online actions).state :=
  d.verified.run (core_fresh d registry log views online) rfl actions

/-- Whatever is thrown and wherever the consumer dies, an offset is committed only when
every message up to it has a durable outcome. -/
theorem committed_durable (actions : List (Action d.interface)) (source : TopicPartition)
    (offset : Nat)
    (hcommitted : offset <
      (d.reach registry log views online actions).state.broker.committed source) :
    ∃ message,
      (d.reach registry log views online actions).state.broker.message? source offset =
        some message ∧
      Durable d (d.reach registry log views online actions).state message :=
  (core_reach d registry log views online actions).committed source offset hcommitted

/-- An event of a view without keys and features. -/
def sampleEvent : StreamFeatureEvent :=
  ⟨"e1", "profile@1", [], .utc 0, [], by decide, .refl true⟩

def sampleDeployment : StreamDeployment where
  config := defaultConfig
  codec := ⟨fun _ => "", fun _ => ""⟩
  canonicalRow := fun _ => ""
  decode := fun _ => .ok sampleEvent
  fromIsoFormat := fun _ => none
  reprValue := fun _ => ""
  validateQualityEvent := fun _ _ _ => []

def sampleRegistry : Registry :=
  ⟨[⟨"profile", "1", "user", [], some "clicks", none⟩], [⟨"clicks", "clicks", none⟩],
    [⟨"user", []⟩]⟩

def sampleSource : TopicPartition := ⟨"clicks", 0⟩

/-- One message on one partition. -/
def sampleLog (value : Option String) (source : TopicPartition) : List LogEntry :=
  if source = sampleSource then [⟨none, value⟩] else []

/-- The consumer's next step, two seconds after its start. -/
def nextStep (fault : Fault PyException) : Action sampleDeployment.interface :=
  .advance fault ⟨2000000, 1, .deliver sampleSource⟩

def sampleReach (value : Option String) (actions : List (Action sampleDeployment.interface)) :
    StreamWorld :=
  (sampleDeployment.reach sampleRegistry (sampleLog value) (fun _ => none) (fun _ => none)
    actions).state

/-- An event and a message without a value, on one partition. -/
def eventBeforeEmpty (source : TopicPartition) : List LogEntry :=
  if source = sampleSource then [⟨none, some ""⟩, ⟨none, none⟩] else []

/-- The consumer handles both messages. -/
def deadLetterRun : StreamWorld :=
  (sampleDeployment.reach sampleRegistry eventBeforeEmpty (fun _ => none) (fun _ => none)
    (.start :: List.replicate 44 (nextStep .none))).state

/-- The event has been buffered, flushed and committed, and the other message dead-lettered and
committed. -/
theorem committed_durable_of_dead_letter :
    deadLetterRun.db.streamEvents.rows.map (·.state) = [.staged] ∧
      deadLetterRun.broker.deadLetters.length = 1 ∧
      deadLetterRun.broker.committed sampleSource = 2 ∧
      ∀ offset < 2, ∃ message, deadLetterRun.broker.message? sampleSource offset = some message ∧
        Durable sampleDeployment deadLetterRun message := by
  have hcommitted : deadLetterRun.broker.committed sampleSource = 2 := by decide +kernel
  refine ⟨by decide +kernel, by decide +kernel, hcommitted, fun offset hoffset => ?_⟩
  exact committed_durable sampleDeployment sampleRegistry eventBeforeEmpty (fun _ => none)
    (fun _ => none) (.start :: List.replicate 44 (nextStep .none)) sampleSource offset
    (hoffset.trans_eq hcommitted.symm)

/-- One action of a configuration evolves the ledger by at most one transaction. -/
theorem step_ledger (c : Configuration d.interface) (action : Action d.interface)
    (h : Core d c.state) : LedgerStep c.state.db (d.service.step c action).state.db := by
  obtain ⟨w, process⟩ := c
  cases action with
  | disturb event => exact (Core.disturb h event).grows.ledger
  | crash => exact .refl _
  | start => cases process <;> exact .refl _
  | advance fault choice =>
      rcases process with _ | ⟨phase, _ | _ | ⟨o, resume⟩⟩
      · exact .refl _
      · exact .refl _
      · exact .refl _
      · change LedgerStep w.db (d.interface.execute o fault choice w).1.db
        unfold Interface.execute
        split
        · exact (Core.perform_grows h choice o).ledger
        · exact .refl _
        · exact (Core.perform_grows h choice o).ledger

/-- Every ledger record is pending without a job, staged in the care of one, or applied
after its attempt has seen it in the target; and no action takes any of it back. -/
theorem handed_off (actions : List (Action d.interface)) :
    (∀ record ∈ (d.reach registry log views online actions).state.db.streamEvents.rows,
      HandOff (d.reach registry log views online actions).state.backend.warehouse
        (d.reach registry log views online actions).state.backend.history record) ∧
    Execution.Along d.service.step
      (fun c action => LedgerStep c.state.db (d.service.step c action).state.db)
      ⟨.fresh registry log views online, none⟩ actions :=
  ⟨(core_reach d registry log views online actions).backend.records,
    d.verified.along (fun c action h => step_ledger d c action h)
      (core_fresh d registry log views online) rfl actions⟩

end FeatureStore
