import FeatureStore.OffsetCommit

/-!
# Staging without online delivery

`_handle` buffers an event before its online write. When that write raises, the handler
sends the message to the dead-letter topic and flushes, which stages the buffered event
all the same. Unless a flush stages such an event, everything that is staged has been
served.
-/

namespace FeatureStore

open Programs

variable (d : StreamDeployment)

/-- The buffered events of a staging transaction. -/
def StreamOp.batch : StreamOp → List BufferedEvent
  | .stageBatch _ _ items => items
  | .now | .external | .poll | .subscribe _ | .close | .commit _ _ | .produce _ | .registry
  | .pending | .register _ _ | .upsert _ | .drawUuid | .writeStaging _ _ | .memory
  | .buffer _ _ _ | .clearBuffer _ | .touch _ | .noteServed _ | .noteFailed _ => []

/-- The staging transaction finds its records pending and its job id free. -/
def StreamOp.stages (w : StreamWorld) (choice : StreamChoice) : StreamOp → Bool
  | .stageBatch viewRef stagingUri items =>
      (FeatureStore.stageBatch d.config.settings w.db viewRef stagingUri
        (items.map (·.recordId)) choice.id choice.now).2.isOk
  | .now | .external | .poll | .subscribe _ | .close | .commit _ _ | .produce _ | .registry
  | .pending | .register _ _ | .upsert _ | .drawUuid | .writeStaging _ _ | .memory
  | .buffer _ _ _ | .clearBuffer _ | .touch _ | .noteServed _ | .noteFailed _ => false

namespace StreamDeployment

/-- The action does not commit a batch with an event whose online write has raised in
the running process. -/
def Delivers (c : Configuration d.interface) (action : Action d.interface) : Prop :=
  match action, c.process with
  | .advance (.before _) _, _ => True
  | .advance _ choice, some (_, .op o _) =>
      StreamOp.stages d c.state choice o = true →
        ∀ item ∈ StreamOp.batch o, item.event.identity ∉ c.state.process.failed
  | _, _ => True

instance (c : Configuration d.interface) (action : Action d.interface) :
    Decidable (d.Delivers c action) := by
  have := StreamWorld.identity_lawfulBEq
  unfold Delivers
  split <;> infer_instance

end StreamDeployment

variable {d}

/-- An operation that stages no failed event adds none to the staged and unserved. -/
theorem perform_stagedUnserved (choice : StreamChoice) (w : StreamWorld) (o : StreamOp)
    (h : StreamOp.stages d w choice o = true →
      ∀ item ∈ StreamOp.batch o, item.event.identity ∉ w.process.failed) :
    (d.perform choice w o).1.stagedUnserved = w.stagedUnserved := by
  cases o with
  | stageBatch viewRef stagingUri items =>
      change (w.stage d.config.settings viewRef stagingUri items choice.id
        choice.now).1.stagedUnserved
        = w.stagedUnserved
      unfold StreamWorld.stage
      split
      · rename_i db hstage
        have hdelivered := h (by simp only [StreamOp.stages, hstage]; rfl)
        have hnone : (items.map (·.event.identity)).filter
            (fun identity => decide (identity ∈ w.process.failed)) = [] := by
          rw [List.filter_eq_nil_iff]
          intro identity hidentity
          obtain ⟨item, hitem, rfl⟩ := List.mem_map.mp hidentity
          simpa using hdelivered item hitem
        change w.stagedUnserved ++ _ = w.stagedUnserved
        rw [hnone, List.append_nil]
      · rfl
  | poll =>
      change (w.poll choice.poll).1.stagedUnserved = w.stagedUnserved
      rcases poll_cases w choice.poll with ⟨hsame, _⟩ | ⟨message, _, hpoll⟩
      · rw [hsame]
      · rw [hpoll]
        rfl
  | now | external | subscribe | close | commit | produce | registry | pending | register
  | upsert | drawUuid | writeStaging | memory | buffer | clearBuffer | touch | noteServed
  | noteFailed => rfl

/-- Only an operation that may raise stages a batch. -/
theorem infallible_stages {w : StreamWorld} {choice : StreamChoice} {o : StreamOp}
    (h : o.fallible = false) (hstages : StreamOp.stages d w choice o = true) :
    ∀ item ∈ StreamOp.batch o, item.event.identity ∉ w.process.failed := by
  cases o with
  | stageBatch => cases h
  | now | external | poll | subscribe | close | commit | produce | registry | pending
  | register | upsert | drawUuid | writeStaging | memory | buffer | clearBuffer | touch
  | noteServed | noteFailed => cases hstages

theorem step_stagedUnserved (c : Configuration d.interface) (action : Action d.interface)
    (h : d.Delivers c action) :
    (d.service.step c action).state.stagedUnserved = c.state.stagedUnserved := by
  obtain ⟨w, process⟩ := c
  cases action with
  | disturb event => exact (disturb_spared w event).stagedUnserved
  | crash => rfl
  | start => cases process <;> rfl
  | advance fault choice =>
      rcases process with _ | ⟨phase, _ | _ | ⟨o, resume⟩⟩
      · rfl
      · rfl
      · rfl
      · change (d.interface.execute o fault choice w).1.stagedUnserved = w.stagedUnserved
        cases fault with
        | none =>
            unfold Interface.execute
            rw [ite_self]
            exact perform_stagedUnserved choice w o h
        | before e =>
            unfold Interface.execute
            cases hfallible : d.interface.fallible o with
            | true => rfl
            | false => exact perform_stagedUnserved choice w o (infallible_stages hfallible)
        | after e =>
            unfold Interface.execute
            cases hfallible : d.interface.fallible o with
            | true => exact perform_stagedUnserved choice w o h
            | false => exact perform_stagedUnserved choice w o h

variable (d)

/-- In a run that stages no event whose online write has raised, every staged event has
been served by an upsert that returned. -/
theorem staged_delivered (registry : Registry) (log : TopicPartition → List LogEntry)
    (views : String → Option DeltaTable) (online : OnlineStore)
    (actions : List (Action d.interface))
    (h : Execution.Along d.service.step d.Delivers
      ⟨.fresh registry log views online, none⟩ actions) :
    ∀ record ∈ (d.reach registry log views online actions).state.db.streamEvents.rows,
      record.state ≠ .pending →
      record.payload ∈ (d.reach registry log views online actions).state.served := by
  have hnone : (d.reach registry log views online actions).state.stagedUnserved = [] := by
    refine Execution.invariant_of_along
      (I := fun c : Configuration d.interface => c.state.stagedUnserved = [])
      (fun c action hc haction => ?_) rfl h
    rw [step_stagedUnserved c action haction, hc]
  intro record hrecord hstate
  refine ((core_reach d registry log views online actions).online record hrecord
    hstate).resolve_right ?_
  rw [hnone]
  exact List.not_mem_nil

section Samples

/-- The run of a message whose upsert, the operation after the first twelve, meets the
fault. -/
def upsertRun (fault : Fault PyException) (steps : Nat) :
    List (Action sampleDeployment.interface) :=
  .start :: List.replicate 12 (nextStep .none) ++ nextStep fault ::
    List.replicate steps (nextStep .none)

/-- Redis raises once: the event is staged and its offset committed, and no upsert of it
has returned. -/
theorem unserved_event_staged :
    ∃ record ∈ (sampleReach (some "")
        (upsertRun (.before ⟨.runtime, "redis"⟩) 20)).db.streamEvents.rows,
      record.state = .staged ∧
        record.payload ∉ (sampleReach (some "")
          (upsertRun (.before ⟨.runtime, "redis"⟩) 20)).served := by
  have hrows : (sampleReach (some "") (upsertRun (.before ⟨.runtime, "redis"⟩)
      20)).db.streamEvents.rows.map (·.state) = [.staged] := by
    decide +kernel
  have hserved : (sampleReach (some "") (upsertRun (.before ⟨.runtime, "redis"⟩)
      20)).served = [] := List.isEmpty_iff.mp (by decide +kernel)
  have hmem : StreamEventState.staged ∈ (sampleReach (some "")
      (upsertRun (.before ⟨.runtime, "redis"⟩) 20)).db.streamEvents.rows.map (·.state) := by
    rw [hrows]
    exact List.mem_singleton_self _
  obtain ⟨record, hrecord, hstate⟩ := List.mem_map.mp hmem
  refine ⟨record, hrecord, hstate, ?_⟩
  rw [hserved]
  exact List.not_mem_nil

/-- The same message without a fault: it is staged and served. -/
theorem staged_delivered_of_upsert :
    (sampleReach (some "") (upsertRun .none 16)).db.streamEvents.rows.map (·.state) = [.staged] ∧
    ∀ record ∈ (sampleReach (some "") (upsertRun .none 16)).db.streamEvents.rows,
      record.state ≠ .pending →
      record.payload ∈ (sampleReach (some "") (upsertRun .none 16)).served :=
  ⟨by decide +kernel, staged_delivered sampleDeployment sampleRegistry (sampleLog (some ""))
    (fun _ => none) (fun _ => none) (upsertRun .none 16) (by decide +kernel)⟩

end Samples

end FeatureStore
