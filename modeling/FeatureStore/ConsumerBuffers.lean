import FeatureStore.BufferCounts
import FeatureStore.Library.Dictionaries
import FeatureStore.Library.StepRelations
import FeatureStore.OffsetCommit

/-!
# The buffers and the offsets of the consumer

Each polled message adds at most one to what `_should_flush` counts, and the loop flushes when
the count reaches the batch size. A recovery may buffer any number of events, but the consumer
subscribes only after it has flushed them. So a subscribed consumer holds a bounded number of
messages, whatever raises and wherever it dies. Offsets are committed while nothing is buffered,
so what is buffered is not committed, and no commit takes an earlier one back.
-/

namespace FeatureStore

open Programs

/-- The subscription, the buffers and the position of the process, and the committed offsets of
its group. -/
structure Holding where
  subscription : List String
  buffers : StreamBuffers
  position : TopicPartition → Nat
  committed : TopicPartition → Nat

def StreamWorld.holding (w : StreamWorld) : Holding :=
  ⟨w.process.subscription, w.process.buffers, w.process.position, w.broker.committed⟩

/-- Whether an operation leaves the holding as it is. -/
def StreamOp.sparesHolding : StreamOp → Bool
  | .poll | .subscribe _ | .close | .commit _ _ | .buffer _ _ _ | .clearBuffer _ => false
  | .now | .external | .produce _ | .registry | .pending | .register _ _ | .upsert _ | .drawUuid
  | .writeStaging _ _ | .stageBatch _ _ _ | .memory | .touch _ | .noteServed _
  | .noteFailed _ => true

namespace Holding

variable {h : Holding} {message : Message} {limit : Nat}

/-- The message is the last one polled of its partition. -/
def InHand (h : Holding) (message : Message) : Prop :=
  h.position message.source = message.offset + 1

/-- The message is polled, and its offset is not committed. -/
structure Awaits (h : Holding) (message : Message) : Prop where
  uncommitted : h.committed message.source ≤ message.offset
  polled : message.offset < h.position message.source

/-- The buffers are well formed, a subscribed consumer counts no more than the limit, and
commits follow behind the position and behind what is buffered. -/
structure Kept (limit : Nat) (h : Holding) : Prop where
  listed : h.buffers.Listed
  few : h.subscription = [] ∨ h.buffers.count ≤ limit
  behind : ∀ source, h.committed source ≤ h.position source
  awaiting : ∀ viewRef, ∀ item ∈ h.buffers.items viewRef, ∀ message ∈ item.messages,
    h.Awaits message

def clear (h : Holding) (viewRef : String) : Holding :=
  { h with buffers := h.buffers.clear viewRef }

def add (h : Holding) (recordId : Uuid) (event : StreamFeatureEvent) (message : Option Message) :
    Holding :=
  { h with buffers := (h.buffers.add recordId event message).1 }

def commit (h : Holding) (message : Message) : Holding :=
  { h with committed := Function.update h.committed message.source (message.offset + 1) }

def receive (h : Holding) (message : Message) : Holding :=
  { h with position := Function.update h.position message.source (message.offset + 1) }

@[simp] theorem committed_commit : (h.commit message).committed message.source =
    message.offset + 1 := Function.update_self ..

theorem committed_commit_ne {source : TopicPartition} (hsource : source ≠ message.source) :
    (h.commit message).committed source = h.committed source := Function.update_of_ne hsource _ _

@[simp] theorem position_receive : (h.receive message).position message.source =
    message.offset + 1 := Function.update_self ..

theorem position_receive_ne {source : TopicPartition} (hsource : source ≠ message.source) :
    (h.receive message).position source = h.position source := Function.update_of_ne hsource _ _

theorem Kept.clear (hkept : h.Kept limit) (viewRef : String) : (h.clear viewRef).Kept limit where
  listed := hkept.listed.clear viewRef
  few := hkept.few.imp_right (hkept.listed.count_clear viewRef).trans
  behind := hkept.behind
  awaiting := by
    intro other item hitem message hmessage
    have hawaits := hkept.awaiting other item (StreamBuffers.mem_items_clear hitem) message hmessage
    exact ⟨hawaits.uncommitted, hawaits.polled⟩

/-- `_buffer` needs room for one more, unless nothing is subscribed. -/
theorem Kept.add (hkept : h.Kept limit) (recordId : Uuid) (event : StreamFeatureEvent)
    {message : Option Message} (hroom : h.subscription = [] ∨ h.buffers.count + 1 ≤ limit)
    (hmessage : ∀ other ∈ message.toList, h.Awaits other) :
    (h.add recordId event message).Kept limit where
  listed := (hkept.listed.add recordId event message).1
  few := hroom.imp_right (hkept.listed.add recordId event message).2.trans
  behind := hkept.behind
  awaiting := by
    intro viewRef item hitem other hother
    have hawaits : h.Awaits other := by
      rcases StreamBuffers.mem_items_add hitem hother with ⟨before, hbefore, hold⟩ | hnew
      · exact hkept.awaiting viewRef before hbefore other hold
      · exact hmessage other hnew
    exact ⟨hawaits.uncommitted, hawaits.polled⟩

/-- A polled message may be committed while nothing is buffered. -/
theorem Kept.commit (hkept : h.Kept limit) (hempty : ∀ viewRef, h.buffers.items viewRef = [])
    (hpolled : message.offset < h.position message.source) : (h.commit message).Kept limit where
  listed := hkept.listed
  few := hkept.few
  behind := by
    intro source
    by_cases hsource : source = message.source
    · subst hsource
      exact committed_commit.le.trans hpolled
    · exact (committed_commit_ne hsource).le.trans (hkept.behind source)
  awaiting := by
    intro viewRef item hitem
    exact absurd (hempty viewRef ▸ hitem : item ∈ []) List.not_mem_nil

theorem le_commit (hle : h.committed message.source ≤ message.offset + 1)
    (source : TopicPartition) : h.committed source ≤ (h.commit message).committed source := by
  by_cases hsource : source = message.source
  · subst hsource
    exact hle.trans committed_commit.ge
  · exact (committed_commit_ne hsource).ge

/-- A commit of another partition leaves the message as it is. -/
theorem Awaits.commit {other : Message} (hawaits : h.Awaits other)
    (hsource : other.source ≠ message.source) : (h.commit message).Awaits other :=
  ⟨(committed_commit_ne hsource).le.trans hawaits.uncommitted, hawaits.polled⟩

theorem Kept.receive (hkept : h.Kept limit)
    (hnext : message.offset = h.position message.source) : (h.receive message).Kept limit where
  listed := hkept.listed
  few := hkept.few
  behind := by
    intro source
    have hbehind := hkept.behind source
    by_cases hsource : source = message.source
    · subst hsource
      rw [← hnext] at hbehind
      exact (Nat.le_succ_of_le hbehind).trans position_receive.ge
    · exact hbehind.trans (position_receive_ne hsource).ge
  awaiting := by
    intro viewRef item hitem other hother
    have hawaits := hkept.awaiting viewRef item hitem other hother
    refine ⟨hawaits.uncommitted, ?_⟩
    by_cases hsource : other.source = message.source
    · have hpolled := hawaits.polled
      rw [hsource, ← hnext] at hpolled
      rw [hsource, position_receive]
      exact Nat.lt_succ_of_lt hpolled
    · exact hawaits.polled.trans_le (position_receive_ne hsource).ge

/-- The message that a poll has received is in hand, and not committed. -/
theorem Kept.received (hkept : h.Kept limit)
    (hnext : message.offset = h.position message.source) :
    (h.receive message).InHand message ∧ (h.receive message).Awaits message := by
  have hhand : (h.receive message).InHand message := position_receive
  refine ⟨hhand, ?_, ?_⟩
  · exact hnext ▸ hkept.behind message.source
  · exact hhand.symm ▸ Nat.lt_succ_self message.offset

end Holding

/-- A fact about what the consumer holds. -/
abbrev Fill := Holding → Prop

namespace Fill

/-- A subscribed consumer counts at most `n`. -/
def few (n : Nat) : Fill := fun h => h.subscription = [] ∨ h.buffers.count ≤ n

/-- Nothing is buffered. -/
def empty : Fill := fun h => ∀ viewRef, h.buffers.items viewRef = []

def awaiting (messages : List Message) : Fill := fun h => ∀ message ∈ messages, h.Awaits message

def inHand (message : Message) : Fill := fun h => h.InHand message

/-- A fact that neither cleared buffers nor a commit make false. -/
structure Flushable (P : Fill) : Prop where
  clear : ∀ h viewRef, P h → P (h.clear viewRef)
  commit : ∀ h message, P h → P (h.commit message)

theorem flushable_true : Flushable fun _ => True := ⟨fun _ _ _ => trivial, fun _ _ _ => trivial⟩

theorem flushable_unsubscribed : Flushable fun h => h.subscription = [] :=
  ⟨fun _ _ hP => hP, fun _ _ hP => hP⟩

theorem flushable_inHand (message : Message) : Flushable (inHand message) :=
  ⟨fun _ _ hP => hP, fun _ _ hP => hP⟩

end Fill

section LatestByPartition

/-- Each partition is there once, with a message of its own. -/
structure LatestKeyed (latest : List (TopicPartition × Message)) : Prop where
  source : ∀ entry ∈ latest, entry.2.source = entry.1
  nodup : (latest.map (·.1)).Nodup

theorem LatestKeyed.keepLatest {latest : List (TopicPartition × Message)} (h : LatestKeyed latest)
    (message : Message) : LatestKeyed (keepLatest latest message) := by
  unfold FeatureStore.keepLatest
  split
  · rename_i hnone
    refine ⟨fun entry hentry => ?_, ?_⟩
    · rcases List.mem_append.mp hentry with hold | hnew
      · exact h.source entry hold
      · rw [List.mem_singleton.mp hnew]
    · rw [List.map_append, List.nodup_append]
      refine ⟨h.nodup, List.nodup_singleton _, ?_⟩
      rintro first hfirst second hsecond rfl
      rw [List.mem_singleton.mp hsecond] at hfirst
      exact Dictionaries.lookup_eq_none_iff.mp hnone hfirst
  · split
    · refine ⟨fun entry hentry => ?_, ?_⟩
      · obtain ⟨before, hbefore, rfl⟩ := List.mem_map.mp hentry
        split
        · rfl
        · exact h.source before hbefore
      · have hkeys : (latest.map fun entry =>
            if entry.1 = message.source then (message.source, message) else entry).map (·.1) =
            latest.map (·.1) := by
          rw [List.map_map]
          refine List.map_congr_left fun entry _ => ?_
          dsimp only [Function.comp]
          split
          · exact Eq.symm ‹entry.1 = message.source›
          · rfl
        rw [hkeys]
        exact h.nodup
    · exact h

/-- `_commit_latest` commits one message of each partition. -/
theorem nodup_latestByPartition (messages : List Message) :
    ((latestByPartition messages).map (·.2.source)).Nodup := by
  have hkeyed : ∀ (messages : List Message) (latest : List (TopicPartition × Message)),
      LatestKeyed latest → LatestKeyed (messages.foldl keepLatest latest) := by
    intro messages
    induction messages with
    | nil => exact fun _ h => h
    | cons message rest ih => exact fun latest h => ih _ (h.keepLatest message)
  have h := hkeyed messages [] ⟨fun _ hentry => absurd hentry List.not_mem_nil, List.nodup_nil⟩
  have hsources : (latestByPartition messages).map (·.2.source) =
      (latestByPartition messages).map (·.1) := List.map_congr_left h.source
  rw [hsources]
  exact h.nodup

end LatestByPartition

namespace StreamDeployment

/-- The batch size, or one where the setting is not positive. -/
def bufferLimit (d : StreamDeployment) : Nat := max 1 d.config.settings.streamBatchSize.toNat

def WithinLimit (d : StreamDeployment) (w : StreamWorld) : Prop := w.holding.Kept d.bufferLimit

/-- No committed offset goes back. -/
def CommitsForward (w w' : StreamWorld) : Prop :=
  ∀ source, w.broker.committed source ≤ w'.broker.committed source

/-- There is room for the message in hand, which is not committed. -/
def roomFor (d : StreamDeployment) (message : Message) : Fill := fun h =>
  Fill.few (d.bufferLimit - 1) h ∧ h.InHand message ∧ h.Awaits message

variable {d : StreamDeployment} {α β : Type} {P P' : Fill} {E E' : Fill}

theorem holding_disturb (w : StreamWorld) (event : StreamEvent) :
    (d.disturb w event).holding = w.holding := by
  have hspared := @disturb_spared d w event
  simp only [StreamWorld.holding, hspared.process, hspared.committed]

theorem holding_stable (P : Fill) : @Stable d.interface fun w => P w.holding := by
  intro w event hw
  exact (congrArg P (@holding_disturb d w event)).mpr hw

theorem withinLimit_stable : @Stable d.interface d.WithinLimit :=
  holding_stable (Holding.Kept d.bufferLimit)

/-- The invariant, with a fact about the holding. -/
def filled (P : Fill) : @Assertion d.interface d.WithinLimit :=
  (Assertion.base _ withinLimit_stable).and (fun w => P w.holding) (holding_stable P)

/-- The program leads from the first fact to the second, or to the third if it raises, and no
committed offset goes back on the way. -/
def Fills (P : Fill) (x : d.Consumer α) (Q : α → Fill) (E : Fill) : Prop :=
  StepTriple (S := d.interface) CommitsForward (filled P) x (fun a => filled (Q a)) (filled E)

/-- The operations that leave the holding as it is. -/
def sparing (d : StreamDeployment) : Contract d.interface :=
  ⟨fun o => StreamOp.sparesHolding o = true, fun _ _ => True⟩

theorem perform_spares (choice : StreamChoice) (w : StreamWorld) {o : StreamOp}
    (ho : o.sparesHolding = true) : (d.perform choice w o).1.holding = w.holding := by
  cases o with
  | poll | subscribe | close | commit | buffer | clearBuffer => cases ho
  | now | external | registry | pending | memory | produce | upsert | drawUuid | writeStaging
  | touch | noteServed | noteFailed | register => rfl
  | stageBatch viewRef stagingUri items =>
      unfold StreamDeployment.perform StreamWorld.stage
      dsimp only
      split <;> rfl

theorem sparing_upheld (P : Fill) : d.sparing.Upheld (@filled d P).holds := by
  rintro o choice w ⟨hkept, hP⟩ ho
  have hspared := @perform_spares d choice w o ho
  refine ⟨⟨?_, ?_⟩, fun _ _ => trivial⟩
  · change (d.perform choice w o).1.holding.Kept d.bufferLimit
    rw [hspared]
    exact hkept
  · change P (d.perform choice w o).1.holding
    rw [hspared]
    exact hP

theorem commitsForward_refl (w : StreamWorld) : CommitsForward w w := fun _ => Nat.le_refl _

theorem commitsForward_of_holding {w w' : StreamWorld} (h : w'.holding = w.holding) :
    CommitsForward w w' := fun source => (congrFun (congrArg Holding.committed h) source).ge

namespace Fills

theorem bind {x : d.Consumer α} {R : α → Fill} {f : α → d.Consumer β} {Q : β → Fill}
    (hx : Fills P x R E) (hf : ∀ a, Fills (R a) (f a) Q E) : Fills P (x >>= f) Q E :=
  StepTriple.bind hx hf

theorem pure {a : α} {Q : α → Fill} (h : ∀ holding, P holding → Q a holding) :
    Fills P (Pure.pure a : d.Consumer α) Q E :=
  StepTriple.ret fun _ hw => ⟨hw.1, h _ hw.2⟩

theorem raise {exc : PyException} {Q : α → Fill} (h : ∀ holding, P holding → E holding) :
    Fills P (d.raise exc : d.Consumer α) Q E :=
  StepTriple.raise fun _ hw => ⟨hw.1, h _ hw.2⟩

/-- The invariant may be used of what the program starts with and ends with. -/
theorem conseq {x : d.Consumer α} {Q Q' : α → Fill} (h : Fills P x Q E)
    (hP : ∀ holding, holding.Kept d.bufferLimit → P' holding → P holding)
    (hQ : ∀ a holding, holding.Kept d.bufferLimit → Q a holding → Q' a holding)
    (hE : ∀ holding, holding.Kept d.bufferLimit → E holding → E' holding) : Fills P' x Q' E' :=
  StepTriple.conseq h (fun _ hw => ⟨hw.1, hP _ hw.1 hw.2⟩) (fun a _ hw => ⟨hw.1, hQ a _ hw.1 hw.2⟩)
    fun _ hw => ⟨hw.1, hE _ hw.1 hw.2⟩

/-- A program that spares the holding keeps every fact about it. -/
theorem within {x : d.Consumer α} {Q : α → Prop} (hx : x.Within d.sparing Q) (P : Fill) :
    Fills P x (fun a holding => P holding ∧ Q a) P :=
  StepTriple.conseq (StepTriple.within hx (sparing_upheld P) commitsForward_refl
      fun _ choice w ho _ => commitsForward_of_holding (perform_spares choice w ho))
    (fun _ hw => hw) (fun _ _ hw => ⟨hw.1.1, hw.1.2, hw.2⟩) fun _ hw => hw

theorem spared {x : d.Consumer α} (hx : x.Within d.sparing fun _ => True) (P : Fill) :
    Fills P x (fun _ => P) P :=
  (within hx P).conseq (fun _ _ hw => hw) (fun _ _ _ hw => hw.1) fun _ _ hw => hw

theorem ite {p : Prop} [Decidable p] {x y : d.Consumer α} {Q : α → Fill}
    (hx : p → Fills P x Q E) (hy : ¬p → Fills P y Q E) : Fills P (if p then x else y) Q E :=
  StepTriple.ite hx hy

end Fills

section Operations

/-- `memory` answers with the buffers of the process. -/
theorem ask_memory_fills (P : Fill) :
    Fills P (d.ask .memory) (fun memory : ConsumerProcess => fun holding =>
      P holding ∧ memory.buffers = holding.buffers) P := by
  refine StepTriple.call commitsForward_refl (Triple.call ?_ ?_ ?_) fun w _ _ =>
    commitsForward_refl w
  · rintro w choice answer ⟨hw, hP⟩ hanswer
    cases hanswer
    exact ⟨hw, hP, rfl⟩
  · exact fun w choice hw _ => hw
  · exact fun _ w hw => hw

/-- An operation with a known effect on the holding. -/
theorem ask_effect_fills {o : StreamOp} {f : Holding → Holding} {Q : Fill}
    (heffect : ∀ choice w, (d.perform choice w o).1.holding = f w.holding)
    (hkept : ∀ holding, holding.Kept d.bufferLimit → P holding →
      (f holding).Kept d.bufferLimit ∧
        ∀ source, holding.committed source ≤ (f holding).committed source)
    (hQ : ∀ holding, holding.Kept d.bufferLimit → P holding → Q (f holding))
    (hE : ∀ holding, holding.Kept d.bufferLimit → P holding → E holding ∧ E (f holding)) :
    Fills P (d.ask o) (fun _ => Q) E := by
  have hafter : ∀ (choice : StreamChoice) (w : StreamWorld) (R : Fill), R (f w.holding) →
      R (d.perform choice w o).1.holding := fun choice w R hR =>
    (congrArg R (heffect choice w)).mpr hR
  refine StepTriple.call commitsForward_refl (Triple.call ?_ ?_ ?_) ?_
  · rintro w choice _ ⟨hw, hP⟩ _
    exact ⟨hafter choice w (Holding.Kept d.bufferLimit) (hkept _ hw hP).1,
      hafter choice w Q (hQ _ hw hP)⟩
  · rintro w choice ⟨hw, hP⟩ _
    exact ⟨hafter choice w (Holding.Kept d.bufferLimit) (hkept _ hw hP).1,
      hafter choice w E (hE _ hw hP).2⟩
  · exact fun _ w hw => ⟨hw.1, (hE _ hw.1 hw.2).1⟩
  · rintro w choice ⟨hw, hP⟩ source
    exact ((hkept _ hw hP).2 source).trans
      (congrFun (congrArg Holding.committed (heffect choice w)) source).ge

/-- What is polled is in hand, and not committed. -/
theorem ask_poll_fills (n : Nat) :
    Fills (.few n) (d.ask .poll) (fun polled : Option PolledMessage => fun holding =>
      Fill.few n holding ∧ ∀ message, polled = some (.message message) →
        holding.InHand message ∧ holding.Awaits message) fun _ => True := by
  have hpolled : ∀ (w : StreamWorld) choice, w.holding.Kept d.bufferLimit →
      (w.poll choice).1.holding.Kept d.bufferLimit ∧
      ((w.poll choice).1.holding.subscription = w.holding.subscription ∧
        (w.poll choice).1.holding.buffers = w.holding.buffers ∧
        (w.poll choice).1.holding.committed = w.holding.committed) ∧
      ∀ message, (w.poll choice).2 = some (.message message) →
        (w.poll choice).1.holding.InHand message ∧ (w.poll choice).1.holding.Awaits message := by
    intro w choice hw
    rcases poll_cases w choice with ⟨hsame, hnone⟩ | ⟨message, hfound, hpoll⟩
    · rw [hsame]
      exact ⟨hw, ⟨rfl, rfl, rfl⟩, fun message hmessage => absurd hmessage (hnone message)⟩
    · have hnext : message.offset = w.holding.position message.source := (message?_some hfound).2
      rw [hpoll]
      refine ⟨hw.receive hnext, ⟨rfl, rfl, rfl⟩, fun other hother => ?_⟩
      cases hother
      exact hw.received hnext
  refine StepTriple.call commitsForward_refl (Triple.call ?_ ?_ ?_) ?_
  · rintro w choice answer ⟨hw, hfew⟩ hanswer
    cases hanswer
    obtain ⟨hkept, ⟨hsubscription, hbuffers, _⟩, hmessage⟩ := hpolled w choice.poll hw
    refine ⟨hkept, ?_, hmessage⟩
    change (w.poll choice.poll).1.holding.subscription = [] ∨
      (w.poll choice.poll).1.holding.buffers.count ≤ n
    rw [hsubscription, hbuffers]
    exact hfew
  · exact fun w choice hw _ => ⟨(hpolled w choice.poll hw.1).1, trivial⟩
  · exact fun _ w hw => ⟨hw.1, trivial⟩
  · intro w choice hw source
    exact (congrFun (hpolled w choice.poll hw.1).2.1.2.2 source).ge

end Operations

section Sparing

variable {message : Message} {event : StreamFeatureEvent}

theorem ask_spares {o : StreamOp} (ho : o.sparesHolding = true) :
    (d.ask o).Within d.sparing fun _ => True := Prog.Within.call ho

theorem lookup_spares {find : Registry → Except PyException α} :
    (d.lookup find).Within d.sparing fun _ => True :=
  .bind (ask_spares rfl) fun _ _ => .ofExcept fun _ _ => trivial

/-- `_flush_view` answers with the messages of the items. -/
theorem flushView_spares (viewRef : String) (items : List BufferedEvent) :
    (d.flushView viewRef items).Within d.sparing fun messages =>
      messages = items.flatMap (·.messages) := by
  refine .bind lookup_spares fun view _ => ?_
  refine .bind lookup_spares fun entity _ => ?_
  refine .bind (.ofExcept (Q := fun _ => True) fun _ _ => trivial) fun rows _ => ?_
  refine .bind (ask_spares rfl) fun _ _ => ?_
  refine .bind (ask_spares rfl) fun batch _ => ?_
  refine .bind (ask_spares rfl) fun _ _ => ?_
  refine .bind (ask_spares rfl) fun _ _ => ?_
  refine .bind (ask_spares rfl) fun _ _ => ?_
  exact .bind (ask_spares rfl) fun _ _ => .ret rfl

theorem deadLetter_spares (error : String) (quality : Bool) :
    (d.deadLetter message error quality).Within d.sparing fun _ => True :=
  .bind (ask_spares rfl) fun _ _ => ask_spares rfl

theorem writeOnline_spares : (d.writeOnline event).Within d.sparing fun _ => True := by
  refine .bind (.tryCatch (ask_spares rfl) fun exc => ?_) fun accepted _ => ?_
  · exact .bind (ask_spares rfl) fun _ _ => .bind (ask_spares rfl) fun _ _ => trivial
  · exact .bind (ask_spares rfl) fun _ _ => .bind (ask_spares rfl) fun _ _ => trivial

theorem configuredView_spares :
    (d.configuredView message event).Within d.sparing fun _ => True := by
  refine .bind lookup_spares fun view _ => ?_
  split
  · trivial
  · refine .bind lookup_spares fun stream _ => ?_
    split
    · trivial
    · refine .bind lookup_spares fun entity _ => ?_
      exact .bind (.ofExcept (Q := fun _ => True) fun _ _ => trivial) fun _ _ => trivial

end Sparing

section Flush

/-- The loop of `flush` empties the views one by one, and answers with messages to commit. -/
theorem flushViews_fills (hP : P.Flushable) (pending : List String) (staged : List Message) :
    Fills (fun holding => (P holding ∧ holding.buffers.Cleared pending) ∧
        Fill.awaiting staged holding)
      (d.flushViews pending staged)
      (fun messages holding => (P holding ∧ holding.buffers.Cleared []) ∧
        Fill.awaiting messages holding) P := by
  induction pending generalizing staged with
  | nil => exact .pure fun _ hw => hw
  | cons viewRef rest ih =>
      unfold StreamDeployment.flushViews
      refine .bind ((ask_memory_fills _).conseq (fun _ _ hw => hw) (fun _ _ _ hw => hw)
        fun _ _ hw => hw.1.1) fun memory => ?_
      dsimp only
      split
      · rename_i hempty
        refine (ih staged).conseq ?_ (fun _ _ _ hw => hw) fun _ _ hw => hw
        rintro holding _ ⟨⟨⟨hfact, hcleared⟩, hstaged⟩, hbuffers⟩
        refine ⟨⟨hfact, fun other hother hrest => ?_⟩, hstaged⟩
        by_cases hview : other = viewRef
        · rw [hview, ← hbuffers]
          exact List.isEmpty_iff.mp hempty
        · exact hcleared other hother (List.not_mem_cons_of_ne_of_not_mem hview hrest)
      · refine .bind ((Fills.within (flushView_spares viewRef _) _).conseq (fun _ _ hw => hw)
          (fun _ _ _ hw => hw) fun _ _ hw => hw.1.1.1) fun messages => ?_
        refine .bind (ask_effect_fills (f := fun holding => holding.clear viewRef)
          (Q := fun holding => (P holding ∧ holding.buffers.Cleared rest) ∧
            Fill.awaiting (staged ++ messages) holding) (fun _ _ => rfl) ?_ ?_ ?_) fun _ => ih _
        · exact fun holding hkept _ => ⟨hkept.clear viewRef, fun _ => Nat.le_refl _⟩
        · rintro holding hkept ⟨⟨⟨⟨hfact, hcleared⟩, hstaged⟩, hbuffers⟩, rfl⟩
          refine ⟨⟨hP.clear holding viewRef hfact, fun other hother hrest => ?_⟩, ?_⟩
          · by_cases hview : other = viewRef
            · rw [hview]
              exact StreamBuffers.items_clear_self
            · refine (StreamBuffers.items_clear_ne hview).trans ?_
              exact hcleared other hother (List.not_mem_cons_of_ne_of_not_mem hview hrest)
          · intro message hmessage
            have hawaits : holding.Awaits message := by
              rcases List.mem_append.mp hmessage with hold | hnew
              · exact hstaged message hold
              · obtain ⟨item, hitem, hmem⟩ := List.mem_flatMap.mp hnew
                exact hkept.awaiting viewRef item (hbuffers ▸ hitem) message hmem
            exact ⟨hawaits.uncommitted, hawaits.polled⟩
        · exact fun holding _ hw => ⟨hw.1.1.1.1, hP.clear holding viewRef hw.1.1.1.1⟩

/-- Commits of different partitions, one after the other. -/
theorem commits_fills (hP : P.Flushable) {entries : List (TopicPartition × Message)}
    (hsources : (entries.map (·.2.source)).Nodup) :
    Fills (fun holding => (P holding ∧ Fill.empty holding) ∧
        Fill.awaiting (entries.map (·.2)) holding)
      (Prog.forEach entries fun entry => d.ask (.commit entry.2 false))
      (fun _ holding => P holding ∧ Fill.empty holding)
      fun holding => P holding ∧ Fill.empty holding := by
  induction entries with
  | nil => exact .pure fun _ hw => hw.1
  | cons entry rest ih =>
      obtain ⟨hfirst, hrest⟩ := List.nodup_cons.mp hsources
      have hawaits : ∀ {holding}, Fill.awaiting ((entry :: rest).map (·.2)) holding →
          holding.Awaits entry.2 := fun hw => hw entry.2 List.mem_cons_self
      refine Fills.bind (ask_effect_fills (f := fun holding => holding.commit entry.2)
        (Q := fun holding => (P holding ∧ Fill.empty holding) ∧
          Fill.awaiting (rest.map (·.2)) holding) (fun _ _ => rfl) ?_ ?_ ?_) fun _ => ih hrest
      · rintro holding hkept ⟨⟨_, hempty⟩, hw⟩
        exact ⟨hkept.commit hempty (hawaits hw).polled,
          Holding.le_commit (Nat.le_succ_of_le (hawaits hw).uncommitted)⟩
      · rintro holding _ ⟨⟨hfact, hempty⟩, hw⟩
        refine ⟨⟨hP.commit holding entry.2 hfact, hempty⟩, fun message hmessage => ?_⟩
        have hsource : message.source ≠ entry.2.source := by
          intro hsame
          obtain ⟨other, hother, rfl⟩ := List.mem_map.mp hmessage
          exact hfirst (List.mem_map.mpr ⟨other, hother, hsame⟩)
        exact (hw message (List.mem_cons_of_mem _ hmessage)).commit hsource
      · rintro holding _ ⟨⟨hfact, hempty⟩, _⟩
        exact ⟨⟨hfact, hempty⟩, hP.commit holding entry.2 hfact, hempty⟩

/-- `flush` leaves nothing buffered. -/
theorem flush_fills (hP : P.Flushable) :
    Fills P d.flush (fun _ holding => P holding ∧ Fill.empty holding) P := by
  have hbody : Fills P d.flushBuffers (fun _ holding => P holding ∧ Fill.empty holding) P := by
    refine .bind (ask_memory_fills P) fun memory => ?_
    refine .bind ((flushViews_fills hP memory.buffers.views []).conseq ?_
      (fun _ _ _ hw => hw) fun _ _ hw => hw) fun staged => ?_
    · rintro holding _ ⟨hfact, hbuffers⟩
      refine ⟨⟨hfact, fun viewRef hview hpending => absurd (hbuffers ▸ hview) hpending⟩, ?_⟩
      exact fun message hmessage => absurd hmessage List.not_mem_nil
    have hcommits : Fills (fun holding => (P holding ∧ holding.buffers.Cleared []) ∧
        Fill.awaiting staged holding) (d.commitLatest staged)
        (fun _ holding => P holding ∧ Fill.empty holding) P := by
      refine (commits_fills hP (nodup_latestByPartition staged)).conseq ?_
        (fun _ _ _ hw => hw) fun _ _ hw => hw.1
      rintro holding hkept ⟨⟨hfact, hcleared⟩, hstaged⟩
      refine ⟨⟨hfact, hcleared.items_eq hkept.listed⟩, fun message hmessage => ?_⟩
      obtain ⟨entry, hentry, rfl⟩ := List.mem_map.mp hmessage
      exact hstaged entry.2 (mem_latestByPartition entry hentry)
    refine .bind hcommits fun _ => .conseq (P := fun holding => P holding ∧ Fill.empty holding)
      (Q := fun _ holding => P holding ∧ Fill.empty holding)
      (E := fun holding => P holding ∧ Fill.empty holding) (Fills.spared ?_ _)
      (fun _ _ hw => hw) (fun _ _ _ hw => hw) fun _ _ hw => hw.1
    exact .bind (ask_spares rfl) fun _ _ => ask_spares rfl
  refine StepTriple.ensuring hbody (fun _ => ?_) (Fills.spared (ask_spares rfl) P)
  exact (Fills.spared (ask_spares rfl) _).conseq (fun _ _ hw => hw) (fun _ _ _ hw => hw)
    fun _ _ hw => hw.1

/-- The message in hand may be committed after a flush, for a second time even. -/
theorem settle_fills (message : Message) (rejected : Bool) :
    Fills (.inHand message) (d.settle message rejected) (fun _ => .inHand message)
      (.inHand message) := by
  refine .bind (flush_fills (Fill.flushable_inHand message)) fun _ => ?_
  refine .bind (ask_effect_fills (f := fun holding => holding.commit message)
    (Q := .inHand message) (fun _ _ => rfl) ?_ (fun _ _ hw => hw.1)
    fun _ _ hw => ⟨hw.1, hw.1⟩) fun _ => Fills.spared (ask_spares rfl) _
  rintro holding hkept ⟨hhand, hempty⟩
  have hposition : holding.position message.source = message.offset + 1 := hhand
  refine ⟨hkept.commit hempty (hposition ▸ Nat.lt_succ_self _), Holding.le_commit ?_⟩
  exact (hkept.behind message.source).trans hposition.le

/-- A dead letter is produced, and its message is settled. -/
theorem discard_fills (message : Message) (error : String) (quality : Bool) :
    Fills (.inHand message) (do
      d.deadLetter message error quality
      d.settle message false
      d.ask .external) (fun _ => .inHand message) (.inHand message) := by
  refine .bind (Fills.spared (deadLetter_spares error quality) _) fun _ => ?_
  exact .bind (settle_fills message false) fun _ => Fills.spared (ask_spares rfl) _

end Flush

section Handle

variable {message : Message} {event : StreamFeatureEvent}

theorem one_le_bufferLimit : 1 ≤ d.bufferLimit := le_max_left _ _

/-- There is room for one more event. -/
theorem room_for_one {holding : Holding} (h : Fill.few (d.bufferLimit - 1) holding) :
    holding.subscription = [] ∨ holding.buffers.count + 1 ≤ d.bufferLimit := by
  have hone := @one_le_bufferLimit d
  refine h.imp_right fun hcount => ?_
  calc holding.buffers.count + 1 ≤ (d.bufferLimit - 1) + 1 := Nat.add_le_add_right hcount 1
    _ = d.bufferLimit := Nat.sub_add_cancel hone

/-- What does not buffer the message in hand needs no room for it. -/
theorem roomFor_of_inHand {x : d.Consumer Unit}
    (h : Fills (.inHand message) x (fun _ => .inHand message) (.inHand message)) :
    Fills (d.roomFor message) x (fun _ => .inHand message) (.inHand message) :=
  h.conseq (fun _ _ hw => hw.2.1) (fun _ _ _ hw => hw) fun _ _ hw => hw

theorem roomFor_spared {x : d.Consumer α} (hx : x.Within d.sparing fun _ => True) :
    Fills (d.roomFor message) x (fun _ => d.roomFor message) (.inHand message) :=
  (Fills.spared hx _).conseq (fun _ _ hw => hw) (fun _ _ _ hw => hw) fun _ _ hw => hw.2.1

theorem registerEvent_fills :
    Fills (d.roomFor message) (d.registerEvent message event) (fun _ => .inHand message)
      (.inHand message) := by
  refine .bind (roomFor_spared (ask_spares rfl)) fun (registration : Registration) => ?_
  refine .ite (fun _ => roomFor_of_inHand (discard_fills message _ false)) fun _ => ?_
  refine .ite (fun _ => roomFor_of_inHand (settle_fills message false)) fun _ => ?_
  refine .bind (ask_effect_fills (f := fun holding => holding.add registration.record.id
    registration.record.payload (some message)) (Q := .inHand message) (fun _ _ => rfl) ?_
    (fun _ _ hw => hw.2.1) fun _ _ hw => ⟨hw.2.1, hw.2.1⟩) fun (created : Bool) => ?_
  · rintro holding hkept ⟨hfew, _, hawaits⟩
    refine ⟨hkept.add _ _ (room_for_one hfew) fun other hother => ?_, fun _ => Nat.le_refl _⟩
    rwa [List.mem_singleton.mp hother]
  · refine .ite (fun _ => Fills.spared ?_ _) fun _ => Fills.spared (ask_spares rfl) _
    exact .bind writeOnline_spares fun _ _ => ask_spares rfl

theorem process_fills :
    Fills (d.roomFor message) (d.process message) (fun _ => .inHand message)
      (.inHand message) := by
  have hraise : ∀ {exc : PyException}, Fills (d.roomFor message)
      (d.raise exc : d.Consumer Unit) (fun _ => .inHand message) (.inHand message) :=
    .raise fun _ hw => hw.2.1
  unfold StreamDeployment.process
  split
  · exact hraise
  · split
    · exact hraise
    · unfold StreamDeployment.handleEvent
      split
      · exact hraise
      · refine .bind (roomFor_spared (ask_spares rfl)) fun (ingestionTime : Instant) => ?_
        refine .bind (roomFor_spared (ask_spares rfl)) fun _ => ?_
        refine .bind (roomFor_spared configuredView_spares) fun view => ?_
        refine .bind (roomFor_spared (.forEach fun _ _ => ask_spares rfl)) fun _ => ?_
        split
        · exact registerEvent_fills
        · split
          · exact roomFor_of_inHand (settle_fills message true)
          · exact roomFor_of_inHand (discard_fills message _ true)
          · exact registerEvent_fills

/-- `_handle` buffers at most one event more. -/
theorem handle_fills (polled : PolledMessage) :
    Fills (fun holding => Fill.few (d.bufferLimit - 1) holding ∧
        ∀ message, some polled = some (PolledMessage.message message) →
          holding.InHand message ∧ holding.Awaits message)
      (d.handle polled) (fun _ _ => True) fun _ => True := by
  cases polled with
  | error endOfPartition =>
      exact (Fills.spared (ask_spares rfl) fun _ => True).conseq (fun _ _ _ => trivial)
        (fun _ _ _ hw => hw) fun _ _ hw => hw
  | message message =>
      have hprocess : Fills (d.roomFor message)
          ((d.process message).tryCatch fun exc => do
            d.deadLetter message exc.text false
            d.settle message false
            d.ask .external) (fun _ => .inHand message) (.inHand message) :=
        StepTriple.tryCatch process_fills fun exc => discard_fills message exc.text false
      have hhandle : Fills (d.roomFor message) (d.handle (.message message))
          (fun _ => .inHand message) (.inHand message) :=
        StepTriple.ensuring hprocess (fun _ => Fills.spared (ask_spares rfl) _)
          (Fills.spared (ask_spares rfl) _)
      exact hhandle.conseq (fun _ _ hw => ⟨hw.1, hw.2 message rfl⟩) (fun _ _ _ _ => trivial)
        fun _ _ _ => trivial

end Handle

section Loop

/-- If no flush is due, there is room for one more event. -/
theorem shouldFlush_fills :
    Fills (fun _ => True) d.shouldFlush
      (fun due holding => due = false → Fill.few (d.bufferLimit - 1) holding) fun _ => True := by
  refine .bind ((ask_memory_fills _).conseq (fun _ _ hw => hw) (fun _ _ _ hw => hw)
    fun _ _ hw => hw) fun memory => ?_
  refine .bind ((Fills.spared (ask_spares rfl) _).conseq (fun _ _ hw => hw)
    (fun _ _ _ hw => hw) fun _ _ _ => trivial) fun now => ?_
  refine .pure ?_
  rintro holding ⟨_, hbuffers⟩ hdue
  have hbelow : ¬ d.config.settings.streamBatchSize ≤ (memory.buffers.count : Int) := by
    simp only [Bool.or_eq_false_iff, decide_eq_false_iff_not] at hdue
    exact hdue.1
  refine Or.inr ?_
  rw [← hbuffers]
  unfold bufferLimit
  omega

theorem pollOnce_fills :
    Fills (.few (d.bufferLimit - 1)) d.pollOnce (fun _ => .few (d.bufferLimit - 1))
      fun _ => True := by
  have hdue : Fills (fun _ => True) (do
      let due ← d.shouldFlush
      if due then d.flush else pure ()) (fun _ => .few (d.bufferLimit - 1))
      fun _ => True := by
    refine .bind shouldFlush_fills fun due => ?_
    refine .ite (fun _ => ?_) fun hdue => ?_
    · refine (flush_fills Fill.flushable_true).conseq (fun _ _ _ => trivial)
        (fun _ holding _ hw => Or.inr ?_) fun _ _ hw => hw
      exact (StreamBuffers.count_of_items hw.2).le.trans (Nat.zero_le _)
    · exact .pure fun _ hw => hw (Bool.eq_false_iff.mpr hdue)
  refine .bind (ask_poll_fills _) fun (polled : Option PolledMessage) => ?_
  cases polled with
  | none =>
      exact hdue.conseq (fun _ _ _ => trivial) (fun _ _ _ hw => hw) fun _ _ hw => hw
  | some polled => exact .bind (handle_fills polled) fun _ => hdue

/-- A recovery buffers what is pending while nothing is subscribed, and flushes it. -/
theorem recoverPending_fills :
    Fills (fun holding => holding.subscription = [] ∧ Fill.empty holding)
      d.recoverPending (fun _ => .empty) (fun holding => holding.subscription = []) := by
  refine .bind ((Fills.spared (ask_spares rfl) _).conseq (fun _ _ hw => hw)
    (fun _ _ _ hw => hw) fun _ _ hw => hw.1) fun (records : List StreamEventRecord) => ?_
  have hrecords : Fills
      (fun holding => holding.subscription = [] ∧ (records = [] → Fill.empty holding))
      (Prog.forEach records d.recoverRecord)
      (fun _ holding => holding.subscription = [] ∧ (records = [] → Fill.empty holding))
      fun holding => holding.subscription = [] := by
    refine StepTriple.forEach fun record hrecord => ?_
    have hsome : records ≠ [] := List.ne_nil_of_mem hrecord
    refine Fills.bind (ask_effect_fills (f := fun holding => holding.add record.id record.payload
      none) (Q := fun holding => holding.subscription = [] ∧ (records = [] → Fill.empty holding))
      (fun _ _ => rfl) ?_ (fun _ _ hw => ⟨hw.1, fun hnone => absurd hnone hsome⟩)
      fun _ _ hw => ⟨hw.1, hw.1⟩) fun (created : Bool) => ?_
    · rintro holding hkept ⟨hnone, _⟩
      refine ⟨hkept.add _ _ (Or.inl hnone) fun other hother => ?_, fun _ => Nat.le_refl _⟩
      exact absurd hother List.not_mem_nil
    · refine Fills.conseq (Fills.spared ?_ _) (fun _ _ hw => hw) (fun _ _ _ hw => hw)
        fun _ _ hw => hw.1
      exact .ite (fun _ => .bind writeOnline_spares fun _ _ => trivial) fun _ => trivial
  refine .bind (hrecords.conseq (fun _ _ hw => ⟨hw.1, fun _ => hw.2⟩) (fun _ _ _ hw => hw)
    fun _ _ hw => hw) fun _ => ?_
  refine .ite (fun hnone => .pure fun _ hw => ?_) fun _ => ?_
  · exact hw.2 (List.isEmpty_iff.mp hnone)
  · exact (flush_fills Fill.flushable_unsubscribed).conseq (fun _ _ hw => hw.1)
      (fun _ _ _ hw => hw.2) fun _ _ hw => hw

/-- The service `loop` keeps its buffers within the limit, and commits forward. -/
def moving (d : StreamDeployment) :
    d.service.Moving d.WithinLimit withinLimit_stable CommitsForward where
  loop := filled (.few (d.bufferLimit - 1))
  closed := filled fun _ => True
  ready := filled fun holding => holding.subscription = [] ∧ Fill.empty holding
  restarted := fun w _ => by
    refine ⟨⟨⟨List.nodup_nil, fun _ _ => rfl, fun _ => List.nodup_nil⟩, Or.inl rfl,
      fun _ => Nat.le_refl _, ?_⟩, rfl, fun _ => rfl⟩
    exact fun _ item hitem => absurd hitem List.not_mem_nil
  startup := by
    have hsubscribe : Fills .empty d.subscribe (fun _ => .few (d.bufferLimit - 1))
        fun _ => True := by
      have hcount : ∀ {holding n}, Fill.empty holding → holding.buffers.count ≤ n :=
        fun hw => (StreamBuffers.count_of_items hw).le.trans (Nat.zero_le _)
      refine .bind ((Fills.spared (ask_spares rfl) _).conseq (fun _ _ hw => hw)
        (fun _ _ _ hw => hw) fun _ _ _ => trivial) fun (registry : Registry) => ?_
      refine .ite (fun _ => .raise fun _ _ => trivial) fun _ => ?_
      refine ask_effect_fills (f := fun holding => { holding with subscription := _ })
        (fun _ _ => rfl) ?_ (fun _ _ hw => Or.inr (hcount hw)) fun _ _ _ => ⟨trivial, trivial⟩
      rintro holding hkept hempty
      refine ⟨⟨hkept.listed, Or.inr (hcount hempty), hkept.behind, ?_⟩, fun _ => Nat.le_refl _⟩
      intro viewRef item hitem
      exact absurd (hempty viewRef ▸ hitem : item ∈ []) List.not_mem_nil
    have hstartup : Fills (fun holding => holding.subscription = [] ∧ Fill.empty holding)
        d.service.startup (fun _ => .few (d.bufferLimit - 1)) fun _ => True :=
      .bind (recoverPending_fills.conseq (fun _ _ hw => hw) (fun _ _ _ hw => hw)
        fun _ _ _ => trivial) fun _ => hsubscribe
    exact StepTriple.conseq hstartup (fun _ hw => hw) (fun _ _ hw => hw) fun _ hw => hw.1
  body := pollOnce_fills
  closing := by
    have hclosing : Fills (fun _ => True) d.service.closing (fun _ _ => True) fun _ => True := by
      refine .bind ((flush_fills Fill.flushable_true).conseq (fun _ _ hw => hw)
        (fun _ _ _ _ => trivial) fun _ _ hw => hw) fun _ => ?_
      refine ask_effect_fills (P := fun _ => True)
        (f := fun holding => { holding with subscription := [] })
        (fun _ _ => rfl) ?_ (fun _ _ _ => trivial) fun _ _ _ => ⟨trivial, trivial⟩
      intro holding hkept _
      refine ⟨⟨hkept.listed, Or.inl rfl, hkept.behind, ?_⟩, fun _ => Nat.le_refl _⟩
      intro viewRef item hitem message hmessage
      have hawaits := hkept.awaiting viewRef item hitem message hmessage
      exact ⟨hawaits.uncommitted, hawaits.polled⟩
    exact StepTriple.conseq hclosing (fun _ hw => hw) (fun _ _ hw => hw.1) fun _ hw => hw.1

theorem withinLimit_fresh (registry : Registry) (log : TopicPartition → List LogEntry)
    (views : String → Option DeltaTable) (online : OnlineStore) :
    d.WithinLimit (.fresh registry log views online) := by
  refine ⟨⟨List.nodup_nil, fun _ _ => rfl, fun _ => List.nodup_nil⟩, Or.inl rfl,
    fun _ => Nat.le_refl _, ?_⟩
  exact fun _ item hitem => absurd hitem List.not_mem_nil

theorem withinLimit_reach (registry : Registry) (log : TopicPartition → List LogEntry)
    (views : String → Option DeltaTable) (online : OnlineStore)
    (actions : List (Action d.interface)) :
    d.WithinLimit (d.reach registry log views online actions).state :=
  d.moving.verified.run (withinLimit_fresh registry log views online) rfl actions

end Loop

end StreamDeployment

/-- However the consumer is interleaved, faulted, killed and restarted, while it is subscribed
it holds no more events and no more messages than the batch size. -/
theorem buffers_within_batch_size (d : StreamDeployment) (registry : Registry)
    (log : TopicPartition → List LogEntry) (views : String → Option DeltaTable)
    (online : OnlineStore) (actions : List (Action d.interface)) :
    let process := (d.reach registry log views online actions).state.process
    process.subscription = [] ∨
      process.buffers.events.length ≤ d.bufferLimit ∧
        (process.buffers.events.flatMap (·.messages)).length ≤ d.bufferLimit := by
  intro process
  have hreached := d.withinLimit_reach registry log views online actions
  exact hreached.few.imp_right fun hcount => ⟨(process.buffers.length_events_le).trans hcount,
    (process.buffers.length_messages_le).trans hcount⟩

/-- However the consumer is interleaved, faulted, killed and restarted, no action takes a
committed offset back, no commit is ahead of what has been polled, and what is in the buffers is
not committed, so that it is delivered again to a consumer that starts over. -/
theorem commits_never_go_back (d : StreamDeployment) (registry : Registry)
    (log : TopicPartition → List LogEntry) (views : String → Option DeltaTable)
    (online : OnlineStore) (actions : List (Action d.interface)) :
    Execution.Along d.service.step
        (fun c action => ∀ source, c.state.broker.committed source ≤
          (d.service.step c action).state.broker.committed source)
        ⟨.fresh registry log views online, none⟩ actions ∧
      let w := (d.reach registry log views online actions).state
      (∀ source, w.broker.committed source ≤ w.process.position source) ∧
        ∀ viewRef, ∀ item ∈ w.process.buffers.items viewRef, ∀ message ∈ item.messages,
          w.broker.committed message.source ≤ message.offset ∧
            message.offset < w.process.position message.source := by
  refine ⟨d.moving.along StreamDeployment.commitsForward_refl ?_ ?_
    (d.withinLimit_fresh registry log views online) rfl actions, ?_⟩
  · exact fun w event _ => StreamDeployment.commitsForward_of_holding
      (StreamDeployment.holding_disturb w event)
  · exact fun w _ source => Nat.le_refl _
  · have hreached := d.withinLimit_reach registry log views online actions
    refine ⟨hreached.behind, fun viewRef item hitem message hmessage => ?_⟩
    have hawaits := hreached.awaiting viewRef item hitem message hmessage
    exact ⟨hawaits.uncommitted, hawaits.polled⟩

end FeatureStore
