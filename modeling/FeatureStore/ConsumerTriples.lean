import FeatureStore.StreamEffects
import FeatureStore.StreamInterference

/-!
# The methods of the consumer against its invariant

One triple for each method of `StreamConsumer`, from its operations up to the loop. A
fact is a predicate that no other process and no quiet operation makes false; the
triples carry the invariant and the facts that a method relies on.
-/

namespace FeatureStore

open Programs

/-- A predicate on the state that quiet steps keep. -/
structure Fact (d : StreamDeployment) where
  holds : StreamWorld → Prop
  kept : ∀ {w w'}, Quiet d w w' → holds w → holds w'

namespace Fact

variable {d : StreamDeployment}

def and (P F : Fact d) : Fact d where
  holds := fun w => P.holds w ∧ F.holds w
  kept := fun h hw => ⟨P.kept h hw.1, F.kept h hw.2⟩

/-- A fact that does not depend on the state. -/
def pure (p : Prop) : Fact d := ⟨fun _ => p, fun _ hp => hp⟩

/-- A fact about every element of a list. -/
def all {α : Type} (items : List α) (P : α → Fact d) : Fact d where
  holds := fun w => ∀ item ∈ items, (P item).holds w
  kept := fun h hw item hitem => (P item).kept h (hw item hitem)

def sound (current : Option Message) (unwritten : Option StreamFeatureEvent) : Fact d :=
  ⟨Sound d current unwritten, fun h hw => hw.steady h.toSteady⟩

/-- The invariant with some message in hand or none. -/
def soundSomehow : Fact d where
  holds := fun w => ∃ current, Sound d current none w
  kept := fun h ⟨current, hw⟩ => ⟨current, hw.steady h.toSteady⟩

def buffersAre (buffers : StreamBuffers) : Fact d :=
  ⟨fun w => w.process.buffers = buffers, fun h hw => h.buffers.trans hw⟩

/-- No view outside the list has a buffered event. -/
def emptyBeyond (views : List String) : Fact d where
  holds := fun w => ∀ viewRef, viewRef ∉ views → w.process.buffers.items viewRef = []
  kept := fun h hw viewRef hview => by
    rw [h.buffers]
    exact hw viewRef hview

def settled (identity : String × String) : Fact d :=
  ⟨fun w => Settled w.db identity, fun h hw => hw.grows h.grows⟩

/-- The message was handed out and its outcome is durable. -/
def outcome (message : Message) : Fact d where
  holds := fun w => Passed w message ∧ Durable d w message
  kept := fun h hw => ⟨hw.1.grows h.grows, hw.2.grows h.grows⟩

def durable (message : Message) : Fact d :=
  ⟨fun w => Durable d w message, fun h hw => hw.grows h.grows⟩

/-- The message needs no more than the commit of its offset. -/
def decided (message : Message) (rejected : Bool) : Fact d where
  holds := fun w => rejected = true ∨ Durable d w message
  kept := fun h hw => hw.imp_right fun hdurable => hdurable.grows h.grows

/-- The message is taken care of: its outcome is durable, or it is buffered. -/
def handled (message : Message) : Fact d where
  holds := fun w => Durable d w message ∨ Buffered w message
  kept := fun h hw => hw.imp (fun hdurable => hdurable.grows h.grows)
    fun hbuffered => hbuffered.of_same h.buffers

def buffered (message : Option Message) : Fact d where
  holds := fun w => ∀ m ∈ message.toList, Buffered w m
  kept := fun h hw m hm => (hw m hm).of_same h.buffers

def bufferable (recordId : Uuid) (event : StreamFeatureEvent) (message : Option Message) :
    Fact d :=
  ⟨Bufferable d recordId event message, fun h hw => hw.grows h.grows⟩

def prepared (stagingUri : StagingUri) (content : Option (List OfflineRow)) : Fact d :=
  ⟨Prepared stagingUri content, fun h hw => hw.quiet h⟩

/-- The record that a registration has answered is stored, under the event's identity. -/
def registered (registration : Registration) (event : StreamFeatureEvent) : Fact d where
  holds := fun w => ∃ record ∈ w.db.streamEvents.rows,
    record.id = registration.record.id ∧ record.payload = registration.record.payload ∧
      record.identity = event.identity ∧
      (registration.record.state ≠ .pending → record.state ≠ .pending)
  kept := fun h ⟨record, hrecord, hid, hpayload, hidentity, hstate⟩ => by
    obtain ⟨record', hrecord', hevolves⟩ := h.grows.ledger record hrecord
    exact ⟨record', hrecord', hevolves.id.trans hid, hevolves.payload.trans hpayload,
      hevolves.identity.trans hidentity, fun hsettled => hevolves.settled (hstate hsettled)⟩

/-- The assertion of a fact, on states with a sound core. -/
def assertion (P : Fact d) : @Assertion d.interface (Core d) where
  holds := fun w => Core d w ∧ P.holds w
  stable := fun _ event hw =>
    ⟨(hw.1.disturb event).core, P.kept (hw.1.disturb event) hw.2⟩
  sound := fun _ hw => hw.1

end Fact

section Rules

variable {d : StreamDeployment} {α β : Type} {P P' E E' F : Fact d} {Q Q' R : α → Fact d}
  {x : d.Consumer α}

/-- A triple between facts. -/
def Meets (P : Fact d) (x : d.Consumer α) (Q : α → Fact d) (E : Fact d) : Prop :=
  Triple P.assertion x (fun a => (Q a).assertion) E.assertion

namespace Meets

theorem bind {f : α → d.Consumer β} {Q : β → Fact d} (hx : Meets P x R E)
    (hf : ∀ a, Meets (R a) (f a) Q E) : Meets P (x >>= f) Q E :=
  Triple.bind hx hf

theorem pure {a : α} (h : ∀ w, Core d w → P.holds w → (Q a).holds w) :
    Meets P (Pure.pure a : d.Consumer α) Q E :=
  Triple.ret fun w hw => ⟨hw.1, h w hw.1 hw.2⟩

theorem raise {exc : PyException} (h : ∀ w, Core d w → P.holds w → E.holds w) :
    Meets P (d.raise exc : d.Consumer α) Q E :=
  Triple.raise fun w hw => ⟨hw.1, h w hw.1 hw.2⟩

theorem tryCatch {handler : PyException → d.Consumer α} (hx : Meets P x Q E')
    (hhandler : ∀ exc, Meets E' (handler exc) Q E) :
    Meets P (Prog.tryCatch x handler) Q E :=
  Triple.tryCatch hx hhandler

theorem conseq (h : Meets P x Q E) (hP : ∀ w, Core d w → P'.holds w → P.holds w)
    (hQ : ∀ a w, Core d w → (Q a).holds w → (Q' a).holds w)
    (hE : ∀ w, Core d w → E.holds w → E'.holds w) : Meets P' x Q' E' :=
  Triple.conseq h (fun w hw => ⟨hw.1, hP w hw.1 hw.2⟩) (fun a w hw => ⟨hw.1, hQ a w hw.1 hw.2⟩)
    fun w hw => ⟨hw.1, hE w hw.1 hw.2⟩

theorem strengthen (h : Meets P x Q E) (hP : ∀ w, Core d w → P'.holds w → P.holds w) :
    Meets P' x Q E :=
  h.conseq hP (fun _ _ _ h => h) fun _ _ h => h

theorem weakenError (h : Meets P x Q E) (hE : ∀ w, Core d w → E.holds w → E'.holds w) :
    Meets P x Q E' :=
  h.conseq (fun _ _ h => h) (fun _ _ _ h => h) hE

/-- What only grows is still there at either end. -/
theorem frame (h : Meets P x Q E) (hF : ∀ {w w'}, Grows w w' → F.holds w → F.holds w') :
    Meets (P.and F) x (fun a => (Q a).and F) (E.and F) := by
  have hframed : @Framed d.interface (Core d) F.holds :=
    ⟨fun w event hw => hF (disturb_grows w event) hw,
      fun o choice w hcore hw => hF (hcore.perform_grows choice o) hw⟩
  refine (Triple.frame h hframed).conseq ?_ ?_ ?_
  · exact fun w hw => ⟨⟨hw.1, hw.2.1⟩, hw.2.2⟩
  · exact fun a w hw => ⟨hw.1.1, hw.1.2, hw.2⟩
  · exact fun w hw => ⟨hw.1.1, hw.1.2, hw.2⟩

theorem ensuring {final : d.Consumer Unit} (hx : Meets P x Q E')
    (hfinal : ∀ a, Meets (Q a) final (fun _ => Q' a) E)
    (hraised : Meets E' final (fun _ => E) E) : Meets P (Prog.ensuring x final) Q' E :=
  Triple.ensuring hx hfinal hraised

theorem ofExcept {result : Except PyException α}
    (hok : ∀ a, result = .ok a → ∀ w, Core d w → P.holds w → (Q a).holds w)
    (herror : ∀ w, Core d w → P.holds w → E.holds w) : Meets P (d.ofExcept result) Q E :=
  Triple.ofExcept (fun a ha w hw => ⟨hw.1, hok a ha w hw.1 hw.2⟩)
    fun w hw => ⟨hw.1, herror w hw.1 hw.2⟩

theorem forEach {items : List β} {body : β → d.Consumer Unit}
    (h : ∀ item ∈ items, Meets P (body item) (fun _ => P) E) :
    Meets P (Prog.forEach items body) (fun _ => P) E :=
  Triple.forEach h

/-- A state-independent conjunct of the precondition may be assumed. -/
theorem of_pure {p : Prop} (h : p → Meets P x Q E) : Meets (P.and (Fact.pure p)) x Q E :=
  fun w hw => h hw.2.2 w ⟨hw.1, hw.2.1⟩

theorem ite {p : Prop} [Decidable p] {x y : d.Consumer α} (hx : p → Meets P x Q E)
    (hy : ¬p → Meets P y Q E) : Meets P (if p then x else y) Q E := by
  by_cases hp : p
  · rw [if_pos hp]
    exact hx hp
  · rw [if_neg hp]
    exact hy hp

/-- One operation, by its effect on the invariant. -/
theorem ask {o : StreamOp} {Q : o.Answer → Fact d}
    (hok : ∀ w choice answer, Core d w → P.holds w →
      (d.perform choice w o).2 = .ok answer →
      Core d (d.perform choice w o).1 ∧ (Q answer).holds (d.perform choice w o).1)
    (herror : ∀ w choice, Core d w → P.holds w →
      (o.fallible = true ∨ ∃ exc, (d.perform choice w o).2 = .error exc) →
      Core d (d.perform choice w o).1 ∧ E.holds (d.perform choice w o).1)
    (hbefore : o.fallible = true → ∀ w, Core d w → P.holds w → E.holds w) :
    Meets P (d.ask o) Q E :=
  Triple.call (fun w choice answer hw h => hok w choice answer hw.1 hw.2 h)
    (fun w choice hw hraises => herror w choice hw.1 hw.2 hraises)
    fun hfallible w hw => ⟨hw.1, hbefore hfallible w hw.1 hw.2⟩

/-- A quiet operation keeps every fact. -/
theorem quiet {o : StreamOp} (ho : o.isQuiet = true) (P : Fact d) :
    Meets P (d.ask o) (fun _ => P) P := by
  have hkept : ∀ w choice, Core d w → P.holds w →
      Core d (d.perform choice w o).1 ∧ P.holds (d.perform choice w o).1 := by
    intro w choice hcore hw
    have hquiet := hcore.perform_quiet choice ho
    exact ⟨hquiet.core, P.kept hquiet hw⟩
  exact ask (fun w choice _ hcore hw _ => hkept w choice hcore hw)
    (fun w choice hcore hw _ => hkept w choice hcore hw) fun _ _ _ hw => hw

/-- A quiet operation, and what its answer adds. -/
theorem quiet_answer {o : StreamOp} (ho : o.isQuiet = true) (P : Fact d)
    {F : o.Answer → Fact d}
    (h : ∀ w choice answer, Core d w → P.holds w → (d.perform choice w o).2 = .ok answer →
      (F answer).holds (d.perform choice w o).1) :
    Meets P (d.ask o) (fun answer => P.and (F answer)) P := by
  have hkept : ∀ w choice, Core d w → P.holds w →
      Core d (d.perform choice w o).1 ∧ P.holds (d.perform choice w o).1 := by
    intro w choice hcore hw
    have hquiet := hcore.perform_quiet choice ho
    exact ⟨hquiet.core, P.kept hquiet hw⟩
  refine ask (fun w choice answer hcore hw hanswer => ?_)
    (fun w choice hcore hw _ => hkept w choice hcore hw) fun _ _ _ hw => hw
  obtain ⟨hcore', hw'⟩ := hkept w choice hcore hw
  exact ⟨hcore', hw', h w choice answer hcore hw hanswer⟩

end Meets

end Rules

end FeatureStore
