import FeatureStore.Library.Programs

/-!
# Programs under contract

A contract says which operations a program may ask for, and what each of them promises to
answer. Whether a program keeps to it depends on its text only, so an invariant that the
permitted operations keep is one of every run, whatever faults and crashes there are.
-/

namespace Programs

variable {S : Interface} {α β : Type}

/-- The permitted operations, and what they answer. -/
structure Contract (S : Interface) where
  permits : S.Op → Prop
  promises : (o : S.Op) → S.Answer o → Prop

/-- The program asks for permitted operations only, as long as these keep their promises,
and returns values as `Q` says. -/
def Prog.Within (C : Contract S) (Q : α → Prop) : Prog S α → Prop
  | ret a => Q a
  | raise _ => True
  | op o next => C.permits o ∧ ∀ answer : Except S.Error (S.Answer o),
      (∀ a, answer = .ok a → C.promises o a) → (next answer).Within C Q

namespace Prog.Within

variable {C : Contract S} {Q : α → Prop} {R : β → Prop}

theorem ret {a : α} (h : Q a) : (Prog.ret a : Prog S α).Within C Q := h

theorem raise {e : S.Error} : (Prog.raise e : Prog S α).Within C Q := trivial

theorem mono {Q' : α → Prop} {x : Prog S α} (h : x.Within C Q) (hQ : ∀ a, Q a → Q' a) :
    x.Within C Q' := by
  induction x with
  | ret a => exact hQ a h
  | raise e => trivial
  | op o next ih => exact ⟨h.1, fun answer hanswer => ih answer (h.2 answer hanswer)⟩

theorem bind {x : Prog S β} {f : β → Prog S α} (hx : x.Within C R)
    (hf : ∀ b, R b → (f b).Within C Q) : (x >>= f).Within C Q := by
  change (x.bind f).Within C Q
  induction x with
  | ret b => exact hf b hx
  | raise e => trivial
  | op o next ih => exact ⟨hx.1, fun answer hanswer => ih answer (hx.2 answer hanswer)⟩

theorem tryCatch {x : Prog S α} {handler : S.Error → Prog S α} (hx : x.Within C Q)
    (hhandler : ∀ e, (handler e).Within C Q) : (x.tryCatch handler).Within C Q := by
  induction x with
  | ret a => exact hx
  | raise e => exact hhandler e
  | op o next ih => exact ⟨hx.1, fun answer hanswer => ih answer (hx.2 answer hanswer)⟩

theorem ensuring {x : Prog S α} {final : Prog S Unit} (hx : x.Within C Q)
    (hfinal : final.Within C fun _ => True) : (x.ensuring final).Within C Q := by
  refine bind (R := Q) (hx.tryCatch fun e => ?_) fun a ha => ?_
  · exact bind hfinal fun _ _ => raise
  · exact bind hfinal fun _ _ => ret ha

theorem call {o : S.Op} (h : C.permits o) : (Prog.call o).Within C (C.promises o) := by
  refine ⟨h, fun answer hanswer => ?_⟩
  cases answer with
  | ok a => exact hanswer a rfl
  | error e => trivial

theorem ofExcept {result : Except S.Error α} (h : ∀ a, result = .ok a → Q a) :
    (Prog.ofExcept result : Prog S α).Within C Q := by
  cases result with
  | ok a => exact h a rfl
  | error e => trivial

theorem ite {p : Prop} [Decidable p] {x y : Prog S α} (hx : p → x.Within C Q)
    (hy : ¬p → y.Within C Q) : (if p then x else y).Within C Q := by
  split
  · exact hx ‹p›
  · exact hy ‹¬p›

theorem forEach {items : List β} {body : β → Prog S Unit}
    (h : ∀ item ∈ items, (body item).Within C fun _ => True) :
    (Prog.forEach items body).Within C fun _ => True := by
  induction items with
  | nil => trivial
  | cons item rest ih =>
      refine bind (h item List.mem_cons_self) fun _ _ => ih fun other hother => ?_
      exact h other (List.mem_cons_of_mem item hother)

end Prog.Within

/-- Under the invariant, a permitted operation keeps its promise and the invariant. -/
def Contract.Upheld (C : Contract S) (I : S.State → Prop) : Prop :=
  ∀ o choice w, I w → C.permits o → I (S.perform o choice w).1 ∧
    ∀ a, (S.perform o choice w).2 = .ok a → C.promises o a

theorem Contract.Upheld.execute {C : Contract S} {I : S.State → Prop} (h : C.Upheld I)
    {o : S.Op} (hpermits : C.permits o) {w : S.State} (hw : I w) (fault : Fault S.Error)
    (choice : S.Choice) :
    I (S.execute o fault choice w).1 ∧
      ∀ a, (S.execute o fault choice w).2 = .ok a → C.promises o a := by
  unfold Interface.execute
  split
  · exact h o choice w hw hpermits
  · exact ⟨hw, fun _ herror => nomatch herror⟩
  · exact ⟨(h o choice w hw hpermits).1, fun _ herror => nomatch herror⟩

/-- A program keeps to the end what the permitted operations uphold. -/
theorem Prog.Within.triple {C : Contract S} {I : S.State → Prop} {A : Assertion I} {Q : α → Prop}
    {x : Prog S α} (hx : x.Within C Q) (hA : C.Upheld A.holds) :
    Triple A x (fun a => A.and (fun _ => Q a) fun _ _ h => h) A := by
  induction x with
  | ret a => exact Triple.ret fun _ hw => ⟨hw, hx⟩
  | raise e => exact Triple.raise fun _ hw => hw
  | op o next ih =>
      intro w hw w' hw'
      have hstate := A.stable.disturbed hw hw'
      refine ⟨A.sound w' hstate, fun fault choice => ?_⟩
      have hdone := hA.execute hx.1 hstate fault choice
      exact ih _ (hx.2 _ hdone.2) _ hdone.1

/-- The parts of a service keep to the contract. -/
structure Service.Within (service : Service S) (C : Contract S) : Prop where
  startup : service.startup.Within C fun _ => True
  body : service.body.Within C fun _ => True
  closing : service.closing.Within C fun _ => True

/-- The event of an action of another process. -/
def Action.event? : Action S → Option S.Event
  | .disturb event => some event
  | .advance _ _ | .crash | .start => none

section Runs

variable {C : Contract S} {I : S.State → Prop} {service : Service S} {c : Configuration S}

/-- The invariant holds, and the rest of the running phase keeps to the contract. -/
def Contract.Kept (C : Contract S) (I : S.State → Prop) (c : Configuration S) : Prop :=
  I c.state ∧ ∀ phase p, c.process = some (phase, p) → p.Within C fun _ => True

theorem Service.Within.next (h : service.Within C) {phase phase' : Phase}
    {result : Except S.Error Unit} {p : Prog S Unit}
    (hnext : service.next phase result = some (phase', p)) :
    p.Within C fun _ => True := by
  cases phase with
  | starting =>
      cases result with
      | ok a =>
          cases hnext
          exact h.body
      | error e => cases hnext
  | looping =>
      cases result with
      | ok a =>
          cases hnext
          exact h.body
      | error e =>
          cases hnext
          exact h.closing
  | closing => cases result <;> cases hnext

theorem Contract.Kept.step (h : C.Kept I c) (hupheld : C.Upheld I) (hservice : service.Within C)
    (hrestart : ∀ w, I w → I (service.restart w)) {action : Action S}
    (hdisturb : ∀ event, action.event? = some event → I (S.disturb c.state event)) :
    C.Kept I (service.step c action) := by
  obtain ⟨w, process⟩ := c
  obtain ⟨hstate, hprocess⟩ := h
  cases action with
  | crash => exact ⟨hstate, nofun⟩
  | disturb event => exact ⟨hdisturb event rfl, hprocess⟩
  | start =>
      cases process with
      | none =>
          refine ⟨hrestart w hstate, fun phase p hp => ?_⟩
          cases hp
          exact hservice.startup
      | some running => exact ⟨hstate, hprocess⟩
  | advance fault choice =>
      rcases process with _ | ⟨phase, p⟩
      · exact ⟨hstate, hprocess⟩
      · have hwithin := hprocess phase p rfl
        cases p with
        | ret a => exact ⟨hstate, fun _ _ hp => hservice.next hp⟩
        | raise e => exact ⟨hstate, fun _ _ hp => hservice.next hp⟩
        | op o resume =>
            have hdone := hupheld.execute hwithin.1 hstate fault choice
            refine ⟨hdone.1, fun _ _ hp => ?_⟩
            cases hp
            exact hwithin.2 _ hdone.2

/-- In a run whose events keep the invariant, it holds in every state that is reached. -/
theorem Contract.Upheld.run (h : C.Upheld I) (hservice : service.Within C)
    (hrestart : ∀ w, I w → I (service.restart w)) {actions : List (Action S)}
    (hdisturb : ∀ action ∈ actions, ∀ event, action.event? = some event →
      ∀ w, I w → I (S.disturb w event))
    (hstate : I c.state) (hprocess : c.process = none) : I (service.run c actions).state := by
  have hkept : C.Kept I c := ⟨hstate, fun _ _ hp => nomatch hprocess.symm.trans hp⟩
  clear hstate hprocess
  induction actions generalizing c with
  | nil => exact hkept.1
  | cons action rest ih =>
      apply ih (c := service.step c action)
      · exact fun other hother => hdisturb other (List.mem_cons_of_mem action hother)
      · apply hkept.step h hservice hrestart
        exact fun event hevent => hdisturb action List.mem_cons_self event hevent c.state hkept.1

end Runs

end Programs
