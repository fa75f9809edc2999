import FeatureStore.Library.Contracts

/-!
# What the steps of a program do

Beside the states that a program reaches, a specification may say what each of its steps does: a
relation between the states before and after it. It is checked with the assertions that a triple
puts between the operations, and holds along every run of a service, whatever faults, crashes and
events of other processes there are.
-/

namespace Programs

variable {S : Interface} {α β : Type} {I : S.State → Prop} {R : S.State → S.State → Prop}

/-- Each operation that the program comes to is a step of the relation. -/
def Prog.Steps (R : S.State → S.State → Prop) : Prog S α → S.State → Prop
  | ret _, _ | raise _, _ => True
  | op o next, w => ∀ w', Disturbed w w' → ∀ fault choice,
      R w' (S.execute o fault choice w').1 ∧
        (next (S.execute o fault choice w').2).Steps R (S.execute o fault choice w').1

namespace Prog

theorem Steps.disturb {x : Prog S α} {w : S.State} (h : x.Steps R w) (event : S.Event) :
    x.Steps R (S.disturb w event) := by
  cases x with
  | ret a => trivial
  | raise e => trivial
  | op o next =>
      rintro _ ⟨events, rfl⟩
      exact h _ ⟨event :: events, rfl⟩

theorem Steps.bind {x : Prog S α} {f : α → Prog S β} {E : S.State → Prop} {w : S.State}
    (h : x.Steps R w) (hf : x.Ensures I (fun a => (f a).Steps R) E w) :
    (x.bind f).Steps R w := by
  induction x generalizing w with
  | ret a => exact (hf w (.refl w)).2
  | raise e => trivial
  | op o next ih =>
      intro w' hw' fault choice
      obtain ⟨hstep, hnext⟩ := h w' hw' fault choice
      exact ⟨hstep, ih _ hnext ((hf w' hw').2 fault choice)⟩

theorem Steps.tryCatch {x : Prog S α} {handler : S.Error → Prog S α} {Q : α → S.State → Prop}
    {w : S.State} (h : x.Steps R w)
    (hhandler : x.Ensures I Q (fun w => ∀ e, (handler e).Steps R w) w) :
    (x.tryCatch handler).Steps R w := by
  induction x generalizing w with
  | ret a => trivial
  | raise e => exact (hhandler w (.refl w)).2 e
  | op o next ih =>
      intro w' hw' fault choice
      obtain ⟨hstep, hnext⟩ := h w' hw' fault choice
      exact ⟨hstep, ih _ hnext ((hhandler w' hw').2 fault choice)⟩

end Prog

/-- A triple whose steps are of the relation. -/
structure StepTriple (R : S.State → S.State → Prop) (P : Assertion I) (x : Prog S α)
    (Q : α → Assertion I) (E : Assertion I) : Prop where
  triple : Triple P x Q E
  steps : ∀ w, P.holds w → x.Steps R w

namespace StepTriple

variable {P P' : Assertion I} {Q Q' : α → Assertion I} {E E' : Assertion I} {x : Prog S α}

theorem ret {a : α} (h : ∀ w, P.holds w → (Q a).holds w) : StepTriple R P (.ret a) Q E :=
  ⟨Triple.ret h, fun _ _ => trivial⟩

theorem raise {e : S.Error} (h : ∀ w, P.holds w → E.holds w) : StepTriple R P (.raise e) Q E :=
  ⟨Triple.raise h, fun _ _ => trivial⟩

theorem bind {f : α → Prog S β} {M : α → Assertion I} {Q : β → Assertion I}
    (hx : StepTriple R P x M E) (hf : ∀ a, StepTriple R (M a) (f a) Q E) :
    StepTriple R P (x >>= f) Q E where
  triple := hx.triple.bind fun a => (hf a).triple
  steps := fun w hw => (hx.steps w hw).bind
    ((hx.triple w hw).mono (fun a w ha => (hf a).steps w ha) fun _ he => he)

theorem tryCatch {handler : S.Error → Prog S α} (hx : StepTriple R P x Q E')
    (hhandler : ∀ e, StepTriple R E' (handler e) Q E) :
    StepTriple R P (x.tryCatch handler) Q E where
  triple := hx.triple.tryCatch fun e => (hhandler e).triple
  steps := fun w hw => (hx.steps w hw).tryCatch
    ((hx.triple w hw).mono (fun _ _ ha => ha) fun w he e => (hhandler e).steps w he)

theorem conseq (h : StepTriple R P x Q E) (hP : ∀ w, P'.holds w → P.holds w)
    (hQ : ∀ a w, (Q a).holds w → (Q' a).holds w) (hE : ∀ w, E.holds w → E'.holds w) :
    StepTriple R P' x Q' E' :=
  ⟨h.triple.conseq hP hQ hE, fun w hw => h.steps w (hP w hw)⟩

theorem ensuring {final : Prog S Unit} (hx : StepTriple R P x Q E')
    (hfinal : ∀ a, StepTriple R (Q a) final (fun _ => Q' a) E)
    (hraised : StepTriple R E' final (fun _ => E) E) : StepTriple R P (x.ensuring final) Q' E := by
  refine bind (M := Q) (hx.tryCatch fun e => ?_) fun a => ?_
  · exact bind hraised fun _ => raise fun _ h => h
  · exact bind (hfinal a) fun _ => ret fun _ h => h

theorem forEach {body : β → Prog S Unit} {items : List β} {A : Assertion I}
    (h : ∀ item ∈ items, StepTriple R A (body item) (fun _ => A) E) :
    StepTriple R A (.forEach items body) (fun _ => A) E := by
  induction items with
  | nil => exact ret fun _ h => h
  | cons item rest ih =>
      refine bind (h item List.mem_cons_self) fun _ => ih fun other hother => ?_
      exact h other (List.mem_cons_of_mem item hother)

theorem ite {p : Prop} [Decidable p] {y : Prog S α} (hx : p → StepTriple R P x Q E)
    (hy : ¬p → StepTriple R P y Q E) : StepTriple R P (if p then x else y) Q E := by
  split
  · exact hx ‹p›
  · exact hy ‹¬p›

/-- A fault before the operation is a step in which nothing happens. -/
theorem call {o : S.Op} {Q : S.Answer o → Assertion I} (hrefl : ∀ w, R w w)
    (h : Triple P (.call o) Q E) (hstep : ∀ w choice, P.holds w → R w (S.perform o choice w).1) :
    StepTriple R P (.call o) Q E := by
  refine ⟨h, fun w hw w' hw' fault choice => ⟨?_, ?_⟩⟩
  · have hP := P.stable.disturbed hw hw'
    unfold Interface.execute
    split
    · exact hstep w' choice hP
    · exact hrefl w'
    · exact hstep w' choice hP
  · cases (S.execute o fault choice w').2 <;> trivial

/-- A program under a contract whose operations are steps of the relation. -/
theorem within {C : Contract S} {Q : α → Prop} {A : Assertion I} (hx : x.Within C Q)
    (hA : C.Upheld A.holds) (hrefl : ∀ w, R w w)
    (hstep : ∀ o choice w, C.permits o → A.holds w → R w (S.perform o choice w).1) :
    StepTriple R A x (fun a => A.and (fun _ => Q a) fun _ _ h => h) A where
  triple := hx.triple hA
  steps := by
    induction x with
    | ret a => exact fun _ _ => trivial
    | raise e => exact fun _ _ => trivial
    | op o next ih =>
        intro w hw w' hw' fault choice
        have hstate := A.stable.disturbed hw hw'
        have hdone := hA.execute hx.1 hstate fault choice
        refine ⟨?_, ih _ (hx.2 _ hdone.2) _ hdone.1⟩
        unfold Interface.execute
        split
        · exact hstep o choice w' hx.1 hstate
        · exact hrefl w'
        · exact hstep o choice w' hx.1 hstate

end StepTriple

/-- The specification of a service, with the relation for the steps of its parts. -/
structure Service.Moving (service : Service S) (I : S.State → Prop) (hI : Stable I)
    (R : S.State → S.State → Prop) where
  loop : Assertion I
  closed : Assertion I
  ready : Assertion I
  restarted : ∀ w, I w → ready.holds (service.restart w)
  startup : StepTriple R ready service.startup (fun _ => loop) (.base I hI)
  body : StepTriple R loop service.body (fun _ => loop) closed
  closing : StepTriple R closed service.closing (fun _ => .base I hI) (.base I hI)

namespace Service.Moving

variable {service : Service S} {hI : Stable I}

/-- The triples of the parts. -/
def verified (m : service.Moving I hI R) : service.Verified I hI :=
  ⟨m.loop, m.closed, m.ready, m.restarted, m.startup.triple, m.body.triple, m.closing.triple⟩

/-- What is left of the running phase meets its part of the specification, step by step. -/
def Sound (m : service.Moving I hI R) (c : Configuration S) : Prop :=
  service.Sound m.verified c ∧ ∀ phase p, c.process = some (phase, p) → p.Steps R c.state

theorem next_steps (m : service.Moving I hI R) {w : S.State} {phase : Phase}
    (result : Except S.Error Unit) (hsound : service.Sound m.verified
      ⟨w, some (phase, .ofExcept result)⟩) {phase' : Phase} {p : Prog S Unit}
    (hnext : service.next phase result = some (phase', p)) : p.Steps R w := by
  have hprocess := hsound.2
  cases phase with
  | starting =>
      cases result with
      | ok a =>
          cases hnext
          exact m.body.steps w (hprocess w (.refl w)).2
      | error e => cases hnext
  | looping =>
      cases result with
      | ok a =>
          cases hnext
          exact m.body.steps w (hprocess w (.refl w)).2
      | error e =>
          cases hnext
          exact m.closing.steps w (hprocess w (.refl w)).2
  | closing => cases result <;> cases hnext

theorem step (m : service.Moving I hI R) (c : Configuration S) (action : Action S)
    (h : m.Sound c) : m.Sound (service.step c action) := by
  refine ⟨m.verified.step c action h.1, ?_⟩
  obtain ⟨hsound, hsteps⟩ := h
  obtain ⟨w, process⟩ := c
  cases action with
  | crash => exact fun _ _ hp => by cases hp
  | disturb event => exact fun phase p hp => (hsteps phase p hp).disturb event
  | start =>
      cases process with
      | none =>
          intro phase p hp
          cases hp
          exact m.startup.steps _ (m.restarted w hsound.1)
      | some running => exact hsteps
  | advance fault choice =>
      rcases process with _ | ⟨phase, p⟩
      · exact hsteps
      · cases p with
        | ret a => exact fun _ _ hp => m.next_steps (.ok a) hsound hp
        | raise e => exact fun _ _ hp => m.next_steps (.error e) hsound hp
        | op o resume =>
            intro _ _ hp
            cases hp
            exact (hsteps phase _ rfl w (.refl w) fault choice).2

/-- Every action of a run is a step of the relation. -/
theorem along (m : service.Moving I hI R) (hrefl : ∀ w, R w w)
    (hdisturb : ∀ w event, I w → R w (S.disturb w event))
    (hrestart : ∀ w, I w → R w (service.restart w)) {c : Configuration S} (hstate : I c.state)
    (hprocess : c.process = none) (actions : List (Action S)) :
    Execution.Along service.step
      (fun c action => R c.state (service.step c action).state) c actions := by
  have hsound : m.Sound c := ⟨m.verified.idle hstate hprocess, fun _ _ hp => by
    rw [hprocess] at hp
    cases hp⟩
  clear hstate hprocess
  induction actions generalizing c with
  | nil => trivial
  | cons action rest ih =>
      refine ⟨?_, ih (m.step c action hsound)⟩
      obtain ⟨⟨hstate, _⟩, hsteps⟩ := hsound
      obtain ⟨w, process⟩ := c
      cases action with
      | crash => exact hrefl w
      | disturb event => exact hdisturb w event hstate
      | start =>
          cases process with
          | none => exact hrestart w hstate
          | some running => exact hrefl w
      | advance fault choice =>
          rcases process with _ | ⟨phase, p⟩
          · exact hrefl w
          · cases p with
            | ret a => exact hrefl w
            | raise e => exact hrefl w
            | op o resume => exact (hsteps phase _ rfl w (.refl w) fault choice).1

end Service.Moving

end Programs
