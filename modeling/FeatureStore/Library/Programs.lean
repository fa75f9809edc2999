import FeatureStore.Library.Execution

/-!
# Programs under exceptions, crashes and interference

A program is a tree of operations on a shared state. An operation may raise before
or after its effect, the process may die between two operations, and other processes
may change the state at any time. Assertions are stable under that interference, so
a triple holds whatever happens between the operations of its program.
-/

namespace Programs

/-- The operations of a program, what they answer, and what other processes can do.
A choice resolves what an operation leaves open, such as a clock or a fresh id. -/
structure Interface where
  State : Type
  Error : Type
  Op : Type
  Answer : Op → Type
  Choice : Type
  Event : Type
  perform : (o : Op) → Choice → State → State × Except Error (Answer o)
  fallible : Op → Bool
  disturb : State → Event → State

/-- A program: each operation is followed by what to do with its answer or error. -/
inductive Prog (S : Interface) (α : Type) : Type
  | ret (a : α)
  | raise (e : S.Error)
  | op (o : S.Op) (next : Except S.Error (S.Answer o) → Prog S α)

/-- Where an operation raises, if it does. -/
inductive Fault (ε : Type)
  | none
  | before (e : ε)
  | after (e : ε)

/-- The effect of an operation and what its program receives. -/
def Interface.execute (S : Interface) (o : S.Op) (fault : Fault S.Error) (choice : S.Choice)
    (w : S.State) : S.State × Except S.Error (S.Answer o) :=
  match (if S.fallible o then fault else .none) with
  | .none => S.perform o choice w
  | .before e => (w, .error e)
  | .after e => ((S.perform o choice w).1, .error e)

variable {S : Interface} {α β : Type}

namespace Prog

def bind : Prog S α → (α → Prog S β) → Prog S β
  | ret a, f => f a
  | raise e, _ => raise e
  | op o next, f => op o fun answer => (next answer).bind f

/-- `try: … except Exception: …` -/
def tryCatch : Prog S α → (S.Error → Prog S α) → Prog S α
  | ret a, _ => ret a
  | raise e, handler => handler e
  | op o next, handler => op o fun answer => (next answer).tryCatch handler

/-- `try: … finally: …` -/
def ensuring (x : Prog S α) (final : Prog S Unit) : Prog S α :=
  (x.tryCatch fun e => final.bind fun _ => raise e).bind fun a => final.bind fun _ => ret a

/-- One operation. -/
def call (o : S.Op) : Prog S (S.Answer o) :=
  op o fun
    | .ok a => ret a
    | .error e => raise e

/-- A computation without operations. -/
def ofExcept : Except S.Error α → Prog S α
  | .ok a => ret a
  | .error e => raise e

instance : Monad (Prog S) where
  pure := ret
  bind := bind

/-- A loop over a list. -/
def forEach (items : List β) (body : β → Prog S Unit) : Prog S Unit :=
  match items with
  | [] => ret ()
  | item :: rest => (body item).bind fun _ => forEach rest body

end Prog

/-- What other processes may have made of a state. -/
def Disturbed (w w' : S.State) : Prop := ∃ events, w' = Execution.run S.disturb w events

theorem Disturbed.refl (w : S.State) : Disturbed w w := ⟨[], rfl⟩

/-- Whatever happens, `I` holds throughout, a normal end satisfies `Q` and an
exception satisfies `E`. -/
def Prog.Ensures (I : S.State → Prop) (Q : α → S.State → Prop) (E : S.State → Prop) :
    Prog S α → S.State → Prop
  | ret a, w => ∀ w', Disturbed w w' → I w' ∧ Q a w'
  | raise _, w => ∀ w', Disturbed w w' → I w' ∧ E w'
  | op o next, w => ∀ w', Disturbed w w' → I w' ∧ ∀ fault choice,
      (next (S.execute o fault choice w').2).Ensures I Q E (S.execute o fault choice w').1

/-- No event of another process makes the predicate false. -/
def Stable (P : S.State → Prop) : Prop := ∀ w event, P w → P (S.disturb w event)

/-- The predicate survives every event and every operation. -/
structure Framed (I P : S.State → Prop) : Prop where
  stable : Stable P
  kept : ∀ o choice w, I w → P w → P (S.perform o choice w).1

/-- A stable predicate that implies the invariant. -/
@[ext] structure Assertion (I : S.State → Prop) where
  holds : S.State → Prop
  stable : Stable holds
  sound : ∀ w, holds w → I w

section Rules

variable {I : S.State → Prop} {Q : α → S.State → Prop} {E : S.State → Prop}

theorem Stable.disturbed {P : S.State → Prop} (h : Stable P) {w w' : S.State} (hw : P w)
    (hdisturbed : Disturbed w w') : P w' := by
  obtain ⟨events, rfl⟩ := hdisturbed
  exact Execution.invariant (I := P) (fun w event => h w event) hw events

theorem Stable.and {P P' : S.State → Prop} (h : Stable P) (h' : Stable P') :
    Stable fun w => P w ∧ P' w :=
  fun w event hw => ⟨h w event hw.1, h' w event hw.2⟩

namespace Assertion

/-- An assertion with one more stable fact. -/
def and (A : Assertion I) (P : S.State → Prop) (hP : Stable P) : Assertion I where
  holds := fun w => A.holds w ∧ P w
  stable := A.stable.and hP
  sound := fun w hw => A.sound w hw.1

/-- The invariant itself. -/
def base (I : S.State → Prop) (hI : Stable I) : Assertion I := ⟨I, hI, fun _ h => h⟩

end Assertion

/-- The program, started where `P` holds, ends where `Q` or, if it raises, `E` holds. -/
def Triple (P : Assertion I) (x : Prog S α) (Q : α → Assertion I) (E : Assertion I) : Prop :=
  ∀ w, P.holds w → x.Ensures I (fun a => (Q a).holds) E.holds w

namespace Prog

theorem Ensures.invariant {x : Prog S α} {w : S.State} (h : x.Ensures I Q E w) : I w := by
  cases x with
  | ret a => exact (h w (.refl w)).1
  | raise e => exact (h w (.refl w)).1
  | op o next => exact (h w (.refl w)).1

theorem Ensures.disturb {x : Prog S α} {w : S.State} (h : x.Ensures I Q E w)
    (event : S.Event) : x.Ensures I Q E (S.disturb w event) := by
  have hmore : ∀ w', Disturbed (S.disturb w event) w' → Disturbed w w' := by
    rintro w' ⟨events, rfl⟩
    exact ⟨event :: events, rfl⟩
  cases x with
  | ret a => exact fun w' hw' => h w' (hmore w' hw')
  | raise e => exact fun w' hw' => h w' (hmore w' hw')
  | op o next => exact fun w' hw' => h w' (hmore w' hw')

theorem Ensures.bind {x : Prog S α} {f : α → Prog S β} {Q : β → S.State → Prop}
    {w : S.State} (h : x.Ensures I (fun a => (f a).Ensures I Q E) E w) :
    (x.bind f).Ensures I Q E w := by
  induction x generalizing w with
  | ret a => exact (h w (.refl w)).2
  | raise e => exact h
  | op o next ih =>
      intro w' hw'
      obtain ⟨hI, hnext⟩ := h w' hw'
      exact ⟨hI, fun fault choice => ih _ (hnext fault choice)⟩

theorem Ensures.tryCatch {x : Prog S α} {handler : S.Error → Prog S α} {w : S.State}
    (h : x.Ensures I Q (fun w => ∀ e, (handler e).Ensures I Q E w) w) :
    (x.tryCatch handler).Ensures I Q E w := by
  induction x generalizing w with
  | ret a => exact h
  | raise e => exact (h w (.refl w)).2 e
  | op o next ih =>
      intro w' hw'
      obtain ⟨hI, hnext⟩ := h w' hw'
      exact ⟨hI, fun fault choice => ih _ (hnext fault choice)⟩

theorem Ensures.mono {Q' : α → S.State → Prop} {E' : S.State → Prop} {x : Prog S α}
    {w : S.State} (h : x.Ensures I Q E w) (hQ : ∀ a w, Q a w → Q' a w)
    (hE : ∀ w, E w → E' w) : x.Ensures I Q' E' w := by
  induction x generalizing w with
  | ret a => exact fun w' hw' => ⟨(h w' hw').1, hQ a w' (h w' hw').2⟩
  | raise e => exact fun w' hw' => ⟨(h w' hw').1, hE w' (h w' hw').2⟩
  | op o next ih =>
      intro w' hw'
      obtain ⟨hI, hnext⟩ := h w' hw'
      exact ⟨hI, fun fault choice => ih _ (hnext fault choice)⟩

/-- A framed fact is still there at either end. -/
theorem Ensures.frame {P : S.State → Prop} (hP : Framed I P) {x : Prog S α} {w : S.State}
    (h : x.Ensures I Q E w) (hw : P w) :
    x.Ensures I (fun a w => Q a w ∧ P w) (fun w => E w ∧ P w) w := by
  induction x generalizing w with
  | ret a =>
      intro w' hw'
      exact ⟨(h w' hw').1, (h w' hw').2, hP.stable.disturbed hw hw'⟩
  | raise e =>
      intro w' hw'
      exact ⟨(h w' hw').1, (h w' hw').2, hP.stable.disturbed hw hw'⟩
  | op o next ih =>
      intro w' hw'
      obtain ⟨hI, hnext⟩ := h w' hw'
      have hkept : P w' := hP.stable.disturbed hw hw'
      refine ⟨hI, fun fault choice => ih _ (hnext fault choice) ?_⟩
      unfold Interface.execute
      split
      · exact hP.kept o choice w' hI hkept
      · exact hkept
      · exact hP.kept o choice w' hI hkept

end Prog

namespace Triple

variable {P P' : Assertion I} {Q Q' : α → Assertion I} {E E' : Assertion I} {x : Prog S α}

theorem ret {a : α} (h : ∀ w, P.holds w → (Q a).holds w) : Triple P (.ret a) Q E := by
  intro w hw w' hw'
  have hP := P.stable.disturbed hw hw'
  exact ⟨P.sound w' hP, h w' hP⟩

theorem raise {e : S.Error} (h : ∀ w, P.holds w → E.holds w) : Triple P (.raise e) Q E := by
  intro w hw w' hw'
  have hP := P.stable.disturbed hw hw'
  exact ⟨P.sound w' hP, h w' hP⟩

theorem bind {f : α → Prog S β} {R : α → Assertion I} {Q : β → Assertion I}
    (hx : Triple P x R E) (hf : ∀ a, Triple (R a) (f a) Q E) : Triple P (x >>= f) Q E := by
  intro w hw
  exact Prog.Ensures.bind ((hx w hw).mono (fun a w ha => hf a w ha) fun _ h => h)

theorem tryCatch {handler : S.Error → Prog S α} (hx : Triple P x Q E')
    (hhandler : ∀ e, Triple E' (handler e) Q E) : Triple P (x.tryCatch handler) Q E := by
  intro w hw
  exact Prog.Ensures.tryCatch
    ((hx w hw).mono (fun _ _ h => h) fun w he e => hhandler e w he)

theorem conseq (h : Triple P x Q E) (hP : ∀ w, P'.holds w → P.holds w)
    (hQ : ∀ a w, (Q a).holds w → (Q' a).holds w) (hE : ∀ w, E.holds w → E'.holds w) :
    Triple P' x Q' E' := by
  intro w hw
  exact (h w (hP w hw)).mono hQ hE

theorem frame (h : Triple P x Q E) {F : S.State → Prop} (hF : Framed I F) :
    Triple (P.and F hF.stable) x (fun a => (Q a).and F hF.stable) (E.and F hF.stable) := by
  intro w hw
  exact (h w hw.1).frame hF hw.2

theorem ensuring {final : Prog S Unit} (hx : Triple P x Q E')
    (hfinal : ∀ a, Triple (Q a) final (fun _ => Q' a) E)
    (hraised : Triple E' final (fun _ => E) E) : Triple P (x.ensuring final) Q' E := by
  refine bind (R := Q) (hx.tryCatch fun e => ?_) fun a => ?_
  · exact bind hraised fun _ => raise fun _ h => h
  · exact bind (hfinal a) fun _ => ret fun _ h => h

/-- An operation that raises may or may not have had its effect. -/
theorem call {o : S.Op} {Q : S.Answer o → Assertion I}
    (hok : ∀ w choice answer, P.holds w → (S.perform o choice w).2 = .ok answer →
      (Q answer).holds (S.perform o choice w).1)
    (herror : ∀ w choice, P.holds w →
      (S.fallible o = true ∨ ∃ e, (S.perform o choice w).2 = .error e) →
      E.holds (S.perform o choice w).1)
    (hbefore : S.fallible o = true → ∀ w, P.holds w → E.holds w) :
    Triple P (.call o) Q E := by
  intro w hw w' hw'
  have hP := P.stable.disturbed hw hw'
  refine ⟨P.sound w' hP, fun fault choice => ?_⟩
  have hraised : ∀ (e : S.Error) v, E.holds v →
      (Prog.raise e : Prog S (S.Answer o)).Ensures I (fun a => (Q a).holds) E.holds v :=
    fun e v hv => raise (fun _ h => h) v hv
  have hperformed : ∀ answer, (S.perform o choice w').2 = answer →
      (match answer with
        | .ok a => (Prog.ret a : Prog S (S.Answer o))
        | .error e => Prog.raise e).Ensures I (fun a => (Q a).holds) E.holds
          (S.perform o choice w').1 := by
    intro answer hanswer
    cases answer with
    | ok a => exact ret (fun _ h => h) _ (hok w' choice a hP hanswer)
    | error e => exact hraised e _ (herror w' choice hP (Or.inr ⟨e, hanswer⟩))
  cases hfallible : S.fallible o with
  | false =>
      simp only [Interface.execute, hfallible]
      exact hperformed _ rfl
  | true =>
      simp only [Interface.execute, hfallible, if_true]
      cases fault with
      | none => exact hperformed _ rfl
      | before e => exact hraised e _ (hbefore hfallible w' hP)
      | after e => exact hraised e _ (herror w' choice hP (Or.inl hfallible))

theorem ofExcept {r : Except S.Error α} (hok : ∀ a, r = .ok a → ∀ w, P.holds w → (Q a).holds w)
    (herror : ∀ w, P.holds w → E.holds w) : Triple P (.ofExcept r) Q E := by
  cases r with
  | ok a => exact ret (hok a rfl)
  | error e => exact raise herror

theorem forEach {body : β → Prog S Unit} {items : List β} {A : Assertion I}
    (h : ∀ item ∈ items, Triple A (body item) (fun _ => A) E) :
    Triple A (.forEach items body) (fun _ => A) E := by
  induction items with
  | nil => exact ret fun _ h => h
  | cons item rest ih =>
      refine bind (h item List.mem_cons_self) fun _ => ih fun other hother => ?_
      exact h other (List.mem_cons_of_mem item hother)

end Triple

end Rules

/-- A long-running process: `startup; try: while True: body finally: closing`, and
what a new process finds of the state. -/
structure Service (S : Interface) where
  startup : Prog S Unit
  body : Prog S Unit
  closing : Prog S Unit
  restart : S.State → S.State

inductive Phase
  | starting
  | looping
  | closing

/-- The shared state, and the running process, if there is one. -/
structure Configuration (S : Interface) where
  state : S.State
  process : Option (Phase × Prog S Unit)

/-- An event of another process, the next step of this one, its death, or its start. -/
inductive Action (S : Interface)
  | disturb (event : S.Event)
  | advance (fault : Fault S.Error) (choice : S.Choice)
  | crash
  | start

namespace Service

variable (service : Service S)

/-- What runs after a phase has returned or raised. -/
def next : Phase → Except S.Error Unit → Option (Phase × Prog S Unit)
  | .starting, .ok () => some (.looping, service.body)
  | .looping, .ok () => some (.looping, service.body)
  | .looping, .error _ => some (.closing, service.closing)
  | .starting, .error _ | .closing, _ => none

def step (c : Configuration S) : Action S → Configuration S
  | .disturb event => { c with state := S.disturb c.state event }
  | .advance fault choice =>
      match c.process with
      | none => c
      | some (phase, .ret ()) => { c with process := service.next phase (.ok ()) }
      | some (phase, .raise e) => { c with process := service.next phase (.error e) }
      | some (phase, .op o resume) =>
          let result := S.execute o fault choice c.state
          ⟨result.1, some (phase, resume result.2)⟩
  | .crash => { c with process := none }
  | .start =>
      match c.process with
      | none => ⟨service.restart c.state, some (.starting, service.startup)⟩
      | some _ => c

def run (c : Configuration S) (actions : List (Action S)) : Configuration S :=
  Execution.run service.step c actions

/-- The triples of the three parts of a service. -/
structure Verified (I : S.State → Prop) (hI : Stable I) where
  loop : Assertion I
  closed : Assertion I
  ready : Assertion I
  restarted : ∀ w, I w → ready.holds (service.restart w)
  startup : Triple ready service.startup (fun _ => loop) (.base I hI)
  body : Triple loop service.body (fun _ => loop) closed
  closing : Triple closed service.closing (fun _ => .base I hI) (.base I hI)

/-- What is left of the running phase meets its part of the specification. -/
def Sound {I : S.State → Prop} {hI : Stable I} (v : service.Verified I hI)
    (c : Configuration S) : Prop :=
  I c.state ∧
    match c.process with
    | none => True
    | some (.starting, p) => p.Ensures I (fun _ => v.loop.holds) I c.state
    | some (.looping, p) => p.Ensures I (fun _ => v.loop.holds) v.closed.holds c.state
    | some (.closing, p) => p.Ensures I (fun _ => I) I c.state

variable {service}

theorem Verified.step {I : S.State → Prop} {hI : Stable I} (v : service.Verified I hI)
    (c : Configuration S) (action : Action S) (h : service.Sound v c) :
    service.Sound v (service.step c action) := by
  obtain ⟨hinv, hprocess⟩ := h
  obtain ⟨w, process⟩ := c
  cases action with
  | crash => exact ⟨hinv, trivial⟩
  | start =>
      cases process with
      | none =>
          have hready := v.restarted w hinv
          exact ⟨v.ready.sound _ hready, v.startup _ hready⟩
      | some running => exact ⟨hinv, hprocess⟩
  | disturb event =>
      refine ⟨hI w event hinv, ?_⟩
      rcases process with _ | ⟨_ | _ | _, p⟩
      · trivial
      · exact Prog.Ensures.disturb hprocess event
      · exact Prog.Ensures.disturb hprocess event
      · exact Prog.Ensures.disturb hprocess event
  | advance fault choice =>
      rcases process with _ | ⟨phase, p⟩
      · exact ⟨hinv, trivial⟩
      · cases p with
        | op o resume =>
            cases phase with
            | starting =>
                have hresumed := (hprocess w (.refl w)).2 fault choice
                exact ⟨hresumed.invariant, hresumed⟩
            | looping =>
                have hresumed := (hprocess w (.refl w)).2 fault choice
                exact ⟨hresumed.invariant, hresumed⟩
            | closing =>
                have hresumed := (hprocess w (.refl w)).2 fault choice
                exact ⟨hresumed.invariant, hresumed⟩
        | ret a =>
            cases phase with
            | starting => exact ⟨hinv, v.body w (hprocess w (.refl w)).2⟩
            | looping => exact ⟨hinv, v.body w (hprocess w (.refl w)).2⟩
            | closing => exact ⟨hinv, trivial⟩
        | raise e =>
            cases phase with
            | starting => exact ⟨hinv, trivial⟩
            | looping => exact ⟨hinv, v.closing w (hprocess w (.refl w)).2⟩
            | closing => exact ⟨hinv, trivial⟩

/-- A state without a process meets the specification if it satisfies the invariant. -/
theorem Verified.idle {I : S.State → Prop} {hI : Stable I} (v : service.Verified I hI)
    {c : Configuration S} (hstate : I c.state) (hprocess : c.process = none) :
    service.Sound v c := by
  refine ⟨hstate, ?_⟩
  rw [hprocess]
  trivial

/-- The invariant of a verified service holds in every state that it reaches. -/
theorem Verified.run {I : S.State → Prop} {hI : Stable I} (v : service.Verified I hI)
    {c : Configuration S} (hstate : I c.state) (hprocess : c.process = none)
    (actions : List (Action S)) : I (service.run c actions).state :=
  (Execution.invariant (v.step) (v.idle hstate hprocess) actions).1

/-- What the invariant gives at every action holds along every run. -/
theorem Verified.along {I : S.State → Prop} {hI : Stable I} (v : service.Verified I hI)
    {Q : Configuration S → Action S → Prop} (hQ : ∀ c action, I c.state → Q c action)
    {c : Configuration S} (hstate : I c.state) (hprocess : c.process = none)
    (actions : List (Action S)) : Execution.Along service.step Q c actions := by
  have hsound := v.idle hstate hprocess
  clear hprocess hstate
  induction actions generalizing c with
  | nil => trivial
  | cons action rest ih => exact ⟨hQ c action hsound.1, ih (v.step c action hsound)⟩

end Service

end Programs
