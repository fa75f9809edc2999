import FeatureStore.Library.Execution

/-!
# Writers that check a permit

A writer takes steps on a shared world and writes to a store in it. Before some of its writes it
checks whether it still has its permit, and ends if it has not. Between a check and the next one it
may write without a permit; its exposure bounds these writes, and its distance the steps that it
takes until it ends.
-/

/-- A process with a permit that can be lost for good. -/
structure GuardedWriter (ω σ ι τ : Type*) where
  step : ω → σ → ι → ω × σ
  store : ω → τ
  /-- The next step is a write. -/
  writes : σ → Bool
  Lost : ω → σ → Prop
  exposure : σ → Nat
  distance : σ → Nat
  frame : ∀ {w s}, Lost w s → writes s = false → ∀ i, store (step w s i).1 = store w
  lost_step : ∀ {w s}, Lost w s → ∀ i, Lost (step w s i).1 (step w s i).2
  exposure_step : ∀ {w s}, Lost w s → ∀ i,
    (writes s).toNat + exposure (step w s i).2 ≤ exposure s
  distance_step : ∀ {w s}, Lost w s → ∀ i, distance (step w s i).2 ≤ distance s - 1

namespace GuardedWriter

variable {ω σ ι τ : Type*}

/-- Others leave a world behind, or the writer takes its next step. -/
inductive Turn (ω ι : Type*)
  | other (world : ω)
  | own (input : ι)

variable (p : GuardedWriter ω σ ι τ)

def turn (s : ω × σ) : Turn ω ι → ω × σ
  | .other world => (world, s.2)
  | .own input => p.step s.1 s.2 input

/-- The turn is a step of the writer. -/
def isOwn (_ : ω × σ) : Turn ω ι → Bool
  | .other _ => false
  | .own _ => true

/-- The turn is a write of the writer. -/
def isWrite (s : ω × σ) : Turn ω ι → Bool
  | .other _ => false
  | .own _ => p.writes s.2

/-- The others do not give a lost permit back. -/
def Spares (s : ω × σ) : Turn ω ι → Prop
  | .other world => p.Lost world s.2
  | .own _ => True

variable {p} {s : ω × σ} {turns : List (Turn ω ι)}

theorem lost_turn (s : ω × σ) (turn : Turn ω ι) (h : p.Lost s.1 s.2) (hspares : p.Spares s turn) :
    p.Lost (p.turn s turn).1 (p.turn s turn).2 := by
  cases turn with
  | other world => exact hspares
  | own input => exact p.lost_step h input

/-- Without its permit a writer makes no more writes than it is exposed to. -/
theorem writes_le_exposure (h : p.Lost s.1 s.2)
    (hspares : Execution.Along p.turn p.Spares s turns) :
    Execution.count p.turn p.isWrite s turns ≤ p.exposure s.2 := by
  have hbound := Execution.count_add_le (I := fun s => p.Lost s.1 s.2)
    (p := p.isWrite) (m := fun s => p.exposure s.2) lost_turn ?_ h hspares
  · omega
  · intro s turn hlost _
    cases turn with
    | other world => exact Nat.le_of_eq (Nat.zero_add _)
    | own input => exact p.exposure_step hlost input

/-- Without its permit a writer comes nearer to its end with each of its steps. -/
theorem distance_le (h : p.Lost s.1 s.2) (hspares : Execution.Along p.turn p.Spares s turns) :
    p.distance (Execution.run p.turn s turns).2 ≤
      p.distance s.2 - Execution.count p.turn isOwn s turns := by
  induction turns generalizing s with
  | nil => exact Nat.le_refl _
  | cons turn rest ih =>
      have hrest := ih (lost_turn s turn h hspares.1) hspares.2
      rw [Execution.run_cons, Execution.count]
      cases turn with
      | other world =>
          simpa [GuardedWriter.turn, isOwn] using hrest
      | own input =>
          have hstep := p.distance_step h input
          simp only [GuardedWriter.turn, isOwn, Bool.toNat_true] at hrest ⊢
          omega

variable (p) in
/-- The step leaves the store, unless it is a write. -/
def Frames (s : ω × σ) (turn : Turn ω ι) : Prop :=
  isOwn s turn = true → p.isWrite s turn = false → p.store (p.turn s turn).1 = p.store s.1

variable (p) in
/-- A writer that has lost its permit makes at most `writes` more writes, leaves the store
otherwise, and has ended after `steps` steps, while the others act as `others` permits. -/
def StopsWithin (others : ω → ω → Prop) (ended : σ → Prop) (writes steps : Nat) : Prop :=
  ∀ s turns, p.Lost s.1 s.2 →
    Execution.Along p.turn (fun s turn => ∀ world, turn = .other world → others s.1 world) s turns →
    Execution.count p.turn p.isWrite s turns ≤ writes ∧
      Execution.Along p.turn p.Frames s turns ∧
      (steps ≤ Execution.count p.turn isOwn s turns → ended (Execution.run p.turn s turns).2)

theorem stopsWithin {others : ω → ω → Prop} {ended : σ → Prop} {writes steps : Nat}
    (hothers : ∀ {w world s}, others w world → p.Lost w s → p.Lost world s)
    (hexposure : ∀ s, p.exposure s ≤ writes) (hdistance : ∀ s, p.distance s ≤ steps)
    (hended : ∀ s, p.distance s = 0 → ended s) : p.StopsWithin others ended writes steps := by
  intro s turns hlost halong
  have hspares : Execution.Along p.turn p.Spares s turns := by
    refine Execution.along_of (I := fun s => p.Lost s.1 s.2) ?_ ?_ hlost halong
    · intro s turn h hturn
      apply lost_turn s turn h
      cases turn with
      | other world => exact hothers (hturn world rfl) h
      | own input => trivial
    · intro s turn h hturn
      cases turn with
      | other world => exact hothers (hturn world rfl) h
      | own input => trivial
  refine ⟨Nat.le_trans (writes_le_exposure hlost hspares) (hexposure s.2), ?_, ?_⟩
  · refine Execution.along_of (I := fun s => p.Lost s.1 s.2) lost_turn ?_ hlost hspares
    intro s turn h _ hown hread
    cases turn with
    | other world => cases hown
    | own input => exact p.frame h hread input
  · intro hsteps
    apply hended
    have hnear := distance_le hlost hspares
    have hbound := hdistance s.2
    omega

end GuardedWriter
