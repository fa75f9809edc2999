import Mathlib.Data.List.Induction

/-!
# Runs of a state machine

A run applies a list of actions from the left. `Along` asks a property of every
action of the run, at the state in which it is taken; an invariant may use it as
a hypothesis and `along_of` derives one such property from another.
-/

namespace Execution

variable {σ α : Type*} {step : σ → α → σ}

/-- The state after a list of actions. -/
def run (step : σ → α → σ) (s : σ) (actions : List α) : σ := actions.foldl step s

@[simp] theorem run_nil (s : σ) : run step s [] = s := rfl

@[simp] theorem run_cons (s : σ) (a : α) (rest : List α) :
    run step s (a :: rest) = run step (step s a) rest := rfl

theorem run_append (s : σ) (first second : List α) :
    run step s (first ++ second) = run step (run step s first) second :=
  List.foldl_append

/-- Every action of the run meets `P` in the state where it is taken. -/
def Along (step : σ → α → σ) (P : σ → α → Prop) : σ → List α → Prop
  | _, [] => True
  | s, a :: rest => P s a ∧ Along step P (step s a) rest

instance decidableAlong {P : σ → α → Prop} [∀ s a, Decidable (P s a)] :
    ∀ (s : σ) (actions : List α), Decidable (Along step P s actions)
  | _, [] => isTrue trivial
  | s, a :: rest => @instDecidableAnd _ _ _ (decidableAlong (step s a) rest)

theorem along_append {P : σ → α → Prop} {s : σ} {first second : List α} :
    Along step P s (first ++ second) ↔
      Along step P s first ∧ Along step P (run step s first) second := by
  induction first generalizing s with
  | nil => simp [Along]
  | cons a rest ih => simp [Along, ih, and_assoc]

theorem along_mono {P Q : σ → α → Prop} (hPQ : ∀ s a, P s a → Q s a) {s : σ}
    {actions : List α} (h : Along step P s actions) : Along step Q s actions := by
  induction actions generalizing s with
  | nil => trivial
  | cons a rest ih => exact ⟨hPQ s a h.1, ih h.2⟩

/-- What every permitted step preserves holds after every permitted run. -/
theorem invariant_of_along {I : σ → Prop} {P : σ → α → Prop}
    (hstep : ∀ s a, I s → P s a → I (step s a)) {s : σ} {actions : List α}
    (hs : I s) (hP : Along step P s actions) : I (run step s actions) := by
  induction actions generalizing s with
  | nil => exact hs
  | cons a rest ih => exact ih (hstep s a hs hP.1) hP.2

/-- What every step preserves holds after every run. -/
theorem invariant {I : σ → Prop} (hstep : ∀ s a, I s → I (step s a)) {s : σ}
    (hs : I s) (actions : List α) : I (run step s actions) := by
  induction actions generalizing s with
  | nil => exact hs
  | cons a rest ih => exact ih (hstep s a hs)

/-- What an invariant gives at every permitted step holds along the run. -/
theorem along_of {I : σ → Prop} {P Q : σ → α → Prop}
    (hstep : ∀ s a, I s → P s a → I (step s a)) (hQ : ∀ s a, I s → P s a → Q s a)
    {s : σ} {actions : List α} (hs : I s) (hP : Along step P s actions) :
    Along step Q s actions := by
  induction actions generalizing s with
  | nil => trivial
  | cons a rest ih => exact ⟨hQ s a hs hP.1, ih (hstep s a hs hP.1) hP.2⟩

/-- What follows from an invariant at every step holds along every run. -/
theorem along_of_invariant {I : σ → Prop} {Q : σ → α → Prop} (hI : ∀ s a, I s → I (step s a))
    (hQ : ∀ s a, I s → Q s a) {s : σ} (hs : I s) (actions : List α) : Along step Q s actions := by
  induction actions generalizing s with
  | nil => trivial
  | cons a rest ih => exact ⟨hQ s a hs, ih (hI s a hs)⟩

/-- What is equivalent at every step under an invariant is so along the run. -/
theorem along_congr {I : σ → Prop} {P Q : σ → α → Prop} (hI : ∀ s a, I s → I (step s a))
    (hPQ : ∀ s a, I s → (P s a ↔ Q s a)) {s : σ} {actions : List α} (hs : I s) :
    Along step P s actions ↔ Along step Q s actions := by
  constructor
  · exact along_of (fun s a h _ => hI s a h) (fun s a h => (hPQ s a h).mp) hs
  · exact along_of (fun s a h _ => hI s a h) (fun s a h => (hPQ s a h).mpr) hs

/-- Under an invariant, keeping `P` at every step is the same as meeting `C` at
every step, if the two agree on each step taken from a state that satisfies `P`. -/
theorem along_iff {I P : σ → Prop} {C : σ → α → Prop} (hI : ∀ s a, I s → I (step s a))
    (hPC : ∀ s a, I s → P s → (P (step s a) ↔ C s a)) {s : σ} {actions : List α}
    (hs : I s) (hP : P s) :
    Along step (fun s a => P (step s a)) s actions ↔ Along step C s actions := by
  induction actions generalizing s with
  | nil => exact Iff.rfl
  | cons a rest ih =>
      constructor
      · rintro ⟨hnext, hrest⟩
        exact ⟨(hPC s a hs hP).mp hnext, (ih (hI s a hs) hnext).mp hrest⟩
      · rintro ⟨hC, hrest⟩
        have hnext := (hPC s a hs hP).mpr hC
        exact ⟨hnext, (ih (hI s a hs) hnext).mpr hrest⟩

/-- Under an invariant, keeping `P` at every step is the same as meeting `C` at every step,
if a step that keeps `P` meets `C`, and steps that meet `C` keep a stronger `Q`. -/
theorem along_iff_of_inductive {I P Q : σ → Prop} {C : σ → α → Prop}
    (hI : ∀ s a, I s → I (step s a)) (hC : ∀ s a, I s → P (step s a) → C s a)
    (hQ : ∀ s a, I s → Q s → C s a → Q (step s a)) (hP : ∀ s, I s → Q s → P s) {s : σ}
    {actions : List α} (hs : I s) (hstart : Q s) :
    Along step (fun s a => P (step s a)) s actions ↔ Along step C s actions := by
  constructor
  · intro h
    apply along_of (I := I) (P := fun s a => P (step s a))
    · exact fun s a hI' _ => hI s a hI'
    · exact hC
    · exact hs
    · exact h
  · intro h
    apply along_of (I := fun s => I s ∧ Q s) (P := C)
    · exact fun s a hIQ hC' => ⟨hI s a hIQ.1, hQ s a hIQ.1 hIQ.2 hC'⟩
    · exact fun s a hIQ hC' => hP _ (hI s a hIQ.1) (hQ s a hIQ.1 hIQ.2 hC')
    · exact ⟨hs, hstart⟩
    · exact h

/-- A reflexive and transitive relation of every step relates the ends of a run. -/
theorem related_of_along {R : σ → σ → Prop} (hrefl : ∀ s, R s s)
    (htrans : ∀ {s t u}, R s t → R t u → R s u) {s : σ} {actions : List α}
    (h : Along step (fun s a => R s (step s a)) s actions) : R s (run step s actions) := by
  induction actions generalizing s with
  | nil => exact hrefl s
  | cons a rest ih => exact htrans h.1 (ih h.2)

/-- A reflexive and transitive relation holds between any two states of a run, one after the
other, exactly when every step is in it. -/
theorem along_iff_related {R : σ → σ → Prop} (hrefl : ∀ s, R s s)
    (htrans : ∀ {s t u}, R s t → R t u → R s u) {s : σ} {actions : List α} :
    Along step (fun s a => R s (step s a)) s actions ↔
      ∀ first later rest, actions = first ++ later ++ rest →
        R (run step s first) (run step (run step s first) later) := by
  constructor
  · rintro h first later rest rfl
    rw [along_append, along_append] at h
    exact related_of_along hrefl htrans h.1.2
  · intro h
    induction actions generalizing s with
    | nil => trivial
    | cons a rest ih =>
        refine ⟨h [] [a] rest rfl, ih fun first later rest' hsplit => ?_⟩
        exact h (a :: first) later rest' (by rw [hsplit]; rfl)

/-- How many actions of the run meet `p` in the state where they are taken. -/
def count (step : σ → α → σ) (p : σ → α → Bool) : σ → List α → Nat
  | _, [] => 0
  | s, a :: rest => (p s a).toNat + count step p (step s a) rest

/-- What never decreases along the run, and grows at each counted action, bounds the count. -/
theorem add_count_le {I : σ → Prop} {P : σ → α → Prop} {p : σ → α → Bool} {m : σ → Nat}
    (hI : ∀ s a, I s → I (step s a))
    (hm : ∀ s a, I s → P s a → m s + (p s a).toNat ≤ m (step s a))
    {s : σ} {actions : List α} (hs : I s) (hP : Along step P s actions) :
    m s + count step p s actions ≤ m (run step s actions) := by
  induction actions generalizing s with
  | nil => exact Nat.le_refl _
  | cons a rest ih =>
      have hfirst := hm s a hs hP.1
      have hrest := ih (hI s a hs) hP.2
      rw [count, run_cons]
      omega

/-- What never increases along the run, and drops at each counted action, bounds the count. -/
theorem count_add_le {I : σ → Prop} {P : σ → α → Prop} {p : σ → α → Bool} {m : σ → Nat}
    (hI : ∀ s a, I s → P s a → I (step s a))
    (hm : ∀ s a, I s → P s a → (p s a).toNat + m (step s a) ≤ m s)
    {s : σ} {actions : List α} (hs : I s) (hP : Along step P s actions) :
    count step p s actions + m (run step s actions) ≤ m s := by
  induction actions generalizing s with
  | nil => exact Nat.le_of_eq (Nat.zero_add _)
  | cons a rest ih =>
      have hfirst := hm s a hs hP.1
      have hrest := ih (hI s a hs hP.1) hP.2
      rw [count, run_cons]
      omega

section Observations

variable {β γ : Type*}

/-- What the actions of a run do, in order, each in the state in which it is taken. -/
def observations (step : σ → α → σ) (observe : σ → α → Option β) : σ → List α → List β
  | _, [] => []
  | s, a :: rest => (observe s a).toList ++ observations step observe (step s a) rest

/-- Under an invariant, a view that every step changes by what is observed of it is the fold of
the observations. -/
theorem view_run_of {I : σ → Prop} (observe : σ → α → Option β) (view : σ → γ)
    (change : γ → β → γ) (hI : ∀ s a, I s → I (step s a))
    (hstep : ∀ s a, I s → view (step s a) = (observe s a).elim (view s) (change (view s)))
    {s : σ} (hs : I s) (actions : List α) :
    view (run step s actions) = (observations step observe s actions).foldl change (view s) := by
  induction actions generalizing s with
  | nil => rfl
  | cons a rest ih =>
      rw [run_cons, ih (hI s a hs), observations, List.foldl_append, hstep s a hs]
      cases observe s a <;> rfl

theorem view_run (observe : σ → α → Option β) (view : σ → γ) (change : γ → β → γ)
    (hstep : ∀ s a, view (step s a) = (observe s a).elim (view s) (change (view s))) (s : σ)
    (actions : List α) :
    view (run step s actions) = (observations step observe s actions).foldl change (view s) :=
  view_run_of (I := fun _ => True) observe view change (fun _ _ _ => trivial)
    (fun s a _ => hstep s a) trivial actions

/-- Of changes that overwrite everything the last one remains. -/
theorem foldl_overwrite (changes : List γ) (start : γ) :
    changes.foldl (fun _ change => change) start = changes.getLast?.getD start := by
  induction changes using List.reverseRecOn with
  | nil => rfl
  | append_singleton earlier last _ => rw [List.foldl_append, List.getLast?_concat]; rfl

end Observations

end Execution
