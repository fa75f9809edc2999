import Mathlib.Data.Set.Basic

/-!
# Fencing by fresh lease tokens

Resources are leased under tokens. A token is drawn once, so the resource to
which it was granted is the only one that can ever hold it; once that resource
lets go of it, no later step gives it back. Writers that present such a token
are recognised as stale by comparing tokens alone.
-/

namespace Fencing

variable {κ τ : Type*}

/-- The token that each resource holds, and the tokens drawn so far. -/
structure Leases (κ τ : Type*) where
  holder : κ → Option τ
  drawn : Set τ

namespace Leases

/-- Every held token has been drawn, and no two resources hold the same one. -/
structure Sound (s : Leases κ τ) : Prop where
  held_drawn : ∀ {k t}, s.holder k = some t → t ∈ s.drawn
  held_once : ∀ {k k' t}, s.holder k = some t → s.holder k' = some t → k' = k

/-- A step forgets no drawn token. A token held after it was held by the same
resource before it, or is drawn in this step and granted to one resource. -/
structure Step (s s' : Leases κ τ) : Prop where
  drawn_subset : s.drawn ⊆ s'.drawn
  held : ∀ {k t}, s'.holder k = some t →
    s.holder k = some t ∨
      t ∉ s.drawn ∧ t ∈ s'.drawn ∧ ∀ k', s'.holder k' = some t → k' = k

/-- No resource but `k` holds the drawn token `t`. -/
def Confined (s : Leases κ τ) (k : κ) (t : τ) : Prop :=
  t ∈ s.drawn ∧ ∀ k', s.holder k' = some t → k' = k

/-- The drawn token `t` is held by no resource. -/
def Retired (s : Leases κ τ) (t : τ) : Prop :=
  t ∈ s.drawn ∧ ∀ k, s.holder k ≠ some t

theorem Sound.confined {s : Leases κ τ} (h : s.Sound) {k : κ} {t : τ}
    (hk : s.holder k = some t) : s.Confined k t :=
  ⟨h.held_drawn hk, fun _ hk' => h.held_once hk hk'⟩

theorem Confined.retired {s : Leases κ τ} {k : κ} {t : τ} (h : s.Confined k t)
    (hk : s.holder k ≠ some t) : s.Retired t := by
  refine ⟨h.1, fun k' hk' => ?_⟩
  have heq := h.2 k' hk'
  subst k'
  exact hk hk'

theorem Step.refl (s : Leases κ τ) : Step s s :=
  ⟨subset_rfl, fun h => Or.inl h⟩

theorem Step.sound {s s' : Leases κ τ} (h : Step s s') (hs : s.Sound) : s'.Sound where
  held_drawn := by
    intro k t hk
    rcases h.held hk with hold | ⟨_, hdrawn, _⟩
    · exact h.drawn_subset (hs.held_drawn hold)
    · exact hdrawn
  held_once := by
    intro k k' t hk hk'
    rcases h.held hk with hold | ⟨_, _, honly⟩
    · rcases h.held hk' with hold' | ⟨hfresh, _, _⟩
      · exact hs.held_once hold hold'
      · exact absurd (hs.held_drawn hold) hfresh
    · exact honly k' hk'

theorem Step.confined {s s' : Leases κ τ} (h : Step s s') {k : κ} {t : τ}
    (hc : s.Confined k t) : s'.Confined k t := by
  refine ⟨h.drawn_subset hc.1, fun k' hk' => ?_⟩
  rcases h.held hk' with hold | ⟨hfresh, _, _⟩
  · exact hc.2 k' hold
  · exact absurd hc.1 hfresh

theorem Step.retired {s s' : Leases κ τ} (h : Step s s') {t : τ} (hr : s.Retired t) :
    s'.Retired t := by
  refine ⟨h.drawn_subset hr.1, fun k hk => ?_⟩
  rcases h.held hk with hold | ⟨hfresh, _, _⟩
  · exact hr.2 k hold
  · exact hfresh hr.1

end Leases

end Fencing
