import Mathlib.Data.Set.Basic
import Mathlib.Order.Basic

/-!
# Exclusive slots with stale owners

Agents occupy slots, and each slot names at most one owner. The owner entry may
be stale: it may name an agent which no longer occupies the slot, and an agent
that enters simply overwrites it. Soundness asks only that whoever occupies a
slot is its owner, so at most one agent occupies it.

A frontier is a value that the occupants of a slot publish in turn, each the
bound with which it entered. It never moves back, provided that nobody enters
with a bound behind the frontier.
-/

namespace Reservation

variable {ι κ : Type*}

/-- Who occupies which slot, and the owner that each slot names. -/
structure Slots (ι κ : Type*) where
  occupies : ι → κ → Prop
  owner : κ → Option ι

namespace Slots

/-- Whoever occupies a slot is its owner. -/
def Sound (s : Slots ι κ) : Prop := ∀ {i k}, s.occupies i k → s.owner k = some i

/-- One step: agents leave slots, and a slot forgets an owner only if that owner
no longer occupies it; or one agent enters a slot that nobody else occupies. -/
inductive Step (s s' : Slots ι κ) : Prop
  | leave (occupied : ∀ {i k}, s'.occupies i k → s.occupies i k)
      (kept : ∀ {i k}, s'.occupies i k → s.owner k = some i → s'.owner k = some i)
  | enter (i : ι) (k : κ) (vacant : ∀ {j}, s.occupies j k → j = i)
      (occupied : ∀ {j k'}, s'.occupies j k' → s.occupies j k' ∨ j = i ∧ k' = k)
      (taken : s'.owner k = some i) (kept : ∀ {k'}, k' ≠ k → s'.owner k' = s.owner k')

theorem Sound.exclusive {s : Slots ι κ} (h : s.Sound) {i j : ι} {k : κ}
    (hi : s.occupies i k) (hj : s.occupies j k) : i = j :=
  Option.some.inj ((h hi).symm.trans (h hj))

theorem Step.sound {s s' : Slots ι κ} (h : Step s s') (hs : s.Sound) : s'.Sound := by
  intro i k hi
  cases h with
  | leave occupied kept => exact kept hi (hs (occupied hi))
  | enter agent slot vacant occupied taken kept =>
      by_cases hk : k = slot
      · subst k
        rcases occupied hi with hbefore | ⟨rfl, _⟩
        · rw [taken, vacant hbefore]
        · exact taken
      · rcases occupied hi with hbefore | ⟨_, hslot⟩
        · exact (kept hk).trans (hs hbefore)
        · exact absurd hslot hk

end Slots

variable {β : Type*} [Preorder β]

/-- The bound with which each agent occupies a slot, and the last bound that was
published for each slot. -/
structure Frontiers (ι κ β : Type*) where
  requests : ι → κ → β → Prop
  frontier : κ → Option β

/-- `later` is at least as far as `earlier`, if that was published at all. -/
def Advances (earlier later : Option β) : Prop :=
  ∀ b, earlier = some b → ∃ c, later = some c ∧ b ≤ c

theorem Advances.refl (b : Option β) : Advances b b := fun c hc => ⟨c, hc, le_rfl⟩

theorem Advances.trans {a b c : Option β} (hab : Advances a b) (hbc : Advances b c) :
    Advances a c := by
  intro x hx
  obtain ⟨y, hy, hxy⟩ := hab x hx
  obtain ⟨z, hz, hyz⟩ := hbc y hy
  exact ⟨z, hz, hxy.trans hyz⟩

namespace Frontiers

/-- No pending bound is behind the frontier of its slot. -/
def Ahead (s : Frontiers ι κ β) : Prop :=
  ∀ {i k b c}, s.requests i k b → s.frontier k = some c → c ≤ b

/-- One step: agents leave, or enter ahead of the frontier; or one of them
publishes its bound and leaves its slot empty. -/
inductive Step (s s' : Frontiers ι κ β) : Prop
  | quiet (requested : ∀ {i k b}, s'.requests i k b →
        s.requests i k b ∨ ∀ {c}, s.frontier k = some c → c ≤ b)
      (kept : ∀ k, s'.frontier k = s.frontier k)
  | publish (i : ι) (k : κ) (b : β) (request : s.requests i k b)
      (emptied : ∀ {j c}, ¬s'.requests j k c)
      (requested : ∀ {j k' c}, s'.requests j k' c → s.requests j k' c)
      (published : s'.frontier k = some b)
      (kept : ∀ {k'}, k' ≠ k → s'.frontier k' = s.frontier k')

theorem Step.ahead {s s' : Frontiers ι κ β} (h : Step s s') (hs : s.Ahead) : s'.Ahead := by
  intro i k b c hrequest hfrontier
  cases h with
  | quiet requested kept =>
      rw [kept] at hfrontier
      rcases requested hrequest with hbefore | hahead
      · exact hs hbefore hfrontier
      · exact hahead hfrontier
  | publish agent slot bound request emptied requested published kept =>
      by_cases hk : k = slot
      · subst k
        exact absurd hrequest emptied
      · rw [kept hk] at hfrontier
        exact hs (requested hrequest) hfrontier

theorem Step.advances {s s' : Frontiers ι κ β} (h : Step s s') (hs : s.Ahead) (k : κ) :
    Advances (s.frontier k) (s'.frontier k) := by
  cases h with
  | quiet requested kept =>
      rw [kept]
      exact .refl _
  | publish agent slot bound request emptied requested published kept =>
      by_cases hk : k = slot
      · subst k
        intro c hc
        exact ⟨bound, published, hs request hc⟩
      · rw [kept hk]
        exact .refl _

end Frontiers

end Reservation
