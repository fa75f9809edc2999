import Mathlib.Logic.Function.Basic
import Mathlib.Logic.Relation

/-!
# Retired keys and their replacements

A key is active or retired, and a retired key may name the key that replaces it. Links
are sound when they lead to active keys: then no chain of links is longer than one.
Retiring a key keeps them sound if its replacement is another active key and no link
leads to it; reviving a key always does. A key may also be covered by a parent, and the
links are covered when the parents of all replacements are active.

Apart from standings, links from keys to keys are acyclic when no key leads back to
itself; one more link keeps them so exactly when its end does not lead to its start.
-/

namespace Redirects

inductive Standing (κ : Type*)
  | active
  | retired (replacement : Option κ)

variable {κ : Type*} {standing : κ → Standing κ} {admits : κ → κ → Prop} {j k r : κ}
  {replacement : Option κ}

/-- The key is retired, and another one replaces it. -/
def Link (standing : κ → Standing κ) (k r : κ) : Prop := standing k = .retired (some r)

/-- Links lead to active keys, by admitted pairs. -/
structure Sound (admits : κ → κ → Prop) (standing : κ → Standing κ) : Prop where
  active : ∀ {k r}, Link standing k r → standing r = .active
  admitted : ∀ {k r}, Link standing k r → admits k r

theorem not_link_active (k r : κ) : ¬Link (fun _ => .active) k r := by
  intro h
  cases h

theorem sound_active : Sound admits fun _ : κ => .active :=
  ⟨fun h => absurd h (not_link_active _ _), fun h => absurd h (not_link_active _ _)⟩

theorem Sound.mono {admits' : κ → κ → Prop} (h : Sound admits standing)
    (hmono : ∀ {k r}, admits k r → admits' k r) : Sound admits' standing :=
  ⟨h.active, fun hlink => hmono (h.admitted hlink)⟩

theorem Sound.not_chained (h : Sound admits standing) (hlink : Link standing k r) (next : κ) :
    ¬Link standing r next := by
  intro hnext
  rw [Link, h.active hlink] at hnext
  cases hnext

theorem Sound.ne (h : Sound admits standing) (hlink : Link standing k r) : r ≠ k := by
  intro heq
  subst heq
  exact h.not_chained hlink r hlink

/-- The parents of replacements are active. -/
def Covered (parent : κ → Option κ) (standing : κ → Standing κ) : Prop :=
  ∀ k r, Link standing k r → ∀ p, parent r = some p → standing p = .active

section Chains

variable {links links' : κ → Option κ} {k r : κ}

/-- One key leads to another along links. -/
def Leads (links : κ → Option κ) : κ → κ → Prop :=
  Relation.ReflTransGen fun a b => links a = some b

/-- No key leads back to itself. -/
def Acyclic (links : κ → Option κ) : Prop :=
  ∀ k r, links k = some r → ¬Leads links r k

theorem acyclic_of_not_chained (h : ∀ k r, links k = some r → r ≠ k ∧ links r = none) :
    Acyclic links := by
  intro k r hlink hleads
  obtain ⟨hne, hend⟩ := h k r hlink
  cases hleads.cases_head with
  | inl heq => exact hne heq
  | inr hnext =>
      obtain ⟨next, hnext, -⟩ := hnext
      rw [hend] at hnext
      cases hnext

theorem Acyclic.anti (h : Acyclic links) (hsub : ∀ a b, links' a = some b → links a = some b) :
    Acyclic links' := fun k r hlink hleads =>
  h k r (hsub k r hlink) (Relation.ReflTransGen.mono hsub _ _ hleads)

variable [DecidableEq κ]

/-- A way to `k` needs no link of `k`. -/
theorem Leads.update_start (h : Leads links r k) (replacement : Option κ) :
    Leads (Function.update links k replacement) r k := by
  induction h using Relation.ReflTransGen.head_induction_on with
  | refl => exact .refl
  | @head a c hlink _ ih =>
      by_cases heq : a = k
      · rw [heq]
        exact .refl
      · apply Relation.ReflTransGen.head _ ih
        rw [Function.update_of_ne heq]
        exact hlink

/-- A way over one more link uses it or not. -/
theorem Leads.of_update {a b : κ} (hfree : ¬Leads links r k)
    (h : Leads (Function.update links k (some r)) a b) :
    Leads links a b ∨ Leads links a k ∧ Leads links r b := by
  induction h using Relation.ReflTransGen.head_induction_on with
  | refl => exact Or.inl .refl
  | @head a c hlink _ ih =>
      by_cases heq : a = k
      · subst heq
        rw [Function.update_self] at hlink
        obtain rfl := Option.some.inj hlink
        cases ih with
        | inl hdirect => exact Or.inr ⟨.refl, hdirect⟩
        | inr hback => exact absurd hback.1 hfree
      · rw [Function.update_of_ne heq] at hlink
        exact ih.imp (Relation.ReflTransGen.head hlink)
          (And.imp_left (Relation.ReflTransGen.head hlink))

/-- One more link keeps the links acyclic exactly when its end does not lead to its start. -/
theorem acyclic_update_iff (h : Acyclic links) :
    Acyclic (Function.update links k (some r)) ↔ ¬Leads links r k := by
  constructor
  · intro hacyclic hleads
    exact hacyclic k r (Function.update_self ..) (hleads.update_start _)
  · intro hfree j s hlink hleads
    have hway := hleads.of_update hfree
    by_cases heq : j = k
    · subst heq
      rw [Function.update_self] at hlink
      obtain rfl := Option.some.inj hlink
      exact hway.elim hfree fun hback => hfree hback.2
    · rw [Function.update_of_ne heq] at hlink
      cases hway with
      | inl hdirect => exact h j s hlink hdirect
      | inr hback =>
          have hnext : Leads links r s := hback.2.tail hlink
          exact hfree (hnext.trans hback.1)

/-- Without its link a key closes no cycle. -/
theorem Acyclic.update_none (h : Acyclic links) : Acyclic (Function.update links k none) := by
  apply h.anti
  intro a b hlink
  rw [Function.update_apply] at hlink
  split at hlink
  · cases hlink
  · exact hlink

end Chains

variable [DecidableEq κ]

def retire (standing : κ → Standing κ) (k : κ) (replacement : Option κ) : κ → Standing κ :=
  Function.update standing k (.retired replacement)

def revive (standing : κ → Standing κ) (k : κ) : κ → Standing κ :=
  Function.update standing k .active

theorem link_retire :
    Link (retire standing k replacement) j r ↔
      if j = k then replacement = some r else Link standing j r := by
  rw [Link, retire, Function.update_apply]
  split
  · simp
  · exact Iff.rfl

theorem link_revive :
    Link (revive standing k) j r ↔ j ≠ k ∧ Link standing j r := by
  rw [Link, revive, Function.update_apply]
  split
  · rename_i h
    simp [h]
  · rename_i h
    simp [h, Link]

/-- A key without links to it can be retired in favour of another active key. -/
theorem Sound.retire (h : Sound admits standing) (hfree : ∀ j, ¬Link standing j k)
    (hnew : ∀ r, replacement = some r → standing r = .active ∧ r ≠ k ∧ admits k r) :
    Sound admits (retire standing k replacement) := by
  have hstays : ∀ {r}, standing r = .active → r ≠ k →
      Redirects.retire standing k replacement r = .active := fun hactive hne => by
    rw [Redirects.retire, Function.update_of_ne hne, hactive]
  constructor
  · intro j r hlink
    rw [link_retire] at hlink
    split at hlink
    · exact hstays (hnew r hlink).1 (hnew r hlink).2.1
    · apply hstays (h.active hlink)
      rintro rfl
      exact hfree j hlink
  · intro j r hlink
    rw [link_retire] at hlink
    split at hlink
    · rename_i heq
      rw [heq]
      exact (hnew r hlink).2.2
    · exact h.admitted hlink

theorem Sound.revive (h : Sound admits standing) : Sound admits (revive standing k) := by
  constructor
  · intro j r hlink
    rw [link_revive] at hlink
    rw [Redirects.revive, Function.update_apply]
    split
    · rfl
    · exact h.active hlink.2
  · intro j r hlink
    exact h.admitted (link_revive.mp hlink).2

theorem Covered.revive {parent : κ → Option κ} (h : Covered parent standing) :
    Covered parent (revive standing k) := by
  intro j r hlink p hp
  rw [Redirects.revive, Function.update_apply]
  split
  · rfl
  · exact h j r (link_revive.mp hlink).2 p hp

/-- Retiring a key in favour of a covered one keeps all links covered exactly when no
other link leads to a key that it covers. -/
theorem covered_retire {parent : κ → Option κ} (h : Covered parent standing)
    (hnew : ∀ r, replacement = some r → ∀ p, parent r = some p → standing p = .active ∧ p ≠ k) :
    Covered parent (Redirects.retire standing k replacement) ↔
      ∀ j r, j ≠ k → Link standing j r → parent r ≠ some k := by
  constructor
  · intro hcovered j r hne hlink hparent
    have hactive := hcovered j r (by rwa [link_retire, if_neg hne]) k hparent
    rw [Redirects.retire, Function.update_self] at hactive
    cases hactive
  · intro hfree j r hlink p hp
    rw [link_retire] at hlink
    have hstays : standing p = .active ∧ p ≠ k := by
      split at hlink
      · exact hnew r hlink p hp
      · rename_i hne
        refine ⟨h j r hlink p hp, ?_⟩
        rintro rfl
        exact hfree j r hne hlink hp
    rw [Redirects.retire, Function.update_of_ne hstays.2, hstays.1]

end Redirects
