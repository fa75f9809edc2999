import Mathlib.Data.List.Induction
import Mathlib.Data.List.Sort
import Mathlib.Order.Lattice

/-!
# Last-writer-wins registers

Elements are ranked by a linear order. A register keeps what it stores unless an
element of a greater rank is written; sorting the elements by descending rank and
taking the first is another way to select. Both find an element of the greatest rank,
whatever the order and the repetitions, so they agree where ranks tell elements apart.
-/

namespace LastWriter

variable {ε ρ : Type*} [LinearOrder ρ] {rank : ε → ρ} {xs ys : List ε} {x y : ε}

/-- An element of the greatest rank. -/
def IsLatest (rank : ε → ρ) (xs : List ε) (x : ε) : Prop :=
  x ∈ xs ∧ ∀ y ∈ xs, rank y ≤ rank x

theorem IsLatest.congr (h : IsLatest rank xs x) (hmem : ∀ y, y ∈ ys ↔ y ∈ xs) :
    IsLatest rank ys x :=
  ⟨(hmem x).mpr h.1, fun y hy => h.2 y ((hmem y).mp hy)⟩

/-- Latest elements have the same rank. -/
theorem IsLatest.rank_eq (hx : IsLatest rank xs x) (hy : IsLatest rank xs y) : rank x = rank y :=
  le_antisymm (hy.2 x hx.1) (hx.2 y hy.1)

/-- Where ranks tell the elements apart there is one latest element. -/
theorem IsLatest.eq (hx : IsLatest rank xs x) (hy : IsLatest rank xs y)
    (hinj : ∀ a ∈ xs, ∀ b ∈ xs, rank a = rank b → a = b) : x = y :=
  hinj x hx.1 y hy.1 (hx.rank_eq hy)

/-- Keep the stored element unless the new one is ahead of it. -/
def write (rank : ε → ρ) (stored : Option ε) (x : ε) : Option ε :=
  if stored.any fun old => decide (rank x ≤ rank old) then stored else some x

/-- The register after a list of writes to an empty one. -/
def register (rank : ε → ρ) (xs : List ε) : Option ε := xs.foldl (write rank) none

theorem register_append_singleton :
    register rank (xs ++ [x]) = write rank (register rank xs) x := by
  rw [register, List.foldl_append]
  rfl

theorem register_eq_none : register rank xs = none ↔ xs = [] := by
  induction xs using List.reverseRecOn with
  | nil => exact iff_of_true rfl rfl
  | append_singleton xs x ih =>
      refine iff_of_false ?_ (by simp)
      rw [register_append_singleton, write]
      split
      · rename_i h
        intro hnone
        simp [hnone] at h
      · exact nofun

/-- A register holds an element of the greatest rank among those written. -/
theorem isLatest_register (h : register rank xs = some x) : IsLatest rank xs x := by
  induction xs using List.reverseRecOn generalizing x with
  | nil => cases h
  | append_singleton xs new ih =>
      rw [register_append_singleton, write] at h
      split at h
      · rename_i hstored
        rw [h, Option.any_some, decide_eq_true_eq] at hstored
        obtain ⟨hmem, hmax⟩ := ih h
        refine ⟨List.mem_append_left _ hmem, fun y hy => ?_⟩
        rcases List.mem_append.mp hy with hold | hnew
        · exact hmax y hold
        · rwa [List.mem_singleton.mp hnew]
      · rename_i hstored
        obtain rfl := Option.some.inj h
        refine ⟨by simp, fun y hy => ?_⟩
        rcases List.mem_append.mp hy with hold | hnew
        · cases hregister : register rank xs with
          | none =>
              rw [register_eq_none.mp hregister] at hold
              cases hold
          | some old =>
              rw [hregister, Option.any_some, decide_eq_true_eq, not_le] at hstored
              exact le_trans ((ih hregister).2 y hold) hstored.le
        · rw [List.mem_singleton.mp hnew]

/-- The first element by descending rank. -/
def newest (rank : ε → ρ) (xs : List ε) : Option ε :=
  (xs.insertionSort fun a b => rank b ≤ rank a).head?

theorem newest_eq_none : newest rank xs = none ↔ xs = [] := by
  rw [newest, List.head?_eq_none_iff, ← List.length_eq_zero_iff, List.length_insertionSort,
    List.length_eq_zero_iff]

theorem isLatest_newest (h : newest rank xs = some x) : IsLatest rank xs x := by
  have : Std.Total fun a b : ε => rank b ≤ rank a := ⟨fun a b => le_total (rank b) (rank a)⟩
  have : IsTrans ε fun a b => rank b ≤ rank a := ⟨fun _ _ _ hab hbc => le_trans hbc hab⟩
  have hsorted := List.pairwise_insertionSort (fun a b => rank b ≤ rank a) xs
  obtain ⟨rest, hrest⟩ := List.head?_eq_some_iff.mp h
  rw [hrest, List.pairwise_cons] at hsorted
  have hmem : ∀ y, y ∈ xs ↔ y ∈ x :: rest := by
    intro y
    rw [← hrest, List.mem_insertionSort]
  refine ⟨(hmem x).mpr List.mem_cons_self, fun y hy => ?_⟩
  rcases List.mem_cons.mp ((hmem y).mp hy) with rfl | hlater
  · exact le_refl _
  · exact hsorted.1 y hlater

/-- Where ranks tell the elements apart, selections of latest elements agree. -/
theorem eq_of_isLatest {a b : Option ε} (hinj : ∀ x ∈ xs, ∀ y ∈ xs, rank x = rank y → x = y)
    (ha : ∀ x, a = some x → IsLatest rank xs x) (hb : ∀ x, b = some x → IsLatest rank xs x)
    (hnone : a = none ↔ b = none) : a = b := by
  cases a with
  | none => exact (hnone.mp rfl).symm
  | some x =>
      cases b with
      | none => exact absurd (hnone.mpr rfl) nofun
      | some y => rw [(ha x rfl).eq (hb y rfl) hinj]

end LastWriter
