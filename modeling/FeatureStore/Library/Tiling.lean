import Mathlib.Data.List.Pairwise
import Mathlib.Order.CompletePartialOrder
import Mathlib.Order.Interval.Set.Disjoint

/-!
# Tilings of an interval

Half-open pieces of a linear order that are not empty and follow each other without a gap.
They are disjoint, and together they cover the interval from the first start to the last end.
-/

namespace Tiling

variable {τ : Type*} [LinearOrder τ] {a c x : τ} {pieces : List (τ × τ)}

/-- The pieces lead from one point to another. -/
inductive Tiles : τ → List (τ × τ) → τ → Prop
  | nil (a : τ) : Tiles a [] a
  | cons {a b c : τ} {rest : List (τ × τ)} (hlt : a < b) (htail : Tiles b rest c) :
      Tiles a ((a, b) :: rest) c

theorem Tiles.le (h : Tiles a pieces c) : a ≤ c := by
  induction h with
  | nil => exact le_rfl
  | cons hlt _ ih => exact hlt.le.trans ih

theorem Tiles.nonempty (h : Tiles a pieces c) : ∀ piece ∈ pieces, piece.1 < piece.2 := by
  induction h with
  | nil => exact fun piece hpiece => absurd hpiece List.not_mem_nil
  | cons hlt _ ih =>
      intro piece hpiece
      rcases List.mem_cons.mp hpiece with rfl | hrest
      · exact hlt
      · exact ih piece hrest

/-- The pieces lie between the two points. -/
theorem Tiles.within (h : Tiles a pieces c) :
    ∀ piece ∈ pieces, a ≤ piece.1 ∧ piece.2 ≤ c := by
  induction h with
  | nil => exact fun piece hpiece => absurd hpiece List.not_mem_nil
  | cons hlt htail ih =>
      intro piece hpiece
      rcases List.mem_cons.mp hpiece with rfl | hrest
      · exact ⟨le_rfl, htail.le⟩
      · exact ⟨hlt.le.trans (ih piece hrest).1, (ih piece hrest).2⟩

/-- The pieces cover the interval, and nothing outside it. -/
theorem Tiles.cover (h : Tiles a pieces c) :
    (∃ piece ∈ pieces, x ∈ Set.Ico piece.1 piece.2) ↔ x ∈ Set.Ico a c := by
  induction h with
  | nil => simp
  | @cons a b c rest hlt htail ih =>
      simp only [List.mem_cons, exists_eq_or_imp]
      rw [ih, ← Set.mem_union, Set.Ico_union_Ico_eq_Ico hlt.le htail.le]

/-- Each piece ends before the later ones start. -/
theorem Tiles.pairwise (h : Tiles a pieces c) :
    pieces.Pairwise fun earlier later => earlier.2 ≤ later.1 := by
  induction h with
  | nil => exact .nil
  | cons _ htail ih => exact .cons (fun piece hpiece => (htail.within piece hpiece).1) ih

theorem Tiles.disjoint (h : Tiles a pieces c) :
    pieces.Pairwise fun earlier later =>
      Disjoint (Set.Ico earlier.1 earlier.2) (Set.Ico later.1 later.2) :=
  h.pairwise.imp fun hle => Set.Ico_disjoint_Ico.mpr ((min_le_left _ _).trans
    (hle.trans (le_max_right _ _)))

/-- No two pieces start at the same point. -/
theorem Tiles.nodup_starts (h : Tiles a pieces c) : (pieces.map Prod.fst).Nodup := by
  induction h with
  | nil => exact List.nodup_nil
  | @cons a b c rest hlt htail ih =>
      refine List.nodup_cons.mpr ⟨fun hmem => ?_, ih⟩
      obtain ⟨piece, hpiece, hstart⟩ := List.mem_map.mp hmem
      exact absurd (htail.within piece hpiece).1 (not_le.mpr (hstart ▸ hlt))

end Tiling
