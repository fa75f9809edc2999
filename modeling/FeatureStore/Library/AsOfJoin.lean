import FeatureStore.Library.LastWriter
import Mathlib.Data.List.Dedup
import Mathlib.Data.List.Perm.Basic

/-!
# As-of joins

A left join puts beside each left row the right rows that match it, or nothing. Numbering
the rows of each partition by descending rank and keeping the first selects one of the
latest matches of every left row, whatever the order of equal ranks.
-/

namespace AsOfJoin

open LastWriter

variable {α β κ ρ : Type*} {on : α → β → Bool} {xs : List α} {ys zs : List β} {x : α}

/-- What a left join puts beside one left row. -/
def matchesOf (on : α → β → Bool) (ys : List β) (x : α) : List (Option β) :=
  match ys.filter (on x) with
  | [] => [none]
  | y :: rest => (y :: rest).map some

def leftJoin (on : α → β → Bool) (xs : List α) (ys : List β) : List (α × Option β) :=
  xs.flatMap fun x => (matchesOf on ys x).map fun y => (x, y)

/-- The rows that come first in the partitions by `key`. -/
def firstOfEach [DecidableEq κ] {γ : Type*} (key : γ → κ) (order : List γ → List γ)
    (rows : List γ) : List γ :=
  (rows.map key).dedup.filterMap fun k => (order (rows.filter fun row => key row = k)).head?

/-- One of the latest matches of a left row, or none if it has none. -/
def Selects [LinearOrder ρ] (on : α → β → Bool) (rank : β → ρ) (ys : List β) (x : α) :
    Option β → Prop
  | none => ∀ y ∈ ys, on x y = false
  | some y => IsLatest rank (ys.filter (on x)) y

section Selection

variable [LinearOrder ρ] {rank : β → ρ}

/-- Which rows are selected depends on the matches only. -/
theorem selects_congr (h : ∀ y, on x y = true → (y ∈ ys ↔ y ∈ zs)) (selected : Option β) :
    Selects on rank ys x selected ↔ Selects on rank zs x selected := by
  have hmatches : ∀ y, y ∈ ys.filter (on x) ↔ y ∈ zs.filter (on x) := by
    intro y
    rw [List.mem_filter, List.mem_filter]
    exact and_congr_left (h y)
  cases selected with
  | none =>
      have hnone : ∀ rows : List β, Selects on rank rows x none ↔
          ∀ y, y ∉ rows.filter (on x) := by
        intro rows
        apply forall_congr'
        intro y
        rw [List.mem_filter, not_and, Bool.not_eq_true]
      rw [hnone, hnone]
      exact forall_congr' fun y => not_congr (hmatches y)
  | some y =>
      constructor
      · exact fun hlatest => hlatest.congr fun y => (hmatches y).symm
      · exact fun hlatest => hlatest.congr hmatches

/-- Where ranks tell the matches apart, one selection is possible. -/
theorem Selects.eq {a b : Option β} (ha : Selects on rank ys x a) (hb : Selects on rank ys x b)
    (hinj : ∀ y ∈ ys.filter (on x), ∀ z ∈ ys.filter (on x), rank y = rank z → y = z) :
    a = b := by
  have hnone : ∀ {y : β}, Selects on rank ys x none → ¬Selects on rank ys x (some y) := by
    intro y hempty hlatest
    obtain ⟨hmem, hmatch⟩ := List.mem_filter.mp hlatest.1
    rw [hempty y hmem] at hmatch
    cases hmatch
  cases a with
  | none =>
      cases b with
      | none => rfl
      | some z => exact absurd hb (hnone ha)
  | some y =>
      cases b with
      | none => exact absurd ha (hnone hb)
      | some z => exact congrArg some (IsLatest.eq ha hb hinj)

end Selection

section Joins

theorem matchesOf_ne_nil : matchesOf on ys x ≠ [] := by
  unfold matchesOf
  split
  · exact List.cons_ne_nil _ _
  · exact List.cons_ne_nil _ _

theorem mem_matchesOf_none : none ∈ matchesOf on ys x ↔ ∀ y ∈ ys, on x y = false := by
  unfold matchesOf
  split
  · rename_i hempty
    refine iff_of_true (List.mem_singleton_self _) fun y hy => ?_
    rw [List.filter_eq_nil_iff] at hempty
    exact Bool.eq_false_iff.mpr (hempty y hy)
  · rename_i first rest hmatched
    refine iff_of_false (by simp) fun hnone => ?_
    obtain ⟨hmem, hmatch⟩ := List.mem_filter.mp (hmatched ▸ List.mem_cons_self :
      first ∈ ys.filter (on x))
    rw [hnone first hmem] at hmatch
    cases hmatch

theorem mem_matchesOf_some {y : β} : some y ∈ matchesOf on ys x ↔ y ∈ ys.filter (on x) := by
  unfold matchesOf
  split
  · rename_i hempty
    simp [hempty]
  · rename_i first rest hmatched
    rw [hmatched, List.mem_map]
    constructor
    · rintro ⟨other, hother, heq⟩
      exact Option.some.inj heq ▸ hother
    · exact fun hy => ⟨y, hy, rfl⟩

variable {key : α → κ}

theorem mem_keys_leftJoin {k : κ} :
    k ∈ (leftJoin on xs ys).map (fun row => key row.1) ↔ k ∈ xs.map key := by
  simp only [leftJoin, List.mem_map, List.mem_flatMap]
  constructor
  · rintro ⟨row, ⟨x, hx, y, -, rfl⟩, rfl⟩
    exact ⟨x, hx, rfl⟩
  · rintro ⟨x, hx, rfl⟩
    obtain ⟨y, hy⟩ := List.exists_mem_of_ne_nil _ (matchesOf_ne_nil : matchesOf on ys x ≠ [])
    exact ⟨(x, y), ⟨x, hx, y, hy, rfl⟩, rfl⟩

variable [DecidableEq κ]

/-- With distinct keys the partition of a left row holds the rows joined to it. -/
theorem filter_leftJoin (hkeys : (xs.map key).Nodup) (hx : x ∈ xs) :
    (leftJoin on xs ys).filter (fun row => key row.1 = key x) =
      (matchesOf on ys x).map fun y => (x, y) := by
  have hpart : ∀ other, ((matchesOf on ys other).map fun y => (other, y)).filter
      (fun row => key row.1 = key x) =
        if key other = key x then (matchesOf on ys other).map fun y => (other, y) else [] := by
    intro other
    split
    · rename_i hsame
      rw [List.filter_eq_self]
      intro row hrow
      obtain ⟨y, -, rfl⟩ := List.mem_map.mp hrow
      exact decide_eq_true hsame
    · rename_i hother
      rw [List.filter_eq_nil_iff]
      intro row hrow
      obtain ⟨y, -, rfl⟩ := List.mem_map.mp hrow
      simpa using hother
  induction xs with
  | nil => cases hx
  | cons first rest ih =>
      rw [List.map_cons, List.nodup_cons] at hkeys
      rw [leftJoin, List.flatMap_cons, List.filter_append, hpart]
      cases List.mem_cons.mp hx with
      | inl hfirst =>
          subst hfirst
          have hrest : (leftJoin on rest ys).filter (fun row => key row.1 = key x) = [] := by
            rw [List.filter_eq_nil_iff]
            intro row hrow hsame
            apply hkeys.1
            rw [← of_decide_eq_true hsame, ← mem_keys_leftJoin]
            exact List.mem_map_of_mem (f := fun row => key row.1) hrow
          rw [if_pos rfl]
          exact (congrArg _ hrest).trans (List.append_nil _)
      | inr hrest =>
          have hne : key first ≠ key x := fun heq => hkeys.1 (heq ▸ List.mem_map_of_mem hrest)
          rw [if_neg hne, List.nil_append]
          exact ih hkeys.2 hrest

section Windows

variable {σ : Type*} [LinearOrder ρ] [Preorder σ] {rank : β → ρ} {joined : Option β → σ}
  {order : List (α × Option β) → List (α × Option β)}

omit [DecidableEq κ] in
/-- The first of the rows joined to a left row has one of its latest matches. -/
theorem exists_first (hperm : ∀ rows, (order rows).Perm rows)
    (hsorted : ∀ rows, (order rows).Pairwise fun a b => joined b.2 ≤ joined a.2)
    (hjoined : ∀ y z, joined (some y) ≤ joined (some z) → rank y ≤ rank z) (x : α) :
    ∃ y, (order ((matchesOf on ys x).map fun y => (x, y))).head? = some (x, y) ∧
      Selects on rank ys x y := by
  have hmem := fun row => (hperm ((matchesOf on ys x).map fun y => (x, y))).mem_iff (a := row)
  have hdescending := hsorted ((matchesOf on ys x).map fun y => (x, y))
  cases hhead : order ((matchesOf on ys x).map fun y => (x, y)) with
  | nil =>
      have hlength := (hperm ((matchesOf on ys x).map fun y => (x, y))).length_eq
      rw [hhead, List.length_map] at hlength
      exact absurd (List.length_eq_zero_iff.mp hlength.symm) matchesOf_ne_nil
  | cons first rest =>
      rw [hhead] at hmem hdescending
      obtain ⟨y, hy, rfl⟩ := List.mem_map.mp ((hmem first).mp List.mem_cons_self)
      have hmax : ∀ z ∈ matchesOf on ys x, joined z ≤ joined y := by
        intro z hz
        cases List.mem_cons.mp ((hmem (x, z)).mpr (List.mem_map_of_mem hz)) with
        | inl heq =>
            cases heq
            exact le_refl _
        | inr hrest => exact (List.pairwise_cons.mp hdescending).1 _ hrest
      refine ⟨y, rfl, ?_⟩
      cases y with
      | none => exact mem_matchesOf_none.mp hy
      | some y =>
          refine ⟨mem_matchesOf_some.mp hy, fun z hz => hjoined z y ?_⟩
          exact hmax (some z) (mem_matchesOf_some.mpr hz)

/-- The first rows of the partitions are the left rows, each with one of its latest matches. -/
theorem exists_selection (hkeys : (xs.map key).Nodup)
    (hperm : ∀ rows, (order rows).Perm rows)
    (hsorted : ∀ rows, (order rows).Pairwise fun a b => joined b.2 ≤ joined a.2)
    (hjoined : ∀ y z, joined (some y) ≤ joined (some z) → rank y ≤ rank z) :
    ∃ selection : α → Option β,
      (firstOfEach (fun row => key row.1) order (leftJoin on xs ys)).Perm
        (xs.map fun x => (x, selection x)) ∧
      ∀ x, Selects on rank ys x (selection x) := by
  have hfirst : ∀ x, ∃ y, (order ((matchesOf on ys x).map fun y => (x, y))).head? = some (x, y) ∧
      Selects on rank ys x y := exists_first hperm hsorted hjoined
  choose selection hhead hselects using hfirst
  refine ⟨selection, ?_, hselects⟩
  have hpartitions : ((leftJoin on xs ys).map fun row => key row.1).dedup.Perm (xs.map key) := by
    rw [List.perm_ext_iff_of_nodup (List.nodup_dedup _) hkeys]
    intro k
    rw [List.mem_dedup, mem_keys_leftJoin]
  refine (hpartitions.filterMap _).trans (List.Perm.of_eq ?_)
  rw [List.filterMap_map, ← List.filterMap_eq_map]
  apply List.filterMap_congr
  intro x hx
  change (order _).head? = some (x, selection x)
  rw [filter_leftJoin hkeys hx]
  exact hhead x

end Windows

end Joins

end AsOfJoin
