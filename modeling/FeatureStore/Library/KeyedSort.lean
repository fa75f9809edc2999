import Mathlib.Data.List.Sort
import Mathlib.Data.Set.Function

/-!
# Collections sorted by their keys

Items are put into a collection under their keys, an item in place of an older one with the same
key, and the collection is then sorted by the keys. The result is strictly sorted. Where the keys
tell the items apart it has exactly the items that were put, so it depends on nothing else.
-/

namespace KeyedSort

variable {α κ : Type*} [LinearOrder κ]

/-- Replace the item with the same key, or add one. -/
def put (key : α → κ) (items : List α) (item : α) : List α :=
  items.filter (fun other => decide (key other ≠ key item)) ++ [item]

/-- The items put into an empty collection, sorted by their keys. -/
def collect (key : α → κ) (items : List α) : List α :=
  (items.foldl (put key) []).insertionSort fun a b => key a ≤ key b

variable {key : α → κ} {items others stored : List α} {x : α}

theorem mem_of_mem_put (h : x ∈ items.foldl (put key) stored) : x ∈ stored ∨ x ∈ items := by
  induction items generalizing stored with
  | nil => exact Or.inl h
  | cons item rest ih =>
      cases ih h with
      | inl hput =>
          cases List.mem_append.mp hput with
          | inl hold => exact Or.inl (List.mem_of_mem_filter hold)
          | inr hnew => exact Or.inr (List.mem_cons.mpr (Or.inl (List.mem_singleton.mp hnew)))
      | inr hrest => exact Or.inr (List.mem_cons_of_mem _ hrest)

/-- The keys of a collection are pairwise different. -/
theorem nodup_keys_put (h : (stored.map key).Nodup) :
    ((items.foldl (put key) stored).map key).Nodup := by
  induction items generalizing stored with
  | nil => exact h
  | cons item rest ih =>
      apply ih
      rw [put, List.map_append, List.nodup_append]
      refine ⟨h.sublist (List.filter_sublist.map key), by simp, ?_⟩
      intro k hk k' hk' heq
      obtain ⟨other, hother, rfl⟩ := List.mem_map.mp hk
      rw [List.mem_map] at hk'
      obtain ⟨new, hnew, rfl⟩ := hk'
      obtain rfl := List.mem_singleton.mp hnew
      exact absurd heq (of_decide_eq_true (List.mem_filter.mp hother).2)

/-- An item stays unless another one with the same key is put. -/
theorem mem_put_of_stored (h : x ∈ stored) (hitems : ∀ item ∈ items, key item = key x → item = x) :
    x ∈ items.foldl (put key) stored := by
  induction items generalizing stored with
  | nil => exact h
  | cons item rest ih =>
      apply ih
      · rw [put, List.mem_append, List.mem_filter, List.mem_singleton]
        by_cases hkey : key item = key x
        · exact Or.inr (hitems item List.mem_cons_self hkey).symm
        · exact Or.inl ⟨h, decide_eq_true (Ne.symm hkey)⟩
      · exact fun other hother => hitems other (List.mem_cons_of_mem _ hother)

theorem mem_put_of_mem (h : x ∈ items) (hitems : ∀ item ∈ items, key item = key x → item = x) :
    x ∈ items.foldl (put key) stored := by
  induction items generalizing stored with
  | nil => cases h
  | cons item rest ih =>
      have hrest : ∀ other ∈ rest, key other = key x → other = x :=
        fun other hother => hitems other (List.mem_cons_of_mem _ hother)
      cases List.mem_cons.mp h with
      | inl heq =>
          rw [List.foldl_cons]
          refine mem_put_of_stored ?_ hrest
          rw [put, heq]
          exact List.mem_append_right _ List.mem_cons_self
      | inr hmem => exact ih hmem hrest

/-- The collection is strictly sorted by its keys. -/
theorem pairwise_collect (key : α → κ) (items : List α) :
    (collect key items).Pairwise fun a b => key a < key b := by
  have hsorted : (collect key items).Pairwise fun a b => key a ≤ key b :=
    List.pairwise_insertionSort _ _
  have hnodup : ((collect key items).map key).Nodup :=
    ((List.perm_insertionSort _ _).map key).nodup_iff.mpr (nodup_keys_put List.nodup_nil)
  have hne : (collect key items).Pairwise fun a b => key a ≠ key b := List.pairwise_map.mp hnodup
  exact hsorted.imp₂ (fun a b hle hne => lt_of_le_of_ne hle hne) hne

theorem nodup_collect (key : α → κ) (items : List α) : (collect key items).Nodup :=
  (pairwise_collect key items).imp fun hlt heq => absurd (congrArg key heq) hlt.ne

theorem mem_of_mem_collect (h : x ∈ collect key items) : x ∈ items :=
  (mem_of_mem_put ((List.perm_insertionSort _ _).mem_iff.mp h)).resolve_left List.not_mem_nil

/-- Where the keys tell the items apart, the collection has exactly the items. -/
theorem mem_collect (hinjective : Set.InjOn key {x | x ∈ items}) :
    x ∈ collect key items ↔ x ∈ items := by
  constructor
  · exact mem_of_mem_collect
  · intro h
    rw [collect, (List.perm_insertionSort _ _).mem_iff]
    exact mem_put_of_mem h fun item hitem hkey => hinjective hitem h hkey

/-- The order and the repetitions of the items do not matter. -/
theorem collect_congr (hinjective : Set.InjOn key {x | x ∈ items})
    (h : ∀ x, x ∈ items ↔ x ∈ others) : collect key items = collect key others := by
  have hothers : Set.InjOn key {x | x ∈ others} := fun a ha b hb =>
    hinjective ((h a).mpr ha) ((h b).mpr hb)
  have hperm : (collect key items).Perm (collect key others) := by
    rw [List.perm_ext_iff_of_nodup (nodup_collect key items) (nodup_collect key others)]
    intro x
    rw [mem_collect hinjective, mem_collect hothers, h]
  exact hperm.eq_of_pairwise (fun a b _ _ hab hba => absurd hab (lt_asymm hba))
    (pairwise_collect key items) (pairwise_collect key others)

section Stability

variable {β : Type*} (r : β → β → Prop) [DecidableRel r]

/-- Into a sorted list an item goes before the same items, whether others are there or not. -/
theorem filter_orderedInsert (htrans : ∀ a b c, r a b → r b c → r a c) (p : β → Bool) (a : β)
    {sorted : List β} (hsorted : sorted.Pairwise r) :
    (sorted.orderedInsert r a).filter p =
      if p a then (sorted.filter p).orderedInsert r a else sorted.filter p := by
  induction sorted with
  | nil => cases hp : p a <;> simp [hp]
  | cons b rest ih =>
      obtain ⟨hfirst, hrest⟩ := List.pairwise_cons.mp hsorted
      by_cases hab : r a b
      · have hbefore : ((b :: rest).filter p).orderedInsert r a = a :: (b :: rest).filter p := by
          cases hfiltered : (b :: rest).filter p with
          | nil => rfl
          | cons c others =>
              have hc : c ∈ (b :: rest).filter p := hfiltered ▸ List.mem_cons_self
              have hac : r a c := by
                rcases List.mem_cons.mp (List.mem_of_mem_filter hc) with rfl | hmem
                · exact hab
                · exact htrans a b c hab (hfirst c hmem)
              rw [List.orderedInsert_cons, if_pos hac]
        rw [List.orderedInsert_cons, if_pos hab, hbefore, List.filter_cons]
      · rw [List.orderedInsert_cons, if_neg hab, List.filter_cons, ih hrest, List.filter_cons]
        cases hb : p b with
        | false => rfl
        | true =>
            simp only [if_true, List.orderedInsert_cons, if_neg hab]
            split <;> rfl

/-- A stable sort treats the items of a filter as if the others were not there. -/
theorem filter_insertionSort (htotal : ∀ a b, r a b ∨ r b a)
    (htrans : ∀ a b c, r a b → r b c → r a c) (p : β → Bool) (items : List β) :
    (items.insertionSort r).filter p = (items.filter p).insertionSort r := by
  have : Std.Total r := ⟨htotal⟩
  have : IsTrans β r := ⟨htrans⟩
  induction items with
  | nil => rfl
  | cons a rest ih =>
      rw [List.insertionSort_cons, filter_orderedInsert r htrans p a
        (List.pairwise_insertionSort r rest), ih, List.filter_cons]
      split <;> rfl

end Stability

end KeyedSort
