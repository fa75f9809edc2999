import FeatureStore.Library.Dictionaries

/-!
# Items grouped under their keys

A dictionary that holds, under each key, the items with that key in their order, and the items that
share a group with another one.
-/

namespace Grouping

open Dictionaries

variable {κ α : Type*} [DecidableEq κ]

/-- `groups.setdefault(k, []).append(a)` -/
def add (groups : List (κ × List α)) (item : κ × α) : List (κ × List α) :=
  setItem groups item.1 ((groups.lookup item.1).getD [] ++ [item.2])

def group (items : List (κ × α)) : List (κ × List α) := items.foldl add []

/-- The items of the groups that have more than one. -/
def repeated (groups : List (κ × List α)) : List α :=
  (groups.filter fun entry => decide (1 < entry.2.length)).flatMap (·.2)

variable {items : List (κ × α)} {groups : List (κ × List α)} {k : κ} {a : α}

theorem nodup_foldl_add (h : (groups.map (·.1)).Nodup) :
    ((items.foldl add groups).map (·.1)).Nodup := by
  induction items generalizing groups with
  | nil => exact h
  | cons item rest ih => exact ih (nodup_setItem h _ _)

/-- A group has the items with its key, in their order. -/
theorem lookup_foldl_add (items : List (κ × α)) (groups : List (κ × List α)) (k : κ) :
    ((items.foldl add groups).lookup k).getD [] =
      (groups.lookup k).getD [] ++ (items.filter fun item => decide (item.1 = k)).map (·.2) := by
  induction items generalizing groups with
  | nil => exact (List.append_nil _).symm
  | cons item rest ih =>
      rw [List.foldl_cons, ih, add, lookup_setItem]
      by_cases hk : k = item.1
      · rw [if_pos hk, List.filter_cons_of_pos (by simp [hk]), List.map_cons, hk,
          Option.getD_some, List.append_assoc, List.singleton_append]
      · rw [if_neg hk, List.filter_cons_of_neg (by simpa using Ne.symm hk)]

theorem lookup_group (items : List (κ × α)) (k : κ) :
    ((group items).lookup k).getD [] =
      (items.filter fun item => decide (item.1 = k)).map (·.2) :=
  lookup_foldl_add items [] k

theorem nodup_group (items : List (κ × α)) : ((group items).map (·.1)).Nodup :=
  nodup_foldl_add List.nodup_nil

/-- Among distinct items, another one is what makes a list longer than one. -/
theorem one_lt_length_iff {items : List α} (hnodup : items.Nodup) (h : a ∈ items) :
    1 < items.length ↔ ∃ b ∈ items, b ≠ a := by
  have hne : items ≠ [] := List.ne_nil_of_mem h
  have hlonger : 1 < items.length ↔ items ≠ [a] := by
    constructor
    · rintro hlength rfl
      exact Nat.lt_irrefl 1 hlength
    · intro hother
      by_contra hshort
      have hone : items.length = 1 := by
        have hpos := List.length_pos_of_mem h
        omega
      obtain ⟨b, rfl⟩ := List.length_eq_one_iff.mp hone
      exact hother (by rw [List.mem_singleton.mp h])
  rw [hlonger, hnodup.ne_singleton_iff, or_iff_right hne]

/-- An item that satisfies a predicate is not the only one exactly if another place has one. -/
theorem one_lt_countP_iff {items : List α} {P : α → Bool} {i : Nat}
    (hitem : items[i]? = some a) (h : P a = true) :
    1 < items.countP P ↔ ∃ j b, j ≠ i ∧ items[j]? = some b ∧ P b = true := by
  have hnodup : ((items.zipIdx.filter fun item => P item.1).map (·.2)).Nodup := by
    have hall : (items.zipIdx.map Prod.snd).Nodup := by
      rw [List.zipIdx_map_snd]
      exact List.nodup_range'
    exact hall.sublist (List.filter_sublist.map _)
  have hlength : ((items.zipIdx.filter fun item => P item.1).map (·.2)).length =
      items.countP P := by
    calc ((items.zipIdx.filter fun item => P item.1).map (·.2)).length
      _ = items.zipIdx.countP (P ∘ Prod.fst) := by
        rw [List.length_map, List.countP_eq_length_filter]
        rfl
      _ = items.countP P := by
        rw [← List.countP_map, List.zipIdx_map_fst]
  have hmem : ∀ j, j ∈ (items.zipIdx.filter fun item => P item.1).map (·.2) ↔
      ∃ b, items[j]? = some b ∧ P b = true := by
    intro j
    simp only [List.mem_map, List.mem_filter, Prod.exists, List.mk_mem_zipIdx_iff_getElem?]
    constructor
    · rintro ⟨b, j, ⟨hb, hP⟩, rfl⟩
      exact ⟨b, hb, hP⟩
    · rintro ⟨b, hb, hP⟩
      exact ⟨b, j, ⟨hb, hP⟩, rfl⟩
  rw [← hlength, one_lt_length_iff hnodup ((hmem i).mpr ⟨a, hitem, h⟩)]
  constructor
  · rintro ⟨j, hj, hne⟩
    obtain ⟨b, hb, hP⟩ := (hmem j).mp hj
    exact ⟨j, b, hne, hb, hP⟩
  · rintro ⟨j, b, hne, hb, hP⟩
    exact ⟨j, (hmem j).mpr ⟨b, hb, hP⟩, hne⟩

/-- An item is repeated exactly if another one has its key. -/
theorem mem_repeated (h : (items.map (·.2)).Nodup) : a ∈ repeated (group items) ↔
    ∃ k, (k, a) ∈ items ∧ ∃ b, b ≠ a ∧ (k, b) ∈ items := by
  have hmembers : ∀ k b, b ∈ (items.filter fun item => decide (item.1 = k)).map (·.2) ↔
      (k, b) ∈ items := by
    intro k b
    simp only [List.mem_map, List.mem_filter, decide_eq_true_eq]
    constructor
    · rintro ⟨item, ⟨hitem, rfl⟩, rfl⟩
      exact hitem
    · exact fun hitem => ⟨(k, b), ⟨hitem, rfl⟩, rfl⟩
  have hdistinct : ∀ k, ((items.filter fun item => decide (item.1 = k)).map (·.2)).Nodup :=
    fun k => h.sublist (List.filter_sublist.map _)
  rw [repeated, List.mem_flatMap]
  constructor
  · rintro ⟨⟨k, members⟩, hentry, ha⟩
    obtain ⟨hentry, hlength⟩ := List.mem_filter.mp hentry
    have hlookup : (group items).lookup k = some members :=
      (lookup_eq_some_iff (nodup_group items)).mpr hentry
    have hsame := lookup_group items k
    rw [hlookup, Option.getD_some] at hsame
    simp only [hsame, decide_eq_true_eq] at ha hlength
    obtain ⟨b, hb, hne⟩ := (one_lt_length_iff (hdistinct k) ha).mp hlength
    exact ⟨k, (hmembers k a).mp ha, b, hne, (hmembers k b).mp hb⟩
  · rintro ⟨k, ha, b, hne, hb⟩
    have hsame := lookup_group items k
    have hmem := (hmembers k a).mpr ha
    have hlength := (one_lt_length_iff (hdistinct k) hmem).mpr ⟨b, (hmembers k b).mpr hb, hne⟩
    cases hlookup : (group items).lookup k with
    | none =>
        rw [hlookup, Option.getD_none] at hsame
        rw [← hsame] at hmem
        cases hmem
    | some members =>
        rw [hlookup, Option.getD_some] at hsame
        have hentry := (lookup_eq_some_iff (nodup_group items)).mp hlookup
        rw [← hsame] at hmem hlength
        exact ⟨(k, members), List.mem_filter.mpr ⟨hentry, decide_eq_true hlength⟩, hmem⟩

end Grouping
