import Mathlib.Data.List.Nodup
import Mathlib.Data.List.Perm.Basic

/-!
# Dictionaries as association lists

With distinct keys a lookup is membership, so it does not depend on the order.
-/

namespace Dictionaries

variable {κ α β : Type*} [BEq κ] {items others : List (κ × α)} {k : κ} {a : α}

theorem lookup_map (f : α → β) :
    (items.map fun item => (item.1, f item.2)).lookup k = (items.lookup k).map f := by
  induction items with
  | nil => rfl
  | cons item rest ih =>
      rw [List.map_cons, List.lookup_cons, List.lookup_cons]
      cases k == item.1 with
      | true => rfl
      | false => exact ih

variable [LawfulBEq κ]

theorem lookup_eq_some_iff (h : (items.map (·.1)).Nodup) :
    items.lookup k = some a ↔ (k, a) ∈ items := by
  induction items with
  | nil => simp
  | cons item rest ih =>
      rw [List.map_cons, List.nodup_cons] at h
      rw [List.lookup_cons, List.mem_cons]
      by_cases hk : k = item.1
      · subst hk
        simp only [beq_self_eq_true]
        constructor
        · intro ha
          obtain rfl := Option.some.inj ha
          exact Or.inl rfl
        · rintro (heq | hrest)
          · rw [← heq]
          · exact absurd (List.mem_map.mpr ⟨_, hrest, rfl⟩) h.1
      · have hne : (k == item.1) = false := beq_eq_false_iff_ne.mpr hk
        rw [hne]
        simp only
        rw [ih h.2]
        constructor
        · exact Or.inr
        · rintro (heq | hrest)
          · exact absurd (congrArg Prod.fst heq) hk
          · exact hrest

theorem lookup_eq_none_iff : items.lookup k = none ↔ k ∉ items.map (·.1) := by
  rw [List.lookup_eq_none_iff, List.mem_map]
  constructor
  · rintro h ⟨item, hitem, rfl⟩
    simpa using h item hitem
  · intro h item hitem
    exact bne_iff_ne.mpr fun heq => h ⟨item, hitem, heq.symm⟩

theorem lookup_isSome_iff : (items.lookup k).isSome = true ↔ k ∈ items.map (·.1) := by
  rw [Option.isSome_iff_ne_none, ne_eq, lookup_eq_none_iff, not_not]

/-- Lookups do not depend on the order of distinct keys. -/
theorem lookup_perm (hperm : items.Perm others) (h : (items.map (·.1)).Nodup) :
    items.lookup k = others.lookup k := by
  have hother : (others.map (·.1)).Nodup := (hperm.map _).nodup_iff.mp h
  apply Option.ext
  intro a
  rw [lookup_eq_some_iff h, lookup_eq_some_iff hother, hperm.mem_iff]

/-- Dictionaries with the same lookups have the same items. -/
theorem perm_of_lookup (h : (items.map (·.1)).Nodup) (hother : (others.map (·.1)).Nodup)
    (hlookup : ∀ k, items.lookup k = others.lookup k) : items.Perm others := by
  rw [List.perm_ext_iff_of_nodup h.of_map hother.of_map]
  rintro ⟨k, a⟩
  rw [← lookup_eq_some_iff h, ← lookup_eq_some_iff hother, hlookup]

/-- Dictionaries with the same keys in the same order are told by their lookups. -/
theorem eq_of_lookup (h : (items.map (·.1)).Nodup) (hkeys : others.map (·.1) = items.map (·.1))
    (hlookup : ∀ k ∈ items.map (·.1), others.lookup k = items.lookup k) : others = items := by
  induction items generalizing others with
  | nil => exact List.map_eq_nil_iff.mp hkeys
  | cons item rest ih =>
      cases others with
      | nil => cases hkeys
      | cons other others =>
          rw [List.map_cons, List.map_cons] at hkeys
          obtain ⟨hkey, hrest⟩ := List.cons.inj hkeys
          rw [List.map_cons, List.nodup_cons] at h
          have hhead := hlookup item.1 List.mem_cons_self
          rw [List.lookup_cons, List.lookup_cons, hkey] at hhead
          simp only [beq_self_eq_true] at hhead
          have htail : others = rest := by
            apply ih h.2 hrest
            intro k hk
            have hne : (k == item.1) = false :=
              beq_eq_false_iff_ne.mpr fun heq => h.1 (heq ▸ hk)
            have hnext := hlookup k (List.mem_cons_of_mem _ hk)
            rwa [List.lookup_cons, List.lookup_cons, hkey, hne] at hnext
          rw [htail, Prod.ext hkey (Option.some.inj hhead)]

/-- A key of a related dictionary has a related value. -/
theorem lookup_of_forall₂ {R : α → β → Prop} {items : List (κ × α)} {others : List (κ × β)}
    (h : List.Forall₂ (fun item other => item.1 = other.1 ∧ R item.2 other.2) items others)
    (hnodup : (others.map (·.1)).Nodup) {other : κ × β} (hother : other ∈ others) :
    ∃ a, items.lookup other.1 = some a ∧ R a other.2 := by
  induction h with
  | nil => cases hother
  | @cons item first items rest hitem _ ih =>
      rw [List.map_cons, List.nodup_cons] at hnodup
      rw [List.lookup_cons, hitem.1]
      cases List.mem_cons.mp hother with
      | inl heq =>
          rw [heq, beq_self_eq_true]
          exact ⟨item.2, rfl, hitem.2⟩
      | inr hrest =>
          have hne : other.1 ≠ first.1 :=
            fun heq => hnodup.1 (heq ▸ List.mem_map_of_mem hrest)
          rw [beq_eq_false_iff_ne.mpr hne]
          exact ih hnodup.2 hrest

section Assignment

variable [DecidableEq κ]

/-- `items[k] = a`, which keeps the position of a key. -/
def setItem (items : List (κ × α)) (k : κ) (a : α) : List (κ × α) :=
  if k ∈ items.map (·.1) then items.map fun item => if item.1 = k then (k, a) else item
  else items ++ [(k, a)]

/-- `dict(items)` -/
def ofItems (items : List (κ × α)) : List (κ × α) :=
  items.foldl (fun dict item => setItem dict item.1 item.2) []

theorem setItem_keys (items : List (κ × α)) (k : κ) (a : α) :
    (setItem items k a).map (·.1) =
      if k ∈ items.map (·.1) then items.map (·.1) else items.map (·.1) ++ [k] := by
  rw [setItem]
  split
  · rw [List.map_map]
    apply List.map_congr_left
    intro item _
    by_cases hitem : item.1 = k
    · simp [hitem]
    · simp [hitem]
  · rw [List.map_append, List.map_singleton]

theorem nodup_setItem (h : (items.map (·.1)).Nodup) (k : κ) (a : α) :
    ((setItem items k a).map (·.1)).Nodup := by
  rw [setItem_keys]
  split
  · exact h
  · rename_i hk
    rw [List.nodup_append]
    refine ⟨h, List.nodup_singleton k, fun x hx y hy => ?_⟩
    rw [List.mem_singleton.mp hy]
    exact fun heq => hk (heq ▸ hx)

/-- Replacing the value of a key changes the lookup of that key only. -/
theorem lookup_replace (items : List (κ × α)) (k : κ) (a : α) (other : κ) :
    (items.map fun item => if item.1 = k then (k, a) else item).lookup other =
      if other = k then (items.lookup k).map fun _ => a else items.lookup other := by
  induction items with
  | nil => simp
  | cons item rest ih =>
      rw [List.map_cons, List.lookup_cons, ih, List.lookup_cons, List.lookup_cons]
      by_cases hother : other = k
      · by_cases hitem : item.1 = k
        · simp [hother, hitem]
        · simp [hother, hitem, beq_eq_false_iff_ne.mpr (Ne.symm hitem)]
      · by_cases hitem : item.1 = k
        · simp [hother, hitem, beq_eq_false_iff_ne.mpr hother]
        · simp [hother, hitem]

theorem lookup_setItem (items : List (κ × α)) (k : κ) (a : α) (other : κ) :
    (setItem items k a).lookup other = if other = k then some a else items.lookup other := by
  rw [setItem]
  split
  · rename_i hk
    obtain ⟨old, hold⟩ := Option.isSome_iff_exists.mp (lookup_isSome_iff.mpr hk)
    rw [lookup_replace, hold, Option.map_some]
  · rename_i hk
    rw [List.lookup_append]
    by_cases hother : other = k
    · rw [if_pos hother, hother, lookup_eq_none_iff.mpr hk]
      simp
    · rw [if_neg hother]
      simp [List.lookup_cons, beq_eq_false_iff_ne.mpr hother]

theorem nodup_ofItems (items : List (κ × α)) : ((ofItems items).map (·.1)).Nodup := by
  have hfold : ∀ dict : List (κ × α), (dict.map (·.1)).Nodup →
      ((items.foldl (fun dict item => setItem dict item.1 item.2) dict).map (·.1)).Nodup := by
    induction items with
    | nil => exact fun _ hdict => hdict
    | cons item rest ih => exact fun dict hdict => ih _ (nodup_setItem hdict _ _)
  exact hfold [] List.nodup_nil

theorem mem_setItem {item : κ × α} {k : κ} {a : α} (h : item ∈ setItem items k a) :
    item ∈ items ∨ item = (k, a) := by
  rw [setItem] at h
  split at h
  · obtain ⟨old, hold, rfl⟩ := List.mem_map.mp h
    by_cases hk : old.1 = k
    · exact Or.inr (if_pos hk)
    · rw [if_neg hk]
      exact Or.inl hold
  · exact (List.mem_append.mp h).imp_right List.mem_singleton.mp

/-- A dictionary has no other items than it was made of. -/
theorem mem_ofItems {item : κ × α} (h : item ∈ ofItems items) : item ∈ items := by
  have hfold : ∀ dict : List (κ × α),
      item ∈ items.foldl (fun dict item => setItem dict item.1 item.2) dict →
        item ∈ dict ∨ item ∈ items := by
    clear h
    induction items with
    | nil => exact fun _ hdict => Or.inl hdict
    | cons first rest ih =>
        intro dict hdict
        rcases ih _ hdict with hset | hrest
        · refine (mem_setItem hset).imp_right fun heq => ?_
          rw [heq]
          exact List.mem_cons_self
        · exact Or.inr (List.mem_cons_of_mem _ hrest)
  exact (hfold [] h).resolve_left List.not_mem_nil

/-- The items of the other keys. -/
theorem lookup_filter_ne (items : List (κ × α)) (k other : κ) :
    (items.filter fun item => decide (item.1 ≠ k)).lookup other =
      if other = k then none else items.lookup other := by
  induction items with
  | nil => simp
  | cons item rest ih =>
      rw [List.filter_cons, List.lookup_cons]
      by_cases hitem : item.1 = k
      · rw [if_neg (by simpa using hitem), ih]
        by_cases hother : other = k
        · rw [if_pos hother, if_pos hother]
        · rw [if_neg hother, if_neg hother, hitem, beq_eq_false_iff_ne.mpr hother]
      · rw [if_pos (by simpa using hitem), List.lookup_cons, ih]
        by_cases hother : other = item.1
        · simp only [hother, beq_self_eq_true, if_neg hitem]
        · rw [beq_eq_false_iff_ne.mpr hother]

/-- The last item of a key counts. -/
theorem lookup_ofItems (items : List (κ × α)) (k : κ) :
    (ofItems items).lookup k = items.reverse.lookup k := by
  have hfold : ∀ dict : List (κ × α),
      (items.foldl (fun dict item => setItem dict item.1 item.2) dict).lookup k =
        (items.reverse.lookup k).or (dict.lookup k) := by
    induction items with
    | nil => exact fun _ => rfl
    | cons item rest ih =>
        intro dict
        rw [List.foldl_cons, ih, lookup_setItem, List.reverse_cons, List.lookup_append,
          Option.or_assoc, List.lookup_cons]
        by_cases hk : k = item.1
        · rw [if_pos hk, hk, beq_self_eq_true]
          rfl
        · rw [if_neg hk, beq_eq_false_iff_ne.mpr hk]
          rfl
  exact (hfold []).trans Option.or_none

theorem lookup_ofItems_append (items others : List (κ × α)) (k : κ) :
    (ofItems (items ++ others)).lookup k =
      ((ofItems others).lookup k).or ((ofItems items).lookup k) := by
  rw [lookup_ofItems, lookup_ofItems, lookup_ofItems, List.reverse_append, List.lookup_append]

theorem mem_ofItems_keys {items : List (κ × α)} {k : κ} :
    k ∈ (ofItems items).map (·.1) ↔ k ∈ items.map (·.1) := by
  rw [← lookup_isSome_iff, lookup_ofItems, lookup_isSome_iff, List.map_reverse, List.mem_reverse]

/-- Dictionaries of items with the same keys have the same keys, and what relates the values
of the items relates theirs. -/
theorem forall₂_ofItems {R : α → β → Prop} {items : List (κ × α)} {others : List (κ × β)}
    (h : List.Forall₂ (fun item other => item.1 = other.1 ∧ R item.2 other.2) items others) :
    List.Forall₂ (fun item other => item.1 = other.1 ∧ R item.2 other.2) (ofItems items)
      (ofItems others) := by
  have hkeys : ∀ {dict : List (κ × α)} {dict' : List (κ × β)},
      List.Forall₂ (fun item other => item.1 = other.1 ∧ R item.2 other.2) dict dict' →
        dict.map (·.1) = dict'.map (·.1) := by
    intro dict dict' hdict
    induction hdict with
    | nil => rfl
    | cons hitem _ ih => rw [List.map_cons, List.map_cons, hitem.1, ih]
  have hfold : ∀ (dict : List (κ × α)) (dict' : List (κ × β)),
      List.Forall₂ (fun item other => item.1 = other.1 ∧ R item.2 other.2) dict dict' →
      List.Forall₂ (fun item other => item.1 = other.1 ∧ R item.2 other.2)
        (items.foldl (fun dict item => setItem dict item.1 item.2) dict)
        (others.foldl (fun dict item => setItem dict item.1 item.2) dict') := by
    induction h with
    | nil => exact fun _ _ hdict => hdict
    | @cons item other _ _ hitem _ ih =>
        intro dict dict' hdict
        apply ih
        simp only [setItem, hkeys hdict, hitem.1]
        split
        · rw [List.forall₂_map_left_iff, List.forall₂_map_right_iff]
          apply hdict.imp
          intro old old' hold
          rw [hold.1]
          split
          · exact ⟨rfl, hitem.2⟩
          · exact hold
        · exact List.rel_append hdict (.cons ⟨rfl, hitem.2⟩ .nil)
  exact hfold [] [] .nil

/-- Items with distinct keys are a dictionary as they are. -/
theorem ofItems_of_nodup (h : (items.map (·.1)).Nodup) : ofItems items = items := by
  have hfold : ∀ dict : List (κ × α), ((dict ++ items).map (·.1)).Nodup →
      items.foldl (fun dict item => setItem dict item.1 item.2) dict = dict ++ items := by
    clear h
    induction items with
    | nil => exact fun dict _ => (List.append_nil dict).symm
    | cons item rest ih =>
        intro dict hdict
        have hnew : item.1 ∉ dict.map (·.1) := by
          rw [List.map_append, List.nodup_append] at hdict
          exact fun hmem => hdict.2.2 _ hmem _ (by simp) rfl
        rw [List.foldl_cons, setItem, if_neg hnew, ih, List.append_assoc, List.singleton_append]
        rwa [List.append_assoc, List.singleton_append]
  exact hfold [] h

end Assignment

end Dictionaries
