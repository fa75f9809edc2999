import Mathlib.Data.List.Nodup
import Mathlib.Data.List.Sort

/-!
# Keyed tables

A table is a list of rows under a primary key and one further unique column.
Both constraints are fields, so rows that violate them cannot be stored. An
`UPDATE ... WHERE` statement is a guard together with an assignment that leaves
the constrained columns alone; the number of affected rows is a separate count,
because callers branch on it.
-/

namespace Relational

variable {ρ κ υ : Type*}

/-- Rows in insertion order, distinct in `key` and distinct in `uniq`. -/
structure Table (key : ρ → κ) (uniq : ρ → υ) where
  rows : List ρ
  key_nodup : (rows.map key).Nodup
  uniq_nodup : (rows.map uniq).Nodup

/-- The SET clause of an update which leaves both constrained columns alone. -/
structure Assignment (key : ρ → κ) (uniq : ρ → υ) where
  set : ρ → ρ
  key_set : ∀ r, key (set r) = key r
  uniq_set : ∀ r, uniq (set r) = uniq r

namespace Table

variable {key : ρ → κ} {uniq : ρ → υ}

@[ext] theorem ext {t s : Table key uniq} (h : t.rows = s.rows) : t = s := by
  cases t
  cases s
  cases h
  rfl

def empty : Table key uniq := ⟨[], by simp, by simp⟩

/-- The rows satisfying a guard, in insertion order. -/
def select (t : Table key uniq) (guard : ρ → Bool) : List ρ := t.rows.filter guard

@[simp] theorem mem_select (t : Table key uniq) (guard : ρ → Bool) (r : ρ) :
    r ∈ t.select guard ↔ r ∈ t.rows ∧ guard r = true := by
  simp [select]

/-- The first selected row in the order `le`. -/
def selectFirst (t : Table key uniq) (guard : ρ → Bool) (le : ρ → ρ → Prop)
    [DecidableRel le] : Option ρ :=
  ((t.select guard).insertionSort le).head?

theorem mem_of_selectFirst {t : Table key uniq} {guard : ρ → Bool} {le : ρ → ρ → Prop}
    [DecidableRel le] {r : ρ} (h : t.selectFirst guard le = some r) :
    r ∈ t.rows ∧ guard r = true := by
  have hmem : r ∈ (t.select guard).insertionSort le := List.mem_of_mem_head? h
  rwa [List.mem_insertionSort, mem_select] at hmem

theorem selectFirst_eq_none_iff {t : Table key uniq} {guard : ρ → Bool} {le : ρ → ρ → Prop}
    [DecidableRel le] : t.selectFirst guard le = none ↔ ∀ r ∈ t.rows, guard r = false := by
  rw [selectFirst, List.head?_eq_none_iff, ← List.length_eq_zero_iff,
    List.length_insertionSort, List.length_eq_zero_iff, select, List.filter_eq_nil_iff]
  simp

/-- The first selected row precedes every other. -/
theorem selectFirst_le {t : Table key uniq} {guard : ρ → Bool} {le : ρ → ρ → Prop}
    [DecidableRel le] [Std.Total le] [IsTrans ρ le] {first r : ρ}
    (h : t.selectFirst guard le = some first) (hr : r ∈ t.rows) (hg : guard r = true) :
    le first r := by
  have hmem : r ∈ (t.select guard).insertionSort le := by
    rw [List.mem_insertionSort, mem_select]
    exact ⟨hr, hg⟩
  have hsorted := List.pairwise_insertionSort le (t.select guard)
  rw [selectFirst] at h
  cases hlist : (t.select guard).insertionSort le with
  | nil =>
      rw [hlist] at h
      cases h
  | cons head rest =>
      rw [hlist] at h hsorted hmem
      obtain rfl : head = first := Option.some.inj h
      cases List.mem_cons.mp hmem with
      | inl heq => exact heq ▸ (Std.Total.total r r).elim id id
      | inr hrest => exact List.rel_of_pairwise_cons hsorted hrest

/-- Where the order decides between rows, the row that precedes every other is selected. -/
theorem selectFirst_eq {t : Table key uniq} {guard : ρ → Bool} {le : ρ → ρ → Prop}
    [DecidableRel le] [Std.Total le] [IsTrans ρ le]
    (hanti : ∀ a b, le a b → le b a → key a = key b) {first : ρ} (hmem : first ∈ t.rows)
    (hg : guard first = true) (hle : ∀ r ∈ t.rows, guard r = true → le first r) :
    t.selectFirst guard le = some first := by
  cases hselect : t.selectFirst guard le with
  | none =>
      rw [selectFirst_eq_none_iff.mp hselect first hmem] at hg
      cases hg
  | some other =>
      obtain ⟨hother, hguard⟩ := mem_of_selectFirst hselect
      have hkey := hanti other first (selectFirst_le hselect hmem hg) (hle other hother hguard)
      exact congrArg some (List.inj_on_of_nodup_map t.key_nodup hother hmem hkey)

/-- The number of rows satisfying a guard. -/
def rowcount (t : Table key uniq) (guard : ρ → Bool) : Nat := t.rows.countP guard

/-- Apply an assignment to the rows satisfying a guard. -/
def update (t : Table key uniq) (guard : ρ → Bool) (a : Assignment key uniq) :
    Table key uniq where
  rows := t.rows.map fun r => if guard r then a.set r else r
  key_nodup := by
    have h : (fun r => key (if guard r then a.set r else r)) = key := by
      funext r
      split <;> simp [a.key_set]
    simpa [Function.comp_def, h] using t.key_nodup
  uniq_nodup := by
    have h : (fun r => uniq (if guard r then a.set r else r)) = uniq := by
      funext r
      split <;> simp [a.uniq_set]
    simpa [Function.comp_def, h] using t.uniq_nodup

@[simp] theorem update_rows (t : Table key uniq) (guard : ρ → Bool)
    (a : Assignment key uniq) :
    (t.update guard a).rows = t.rows.map fun r => if guard r then a.set r else r := rfl

theorem update_eq_self {t : Table key uniq} {guard : ρ → Bool} (a : Assignment key uniq)
    (h : ∀ r ∈ t.rows, guard r = false) : t.update guard a = t := by
  apply Table.ext
  rw [update_rows]
  exact (List.map_congr_left fun r hr => by simp [h r hr]).trans (List.map_id' _)

theorem update_congr {t : Table key uniq} {guard guard' : ρ → Bool}
    (a : Assignment key uniq) (h : ∀ r ∈ t.rows, guard r = guard' r) :
    t.update guard a = t.update guard' a := by
  apply Table.ext
  rw [update_rows, update_rows]
  exact List.map_congr_left fun r hr => by rw [h r hr]

/-- A row that an update has assigned is not assigned again by one whose guard it leaves. -/
theorem update_update {t : Table key uniq} {guard guard' : ρ → Bool} {a : Assignment key uniq}
    (h : ∀ r, guard r = true → guard' (a.set r) = false) :
    (t.update guard a).update guard' a = t.update (fun r => guard r || guard' r) a := by
  apply Table.ext
  simp only [update_rows, List.map_map]
  apply List.map_congr_left
  intro r hr
  cases hg : guard r with
  | true => simp [hg, h r hg]
  | false => simp [hg]

/-- A statement addressed to a list of primary keys that affects as many rows as there
are keys has found a row for each of them. -/
theorem exists_of_rowcount {t : Table key uniq} {guard : ρ → Bool} {keys : List κ}
    (hguard : ∀ r, guard r = true → key r ∈ keys) (hcount : t.rowcount guard = keys.length)
    {k : κ} (hk : k ∈ keys) : ∃ r ∈ t.rows, key r = k ∧ guard r = true := by
  have hnodup : ((t.rows.filter guard).map key).Nodup :=
    t.key_nodup.sublist (List.filter_sublist.map key)
  have hsubset : (t.rows.filter guard).map key ⊆ keys := by
    intro x hx
    obtain ⟨r, hr, rfl⟩ := List.mem_map.mp hx
    exact hguard r (List.mem_filter.mp hr).2
  have hlength : keys.length ≤ ((t.rows.filter guard).map key).length := by
    rw [List.length_map, ← List.countP_eq_length_filter]
    exact hcount.ge
  have hperm := (List.subperm_of_subset hnodup hsubset).perm_of_length_le hlength
  obtain ⟨r, hr, hkey⟩ := List.mem_map.mp (hperm.mem_iff.mpr hk)
  obtain ⟨hmem, hmeets⟩ := List.mem_filter.mp hr
  exact ⟨r, hmem, hkey, hmeets⟩

section Lookup

variable [DecidableEq κ]

/-- The row stored under a primary key. -/
def find? (t : Table key uniq) (k : κ) : Option ρ :=
  t.rows.find? fun r => decide (key r = k)

theorem find?_some_iff {t : Table key uniq} {k : κ} {r : ρ} :
    t.find? k = some r ↔ r ∈ t.rows ∧ key r = k := by
  constructor
  · intro h
    exact ⟨List.mem_of_find?_eq_some h, by simpa using List.find?_some h⟩
  · rintro ⟨hmem, hkey⟩
    obtain ⟨s, hs⟩ : ∃ s, t.find? k = some s := by
      rw [← Option.isSome_iff_exists, find?, List.find?_isSome]
      exact ⟨r, hmem, by simp [hkey]⟩
    have hsk : key s = k := by simpa using List.find?_some hs
    rw [hs, Option.some.injEq]
    exact List.inj_on_of_nodup_map t.key_nodup (List.mem_of_find?_eq_some hs) hmem
      (hsk.trans hkey.symm)

theorem find?_of_mem {t : Table key uniq} {r : ρ} (h : r ∈ t.rows) :
    t.find? (key r) = some r :=
  find?_some_iff.mpr ⟨h, rfl⟩

theorem key_of_find? {t : Table key uniq} {k : κ} {r : ρ} (h : t.find? k = some r) :
    key r = k :=
  (find?_some_iff.mp h).2

theorem mem_of_find? {t : Table key uniq} {k : κ} {r : ρ} (h : t.find? k = some r) :
    r ∈ t.rows :=
  (find?_some_iff.mp h).1

theorem find?_none_iff {t : Table key uniq} {k : κ} :
    t.find? k = none ↔ ∀ r ∈ t.rows, key r ≠ k := by
  simp [find?]

/-- An update acts row by row: it neither moves nor renames a key. -/
theorem find?_update (t : Table key uniq) (guard : ρ → Bool) (a : Assignment key uniq)
    (k : κ) :
    (t.update guard a).find? k =
      (t.find? k).map fun r => if guard r then a.set r else r := by
  cases h : t.find? k with
  | none =>
      rw [Option.map_none, find?_none_iff]
      intro r hr
      obtain ⟨s, hs, rfl⟩ := List.mem_map.mp hr
      have hk := find?_none_iff.mp h s hs
      split <;> simpa [a.key_set] using hk
  | some r =>
      obtain ⟨hmem, hkey⟩ := find?_some_iff.mp h
      rw [Option.map_some, find?_some_iff]
      refine ⟨List.mem_map.mpr ⟨r, hmem, rfl⟩, ?_⟩
      split <;> simpa [a.key_set] using hkey

/-- Apply an assignment to the row stored under `k`. -/
def modify (t : Table key uniq) (k : κ) (a : Assignment key uniq) : Table key uniq :=
  t.update (fun r => decide (key r = k)) a

theorem find?_modify (t : Table key uniq) (k k' : κ) (a : Assignment key uniq) :
    (t.modify k a).find? k' =
      if k' = k then (t.find? k).map a.set else t.find? k' := by
  rw [modify, find?_update]
  by_cases hk : k' = k
  · subst k'
    rw [if_pos rfl]
    cases h : t.find? k with
    | none => rfl
    | some r => simp [key_of_find? h]
  · rw [if_neg hk]
    cases h : t.find? k' with
    | none => rfl
    | some r => simp [key_of_find? h, hk]

/-- Assignments that agree on the stored row have the same effect. -/
theorem modify_congr {t : Table key uniq} {k : κ} {a b : Assignment key uniq}
    (h : ∀ row, t.find? k = some row → a.set row = b.set row) : t.modify k a = t.modify k b := by
  apply ext
  rw [modify, modify, update_rows, update_rows]
  apply List.map_congr_left
  intro row hrow
  by_cases hkey : key row = k
  · simp only [hkey, decide_true, if_true, h row (hkey ▸ find?_of_mem hrow)]
  · simp only [hkey, decide_false, Bool.false_eq_true, if_false]

@[simp] theorem find?_modify_self (t : Table key uniq) (k : κ) (a : Assignment key uniq) :
    (t.modify k a).find? k = (t.find? k).map a.set := by
  simp [find?_modify]

theorem find?_modify_ne (t : Table key uniq) {k k' : κ} (a : Assignment key uniq)
    (h : k' ≠ k) : (t.modify k a).find? k' = t.find? k' := by
  simp [find?_modify, h]

/-- A statement addressed to one primary key reads that row and no other. -/
theorem update_at (t : Table key uniq) (k : κ) (guard : ρ → Bool) (a : Assignment key uniq) :
    t.update (fun r => decide (key r = k) && guard r) a =
      if (t.find? k).any guard then t.modify k a else t := by
  split
  · rename_i h
    apply update_congr
    intro r hr
    by_cases hk : key r = k
    · subst k
      simpa [find?_of_mem hr] using h
    · simp [hk]
  · rename_i h
    apply update_eq_self
    intro r hr
    by_cases hk : key r = k
    · subst k
      simpa [find?_of_mem hr] using h
    · simp [hk]

theorem rowcount_at (t : Table key uniq) (k : κ) (guard : ρ → Bool) :
    t.rowcount (fun r => decide (key r = k) && guard r) ≠ 0 ↔
      (t.find? k).any guard = true := by
  rw [← Nat.pos_iff_ne_zero, rowcount, List.countP_pos_iff]
  constructor
  · rintro ⟨r, hr, h⟩
    obtain ⟨hk, hg⟩ := Bool.and_eq_true_iff.mp h
    have hkey : key r = k := by simpa using hk
    subst k
    simpa [find?_of_mem hr] using hg
  · intro h
    obtain ⟨r, hr, hg⟩ := (Option.any_eq_true _ _).mp h
    exact ⟨r, mem_of_find? hr, by simp [key_of_find? hr, hg]⟩

/-- A statement addressed to a stored row that meets its guard affects that row. -/
theorem update_hit {t : Table key uniq} {k : κ} {r : ρ} (guard : ρ → Bool)
    (hr : t.find? k = some r) (hg : guard r = true) :
    t.rowcount (fun r => decide (key r = k) && guard r) ≠ 0 ∧
      ∀ a, t.update (fun r => decide (key r = k) && guard r) a = t.modify k a := by
  have hany : (t.find? k).any guard = true := by simpa [hr] using hg
  refine ⟨(t.rowcount_at k guard).mpr hany, fun a => ?_⟩
  rw [update_at, if_pos hany]

/-- A statement whose addressed row is absent or fails its guard affects nothing. -/
theorem update_miss {t : Table key uniq} {k : κ} (guard : ρ → Bool)
    (h : ∀ r, t.find? k = some r → guard r = false) :
    t.rowcount (fun r => decide (key r = k) && guard r) = 0 ∧
      ∀ a, t.update (fun r => decide (key r = k) && guard r) a = t := by
  have hany : ¬(t.find? k).any guard = true := by
    intro hany
    obtain ⟨r, hr, hg⟩ := (Option.any_eq_true _ _).mp hany
    exact absurd hg (by simp [h r hr])
  refine ⟨not_not.mp (mt (t.rowcount_at k guard).mp hany), fun a => ?_⟩
  rw [update_at, if_neg hany]

/-- The assignment leaves the rows that a guard selects, when it neither finds nor leaves
the addressed row among them. -/
theorem select_modify {t : Table key uniq} {k : κ} {a : Assignment key uniq} {guard : ρ → Bool}
    {r : ρ} (hr : t.find? k = some r) (hg : guard r = false) (hset : guard (a.set r) = false) :
    (t.modify k a).select guard = t.select guard := by
  have hrow : ∀ x ∈ t.rows, key x = k → x = r := by
    intro x hx hkey
    exact Option.some.inj ((find?_of_mem hx).symm.trans (hkey ▸ hr))
  have hsame : ∀ x ∈ t.rows,
      (guard ∘ fun x => if decide (key x = k) then a.set x else x) x = guard x := by
    intro x hx
    by_cases hkey : key x = k
    · obtain rfl := hrow x hx hkey
      simp [hkey, hg, hset]
    · simp [hkey]
  rw [select, select, modify, update_rows, List.filter_map, List.filter_congr hsame]
  refine (List.map_congr_left fun x hx => ?_).trans (List.map_id' _)
  obtain ⟨hmem, hguard⟩ := List.mem_filter.mp hx
  by_cases hkey : key x = k
  · rw [hrow x hmem hkey, hg] at hguard
    cases hguard
  · simp [hkey]

/-- A guard that the assignment makes false for a row that met it, and true for none, selects
fewer rows. -/
theorem rowcount_modify_lt {t : Table key uniq} {k : κ} {a : Assignment key uniq}
    {guard : ρ → Bool} {r : ρ} (hr : t.find? k = some r) (hg : guard r = true)
    (hset : guard (a.set r) = false) : (t.modify k a).rowcount guard < t.rowcount guard := by
  obtain ⟨hmem, hkey⟩ := find?_some_iff.mp hr
  have hmono : ∀ x ∈ t.rows,
      (guard ∘ fun x => if decide (key x = k) then a.set x else x) x = true → guard x = true := by
    intro x hx hguard
    by_cases hx' : key x = k
    · obtain rfl : x = r := Option.some.inj ((find?_of_mem hx).symm.trans (hx' ▸ hr))
      exact hg
    · simpa [hx'] using hguard
  obtain ⟨before, after, hrows⟩ := List.append_of_mem hmem
  rw [hrows] at hmono
  have hbefore := List.countP_mono_left fun x hx => hmono x (List.mem_append_left _ hx)
  have hafter := List.countP_mono_left fun x hx =>
    hmono x (List.mem_append_right _ (List.mem_cons_of_mem _ hx))
  rw [rowcount, rowcount, modify, update_rows, hrows, List.countP_map, List.countP_append,
    List.countP_append, List.countP_cons_of_pos hg,
    List.countP_cons_of_neg (by simp [hkey, hset])]
  omega

end Lookup

section UniqueLookup

variable [DecidableEq υ]

/-- The row stored under a value of the unique column. -/
def findUnique? (t : Table key uniq) (u : υ) : Option ρ :=
  t.rows.find? fun r => decide (uniq r = u)

theorem findUnique?_some_iff {t : Table key uniq} {u : υ} {r : ρ} :
    t.findUnique? u = some r ↔ r ∈ t.rows ∧ uniq r = u :=
  -- The unique column is a primary key of the same rows.
  find?_some_iff (t := (⟨t.rows, t.uniq_nodup, t.key_nodup⟩ : Table uniq key))

theorem findUnique?_none_iff {t : Table key uniq} {u : υ} :
    t.findUnique? u = none ↔ ∀ r ∈ t.rows, uniq r ≠ u := by
  simp [findUnique?]

end UniqueLookup

section Insert

variable [DecidableEq κ] [DecidableEq υ]

/-- Append a row, unless one of the two constraints is violated. -/
def insert? (t : Table key uniq) (r : ρ) : Option (Table key uniq) :=
  if h : key r ∉ t.rows.map key ∧ uniq r ∉ t.rows.map uniq then
    some
      { rows := t.rows ++ [r]
        key_nodup := by
          simpa [List.nodup_append, t.key_nodup] using h.1
        uniq_nodup := by
          simpa [List.nodup_append, t.uniq_nodup] using h.2 }
  else none

theorem insert?_rows {t s : Table key uniq} {r : ρ} (h : t.insert? r = some s) :
    s.rows = t.rows ++ [r] := by
  unfold insert? at h
  split at h
  · cases h
    rfl
  · cases h

theorem insert?_fresh {t s : Table key uniq} {r : ρ} (h : t.insert? r = some s) :
    t.find? (key r) = none := by
  unfold insert? at h
  split at h
  · rename_i hfree
    rw [find?_none_iff]
    intro x hx hk
    exact hfree.1 (List.mem_map.mpr ⟨x, hx, hk⟩)
  · cases h

/-- Where both constraints are on one key, an insert fails only on a stored key. -/
theorem find?_of_insert?_none {t : Table key key} {r : ρ} (h : t.insert? r = none) :
    ∃ row, t.find? (key r) = some row := by
  apply Option.isSome_iff_exists.mp
  rw [Option.isSome_iff_ne_none]
  intro hnone
  rw [find?_none_iff] at hnone
  have hfree : key r ∉ t.rows.map key := by
    rw [List.mem_map]
    rintro ⟨row, hrow, heq⟩
    exact hnone row hrow heq
  simp [insert?, hfree] at h

theorem find?_insert {t s : Table key uniq} {r : ρ} (h : t.insert? r = some s) (k : κ) :
    s.find? k = if k = key r then some r else t.find? k := by
  have hrows := insert?_rows h
  have hfresh := find?_none_iff.mp (insert?_fresh h)
  split
  · rename_i hk
    subst k
    exact find?_of_mem (by simp [hrows])
  · rename_i hk
    rw [find?, hrows, List.find?_append]
    simp [find?, eq_comm, hk]

/-- Append rows one after the other, or none of them. -/
def insertAll? (t : Table key uniq) (rows : List ρ) : Option (Table key uniq) :=
  rows.foldlM insert? t

theorem insertAll?_rows {t s : Table key uniq} {rows : List ρ}
    (h : t.insertAll? rows = some s) : s.rows = t.rows ++ rows := by
  induction rows generalizing t with
  | nil =>
      obtain rfl : t = s := by simpa [insertAll?] using h
      exact (List.append_nil _).symm
  | cons r rest ih =>
      obtain ⟨u, hfirst, hrest⟩ := Option.bind_eq_some_iff.mp h
      rw [ih hrest, insert?_rows hfirst, List.append_assoc]
      rfl

/-- The rows can be appended as long as all rows together keep both constraints. -/
theorem insertAll?_isSome_iff {t : Table key uniq} {rows : List ρ} :
    (t.insertAll? rows).isSome = true ↔
      ((t.rows ++ rows).map key).Nodup ∧ ((t.rows ++ rows).map uniq).Nodup := by
  constructor
  · intro h
    obtain ⟨s, hs⟩ := Option.isSome_iff_exists.mp h
    rw [← insertAll?_rows hs]
    exact ⟨s.key_nodup, s.uniq_nodup⟩
  · intro h
    induction rows generalizing t with
    | nil => rfl
    | cons r rest ih =>
        obtain ⟨hkey, huniq⟩ := h
        rw [List.append_cons] at hkey huniq
        have hfresh : key r ∉ t.rows.map key ∧ uniq r ∉ t.rows.map uniq := by
          constructor
          · intro hmem
            rw [List.map_append, List.map_append] at hkey
            exact List.disjoint_of_nodup_append (List.nodup_append.mp hkey).1 hmem (by simp)
          · intro hmem
            rw [List.map_append, List.map_append] at huniq
            exact List.disjoint_of_nodup_append (List.nodup_append.mp huniq).1 hmem (by simp)
        obtain ⟨u, hu⟩ : ∃ u, t.insert? r = some u := by
          rw [insert?, dif_pos hfresh]
          exact ⟨_, rfl⟩
        have hrows := insert?_rows hu
        have hrest := ih (t := u) (by rw [hrows]; exact ⟨hkey, huniq⟩)
        rw [insertAll?, List.foldlM_cons, hu]
        exact hrest

end Insert

end Table

end Relational
