import FeatureStore.JsonPointers
import Mathlib.Data.List.Induction

/-!
# Edits of values

What an edit does to a value, what the edits of two values say about them, and how a run of
edits acts on each key and item by itself.
-/

namespace FeatureStore

/-- The array index that a reference token writes. -/
def arrayIndex? (part : String) : Option Nat :=
  let index := Nat.ofDigitChars 10 part.toList 0
  if toString index = part then some index else none

/-- What a value holds under a key or an index. -/
def Value.child : Value → String → Option Value
  | .dict members, part => members.lookup part
  | .list items, part => (arrayIndex? part).bind (items[·]?)
  | _, _ => none

/-- What a JSON pointer leads to. -/
def Value.resolve : Value → List String → Option Value
  | value, [] => some value
  | value, part :: rest => (value.child part).bind (·.resolve rest)

/-- A value with another child; what follows a removed item moves up. -/
def Value.setChild : Value → String → Option Value → Option Value
  | .dict members, part, some child => some (.dict (Dictionaries.setItem members part child))
  | .dict members, part, none =>
      some (.dict (members.filter fun member => decide (member.1 ≠ part)))
  | .list items, part, some child =>
      (arrayIndex? part).bind fun index =>
        if index < items.length then some (.list (items.set index child))
        else if index = items.length then some (.list (items ++ [child]))
        else none
  | .list items, part, none =>
      (arrayIndex? part).bind fun index =>
        if index < items.length then some (.list (items.eraseIdx index)) else none
  | _, _, _ => none

/-- An edit of what may be absent: it adds where nothing is, and changes and removes where
something is. -/
def editSlot (operation : RegistryDiffOperation) (proposed : Value) :
    List String → Option Value → Option (Option Value)
  | [], slot =>
      match operation, slot with
      | .added, none => some (some proposed)
      | .changed, some _ => some (some proposed)
      | .removed, some _ => some none
      | _, _ => none
  | part :: rest, some value => do
      let child ← editSlot operation proposed rest (value.child part)
      let value ← value.setChild part child
      return some value
  | _ :: _, none => none

def applyDifference (value : Value) (difference : RegistryDifference) : Option Value := do
  let parts ← pointerParts difference.path
  let slot ← editSlot difference.operation difference.proposed parts (some value)
  slot

/-- Additions and changes in their order, then removals from the last one up. -/
def applyDifferences (existing : Value) (differences : List RegistryDifference) : Option Value :=
  (differences.filter (fun difference => decide (difference.operation ≠ .removed)) ++
    (differences.filter fun difference => decide (difference.operation = .removed)).reverse).foldlM
      applyDifference existing

/-- Two objects or two arrays. -/
inductive SameKind : Value → Value → Prop
  | list (items others : List Value) : SameKind (.list items) (.list others)
  | dict (members others : List (String × Value)) : SameKind (.dict members) (.dict others)

/-- Equality of values by a comparison of their leaves. -/
inductive Value.AgreesBy (leaf : Value → Value → Prop) : Value → Value → Prop
  | leaf {a b : Value} (hkind : ¬SameKind a b) (hleaf : leaf a b) : AgreesBy leaf a b
  | list {items others : List Value} (hlength : items.length = others.length)
      (hitems : ∀ (index : Nat) (item other : Value), items[index]? = some item →
        others[index]? = some other → AgreesBy leaf item other) :
      AgreesBy leaf (.list items) (.list others)
  | dict {members others : List (String × Value)}
      (hkeys : ∀ key, key ∈ members.map (·.1) ↔ key ∈ others.map (·.1))
      (hmembers : ∀ (key : String) (value other : Value), members.lookup key = some value →
        others.lookup key = some other → AgreesBy leaf value other) :
      AgreesBy leaf (.dict members) (.dict others)

/-- Leaves that `_differences` finds equal; a NaN, which no JSON text has, is only itself. -/
def leafEq (a b : Value) : Prop :=
  scalarEq a b = true ∨ (a = .float "NaN" ∧ b = .float "NaN")

/-- The operation of the difference and its values are those of the two objects. -/
def Edit.Holds (edit : Edit) (slot slot' : Option Value) : Prop :=
  match edit.operation with
  | .added => edit.existing = .null ∧ slot.bind (·.resolve edit.parts) = none ∧
      slot'.bind (·.resolve edit.parts) = some edit.proposed
  | .removed => slot.bind (·.resolve edit.parts) = some edit.existing ∧
      edit.proposed = .null ∧ slot'.bind (·.resolve edit.parts) = none
  | .changed => slot.bind (·.resolve edit.parts) = some edit.existing ∧
      slot'.bind (·.resolve edit.parts) = some edit.proposed

section Children

theorem arrayIndex?_toString (index : Nat) : arrayIndex? (toString index) = some index := by
  have hdigits : (toString index).toList = Nat.toDigits 10 index := by
    simp [toString, Nat.repr]
  rw [arrayIndex?, hdigits, Nat.ofDigitChars_ten_toDigits]
  exact if_pos rfl

theorem toString_inj {index other : Nat} (h : toString index = toString other) :
    index = other := by
  have hindex := congrArg arrayIndex? h
  rw [arrayIndex?_toString, arrayIndex?_toString] at hindex
  exact Option.some.inj hindex

theorem child_list (items : List Value) (index : Nat) :
    (Value.list items).child (toString index) = items[index]? := by
  rw [Value.child, arrayIndex?_toString, Option.bind_some]

/-- Induction on a value from its children. -/
theorem Value.childInduction {P : Value → Prop}
    (step : ∀ value : Value, (∀ part child, value.child part = some child → P child) → P value)
    (value : Value) : P value := by
  induction value using Value.induction with
  | scalar value hlist hdict =>
      apply step
      intro part child hchild
      cases value with
      | list items => exact absurd rfl (hlist items)
      | dict members => exact absurd rfl (hdict members)
      | _ => cases hchild
  | list items ih =>
      apply step
      intro part child hchild
      obtain ⟨index, -, hitem⟩ := Option.bind_eq_some_iff.mp hchild
      exact ih child (List.mem_of_getElem? hitem)
  | dict members ih =>
      apply step
      intro part child hchild
      obtain ⟨before, after, hsplit, -⟩ := List.lookup_eq_some_iff.mp hchild
      exact ih (part, child) (by simp [hsplit])

theorem child_distinct {value child : Value} {part : String} (h : value.hasDistinctKeys = true)
    (hchild : value.child part = some child) : child.hasDistinctKeys = true := by
  cases value with
  | list items =>
      rw [Value.hasDistinctKeys, itemsHaveDistinctKeys_iff] at h
      obtain ⟨index, -, hitem⟩ := Option.bind_eq_some_iff.mp hchild
      exact h child (List.mem_of_getElem? hitem)
  | dict members =>
      rw [Value.hasDistinctKeys_dict] at h
      exact h.1 _ ((Dictionaries.lookup_eq_some_iff h.2).mp hchild)
  | _ => cases hchild

/-- The edits of two objects or two arrays are those of their children. -/
theorem exists_groups {a b : Value} (hkind : SameKind a b) (ha : a.hasDistinctKeys = true)
    (hb : b.hasDistinctKeys = true) : ∃ groups : List (String × List Edit),
      edits a b = belowKeys groups ∧ (groups.map (·.1)).Nodup ∧
      (∀ group ∈ groups, group.2 = slotEdits (a.child group.1) (b.child group.1)) ∧
      ∀ part, part ∉ groups.map (·.1) → a.child part = none ∧ b.child part = none := by
  cases hkind with
  | list items others =>
      refine ⟨_, edits_list items others, ?_, ?_, ?_⟩
      · rw [List.map_map]
        exact (List.nodup_range).map fun _ _ h => toString_inj h
      · intro group hgroup
        obtain ⟨index, -, rfl⟩ := List.mem_map.mp hgroup
        rw [child_list, child_list]
      · intro part hpart
        have hnone : ∀ index, arrayIndex? part = some index →
            max items.length others.length ≤ index := by
          intro index hindex
          by_contra hlt
          apply hpart
          rw [arrayIndex?] at hindex
          split at hindex
          · rename_i htext
            rw [List.map_map, List.mem_map]
            refine ⟨index, List.mem_range.mpr (by omega), ?_⟩
            rw [← Option.some.inj hindex]
            exact htext
          · cases hindex
        rw [Value.child, Value.child]
        cases hindex : arrayIndex? part with
        | none => exact ⟨rfl, rfl⟩
        | some index =>
            have hle := hnone index hindex
            simp only [Option.bind_some, List.getElem?_eq_none_iff]
            omega
  | dict members others =>
      rw [Value.hasDistinctKeys_dict] at ha hb
      refine ⟨_, edits_dict members others, ?_, ?_, ?_⟩
      · rw [((sortByKey_perm _).map _).nodup_iff, List.map_append, List.map_map, List.map_map,
          List.nodup_append]
        refine ⟨ha.2, hb.2.sublist (List.filter_sublist.map _), ?_⟩
        intro key hkey other hother heq
        obtain ⟨item, hitem, rfl⟩ := List.mem_map.mp hother
        rw [List.mem_filter, Bool.not_eq_true', ← Bool.not_eq_true, List.contains_iff_mem] at hitem
        subst heq
        exact hitem.2 hkey
      · intro group hgroup
        rw [mem_sortByKey, List.mem_append, List.mem_map, List.mem_map] at hgroup
        rw [Value.child, Value.child]
        rcases hgroup with ⟨member, hmember, rfl⟩ | ⟨other, hother, rfl⟩
        · rw [(Dictionaries.lookup_eq_some_iff ha.2).mpr hmember]
        · rw [List.mem_filter, Bool.not_eq_true', ← Bool.not_eq_true,
            List.contains_iff_mem] at hother
          rw [(Dictionaries.lookup_eq_some_iff hb.2).mpr hother.1,
            Dictionaries.lookup_eq_none_iff.mpr hother.2]
      · intro part hpart
        rw [((sortByKey_perm _).map _).mem_iff, List.map_append, List.map_map, List.map_map,
          List.mem_append, not_or] at hpart
        rw [Value.child, Value.child, Dictionaries.lookup_eq_none_iff,
          Dictionaries.lookup_eq_none_iff]
        refine ⟨hpart.1, fun hother => ?_⟩
        obtain ⟨item, hitem, rfl⟩ := List.mem_map.mp hother
        apply hpart.2
        rw [List.mem_map]
        refine ⟨item, List.mem_filter.mpr ⟨hitem, ?_⟩, rfl⟩
        rw [Bool.not_eq_true', ← Bool.not_eq_true, List.contains_iff_mem]
        exact hpart.1

/-- Values that are not both objects or both arrays are compared as a whole. -/
theorem edits_leaf {a b : Value} (hkind : ¬SameKind a b) :
    edits a b = if scalarEq a b then [] else [⟨[], .changed, a, b⟩] := by
  rw [edits]
  · rintro members others rfl rfl
    exact hkind (.dict members others)
  · rintro items others rfl rfl
    exact hkind (.list items others)

end Children

section Agreement

theorem forall₂_iff_getElem? {α β : Type} {r : α → β → Prop} {items : List α} {others : List β} :
    List.Forall₂ r items others ↔ ∀ index : Nat, Option.Rel r items[index]? others[index]? := by
  induction items generalizing others with
  | nil =>
      constructor
      · intro h index
        cases h with
        | nil => exact .none
      · intro h
        cases others with
        | nil => exact .nil
        | cons other rest => cases h 0
  | cons item rest ih =>
      constructor
      · intro h index
        cases h with
        | cons hitem hrest =>
            cases index with
            | zero => exact .some hitem
            | succ index => exact ih.mp hrest index
      · intro h
        cases others with
        | nil => cases h 0
        | cons other others =>
            refine .cons ?_ (ih.mpr fun index => h (index + 1))
            cases h 0 with
            | some hitem => exact hitem

variable {leaf : Value → Value → Prop}

theorem agreesBy_leaf {a b : Value} (hkind : ¬SameKind a b) : a.AgreesBy leaf b ↔ leaf a b := by
  constructor
  · intro h
    cases h with
    | leaf _ hleaf => exact hleaf
    | list _ _ => exact absurd (.list _ _) hkind
    | dict _ _ => exact absurd (.dict _ _) hkind
  · exact .leaf hkind

theorem agreesBy_list {items others : List Value} :
    (Value.list items).AgreesBy leaf (.list others) ↔
      List.Forall₂ (Value.AgreesBy leaf) items others := by
  rw [List.forall₂_iff_get]
  constructor
  · intro h
    cases h with
    | leaf hkind _ => exact absurd (.list _ _) hkind
    | list hlength hitems =>
        exact ⟨hlength, fun i hi hi' => hitems i _ _ (List.getElem?_eq_getElem hi)
          (List.getElem?_eq_getElem hi')⟩
  · rintro ⟨hlength, hitems⟩
    refine .list hlength fun index item other hitem hother => ?_
    obtain ⟨hi, rfl⟩ := List.getElem?_eq_some_iff.mp hitem
    obtain ⟨hi', rfl⟩ := List.getElem?_eq_some_iff.mp hother
    exact hitems index hi hi'

theorem agreesBy_dict {members others : List (String × Value)} :
    (Value.dict members).AgreesBy leaf (.dict others) ↔
      ∀ key, Option.Rel (Value.AgreesBy leaf) (members.lookup key) (others.lookup key) := by
  constructor
  · intro h key
    cases h with
    | leaf hkind _ => exact absurd (.dict _ _) hkind
    | dict hkeys hmembers =>
        have hkey := hkeys key
        rw [← Dictionaries.lookup_isSome_iff, ← Dictionaries.lookup_isSome_iff] at hkey
        cases hvalue : members.lookup key with
        | none =>
            cases hother : others.lookup key with
            | none => exact .none
            | some other => simp [hvalue, hother] at hkey
        | some value =>
            cases hother : others.lookup key with
            | none => simp [hvalue, hother] at hkey
            | some other => exact .some (hmembers key value other hvalue hother)
  · intro h
    refine .dict (fun key => ?_) fun key value other hvalue hother => ?_
    · have hkey := h key
      rw [← Dictionaries.lookup_isSome_iff, ← Dictionaries.lookup_isSome_iff]
      generalize members.lookup key = slot at hkey ⊢
      generalize others.lookup key = slot' at hkey ⊢
      cases hkey with
      | none => rfl
      | some _ => exact iff_of_true rfl rfl
    · have hkey := h key
      rw [hvalue, hother] at hkey
      cases hkey with
      | some hagree => exact hagree

/-- Two objects or two arrays agree if their children do. -/
theorem agreesBy_children {a b : Value} (hkind : SameKind a b) : a.AgreesBy leaf b ↔
    ∀ part, Option.Rel (Value.AgreesBy leaf) (a.child part) (b.child part) := by
  cases hkind with
  | list items others =>
      rw [agreesBy_list, forall₂_iff_getElem?]
      constructor
      · intro h part
        rw [Value.child, Value.child]
        cases arrayIndex? part with
        | none => exact .none
        | some index => exact h index
      · intro h index
        have hindex := h (toString index)
        rwa [child_list, child_list] at hindex
  | dict members others => exact agreesBy_dict

theorem agreesBy_refl (hleaf : ∀ value, ¬SameKind value value → leaf value value)
    (value : Value) : value.AgreesBy leaf value := by
  induction value using Value.childInduction with
  | step value ih =>
      by_cases hkind : SameKind value value
      · rw [agreesBy_children hkind]
        intro part
        cases hchild : value.child part with
        | none => exact .none
        | some child => exact .some (ih part child hchild)
      · exact .leaf hkind (hleaf value hkind)

end Agreement

section Entries

theorem mem_belowKeys {groups : List (String × List Edit)} {edit : Edit} :
    edit ∈ belowKeys groups ↔ ∃ group ∈ groups, ∃ below ∈ group.2, below.under group.1 = edit := by
  rw [belowKeys, List.mem_flatMap]
  simp only [List.mem_map]

/-- The edits below distinct keys have distinct parts if those below each key do. -/
theorem belowKeys_nodup {groups : List (String × List Edit)} (h : (groups.map (·.1)).Nodup)
    (hgroups : ∀ group ∈ groups, (group.2.map (·.parts)).Nodup) :
    ((belowKeys groups).map (·.parts)).Nodup := by
  have hparts : (belowKeys groups).map (·.parts) =
      groups.flatMap fun group => (group.2.map (·.parts)).map (group.1 :: ·) := by
    rw [belowKeys, List.map_flatMap]
    simp [Edit.under, Function.comp_def]
  rw [hparts, List.nodup_flatMap]
  constructor
  · intro group hgroup
    exact (hgroups group hgroup).map fun _ _ heq => (List.cons.inj heq).2
  · apply (List.Nodup.of_map _ h).pairwise_of_forall_ne
    intro a ha b hb hne parts hfirst hsecond
    obtain ⟨rest, -, rfl⟩ := List.mem_map.mp hfirst
    obtain ⟨rest', -, heq⟩ := List.mem_map.mp hsecond
    exact hne (List.inj_on_of_nodup_map h ha hb (List.cons.inj heq).1.symm)

theorem slotEdits_nodup {slot slot' : Option Value}
    (h : ∀ a b, slot = some a → slot' = some b → ((edits a b).map (·.parts)).Nodup) :
    ((slotEdits slot slot').map (·.parts)).Nodup := by
  cases slot with
  | none => cases slot' <;> simp [slotEdits]
  | some a =>
      cases slot' with
      | none => simp [slotEdits]
      | some b => exact h a b rfl rfl

/-- No path occurs twice among the differences of two values. -/
theorem edits_nodup {a b : Value} (ha : a.hasDistinctKeys = true) (hb : b.hasDistinctKeys = true) :
    ((edits a b).map (·.parts)).Nodup := by
  induction a using Value.childInduction generalizing b with
  | step a ih =>
      by_cases hkind : SameKind a b
      · obtain ⟨groups, hedits, hnodup, hslots, -⟩ := exists_groups hkind ha hb
        rw [hedits]
        apply belowKeys_nodup hnodup
        intro group hgroup
        rw [hslots group hgroup]
        apply slotEdits_nodup
        intro child other hchild hother
        exact ih group.1 child hchild (child_distinct ha hchild) (child_distinct hb hother)
      · rw [edits_leaf hkind]
        split <;> simp

theorem Edit.holds_under {edit : Edit} {part : String} {a b : Value}
    (h : edit.Holds (a.child part) (b.child part)) : (edit.under part).Holds (some a) (some b) :=
  h

theorem slotEdits_hold {slot slot' : Option Value}
    (h : ∀ a b, slot = some a → slot' = some b →
      ∀ edit ∈ edits a b, edit.Holds (some a) (some b)) :
    ∀ edit ∈ slotEdits slot slot', edit.Holds slot slot' := by
  intro edit hedit
  cases slot with
  | none =>
      cases slot' with
      | none => cases hedit
      | some b =>
          rw [List.mem_singleton.mp hedit]
          exact ⟨rfl, rfl, rfl⟩
  | some a =>
      cases slot' with
      | none =>
          rw [List.mem_singleton.mp hedit]
          exact ⟨rfl, rfl, rfl⟩
      | some b => exact h a b rfl rfl edit hedit

/-- Each difference holds of the two values. -/
theorem edits_hold {a b : Value} (ha : a.hasDistinctKeys = true) (hb : b.hasDistinctKeys = true) :
    ∀ edit ∈ edits a b, edit.Holds (some a) (some b) := by
  induction a using Value.childInduction generalizing b with
  | step a ih =>
      intro edit hedit
      by_cases hkind : SameKind a b
      · obtain ⟨groups, hedits, -, hslots, -⟩ := exists_groups hkind ha hb
        rw [hedits, mem_belowKeys] at hedit
        obtain ⟨group, hgroup, below, hbelow, rfl⟩ := hedit
        rw [hslots group hgroup] at hbelow
        apply Edit.holds_under
        apply slotEdits_hold _ below hbelow
        intro child other hchild hother
        exact ih group.1 child hchild (child_distinct ha hchild) (child_distinct hb hother)
      · rw [edits_leaf hkind] at hedit
        split at hedit
        · cases hedit
        · rw [List.mem_singleton.mp hedit]
          exact ⟨rfl, rfl⟩

/-- What is no change has a path. -/
theorem edits_inner {a b : Value} (ha : a.hasDistinctKeys = true) (hb : b.hasDistinctKeys = true)
    {edit : Edit} (hedit : edit ∈ edits a b) (hparts : edit.parts = []) :
    edit.operation = .changed := by
  by_cases hkind : SameKind a b
  · obtain ⟨groups, hedits, -⟩ := exists_groups hkind ha hb
    rw [hedits, mem_belowKeys] at hedit
    obtain ⟨group, -, below, -, rfl⟩ := hedit
    cases hparts
  · rw [edits_leaf hkind] at hedit
    split at hedit
    · cases hedit
    · rw [List.mem_singleton.mp hedit]

end Entries

/-- Additions and changes. -/
def keptEdits (edits : List Edit) : List Edit :=
  edits.filter fun edit => decide (edit.operation ≠ .removed)

/-- Removals, the last one first. -/
def removedEdits (edits : List Edit) : List Edit :=
  (edits.filter fun edit => decide (edit.operation = .removed)).reverse

/-- The order in which differences are applied. -/
def patchOrder (edits : List Edit) : List Edit := keptEdits edits ++ removedEdits edits

def runEdits (edits : List Edit) (slot : Option Value) : Option (Option Value) :=
  edits.foldlM (fun slot edit => editSlot edit.operation edit.proposed edit.parts slot) slot

/-- The edit of what is under a key, if it is there. -/
def Edit.tail? (part : String) (edit : Edit) : Option Edit :=
  match edit.parts with
  | [] => none
  | first :: rest => if first = part then some { edit with parts := rest } else none

/-- The edits of what is under a key. -/
def tailsAt (part : String) (edits : List Edit) : List Edit := edits.filterMap (Edit.tail? part)

section Runs

theorem runEdits_append (before after : List Edit) (slot : Option Value) :
    runEdits (before ++ after) slot = (runEdits before slot).bind (runEdits after) :=
  List.foldlM_append

theorem runEdits_cons (edit : Edit) (rest : List Edit) (slot : Option Value) :
    runEdits (edit :: rest) slot =
      (editSlot edit.operation edit.proposed edit.parts slot).bind (runEdits rest) :=
  List.foldlM_cons

theorem Edit.tail?_operation {part : String} {edit below : Edit}
    (h : edit.tail? part = some below) : below.operation = edit.operation := by
  unfold Edit.tail? at h
  split at h
  · cases h
  · split at h
    · rw [← Option.some.inj h]
    · cases h

theorem tailsAt_filter (part : String) (p : RegistryDiffOperation → Bool) (edits : List Edit) :
    tailsAt part (edits.filter fun edit => p edit.operation) =
      (tailsAt part edits).filter fun edit => p edit.operation := by
  induction edits with
  | nil => rfl
  | cons edit rest ih =>
      rw [tailsAt] at ih
      cases htail : edit.tail? part with
      | none =>
          rw [List.filter_cons]
          split
          · rw [tailsAt, List.filterMap_cons_none htail, tailsAt, List.filterMap_cons_none htail,
              ih, tailsAt]
          · rw [tailsAt, ih, tailsAt, tailsAt, List.filterMap_cons_none htail]
      | some below =>
          have hoperation := Edit.tail?_operation htail
          rw [List.filter_cons]
          split
          · rename_i hp
            rw [tailsAt, List.filterMap_cons_some htail, tailsAt, List.filterMap_cons_some htail,
              List.filter_cons, hoperation, if_pos hp, ih, tailsAt]
          · rename_i hp
            rw [tailsAt, ih, tailsAt, tailsAt, List.filterMap_cons_some htail, List.filter_cons,
              hoperation, if_neg hp]

theorem mem_of_mem_keptEdits {edits : List Edit} {edit : Edit} (h : edit ∈ keptEdits edits) :
    edit ∈ edits :=
  List.mem_of_mem_filter h

theorem mem_of_mem_removedEdits {edits : List Edit} {edit : Edit}
    (h : edit ∈ removedEdits edits) : edit ∈ edits :=
  List.mem_of_mem_filter (List.mem_reverse.mp h)

theorem tailsAt_keptEdits (part : String) (edits : List Edit) :
    tailsAt part (keptEdits edits) = keptEdits (tailsAt part edits) :=
  tailsAt_filter part (fun operation => decide (operation ≠ .removed)) edits

theorem tailsAt_removedEdits (part : String) (edits : List Edit) :
    tailsAt part (removedEdits edits) = removedEdits (tailsAt part edits) := by
  have hremoved := tailsAt_filter part (fun operation => decide (operation = .removed)) edits
  rw [removedEdits, removedEdits, ← hremoved]
  simp [tailsAt, List.filterMap_reverse]

theorem tailsAt_patchOrder (part : String) (edits : List Edit) :
    tailsAt part (patchOrder edits) = patchOrder (tailsAt part edits) := by
  rw [patchOrder, patchOrder, ← tailsAt_keptEdits, ← tailsAt_removedEdits]
  simp [tailsAt]

theorem tailsAt_under (part : String) (first : String) (edits : List Edit) :
    tailsAt part (edits.map (·.under first)) = if first = part then edits else [] := by
  rw [tailsAt, List.filterMap_map]
  split
  · rename_i heq
    have hself : (Edit.tail? part ∘ fun edit : Edit => edit.under first) = some := by
      funext edit
      exact if_pos heq
    rw [hself, List.filterMap_some]
  · rename_i hne
    have hnone : (Edit.tail? part ∘ fun edit : Edit => edit.under first) = fun _ => none := by
      funext edit
      exact if_neg hne
    rw [hnone, List.filterMap_none]

theorem tailsAt_belowKeys {groups : List (String × List Edit)} (h : (groups.map (·.1)).Nodup)
    (part : String) : tailsAt part (belowKeys groups) = (groups.lookup part).getD [] := by
  induction groups with
  | nil => rfl
  | cons group rest ih =>
      rw [List.map_cons, List.nodup_cons] at h
      rw [belowKeys, List.flatMap_cons, tailsAt, List.filterMap_append, ← tailsAt, tailsAt_under,
        ← tailsAt, ← belowKeys, ih h.2, List.lookup_cons]
      by_cases hpart : group.1 = part
      · subst hpart
        rw [Dictionaries.lookup_eq_none_iff.mpr h.1]
        simp
      · rw [if_neg hpart, beq_eq_false_iff_ne.mpr (Ne.symm hpart), List.nil_append]

/-- The edits of two objects or arrays under a key are those of what both hold there. -/
theorem tailsAt_edits {a b : Value} (hkind : SameKind a b) (ha : a.hasDistinctKeys = true)
    (hb : b.hasDistinctKeys = true) (part : String) :
    tailsAt part (edits a b) = slotEdits (a.child part) (b.child part) := by
  obtain ⟨groups, hedits, hnodup, hslots, hnone⟩ := exists_groups hkind ha hb
  rw [hedits, tailsAt_belowKeys hnodup]
  by_cases hmem : part ∈ groups.map (·.1)
  · obtain ⟨group, hgroup, rfl⟩ := List.mem_map.mp hmem
    rw [(Dictionaries.lookup_eq_some_iff hnodup).mpr hgroup]
    exact hslots group hgroup
  · obtain ⟨hchild, hother⟩ := hnone part hmem
    rw [Dictionaries.lookup_eq_none_iff.mpr hmem, hchild, hother]
    rfl

/-- An edit of a value that is no addition or removal of it leaves a value. -/
theorem editSlot_some {operation : RegistryDiffOperation} {proposed value : Value}
    {parts : List String} {slot : Option Value} (hinner : parts = [] → operation = .changed)
    (h : editSlot operation proposed parts (some value) = some slot) :
    ∃ value', slot = some value' := by
  cases parts with
  | nil =>
      rw [hinner rfl] at h
      exact ⟨proposed, (Option.some.inj h).symm⟩
  | cons part rest =>
      obtain ⟨child, -, h⟩ := Option.bind_eq_some_iff.mp h
      obtain ⟨value', -, h⟩ := Option.bind_eq_some_iff.mp h
      exact ⟨value', (Option.some.inj h).symm⟩

theorem runEdits_some {edits : List Edit} {value : Value} {slot : Option Value}
    (hinner : ∀ edit ∈ edits, edit.parts = [] → edit.operation = .changed)
    (h : runEdits edits (some value) = some slot) : ∃ value', slot = some value' := by
  induction edits generalizing value with
  | nil => exact ⟨value, (Option.some.inj h).symm⟩
  | cons edit rest ih =>
      obtain ⟨hedit, hrest⟩ := List.forall_mem_cons.mp hinner
      rw [runEdits_cons] at h
      obtain ⟨next, hnext, h⟩ := Option.bind_eq_some_iff.mp h
      obtain ⟨value', rfl⟩ := editSlot_some hedit hnext
      exact ih hrest h

/-- The edits of an object act on each of its keys by themselves. -/
theorem runEdits_dict {edits : List Edit} {members : List (String × Value)}
    {slots : String → Option Value} (hparts : ∀ edit ∈ edits, edit.parts ≠ [])
    (hslots : ∀ key, runEdits (tailsAt key edits) (members.lookup key) = some (slots key)) :
    ∃ members', runEdits edits (some (.dict members)) = some (some (.dict members')) ∧
      ∀ key, members'.lookup key = slots key := by
  induction edits generalizing members with
  | nil => exact ⟨members, rfl, fun key => Option.some.inj (hslots key)⟩
  | cons edit rest ih =>
      obtain ⟨hedit, hrest⟩ := List.forall_mem_cons.mp hparts
      obtain ⟨part, below, hsplit⟩ := List.exists_cons_of_ne_nil hedit
      have htail : edit.tail? part = some { edit with parts := below } := by
        rw [Edit.tail?, hsplit]
        exact if_pos rfl
      have hpart := hslots part
      rw [tailsAt, List.filterMap_cons_some htail, ← tailsAt, runEdits_cons] at hpart
      obtain ⟨child, hchild, hpart⟩ := Option.bind_eq_some_iff.mp hpart
      obtain ⟨next, hnext, hlookup⟩ : ∃ next,
          (Value.dict members).setChild part child = some (.dict next) ∧
          ∀ key, next.lookup key = if key = part then child else members.lookup key := by
        cases child with
        | none => exact ⟨_, rfl, Dictionaries.lookup_filter_ne members part⟩
        | some child => exact ⟨_, rfl, Dictionaries.lookup_setItem members part child⟩
      obtain ⟨members', hrun, hmembers'⟩ := @ih next hrest (by
        intro key
        rw [hlookup]
        split
        · rename_i heq
          rw [heq]
          exact hpart
        · rename_i hne
          have hother := hslots key
          have hskip : edit.tail? key = none := by
            rw [Edit.tail?, hsplit]
            exact if_neg (Ne.symm hne)
          rwa [tailsAt, List.filterMap_cons_none hskip, ← tailsAt] at hother)
      refine ⟨members', ?_, hmembers'⟩
      have hstep : editSlot edit.operation edit.proposed edit.parts (some (.dict members)) =
          some (some (.dict next)) := by
        rw [hsplit, editSlot]
        change ((editSlot edit.operation edit.proposed below (members.lookup part)).bind _) = _
        rw [hchild]
        simp only [Option.bind_some, hnext]
        rfl
      rw [runEdits_cons, hstep]
      exact hrun

/-- The edits of the items of an array act on each of them by themselves. -/
theorem runEdits_list {edits : List Edit} {items finals : List Value}
    (hlength : finals.length = items.length)
    (hparts : ∀ edit ∈ edits, ∃ index rest, index < items.length ∧
      edit.parts = toString index :: rest ∧ (rest = [] → edit.operation = .changed))
    (hitems : ∀ index : Nat, runEdits (tailsAt (toString index) edits) items[index]? =
      some finals[index]?) :
    runEdits edits (some (.list items)) = some (some (.list finals)) := by
  induction edits generalizing items with
  | nil =>
      have hsame : items = finals :=
        List.ext_getElem? fun index => Option.some.inj (hitems index)
      rw [hsame]
      rfl
  | cons edit rest ih =>
      obtain ⟨⟨index, below, hindex, hsplit, hinner⟩, hrest⟩ := List.forall_mem_cons.mp hparts
      have htail : edit.tail? (toString index) = some { edit with parts := below } := by
        rw [Edit.tail?, hsplit]
        exact if_pos rfl
      have hitem := hitems index
      rw [tailsAt, List.filterMap_cons_some htail, ← tailsAt, runEdits_cons,
        List.getElem?_eq_getElem hindex] at hitem
      obtain ⟨slot, hslot, hitem⟩ := Option.bind_eq_some_iff.mp hitem
      obtain ⟨value, rfl⟩ := editSlot_some hinner hslot
      have hstep : editSlot edit.operation edit.proposed edit.parts (some (.list items)) =
          some (some (.list (items.set index value))) := by
        rw [hsplit, editSlot, child_list, List.getElem?_eq_getElem hindex]
        change ((editSlot edit.operation edit.proposed below (some items[index])).bind _) = _
        rw [hslot, Option.bind_some, Value.setChild, arrayIndex?_toString, Option.bind_some,
          if_pos hindex]
        rfl
      rw [runEdits_cons, hstep, Option.bind_some]
      apply ih
      · rw [List.length_set, hlength]
      · intro other hother
        obtain ⟨otherIndex, otherRest, hlt, hother⟩ := hrest other hother
        exact ⟨otherIndex, otherRest, by rwa [List.length_set], hother⟩
      · intro other
        rw [List.getElem?_set]
        split
        · rename_i heq
          subst heq
          exact hitem
        · rename_i hne
          have hskip : edit.tail? (toString other) = none := by
            rw [Edit.tail?, hsplit]
            exact if_neg fun heq => hne (toString_inj heq)
          have hkept := hitems other
          rwa [tailsAt, List.filterMap_cons_none hskip, ← tailsAt] at hkept

/-- Items are added at the end of an array. -/
theorem runEdits_added (items added : List Value) :
    runEdits ((added.zipIdx items.length).map fun item =>
        ⟨[toString item.2], .added, .null, item.1⟩) (some (.list items)) =
      some (some (.list (items ++ added))) := by
  induction added generalizing items with
  | nil =>
      rw [List.append_nil]
      rfl
  | cons value rest ih =>
      have hstep : editSlot .added value [toString items.length] (some (.list items)) =
          some (some (.list (items ++ [value]))) := by
        rw [editSlot, child_list, List.getElem?_eq_none (le_refl _)]
        change (((Value.list items).setChild (toString items.length) (some value)).bind _) = _
        rw [Value.setChild, arrayIndex?_toString, Option.bind_some, if_neg (lt_irrefl _),
          if_pos rfl]
        rfl
      have hrest := ih (items ++ [value])
      rw [List.length_append, List.length_singleton, List.append_assoc,
        List.singleton_append] at hrest
      rw [List.zipIdx_cons, List.map_cons, runEdits_cons, hstep]
      exact hrest

/-- Items are removed from the end of an array up. -/
theorem runEdits_removed (items removed : List Value) :
    runEdits ((removed.zipIdx items.length).map fun item =>
        ⟨[toString item.2], .removed, item.1, .null⟩).reverse (some (.list (items ++ removed))) =
      some (some (.list items)) := by
  induction removed using List.reverseRecOn with
  | nil =>
      rw [List.append_nil]
      rfl
  | append_singleton rest value ih =>
      have hlast : (items ++ (rest ++ [value]))[items.length + rest.length]? = some value := by
        rw [← List.append_assoc, ← List.length_append, List.getElem?_concat_length]
      have hstep : editSlot .removed .null [toString (items.length + rest.length)]
          (some (.list (items ++ (rest ++ [value])))) = some (some (.list (items ++ rest))) := by
        rw [editSlot, child_list, hlast]
        change (((Value.list (items ++ (rest ++ [value]))).setChild _ none).bind _) = _
        rw [Value.setChild, arrayIndex?_toString, Option.bind_some, if_pos (by simp),
          ← List.append_assoc, ← List.length_append, List.eraseIdx_append_of_length_le (le_refl _)]
        simp
      rw [List.zipIdx_append, List.map_append, List.reverse_append]
      change runEdits (_ :: _) _ = _
      rw [runEdits_cons]
      change (editSlot .removed .null [toString (items.length + rest.length)] _).bind _ = _
      rw [hstep]
      exact ih

end Runs

end FeatureStore
