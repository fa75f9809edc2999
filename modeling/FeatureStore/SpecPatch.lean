import FeatureStore.EditRuns

/-!
# Differences as a patch

Each difference shows what the existing and the proposed object hold at its path, no path
occurs twice, and applying the differences to the existing object gives the proposed one.
-/

namespace FeatureStore

section Patches

theorem leafEq_refl {value : Value} (hkind : ¬SameKind value value) : leafEq value value := by
  cases value with
  | list items => exact absurd (.list items items) hkind
  | dict members => exact absurd (.dict members members) hkind
  | float token =>
      by_cases hnan : token = "NaN"
      · exact Or.inr ⟨by rw [hnan], by rw [hnan]⟩
      · exact Or.inl (by simp [scalarEq, hnan])
  | _ => exact Or.inl (by simp [scalarEq, Value.asInt?])

/-- Applying the edits of what two values hold in a place gives what the second one holds. -/
def Patched (slot slot' : Option Value) : Prop :=
  ∃ result, runEdits (patchOrder (slotEdits slot slot')) slot = some result ∧
    Option.Rel (Value.AgreesBy leafEq) result slot'

theorem patched_slot {slot slot' : Option Value}
    (h : ∀ a b, slot = some a → slot' = some b → Patched (some a) (some b)) :
    Patched slot slot' := by
  cases slot with
  | none =>
      cases slot' with
      | none => exact ⟨none, rfl, .none⟩
      | some b => exact ⟨some b, rfl, .some (agreesBy_refl (fun _ => leafEq_refl) b)⟩
  | some a =>
      cases slot' with
      | none => exact ⟨none, rfl, .none⟩
      | some b => exact h a b rfl rfl

theorem mem_patchOrder {edits : List Edit} {edit : Edit} :
    edit ∈ patchOrder edits ↔ edit ∈ edits := by
  rw [patchOrder, List.mem_append, keptEdits, removedEdits, List.mem_reverse, List.mem_filter,
    List.mem_filter]
  by_cases hremoved : edit.operation = .removed
  · simp [hremoved]
  · simp [hremoved]

theorem patched_leaf {a b : Value} (hkind : ¬SameKind a b) : Patched (some a) (some b) := by
  rw [Patched, slotEdits, edits_leaf hkind]
  split
  · rename_i hscalar
    exact ⟨some a, rfl, .some (.leaf hkind (Or.inl hscalar))⟩
  · exact ⟨some b, rfl, .some (agreesBy_refl (fun _ => leafEq_refl) b)⟩

theorem patched_dict {members others : List (String × Value)}
    (ha : (Value.dict members).hasDistinctKeys = true)
    (hb : (Value.dict others).hasDistinctKeys = true)
    (h : ∀ key, Patched (members.lookup key) (others.lookup key)) :
    Patched (some (.dict members)) (some (.dict others)) := by
  choose slots hruns hagree using h
  have hkind := SameKind.dict members others
  have hparts : ∀ edit ∈ patchOrder (edits (.dict members) (.dict others)), edit.parts ≠ [] := by
    intro edit hedit hparts
    obtain ⟨groups, hedits, -⟩ := exists_groups hkind ha hb
    rw [mem_patchOrder, hedits, mem_belowKeys] at hedit
    obtain ⟨group, -, below, -, rfl⟩ := hedit
    cases hparts
  obtain ⟨members', hrun, hlookup⟩ := runEdits_dict hparts fun key => by
    rw [tailsAt_patchOrder, tailsAt_edits hkind ha hb]
    exact hruns key
  refine ⟨some (.dict members'), hrun, .some (agreesBy_dict.mpr fun key => ?_)⟩
  rw [hlookup]
  exact hagree key

/-- The edits of the items that two arrays both have. -/
def commonEdits (items others : List Value) : List Edit :=
  belowKeys ((List.range (min items.length others.length)).map fun i =>
    (toString i, slotEdits items[i]? others[i]?))

/-- The edits of the items that only one of two arrays has. -/
def endEdits (items others : List Value) : List Edit :=
  let length := min items.length others.length
  ((others.drop length).zipIdx length).map
      (fun item => ⟨[toString item.2], .added, .null, item.1⟩) ++
    ((items.drop length).zipIdx length).map
      fun item => ⟨[toString item.2], .removed, item.1, .null⟩

/-- Keys with one edit each. -/
theorem belowKeys_singletons {α : Type} {indices : List α} {groups : α → String × List Edit}
    {edit : α → Edit} (h : ∀ i ∈ indices, ∃ below, (groups i).2 = [below] ∧
      below.under (groups i).1 = edit i) : belowKeys (indices.map groups) = indices.map edit := by
  rw [belowKeys, List.flatMap_map, List.map_eq_flatMap]
  apply List.flatMap_congr
  intro i hi
  obtain ⟨below, hgroup, hedit⟩ := h i hi
  rw [hgroup, List.map_singleton, hedit]

/-- The items from an index on, each with its index. -/
theorem zipIdx_drop (items : List Value) (length : Nat) :
    (items.drop length).zipIdx length = (List.range (items.length - length)).map fun i =>
      ((items[length + i]?).getD .null, length + i) := by
  apply List.ext_getElem
  · simp
  · intro i hi _
    have hlt : length + i < items.length := by
      simp at hi
      omega
    simp [hlt]

theorem edits_list_split (items others : List Value) :
    edits (.list items) (.list others) = commonEdits items others ++ endEdits items others := by
  have hrange : List.range (max items.length others.length) =
      List.range (min items.length others.length) ++
        (List.range (max items.length others.length - min items.length others.length)).map
          (min items.length others.length + ·) := by
    rw [← List.range_add]
    congr 1
    omega
  rw [edits_list, hrange, List.map_append, belowKeys, List.flatMap_append, ← belowKeys, ← belowKeys]
  apply congrArg (commonEdits items others ++ ·)
  rw [endEdits, List.map_map]
  by_cases hle : items.length ≤ others.length
  · rw [min_eq_left hle, max_eq_right hle, List.drop_length, List.zipIdx_nil, List.map_nil,
      List.append_nil, zipIdx_drop, List.map_map]
    apply belowKeys_singletons
    intro i hi
    have hother : items.length + i < others.length := by
      have hlt := List.mem_range.mp hi
      omega
    refine ⟨⟨[], .added, .null, others[items.length + i]⟩, ?_, ?_⟩
    · simp [slotEdits, hother]
    · simp [Edit.under, hother]
  · have hlt := Nat.lt_of_not_le hle
    rw [min_eq_right hlt.le, max_eq_left hlt.le, List.drop_length, List.zipIdx_nil, List.map_nil,
      List.nil_append, zipIdx_drop, List.map_map]
    apply belowKeys_singletons
    intro i hi
    have hitem : others.length + i < items.length := by
      have hlt := List.mem_range.mp hi
      omega
    refine ⟨⟨[], .removed, items[others.length + i], .null⟩, ?_, ?_⟩
    · simp [slotEdits, hitem]
    · simp [Edit.under, hitem]

theorem patchOrder_of_kept {edits : List Edit} (h : ∀ edit ∈ edits, edit.operation ≠ .removed) :
    patchOrder edits = edits := by
  have hkept : edits.filter (fun edit => decide (edit.operation ≠ .removed)) = edits :=
    List.filter_eq_self.mpr fun edit hedit => decide_eq_true (h edit hedit)
  have hremoved : edits.filter (fun edit => decide (edit.operation = .removed)) = [] :=
    List.filter_eq_nil_iff.mpr fun edit hedit hp => h edit hedit (of_decide_eq_true hp)
  rw [patchOrder, keptEdits, removedEdits, hkept, hremoved, List.reverse_nil, List.append_nil]

theorem patchOrder_of_removed {edits : List Edit}
    (h : ∀ edit ∈ edits, edit.operation = .removed) : patchOrder edits = edits.reverse := by
  have hkept : edits.filter (fun edit => decide (edit.operation ≠ .removed)) = [] :=
    List.filter_eq_nil_iff.mpr fun edit hedit hp => of_decide_eq_true hp (h edit hedit)
  have hremoved : edits.filter (fun edit => decide (edit.operation = .removed)) = edits :=
    List.filter_eq_self.mpr fun edit hedit => decide_eq_true (h edit hedit)
  rw [patchOrder, keptEdits, removedEdits, hkept, hremoved, List.nil_append]

/-- The end of the one array gives way to that of the other. -/
theorem runEdits_end (items others mids : List Value)
    (hlength : mids.length = min items.length others.length) :
    runEdits (patchOrder (endEdits items others))
        (some (.list (mids ++ items.drop (min items.length others.length)))) =
      some (some (.list (mids ++ others.drop (min items.length others.length)))) := by
  rw [endEdits]
  by_cases hle : items.length ≤ others.length
  · rw [min_eq_left hle] at hlength ⊢
    rw [List.drop_length, List.zipIdx_nil, List.map_nil, List.append_nil, List.append_nil,
      patchOrder_of_kept, ← hlength]
    · exact runEdits_added mids _
    · intro edit hedit
      obtain ⟨item, -, rfl⟩ := List.mem_map.mp hedit
      exact nofun
  · rw [min_eq_right (Nat.lt_of_not_le hle).le] at hlength ⊢
    rw [List.drop_length, List.zipIdx_nil, List.map_nil, List.nil_append, List.append_nil,
      patchOrder_of_removed, ← hlength]
    · exact runEdits_removed mids _
    · intro edit hedit
      obtain ⟨item, -, rfl⟩ := List.mem_map.mp hedit
      rfl

theorem patchOrder_append (before after : List Edit) :
    patchOrder (before ++ after) =
      keptEdits before ++ (patchOrder after ++ removedEdits before) := by
  simp [patchOrder, keptEdits, removedEdits]

theorem tailsAt_commonEdits {items others : List Value} {index : Nat}
    (h : index < min items.length others.length) :
    tailsAt (toString index) (commonEdits items others) =
      slotEdits items[index]? others[index]? := by
  have hnodup : (((List.range (min items.length others.length)).map fun i =>
      (toString i, slotEdits items[i]? others[i]?)).map (·.1)).Nodup := by
    rw [List.map_map]
    exact List.nodup_range.map fun _ _ heq => toString_inj heq
  have hmem : (toString index, slotEdits items[index]? others[index]?) ∈
      (List.range (min items.length others.length)).map fun i =>
        (toString i, slotEdits items[i]? others[i]?) :=
    List.mem_map_of_mem (List.mem_range.mpr h)
  rw [commonEdits, tailsAt_belowKeys hnodup, (Dictionaries.lookup_eq_some_iff hnodup).mpr hmem]
  rfl

/-- Some of the edits of common items act on each of these items by itself. -/
theorem runEdits_common {items others : List Value} {edits : List Edit}
    (before after : Nat → Value) (rest : List Value)
    (ha : (Value.list items).hasDistinctKeys = true)
    (hb : (Value.list others).hasDistinctKeys = true)
    (hedits : ∀ edit ∈ edits, edit ∈ commonEdits items others)
    (hitems : ∀ i < min items.length others.length,
      runEdits (tailsAt (toString i) edits) (some (before i)) = some (some (after i))) :
    runEdits edits (some (.list
        ((List.range (min items.length others.length)).map before ++ rest))) =
      some (some (.list ((List.range (min items.length others.length)).map after ++ rest))) := by
  have hparts : ∀ edit ∈ edits, ∃ i below, i < min items.length others.length ∧
      edit.parts = toString i :: below ∧ (below = [] → edit.operation = .changed) := by
    intro edit hedit
    obtain ⟨group, hgroup, below, hbelow, rfl⟩ := mem_belowKeys.mp (hedits edit hedit)
    obtain ⟨i, hi, rfl⟩ := List.mem_map.mp hgroup
    have hlt := List.mem_range.mp hi
    have hitem : i < items.length := by omega
    have hother : i < others.length := by omega
    refine ⟨i, below.parts, hlt, rfl, fun hnil => ?_⟩
    rw [List.getElem?_eq_getElem hitem, List.getElem?_eq_getElem hother] at hbelow
    apply edits_inner _ _ hbelow hnil
    · rw [Value.hasDistinctKeys, itemsHaveDistinctKeys_iff] at ha
      exact ha _ (List.getElem_mem hitem)
    · rw [Value.hasDistinctKeys, itemsHaveDistinctKeys_iff] at hb
      exact hb _ (List.getElem_mem hother)
  apply runEdits_list
  · simp
  · intro edit hedit
    obtain ⟨i, below, hlt, hsplit, hinner⟩ := hparts edit hedit
    refine ⟨i, below, ?_, hsplit, hinner⟩
    rw [List.length_append, List.length_map, List.length_range]
    omega
  · intro i
    by_cases hlt : i < min items.length others.length
    · have hsame : ∀ values : Nat → Value,
          ((List.range (min items.length others.length)).map values ++ rest)[i]? =
            some (values i) := by
        intro values
        rw [List.getElem?_append_left (by simpa using hlt), List.getElem?_map,
          List.getElem?_range hlt]
        rfl
      rw [hsame, hsame]
      exact hitems i hlt
    · have hnone : tailsAt (toString i) edits = [] := by
        rw [tailsAt, List.filterMap_eq_nil_iff]
        intro edit hedit
        obtain ⟨j, below, hj, hsplit, -⟩ := hparts edit hedit
        rw [Edit.tail?, hsplit]
        apply if_neg
        intro heq
        exact hlt (toString_inj heq ▸ hj)
      have hle := Nat.le_of_not_lt hlt
      rw [hnone, List.getElem?_append_right (by simpa using hle),
        List.getElem?_append_right (by simpa using hle), List.length_map, List.length_map]
      rfl

/-- Between the additions and changes and the removals of a patched value there is a value. -/
theorem Patched.split {a b : Value} (ha : a.hasDistinctKeys = true)
    (hb : b.hasDistinctKeys = true) (h : Patched (some a) (some b)) : ∃ mid final : Value,
      runEdits (keptEdits (edits a b)) (some a) = some (some mid) ∧
      runEdits (removedEdits (edits a b)) (some mid) = some (some final) ∧
      final.AgreesBy leafEq b := by
  obtain ⟨result, hrun, hagree⟩ := h
  rw [slotEdits, patchOrder, runEdits_append] at hrun
  obtain ⟨slot, hkept, hremoved⟩ := Option.bind_eq_some_iff.mp hrun
  obtain ⟨mid, rfl⟩ := runEdits_some (fun edit hedit hparts =>
    edits_inner ha hb (mem_of_mem_keptEdits hedit) hparts) hkept
  cases hagree with
  | some hfinal => exact ⟨mid, _, hkept, hremoved, hfinal⟩

theorem range_map_append_drop (items : List Value) {length : Nat} (h : length ≤ items.length) :
    (List.range length).map (fun i => (items[i]?).getD .null) ++ items.drop length = items := by
  have htake : (List.range length).map (fun i => (items[i]?).getD .null) = items.take length := by
    apply List.ext_getElem
    · simp [h]
    · intro i hi _
      have hlt : i < items.length := by
        simp at hi
        omega
      simp [hlt]
  rw [htake, List.take_append_drop]

theorem patched_list {items others : List Value}
    (ha : (Value.list items).hasDistinctKeys = true)
    (hb : (Value.list others).hasDistinctKeys = true)
    (h : ∀ index : Nat, Patched items[index]? others[index]?) :
    Patched (some (.list items)) (some (.list others)) := by
  have hsteps : ∀ i : Nat, ∃ mid final : Value, i < min items.length others.length →
      runEdits (keptEdits (slotEdits items[i]? others[i]?)) (some ((items[i]?).getD .null)) =
        some (some mid) ∧
      runEdits (removedEdits (slotEdits items[i]? others[i]?)) (some mid) = some (some final) ∧
      final.AgreesBy leafEq ((others[i]?).getD .null) := by
    intro i
    by_cases hlt : i < min items.length others.length
    · have hitem : i < items.length := by omega
      have hother : i < others.length := by omega
      have hi := h i
      rw [List.getElem?_eq_getElem hitem, List.getElem?_eq_getElem hother] at hi ⊢
      rw [Value.hasDistinctKeys, itemsHaveDistinctKeys_iff] at ha hb
      obtain ⟨mid, final, hsteps⟩ :=
        hi.split (ha _ (List.getElem_mem hitem)) (hb _ (List.getElem_mem hother))
      exact ⟨mid, final, fun _ => hsteps⟩
    · exact ⟨.null, .null, fun hlt' => absurd hlt' hlt⟩
  choose mids finals hsteps using hsteps
  have hkept := runEdits_common (fun i => (items[i]?).getD .null) mids
    (items.drop (min items.length others.length)) ha hb
    (fun _ => mem_of_mem_keptEdits) (by
      intro i hi
      rw [tailsAt_keptEdits, tailsAt_commonEdits hi]
      exact (hsteps i hi).1)
  rw [range_map_append_drop items (Nat.min_le_left _ _)] at hkept
  have hend := runEdits_end items others
    ((List.range (min items.length others.length)).map mids) (by simp)
  have hremoved := runEdits_common mids finals (others.drop (min items.length others.length)) ha hb
    (fun _ => mem_of_mem_removedEdits) (by
      intro i hi
      rw [tailsAt_removedEdits, tailsAt_commonEdits hi]
      exact (hsteps i hi).2.1)
  refine ⟨some (.list ((List.range (min items.length others.length)).map finals ++
    others.drop (min items.length others.length))), ?_, .some (.list (by simp) ?_)⟩
  · rw [slotEdits, edits_list_split, patchOrder_append, runEdits_append, hkept, Option.bind_some,
      runEdits_append, hend, Option.bind_some]
    exact hremoved
  · intro i item other hitem hother
    by_cases hlt : i < min items.length others.length
    · rw [List.getElem?_append_left (by simpa using hlt), List.getElem?_map,
        List.getElem?_range hlt] at hitem
      obtain rfl := Option.some.inj hitem
      have hfinal := (hsteps i hlt).2.2
      rwa [hother] at hfinal
    · have hle := Nat.le_of_not_lt hlt
      rw [List.getElem?_append_right (by simpa using hle), List.length_map, List.length_range,
        List.getElem?_drop, Nat.add_sub_cancel' hle] at hitem
      obtain rfl := Option.some.inj (hitem.symm.trans hother)
      exact agreesBy_refl (fun _ => leafEq_refl) item

/-- Applying the edits of two values to the first gives the second. -/
theorem patched {a b : Value} (ha : a.hasDistinctKeys = true) (hb : b.hasDistinctKeys = true) :
    Patched (some a) (some b) := by
  induction a using Value.childInduction generalizing b with
  | step a ih =>
      have hchildren : ∀ part, Patched (a.child part) (b.child part) := by
        intro part
        apply patched_slot
        intro child other hchild hother
        exact ih part child hchild (child_distinct ha hchild) (child_distinct hb hother)
      by_cases hkind : SameKind a b
      · cases hkind with
        | list items others =>
            apply patched_list ha hb
            intro index
            have hindex := hchildren (toString index)
            rwa [child_list, child_list] at hindex
        | dict members others => exact patched_dict ha hb hchildren
      · exact patched_leaf hkind

end Patches

/-- A JSON object. -/
structure JsonObject where
  members : Dict
  isJson : (Value.dict members).isJson = true
  distinctKeys : (Value.dict members).hasDistinctKeys = true

def JsonObject.value (object : JsonObject) : Value := .dict object.members

/-- The path of the difference is a pointer to what it shows of the two values. -/
def RegistryDifference.Holds (difference : RegistryDifference) (existing proposed : Value) : Prop :=
  ∃ parts, pointerParts difference.path = some parts ∧
    Edit.Holds ⟨parts, difference.operation, difference.existing, difference.proposed⟩
      (some existing) (some proposed)

section Texts

theorem applyDifference_difference (value : Value) (edit : Edit) :
    applyDifference value (edit.difference "") =
      (editSlot edit.operation edit.proposed edit.parts (some value)).bind id := by
  rw [applyDifference, Edit.difference, pointerParts_pointerText]
  rfl

theorem foldlM_applyDifference {edits : List Edit} {value final : Value}
    (hinner : ∀ edit ∈ edits, edit.parts = [] → edit.operation = .changed)
    (h : runEdits edits (some value) = some (some final)) :
    (edits.map (·.difference "")).foldlM applyDifference value = some final := by
  induction edits generalizing value with
  | nil => exact Option.some.inj h
  | cons edit rest ih =>
      obtain ⟨hedit, hrest⟩ := List.forall_mem_cons.mp hinner
      rw [runEdits_cons] at h
      obtain ⟨slot, hslot, h⟩ := Option.bind_eq_some_iff.mp h
      obtain ⟨next, rfl⟩ := editSlot_some hedit hslot
      rw [List.map_cons, List.foldlM_cons, applyDifference_difference, hslot]
      exact ih hrest h

theorem applyDifferences_eq (existing : Value) (edits : List Edit) :
    applyDifferences existing (edits.map (·.difference "")) =
      ((patchOrder edits).map (·.difference "")).foldlM applyDifference existing := by
  rw [applyDifferences, patchOrder, keptEdits, removedEdits, List.map_append, List.map_reverse,
    List.filter_map, List.filter_map]
  rfl

/-- The differences of two JSON objects are a faithful patch: their paths are distinct pointers
to what they show of the two objects, and applying them to the one gives the other. -/
theorem differences_faithful_patch (existing proposed : JsonObject) :
    ((differences existing.value proposed.value "").map (·.path)).Nodup ∧
      (∀ difference ∈ differences existing.value proposed.value "",
        difference.Holds existing.value proposed.value) ∧
      ∃ result, applyDifferences existing.value (differences existing.value proposed.value "") =
          some result ∧
        result.AgreesBy leafEq proposed.value := by
  have hedits : differences existing.value proposed.value "" =
      (edits existing.value proposed.value).map (·.difference "") :=
    differences_eq _ _ (Or.inr ⟨_, _, rfl, rfl⟩)
  rw [hedits]
  refine ⟨?_, ?_, ?_⟩
  · have hpaths : ((edits existing.value proposed.value).map (·.difference "")).map (·.path) =
        ((edits existing.value proposed.value).map (·.parts)).map (pointerText "") := by
      simp [Edit.difference, Function.comp_def]
    rw [hpaths]
    exact (edits_nodup existing.distinctKeys proposed.distinctKeys).map fun _ _ => pointerText_inj
  · intro difference hdifference
    obtain ⟨edit, hedit, rfl⟩ := List.mem_map.mp hdifference
    exact ⟨edit.parts, pointerParts_pointerText edit.parts,
      edits_hold existing.distinctKeys proposed.distinctKeys edit hedit⟩
  · obtain ⟨result, hrun, hagree⟩ := patched existing.distinctKeys proposed.distinctKeys
    cases hagree with
    | some hfinal =>
        refine ⟨_, ?_, hfinal⟩
        rw [applyDifferences_eq]
        apply foldlM_applyDifference _ hrun
        intro edit hedit hparts
        exact edits_inner existing.distinctKeys proposed.distinctKeys (mem_patchOrder.mp hedit)
          hparts

end Texts

end FeatureStore
