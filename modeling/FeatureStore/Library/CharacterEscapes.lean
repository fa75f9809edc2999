import Mathlib.Data.String.Basic

/-!
# Replacing characters of a text

`String.replace` with the text of one character, as a map over the characters.
-/

namespace CharacterEscapes

open String String.Slice.Pattern String.Slice.Pattern.Model

/-- What becomes of a character when `c` is replaced by `r`. -/
def replaceChar (c : Char) (r : List Char) (d : Char) : List Char :=
  if d = c then r else [d]

theorem flatMap_replaceChar_eq_self {c : Char} {r chars : List Char} (h : c ∉ chars) :
    chars.flatMap (replaceChar c r) = chars := by
  induction chars with
  | nil => rfl
  | cons d rest ih =>
      have hd : d ≠ c := fun heq => h (heq ▸ List.mem_cons_self)
      rw [List.flatMap_cons, ih fun hmem => h (List.mem_cons_of_mem _ hmem), replaceChar, if_neg hd,
        List.singleton_append]

/-- A search adds the replaced text from its position on. -/
theorem fold_search {s : Slice} {c : Char} {r : String} {add : String → SearchStep s → String}
    (hmatched : ∀ sofar start stop,
      (add sofar (.matched start stop)).toList = sofar.toList ++ r.toList)
    (hrejected : ∀ sofar start stop,
      (add sofar (.rejected start stop)).toList = sofar.toList ++ (s.slice! start stop).copy.toList)
    {pos : s.Pos} {steps : List (SearchStep s)}
    (h : IsValidSearchFrom (String.singleton c) pos steps) {before after : String}
    (hpos : pos.Splits before after) (sofar : String) :
    (steps.foldl add sofar).toList =
      sofar.toList ++ after.toList.flatMap (replaceChar c r.toList) := by
  induction h generalizing before after sofar with
  | endPos =>
      obtain rfl := hpos.eq_right (Slice.splits_endPos s)
      simp
  | matched hmatch _ ih =>
      obtain ⟨t₁, t₂, hstart, hend⟩ := ForwardStringSearcher.isLongestMatchAt_iff_splits.mp hmatch
      obtain ⟨rfl, rfl⟩ := hpos.eq hstart
      rw [List.foldl_cons, ih hend, hmatched]
      simp [replaceChar]
  | mismatched hlt hnone _ ih =>
      rename_i startPos endPos rest
      have hend := endPos.splits
      have hle := Std.le_of_lt hlt
      obtain ⟨middle, hslice⟩ : ∃ middle, (s.slice startPos endPos hle).copy = middle := ⟨_, rfl⟩
      have hbefore : (s.sliceTo endPos).copy = before ++ middle := by
        rw [← hslice, ← toByteArray_inj, toByteArray_append, hend.toByteArray_eq_left,
          hpos.toByteArray_eq_left, Slice.toByteArray_copy_slice]
        exact ByteArray.extract_eq_extract_append_extract _ (by simp) hle
      obtain rfl : after = middle ++ (s.sliceFrom endPos).copy := by
        rw [← append_right_inj before, ← String.append_assoc, ← hbefore, ← hpos.eq_append,
          ← hend.eq_append]
      have hmiddle : c ∉ middle.toList := by
        intro hmem
        obtain ⟨left, right, hsplit⟩ := List.append_of_mem hmem
        have hcopy : s.copy = (before ++ String.ofList left) ++ (String.singleton c ++
            (String.ofList right ++ (s.sliceFrom endPos).copy)) := by
          rw [hpos.eq_append, String.ext_iff]
          simp [hsplit]
        have hat := Slice.Pos.splits_ofEqAppend hcopy
        apply hnone _ _ _ (ForwardStringSearcher.matchesAt_iff_splits.mpr ⟨_, _, hat⟩)
        · rw [hpos.le_iff_exists_eq_append hat]
          refine ⟨String.ofList left, rfl, ?_⟩
          rw [String.ext_iff]
          simp [hsplit]
        · rw [hat.lt_iff_exists_eq_append hend]
          refine ⟨String.ofList (c :: right), by simp, ?_, ?_⟩
          · rw [hbefore, String.ext_iff]
            simp [hsplit]
          · rw [String.ext_iff]
            simp
      rw [List.foldl_cons, ih hend, hrejected]
      simp [← Slice.slice_eq_slice! (h := hle), hslice, flatMap_replaceChar_eq_self hmiddle]

/-- Replacing the text of a character replaces the character wherever it stands. -/
theorem toList_replace (s : String) (c : Char) (r : String) :
    (s.replace (String.singleton c) r).toList = s.toList.flatMap (replaceChar c r.toList) := by
  have hne : String.singleton c ≠ "" := by simp
  have hlawful := ForwardStringSearcher.lawfulToForwardSearcherModel hne
  have hsearch := hlawful.isValidSearchFrom_toList s.toSlice
  rw [String.replace, Slice.replace, ← Std.Iter.foldl_toList]
  refine (fold_search (r := r) ?_ ?_ hsearch (Slice.splits_startPos _) "").trans (by simp)
  · intro sofar start stop
    simp [ToSlice.toSlice]
  · intro sofar start stop
    simp

end CharacterEscapes
