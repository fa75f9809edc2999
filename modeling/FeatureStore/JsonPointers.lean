import FeatureStore.CanonicalJson
import FeatureStore.Library.CharacterEscapes
import FeatureStore.SpecDifferences

/-!
# The paths of differences

The path of a difference is a JSON pointer, which reads back as the keys and indices on the way
from the root. The walk of `_differences` is the same on these as on their texts.
-/

namespace FeatureStore

/-- The reference token of a key or an index. -/
def escapePart (part : String) : List Char :=
  part.toList.flatMap fun c =>
    if c = '~' then ['~', '0'] else if c = '/' then ['~', '1'] else [c]

/-- The key of a reference token. -/
def unescapePart : List Char → List Char
  | [] => []
  | '~' :: '0' :: rest => '~' :: unescapePart rest
  | '~' :: '1' :: rest => '/' :: unescapePart rest
  | c :: rest => c :: unescapePart rest

/-- The reference tokens of a pointer without its first slash. -/
def splitParts : List Char → List (List Char)
  | [] => [[]]
  | c :: rest =>
      if c = '/' then [] :: splitParts rest
      else match splitParts rest with
        | [] => [[c]]
        | first :: others => (c :: first) :: others

/-- The keys and indices that a JSON pointer names. -/
def pointerParts (pointer : String) : Option (List String) :=
  match pointer.toList with
  | [] => some []
  | '/' :: rest => some ((splitParts rest).map fun token => String.ofList (unescapePart token))
  | _ => none

/-- The pointer to what a list of keys and indices leads to. -/
def pointerText (path : String) (parts : List String) : String := parts.foldl jsonPointer path

section Pointers

theorem toList_jsonPointer (path part : String) :
    (jsonPointer path part).toList = path.toList ++ '/' :: escapePart part := by
  have hparts : ((part.replace "~" "~0").replace "/" "~1").toList = escapePart part := by
    change ((part.replace (String.singleton '~') "~0").replace (String.singleton '/') "~1").toList =
      escapePart part
    rw [CharacterEscapes.toList_replace, CharacterEscapes.toList_replace, List.flatMap_assoc,
      escapePart]
    apply List.flatMap_congr
    intro c _
    unfold CharacterEscapes.replaceChar
    by_cases htilde : c = '~'
    · subst htilde
      rfl
    · simp [htilde]
  rw [jsonPointer, String.toList_append, String.toList_append, hparts]
  simp

theorem slash_notMem_escapePart (part : String) : '/' ∉ escapePart part := by
  rw [escapePart, List.mem_flatMap]
  rintro ⟨c, -, hc⟩
  split at hc
  · exact absurd hc (by decide)
  · split at hc
    · exact absurd hc (by decide)
    · rename_i hne
      exact hne (List.mem_singleton.mp hc).symm

theorem unescapePart_cons {c : Char} (h : c ≠ '~') (rest : List Char) :
    unescapePart (c :: rest) = c :: unescapePart rest := by
  rw [unescapePart]
  · exact fun _ heq => absurd heq h
  · exact fun _ heq => absurd heq h

/-- A reference token tells its key. -/
theorem unescapePart_escapePart (part : String) :
    unescapePart (escapePart part) = part.toList := by
  rw [escapePart]
  induction part.toList with
  | nil => rfl
  | cons c rest ih =>
      rw [List.flatMap_cons]
      by_cases htilde : c = '~'
      · subst htilde
        exact congrArg ('~' :: ·) ih
      · by_cases hslash : c = '/'
        · subst hslash
          exact congrArg ('/' :: ·) ih
        · rw [if_neg htilde, if_neg hslash, List.singleton_append, unescapePart_cons htilde, ih]

theorem splitParts_eq_singleton {token : List Char} (h : '/' ∉ token) :
    splitParts token = [token] := by
  induction token with
  | nil => rfl
  | cons c rest ih =>
      rw [List.mem_cons, not_or] at h
      rw [splitParts, if_neg (Ne.symm h.1), ih h.2]

theorem splitParts_append {token : List Char} (h : '/' ∉ token) (rest : List Char) :
    splitParts (token ++ '/' :: rest) = token :: splitParts rest := by
  induction token with
  | nil => rfl
  | cons c token ih =>
      rw [List.mem_cons, not_or] at h
      rw [List.cons_append, splitParts, if_neg (Ne.symm h.1), ih h.2]

theorem toList_pointerText (path : String) (parts : List String) :
    (pointerText path parts).toList =
      path.toList ++ parts.flatMap fun part => '/' :: escapePart part := by
  induction parts generalizing path with
  | nil => simp [pointerText]
  | cons part rest ih =>
      rw [pointerText, List.foldl_cons, ← pointerText, ih, toList_jsonPointer]
      simp

theorem splitParts_flatMap (part : String) (rest : List String) :
    splitParts (escapePart part ++ rest.flatMap fun part => '/' :: escapePart part) =
      (part :: rest).map escapePart := by
  induction rest generalizing part with
  | nil =>
      rw [List.flatMap_nil, List.append_nil, splitParts_eq_singleton (slash_notMem_escapePart part)]
      rfl
  | cons other rest ih =>
      rw [List.flatMap_cons, List.cons_append, splitParts_append (slash_notMem_escapePart part), ih]
      rfl

/-- A pointer names the keys and indices it was made of. -/
theorem pointerParts_pointerText (parts : List String) :
    pointerParts (pointerText "" parts) = some parts := by
  rw [pointerParts, toList_pointerText]
  cases parts with
  | nil => rfl
  | cons part rest =>
      rw [List.flatMap_cons, List.cons_append]
      change some ((splitParts (escapePart part ++ _)).map _) = _
      rw [splitParts_flatMap, List.map_map]
      apply congrArg some
      apply (List.map_congr_left fun other _ => ?_).trans (List.map_id _)
      rw [Function.comp_apply, unescapePart_escapePart, String.ofList_toList, id]

theorem pointerText_inj {parts others : List String}
    (h : pointerText "" parts = pointerText "" others) : parts = others := by
  have hparts := congrArg pointerParts h
  rw [pointerParts_pointerText, pointerParts_pointerText] at hparts
  exact Option.some.inj hparts

end Pointers

/-- A difference with the keys and indices of its path. -/
structure Edit where
  parts : List String
  operation : RegistryDiffOperation
  existing : Value
  proposed : Value

def Edit.under (part : String) (edit : Edit) : Edit := { edit with parts := part :: edit.parts }

def Edit.difference (path : String) (edit : Edit) : RegistryDifference :=
  ⟨pointerText path edit.parts, edit.operation, edit.existing, edit.proposed⟩

/-- The edits below each of some keys. -/
def belowKeys (groups : List (String × List Edit)) : List Edit :=
  groups.flatMap fun group => group.2.map (·.under group.1)

mutual

/-- `_differences` with the parts of the paths. -/
def edits : Value → Value → List Edit
  | .dict members, .dict others =>
      belowKeys (sortByKey (memberEdits members others ++
        (others.filter fun other => !(members.map (·.1)).contains other.1).map fun other =>
          (other.1, [⟨[], .added, .null, other.2⟩])))
  | .list items, .list others => belowKeys (itemEdits items others 0)
  | existing, proposed =>
      if scalarEq existing proposed then [] else [⟨[], .changed, existing, proposed⟩]

def memberEdits : List (String × Value) → List (String × Value) → List (String × List Edit)
  | [], _ => []
  | (key, existing) :: rest, others =>
      (key, match others.lookup key with
        | some proposed => edits existing proposed
        | none => [⟨[], .removed, existing, .null⟩]) :: memberEdits rest others

def itemEdits : List Value → List Value → Nat → List (String × List Edit)
  | [], others, index =>
      (others.zipIdx index).map fun other => (toString other.2, [⟨[], .added, .null, other.1⟩])
  | existing :: rest, [], index =>
      (toString index, [⟨[], .removed, existing, .null⟩]) :: itemEdits rest [] (index + 1)
  | existing :: rest, proposed :: others, index =>
      (toString index, edits existing proposed) :: itemEdits rest others (index + 1)

end

/-- The edits of what may be absent. -/
def slotEdits : Option Value → Option Value → List Edit
  | some existing, some proposed => edits existing proposed
  | some existing, none => [⟨[], .removed, existing, .null⟩]
  | none, some proposed => [⟨[], .added, .null, proposed⟩]
  | none, none => []

section Edits

theorem memberEdits_eq (members others : List (String × Value)) :
    memberEdits members others =
      members.map fun member => (member.1, slotEdits (some member.2) (others.lookup member.1)) := by
  induction members with
  | nil => rfl
  | cons member rest ih =>
      rw [memberEdits, List.map_cons, ih]
      cases others.lookup member.1 <;> rfl

theorem itemEdits_eq (items others : List Value) (index : Nat) :
    itemEdits items others index = (List.range (max items.length others.length)).map fun i =>
      (toString (index + i), slotEdits items[i]? others[i]?) := by
  induction items generalizing others index with
  | nil =>
      rw [itemEdits, List.length_nil, Nat.zero_max]
      apply List.ext_getElem
      · simp
      · intro i hi hi'
        have hlength : i < others.length := by simpa using hi
        simp [slotEdits, List.getElem?_eq_getElem hlength]
  | cons existing rest ih =>
      cases others with
      | nil =>
          rw [itemEdits, ih, List.length_nil, Nat.max_zero, Nat.max_zero, List.length_cons,
            List.range_succ_eq_map, List.map_cons, List.map_map]
          simp [slotEdits, Function.comp_def, Nat.add_assoc, Nat.add_comm 1]
      | cons proposed others =>
          rw [itemEdits, ih, List.length_cons, List.length_cons, Nat.succ_max_succ,
            List.range_succ_eq_map, List.map_cons, List.map_map]
          simp [slotEdits, Function.comp_def, Nat.add_assoc, Nat.add_comm 1]

theorem edits_dict (members others : List (String × Value)) :
    edits (.dict members) (.dict others) = belowKeys (sortByKey
      ((members.map fun member =>
          (member.1, slotEdits (some member.2) (others.lookup member.1))) ++
        (others.filter fun other => !(members.map (·.1)).contains other.1).map fun other =>
          (other.1, slotEdits none (some other.2)))) := by
  rw [edits, memberEdits_eq]
  rfl

theorem edits_list (items others : List Value) :
    edits (.list items) (.list others) =
      belowKeys ((List.range (max items.length others.length)).map fun i =>
        (toString i, slotEdits items[i]? others[i]?)) := by
  rw [edits, itemEdits_eq]
  simp only [Nat.zero_add]

/-- The differences of some keys at a path. -/
def Edit.groupDifferences (path : String) (group : String × List Edit) :
    String × List RegistryDifference :=
  (group.1, group.2.map fun edit => (edit.under group.1).difference path)

theorem map_difference_belowKeys (path : String) (groups : List (String × List Edit)) :
    (belowKeys groups).map (·.difference path) =
      (groups.map (Edit.groupDifferences path)).flatMap (·.2) := by
  rw [belowKeys, List.map_flatMap, List.flatMap_map]
  simp [Edit.groupDifferences, Function.comp_def]

theorem jsonPointer_ne_empty (path part : String) : jsonPointer path part ≠ "" := by
  intro h
  have hchars := congrArg String.toList h
  rw [toList_jsonPointer] at hchars
  simp at hchars

theorem memberDifferences_eq {members : List (String × Value)}
    (ih : ∀ member ∈ members, ∀ (other : Value) (path : String), path ≠ "" →
      differences member.2 other path = (edits member.2 other).map (·.difference path))
    (others : List (String × Value)) (path : String) :
    memberDifferences members others path =
      (memberEdits members others).map (Edit.groupDifferences path) := by
  induction members with
  | nil => rfl
  | cons member rest ihRest =>
      obtain ⟨hmember, hrest⟩ := List.forall_mem_cons.mp ih
      rw [memberDifferences, memberEdits, List.map_cons, ihRest hrest]
      cases others.lookup member.1 with
      | none => rfl
      | some proposed =>
          simp only [hmember proposed _ (jsonPointer_ne_empty path member.1)]
          rfl

theorem itemDifferences_eq {items : List Value}
    (ih : ∀ item ∈ items, ∀ (other : Value) (path : String), path ≠ "" →
      differences item other path = (edits item other).map (·.difference path))
    (others : List Value) (path : String) (index : Nat) :
    itemDifferences items others path index =
      ((itemEdits items others index).map (Edit.groupDifferences path)).flatMap (·.2) := by
  induction items generalizing others index with
  | nil =>
      rw [itemDifferences, itemEdits, List.map_map, List.flatMap_map]
      exact List.map_eq_flatMap
  | cons item rest ihRest =>
      obtain ⟨hitem, hrest⟩ := List.forall_mem_cons.mp ih
      cases others with
      | nil =>
          rw [itemDifferences, itemEdits, List.map_cons, List.flatMap_cons, ihRest hrest]
          rfl
      | cons proposed others =>
          rw [itemDifferences, itemEdits, List.map_cons, List.flatMap_cons, ihRest hrest,
            hitem proposed _ (jsonPointer_ne_empty path (toString index))]
          rfl

/-- The differences are the edits with the texts of their paths. -/
theorem differences_eq (existing proposed : Value) {path : String}
    (h : path ≠ "" ∨ ∃ members others, existing = .dict members ∧ proposed = .dict others) :
    differences existing proposed path = (edits existing proposed).map (·.difference path) := by
  induction existing using Value.induction generalizing proposed path with
  | scalar existing hlist hdict =>
      have hpath : path ≠ "" := by
        refine h.resolve_right ?_
        rintro ⟨members, -, hmembers, -⟩
        exact hdict members hmembers
      rw [differences, edits]
      · split
        · rfl
        · simp [Edit.difference, pointerText]
      · exact fun _ _ heq => absurd heq (hdict _)
      · exact fun _ _ heq => absurd heq (hlist _)
      · exact fun _ _ heq => absurd heq (hdict _)
      · exact fun _ _ heq => absurd heq (hlist _)
  | list items ih =>
      have hpath : path ≠ "" := by
        refine h.resolve_right ?_
        rintro ⟨members, -, hmembers, -⟩
        cases hmembers
      have hitems := itemDifferences_eq fun item hitem other path hne =>
        ih item hitem other (Or.inl hne)
      cases proposed with
      | list others => rw [differences, edits, hitems, map_difference_belowKeys]
      | _ => simp [differences, edits, scalarEq, Value.asInt?, Edit.difference, pointerText, hpath]
  | dict members ih =>
      have hmembers := memberDifferences_eq fun member hmember other path hne =>
        ih member hmember other (Or.inl hne)
      cases proposed with
      | dict others =>
          have hadded : (others.filter fun other => !(members.map (·.1)).contains other.1).map
              (fun other => (other.1, [addedDifference (jsonPointer path other.1) other.2])) =
              ((others.filter fun other => !(members.map (·.1)).contains other.1).map fun other =>
                (other.1, [Edit.mk [] .added .null other.2])).map (Edit.groupDifferences path) := by
            rw [List.map_map]
            rfl
          rw [differences, edits, hmembers, map_difference_belowKeys, hadded, ← List.map_append,
            sortByKey_map_keyed (f := Edit.groupDifferences path) fun _ => rfl]
      | _ =>
          have hpath : path ≠ "" := by
            refine h.resolve_right ?_
            rintro ⟨members, others, -, hothers⟩
            cases hothers
          simp [differences, edits, scalarEq, Value.asInt?, Edit.difference, pointerText, hpath]

end Edits

end FeatureStore
