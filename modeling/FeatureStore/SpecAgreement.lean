import FeatureStore.EditRuns
import FeatureStore.RegistryIntegrity

/-!
# Specs that agree leaf by leaf

Two values have no differences exactly if they agree by the comparison of leaves, and the same
JSON exactly if they agree by equality. For the specs of registry objects, only the numbers of
the contracts of views tell the two apart.
-/

namespace FeatureStore

section Agreement

theorem belowKeys_eq_nil {groups : List (String × List Edit)} :
    belowKeys groups = [] ↔ ∀ group ∈ groups, group.2 = [] := by
  simp [belowKeys]

/-- Values have no differences if and only if their leaves compare equal. -/
theorem edits_eq_nil_iff {a b : Value} (ha : a.hasDistinctKeys = true)
    (hb : b.hasDistinctKeys = true) :
    edits a b = [] ↔ a.AgreesBy (fun x y => scalarEq x y = true) b := by
  induction a using Value.childInduction generalizing b with
  | step a ih =>
      by_cases hkind : SameKind a b
      · obtain ⟨groups, hedits, -, hslots, hnone⟩ := exists_groups hkind ha hb
        have hslot : ∀ part, slotEdits (a.child part) (b.child part) = [] ↔
            Option.Rel (Value.AgreesBy fun x y => scalarEq x y = true) (a.child part)
              (b.child part) := by
          intro part
          cases hchild : a.child part with
          | none =>
              cases b.child part with
              | none => exact iff_of_true rfl .none
              | some other =>
                  refine iff_of_false (List.cons_ne_nil _ _) ?_
                  intro hrel
                  cases hrel
          | some child =>
              cases hother : b.child part with
              | none =>
                  refine iff_of_false (List.cons_ne_nil _ _) ?_
                  intro hrel
                  cases hrel
              | some other =>
                  rw [slotEdits, ih part child hchild (child_distinct ha hchild)
                    (child_distinct hb hother), Option.rel_some_some]
        rw [hedits, belowKeys_eq_nil, agreesBy_children hkind]
        constructor
        · intro h part
          rw [← hslot]
          by_cases hmem : part ∈ groups.map (·.1)
          · obtain ⟨group, hgroup, rfl⟩ := List.mem_map.mp hmem
            rw [← hslots group hgroup]
            exact h group hgroup
          · rw [(hnone part hmem).1, (hnone part hmem).2]
            rfl
        · intro h group hgroup
          rw [hslots group hgroup, hslot]
          exact h group.1
      · rw [edits_leaf hkind, agreesBy_leaf hkind]
        split
        · rename_i hscalar
          exact iff_of_true rfl hscalar
        · rename_i hscalar
          exact iff_of_false (List.cons_ne_nil _ _) hscalar

/-- Equality of JSON values up to the order of keys is equality of their leaves. -/
theorem sameJson_iff_agreesBy {a b : Value} : a.SameJson b ↔ a.AgreesBy (· = ·) b := by
  constructor
  · intro h
    induction h with
    | scalar hlist hdict =>
        refine .leaf ?_ rfl
        intro hkind
        cases hkind with
        | list items others => exact hlist items rfl
        | dict members others => exact hdict members rfl
    | list hlength _ ih => exact .list hlength ih
    | dict hkeys _ ih => exact .dict hkeys ih
  · intro h
    induction h with
    | @leaf a b hkind hleaf =>
        subst hleaf
        refine .scalar ?_ ?_
        · rintro items rfl
          exact hkind (.list items items)
        · rintro members rfl
          exact hkind (.dict members members)
    | list hlength _ ih => exact .list hlength ih
    | dict hkeys _ ih => exact .dict hkeys ih

theorem agreesBy_cons {leaf : Value → Value → Prop} {key : String} {value other : Value}
    {members others : List (String × Value)} (hmembers : key ∉ members.map (·.1))
    (hothers : key ∉ others.map (·.1)) :
    (Value.dict ((key, value) :: members)).AgreesBy leaf (.dict ((key, other) :: others)) ↔
      value.AgreesBy leaf other ∧ (Value.dict members).AgreesBy leaf (.dict others) := by
  rw [agreesBy_dict, agreesBy_dict]
  constructor
  · intro h
    constructor
    · have hkey := h key
      rw [List.lookup_cons_self, List.lookup_cons_self, Option.rel_some_some] at hkey
      exact hkey
    · intro part
      by_cases hpart : part = key
      · rw [hpart, Dictionaries.lookup_eq_none_iff.mpr hmembers,
          Dictionaries.lookup_eq_none_iff.mpr hothers]
        exact .none
      · have hrest := h part
        rwa [List.lookup_cons, List.lookup_cons, beq_eq_false_iff_ne.mpr hpart] at hrest
  · rintro ⟨hvalue, hrest⟩ part
    rw [List.lookup_cons, List.lookup_cons]
    by_cases hpart : part = key
    · rw [beq_iff_eq.mpr hpart]
      exact .some hvalue
    · rw [beq_eq_false_iff_ne.mpr hpart]
      exact hrest part

end Agreement

/-- A comparison of leaves that is equality but for numbers. -/
structure LeafEquality (leaf : Value → Value → Prop) : Prop where
  str : ∀ s t, leaf (.str s) (.str t) ↔ s = t
  bool : ∀ a b, leaf (.bool a) (.bool b) ↔ a = b
  nat : ∀ m n : Nat, leaf (.int m) (.int n) ↔ m = n
  null : leaf .null .null
  left_null : ∀ value, leaf .null value → value = .null
  right_null : ∀ value, leaf value .null → value = .null
  finite : ∀ a b, leaf a b → a.isFinite = b.isFinite

namespace Manifest

variable (leaf : Value → Value → Prop)

/-- Two contracts that agree but for their numbers, which a comparison relates. -/
structure FeatureQuality.AgreesBy (a b : FeatureQuality) : Prop where
  nullable : a.nullable = b.nullable
  minimum : Option.Rel (fun m n => leaf m.value n.value) a.minimum b.minimum
  maximum : Option.Rel (fun m n => leaf m.value n.value) a.maximum b.maximum
  acceptedValues : Option.Rel (List.Forall₂ leaf) a.acceptedValues b.acceptedValues
  unique : a.unique = b.unique
  maxAgeSeconds : a.maxAgeSeconds = b.maxAgeSeconds

structure Feature.AgreesBy (a b : Feature) : Prop where
  name : a.name = b.name
  dtype : a.dtype = b.dtype
  description : a.description = b.description
  quality : Option.Rel (FeatureQuality.AgreesBy leaf) a.quality b.quality

/-- Two views that agree but for the numbers of their contracts. -/
structure FeatureView.AgreesBy (a b : FeatureView) : Prop where
  name : a.name = b.name
  version : a.version = b.version
  entity : a.entity = b.entity
  features : List.Forall₂ (Feature.AgreesBy leaf) a.features b.features
  batchSource : a.batchSource = b.batchSource
  batchSql : a.batchSql = b.batchSql
  streamSource : a.streamSource = b.streamSource
  ttlSeconds : a.ttlSeconds = b.ttlSeconds
  description : a.description = b.description
  qualityPolicy : a.qualityPolicy = b.qualityPolicy

end Manifest

/-- Two views whose contracts hold equal numbers that are not all written the same. -/
def Manifest.FeatureView.Respelled (a b : Manifest.FeatureView) : Prop :=
  a ≠ b ∧ a.AgreesBy (fun x y => scalarEq x y = true) b

section Specs

/-- A value that equals an integer is no infinity and no NaN. -/
theorem isFinite_of_asInt? {value : Value} (h : value.asInt?.isSome = true) :
    value.isFinite = true := by
  cases value with
  | bool b => rfl
  | int n => rfl
  | float token =>
      rw [Value.isFinite]
      by_contra hinfinite
      rw [Bool.not_eq_true] at hinfinite
      simp [Value.asInt?, floatAsInt?, hinfinite] at h
  | null => rfl
  | str s => rfl
  | timestamp t => rfl
  | list items => cases h
  | dict members => cases h

theorem isFinite_eq_of_any {a b : Value}
    (h : (a.asInt?.any fun n => b.asInt? == some n) = true) : a.isFinite = b.isFinite := by
  cases ha : a.asInt? with
  | none =>
      rw [ha] at h
      cases h
  | some n =>
      rw [ha, Option.any_some, beq_iff_eq] at h
      rw [isFinite_of_asInt? (Option.isSome_of_eq_some ha),
        isFinite_of_asInt? (Option.isSome_of_eq_some h)]

theorem isFinite_eq_of_scalarEq {a b : Value} (h : scalarEq a b = true) :
    a.isFinite = b.isFinite := by
  unfold scalarEq at h
  split at h
  · rfl
  · rfl
  · rfl
  · rename_i token other
    obtain ⟨-, hequal⟩ := Bool.and_eq_true_iff.mp h
    rcases Bool.or_eq_true_iff.mp hequal with hsame | hint
    · rw [beq_iff_eq.mp hsame]
    · exact isFinite_eq_of_any hint
  · exact isFinite_eq_of_any h

theorem leafEquality_eq : LeafEquality (· = ·) where
  str _ _ := by rw [Value.str.injEq]
  bool _ _ := by rw [Value.bool.injEq]
  nat _ _ := by rw [Value.int.injEq, Int.ofNat_inj]
  null := rfl
  left_null _ h := h.symm
  right_null _ h := h
  finite _ _ h := by rw [h]

theorem leafEquality_scalarEq : LeafEquality fun x y => scalarEq x y = true where
  str _ _ := beq_iff_eq
  bool a b := by
    cases a <;> cases b <;> simp [scalarEq, Value.asInt?]
  nat m n := by
    rw [@eq_comm _ m n]
    simp [scalarEq, Value.asInt?]
  null := rfl
  left_null value h := by
    cases value with
    | null => rfl
    | _ => simp [scalarEq, Value.asInt?] at h
  right_null value h := by
    cases value with
    | null => rfl
    | _ => simp [scalarEq, Value.asInt?] at h
  finite _ _ := isFinite_eq_of_scalarEq

variable {leaf : Value → Value → Prop}

theorem agreesBy_str (hleaf : LeafEquality leaf) {s t : String} :
    (Value.str s).AgreesBy leaf (.str t) ↔ s = t := by
  have hkind : ¬SameKind (.str s) (.str t) := nofun
  rw [agreesBy_leaf hkind, hleaf.str]

theorem agreesBy_bool (hleaf : LeafEquality leaf) {a b : Bool} :
    (Value.bool a).AgreesBy leaf (.bool b) ↔ a = b := by
  have hkind : ¬SameKind (.bool a) (.bool b) := nofun
  rw [agreesBy_leaf hkind, hleaf.bool]

theorem agreesBy_nat (hleaf : LeafEquality leaf) {m n : Nat} :
    (Value.int m).AgreesBy leaf (.int n) ↔ m = n := by
  have hkind : ¬SameKind (.int m) (.int n) := nofun
  rw [agreesBy_leaf hkind, hleaf.nat]

theorem null_not_sameKind {value : Value} : ¬SameKind .null value := nofun

theorem not_sameKind_null {value : Value} : ¬SameKind value .null := nofun

theorem agreesBy_option (hleaf : LeafEquality leaf) {α : Type} {dump : α → Value}
    (hdump : ∀ a, dump a ≠ .null) (a b : Option α) :
    (optionValue dump a).AgreesBy leaf (optionValue dump b) ↔
      Option.Rel (fun x y => (dump x).AgreesBy leaf (dump y)) a b := by
  cases a with
  | none =>
      cases b with
      | none => exact iff_of_true (.leaf nofun hleaf.null) .none
      | some y =>
          refine iff_of_false (fun h => hdump y (hleaf.left_null _ ?_)) nofun
          exact (agreesBy_leaf null_not_sameKind).mp h
  | some x =>
      cases b with
      | none =>
          refine iff_of_false (fun h => hdump x (hleaf.right_null _ ?_)) nofun
          exact (agreesBy_leaf not_sameKind_null).mp h
      | some y =>
          constructor
          · intro h
            exact Option.Rel.some h
          · intro h
            cases h with
            | some h => exact h

theorem rel_eq {α : Type} {a b : Option α} : Option.Rel (· = ·) a b ↔ a = b := by
  constructor
  · intro h
    cases h with
    | none => rfl
    | some h => rw [h]
  · rintro rfl
    cases a with
    | none => exact .none
    | some x => exact .some rfl

theorem rel_congr {α : Type} {r r' : α → α → Prop} {a b : Option α}
    (h : ∀ x y, a = some x → b = some y → (r x y ↔ r' x y)) :
    Option.Rel r a b ↔ Option.Rel r' a b := by
  cases a with
  | none =>
      cases b with
      | none => exact iff_of_true .none .none
      | some y => exact iff_of_false nofun nofun
  | some x =>
      cases b with
      | none => exact iff_of_false nofun nofun
      | some y => rw [Option.rel_some_some, Option.rel_some_some, h x y rfl rfl]

theorem agreesBy_option_str (hleaf : LeafEquality leaf) {a b : Option String} :
    (optionValue .str a).AgreesBy leaf (optionValue .str b) ↔ a = b := by
  have hstr : ∀ s, Value.str s ≠ .null := fun _ => nofun
  rw [agreesBy_option hleaf hstr, ← rel_eq]
  simp only [agreesBy_str hleaf]

theorem agreesBy_option_nat (hleaf : LeafEquality leaf) {a b : Option Nat} :
    (optionValue (fun n : Nat => .int n) a).AgreesBy leaf
      (optionValue (fun n : Nat => .int n) b) ↔ a = b := by
  have hnat : ∀ n : Nat, Value.int n ≠ .null := fun _ => nofun
  rw [agreesBy_option hleaf hnat, ← rel_eq]
  simp only [agreesBy_nat hleaf]

theorem agreesBy_option_number (hleaf : LeafEquality leaf) {a b : Option Manifest.Number} :
    (optionValue Manifest.Number.value a).AgreesBy leaf (optionValue Manifest.Number.value b) ↔
      Option.Rel (fun m n => leaf m.value n.value) a b := by
  have hnumber : ∀ n : Manifest.Number, n.value ≠ .null := by
    intro n
    cases n <;> exact nofun
  rw [agreesBy_option hleaf hnumber]
  apply rel_congr
  intro m n _ _
  apply agreesBy_leaf
  cases m <;> exact nofun

theorem agreesBy_scalars {values others : List Value}
    (h : ∀ value ∈ values, value.isScalar = true) :
    (Value.list values).AgreesBy leaf (.list others) ↔ List.Forall₂ leaf values others := by
  rw [agreesBy_list]
  induction values generalizing others with
  | nil =>
      cases others with
      | nil => exact iff_of_true .nil .nil
      | cons other rest => exact iff_of_false nofun nofun
  | cons value values ih =>
      obtain ⟨hvalue, hvalues⟩ := List.forall_mem_cons.mp h
      have hkind : ∀ other, ¬SameKind value other := by
        intro other hkind
        cases hkind with
        | list _ _ => cases hvalue
        | dict _ _ => cases hvalue
      cases others with
      | nil => exact iff_of_false nofun nofun
      | cons other others =>
          rw [List.forall₂_cons, List.forall₂_cons, agreesBy_leaf (hkind other), ih hvalues]

theorem Value.jsonMode_of_isScalar {value : Value} (h : value.isScalar = true) :
    value.jsonMode = if value.isFinite then value else .null := by
  apply Value.jsonMode_scalar
  · rintro items rfl
    cases h
  · rintro members rfl
    cases h

/-- A finite scalar equals a scalar exactly if it equals its dump. -/
theorem leaf_jsonMode (hleaf : LeafEquality leaf) {value other : Value}
    (hscalar : value.isScalar = true) (hfinite : value.isFinite = true)
    (hother : other.isScalar = true) : leaf value other.jsonMode ↔ leaf value other := by
  rw [Value.jsonMode_of_isScalar hother]
  split
  · rfl
  · rename_i hinfinite
    constructor
    · intro hnull
      rw [hleaf.right_null value hnull] at hscalar
      cases hscalar
    · intro hsame
      exact absurd ((hleaf.finite _ _ hsame).symm.trans hfinite) hinfinite

theorem forall₂_iff_of_mem {α β : Type} {r r' : α → β → Prop} {l : List α} {l' : List β}
    (h : ∀ x ∈ l, ∀ y ∈ l', r x y ↔ r' x y) : List.Forall₂ r l l' ↔ List.Forall₂ r' l l' := by
  rw [List.forall₂_iff_zip, List.forall₂_iff_zip]
  apply and_congr_right
  intro _
  constructor
  · intro hall a b hmem
    exact (h a (List.of_mem_zip hmem).1 b (List.of_mem_zip hmem).2).mp (hall hmem)
  · intro hall a b hmem
    exact (h a (List.of_mem_zip hmem).1 b (List.of_mem_zip hmem).2).mpr (hall hmem)

/-- The dumps of scalars of which the first are finite. -/
theorem agreesBy_dumped (hleaf : LeafEquality leaf) {values others : List Value}
    (hvalues : ∀ value ∈ values, value.isScalar = true)
    (hfinite : ∀ value ∈ values, value.isFinite = true)
    (hothers : ∀ other ∈ others, other.isScalar = true) :
    (Value.list values).jsonMode.AgreesBy leaf (Value.list others).jsonMode ↔
      List.Forall₂ leaf values others := by
  rw [(Value.list values).jsonMode_of_isFinite (Value.isFinite_list.mpr hfinite),
    Value.jsonMode_list, agreesBy_scalars hvalues, List.forall₂_map_right_iff]
  exact forall₂_iff_of_mem fun value hvalue other hother =>
    leaf_jsonMode hleaf (hvalues value hvalue) (hfinite value hvalue) (hothers other hother)

namespace Manifest

theorem FeatureQuality.dump_agreesBy (hleaf : LeafEquality leaf) {a b : FeatureQuality}
    (hfinite : a.acceptsFinite = true) : a.dump.AgreesBy leaf b.dump ↔ a.AgreesBy leaf b := by
  have haccepted : (optionValue (fun values => (Value.list values).jsonMode)
      a.acceptedValues).AgreesBy leaf
      (optionValue (fun values => (Value.list values).jsonMode) b.acceptedValues) ↔
        Option.Rel (List.Forall₂ leaf) a.acceptedValues b.acceptedValues := by
    have hlist : ∀ values, (Value.list values).jsonMode ≠ .null := by
      intro values h
      rw [Value.jsonMode_list] at h
      cases h
    rw [agreesBy_option hleaf hlist]
    apply rel_congr
    intro values others hvalues hothers
    rw [acceptsFinite, hvalues, Option.all_some, List.all_eq_true] at hfinite
    exact agreesBy_dumped hleaf (a.accepted_scalar values hvalues) hfinite
      (b.accepted_scalar others hothers)
  rw [dump, dump, agreesBy_cons (by simp) (by simp), agreesBy_cons (by simp) (by simp),
    agreesBy_cons (by simp) (by simp), agreesBy_cons (by simp) (by simp),
    agreesBy_cons (by simp) (by simp), agreesBy_cons (by simp) (by simp), haccepted,
    agreesBy_bool hleaf, agreesBy_bool hleaf, agreesBy_option_number hleaf,
    agreesBy_option_number hleaf, agreesBy_option_nat hleaf]
  constructor
  · rintro ⟨hnullable, hminimum, hmaximum, haccepted, hunique, hage, -⟩
    exact ⟨hnullable, hminimum, hmaximum, haccepted, hunique, hage⟩
  · intro h
    exact ⟨h.nullable, h.minimum, h.maximum, h.acceptedValues, h.unique, h.maxAgeSeconds,
      agreesBy_dict.mpr fun _ => .none⟩

theorem value_injective {a b : ValueType} (h : a.value = b.value) : a = b := by
  cases a <;> cases b <;> first | rfl | exact absurd h (by decide)

theorem agreesBy_empty : (Value.dict []).AgreesBy leaf (.dict []) :=
  agreesBy_dict.mpr fun _ => .none

theorem agreesBy_empty_left {key : String} {value : Value} :
    ¬(Value.dict []).AgreesBy leaf (.dict [(key, value)]) := by
  intro h
  have hkey := agreesBy_dict.mp h key
  rw [List.lookup_cons_self] at hkey
  cases hkey

theorem agreesBy_empty_right {key : String} {value : Value} :
    ¬(Value.dict [(key, value)]).AgreesBy leaf (.dict []) := by
  intro h
  have hkey := agreesBy_dict.mp h key
  rw [List.lookup_cons_self] at hkey
  cases hkey

/-- A member that may be absent. -/
theorem agreesBy_optional {α : Type} {key : String} {dump : α → Value} {a b : Option α} :
    (Value.dict (a.map fun x => (key, dump x)).toList).AgreesBy leaf
        (.dict (b.map fun x => (key, dump x)).toList) ↔
      Option.Rel (fun x y => (dump x).AgreesBy leaf (dump y)) a b := by
  cases a with
  | none =>
      cases b with
      | none => exact iff_of_true agreesBy_empty .none
      | some y => exact iff_of_false agreesBy_empty_left nofun
  | some x =>
      cases b with
      | none => exact iff_of_false agreesBy_empty_right nofun
      | some y =>
          rw [Option.rel_some_some]
          exact (agreesBy_cons (by simp) (by simp)).trans (and_iff_left agreesBy_empty)

theorem Feature.registrySpec_agreesBy (hleaf : LeafEquality leaf) {a b : Feature}
    (hfinite : a.acceptsFinite = true) :
    a.registrySpec.AgreesBy leaf b.registrySpec ↔ a.AgreesBy leaf b := by
  have hkeys : ∀ (key : String) (quality : Option FeatureQuality), key ≠ "quality" →
      key ∉ ((quality.map fun quality => ("quality", quality.dump)).toList).map (·.1) := by
    intro key quality hkey
    cases quality with
    | none => exact List.not_mem_nil
    | some quality => simp [hkey]
  have hquality : Option.Rel (fun x y => (FeatureQuality.dump x).AgreesBy leaf y.dump) a.quality
      b.quality ↔ Option.Rel (FeatureQuality.AgreesBy leaf) a.quality b.quality := by
    apply rel_congr
    intro x y hx _
    rw [acceptsFinite, hx, Option.all_some] at hfinite
    exact FeatureQuality.dump_agreesBy hleaf hfinite
  rw [registrySpec, registrySpec]
  simp only [List.cons_append, List.nil_append]
  rw [agreesBy_cons (by simp [hkeys]) (by simp [hkeys]),
    agreesBy_cons (by simp [hkeys]) (by simp [hkeys]),
    agreesBy_cons (by simp [hkeys]) (by simp [hkeys]), agreesBy_optional, hquality,
    agreesBy_str hleaf, agreesBy_str hleaf, agreesBy_str hleaf]
  constructor
  · rintro ⟨hname, hdtype, hdescription, hquality⟩
    exact ⟨hname, value_injective hdtype, hdescription, hquality⟩
  · intro h
    exact ⟨h.name, congrArg ValueType.value h.dtype, h.description, h.quality⟩

/-- The specs of views agree leaf by leaf exactly if the views do, where the first is read back
from its spec. -/
theorem FeatureView.registrySpec_agreesBy (hleaf : LeafEquality leaf) {a b : FeatureView}
    (hfinite : a.acceptsFinite = true) :
    a.registrySpec.AgreesBy leaf b.registrySpec ↔ a.AgreesBy leaf b := by
  have hkeys : ∀ (key : String) (policy : Option QualityPolicy), key ≠ "quality_policy" →
      key ∉ ((policy.map fun policy => ("quality_policy", Value.str policy.value)).toList).map
        (·.1) := by
    intro key policy hkey
    cases policy with
    | none => exact List.not_mem_nil
    | some policy => simp [hkey]
  have hpolicy : Option.Rel (fun x y => (Value.str (QualityPolicy.value x)).AgreesBy leaf
      (.str y.value)) a.qualityPolicy b.qualityPolicy ↔ a.qualityPolicy = b.qualityPolicy := by
    rw [← rel_eq]
    apply rel_congr
    intro x y _ _
    rw [agreesBy_str hleaf]
    constructor
    · intro h
      cases x <;> cases y <;> first | rfl | exact absurd h (by decide)
    · exact congrArg QualityPolicy.value
  have hfeatures : (Value.list (a.features.map Feature.registrySpec)).AgreesBy leaf
      (.list (b.features.map Feature.registrySpec)) ↔
        List.Forall₂ (Feature.AgreesBy leaf) a.features b.features := by
    rw [agreesBy_list, List.forall₂_map_left_iff, List.forall₂_map_right_iff]
    exact forall₂_iff_of_mem fun feature hfeature other _ =>
      Feature.registrySpec_agreesBy hleaf (List.all_eq_true.mp hfinite feature hfeature)
  rw [registrySpec, registrySpec]
  simp only [List.cons_append, List.nil_append]
  rw [agreesBy_cons (by simp [hkeys]) (by simp [hkeys]),
    agreesBy_cons (by simp [hkeys]) (by simp [hkeys]),
    agreesBy_cons (by simp [hkeys]) (by simp [hkeys]),
    agreesBy_cons (by simp [hkeys]) (by simp [hkeys]),
    agreesBy_cons (by simp [hkeys]) (by simp [hkeys]),
    agreesBy_cons (by simp [hkeys]) (by simp [hkeys]),
    agreesBy_cons (by simp [hkeys]) (by simp [hkeys]),
    agreesBy_cons (by simp [hkeys]) (by simp [hkeys]),
    agreesBy_cons (by simp [hkeys]) (by simp [hkeys]), agreesBy_optional, hpolicy, hfeatures,
    agreesBy_option_str hleaf, agreesBy_option_nat hleaf, agreesBy_str hleaf, agreesBy_str hleaf,
    agreesBy_str hleaf, agreesBy_str hleaf, agreesBy_str hleaf, agreesBy_str hleaf]
  constructor
  · rintro ⟨hname, hversion, hentity, hfeatures, hsource, hsql, hstream, httl, hdescription,
      hpolicy⟩
    exact ⟨hname, hversion, hentity, hfeatures, hsource, hsql, hstream, httl, hdescription, hpolicy⟩
  · intro h
    exact ⟨h.name, h.version, h.entity, h.features, h.batchSource, h.batchSql, h.streamSource,
      h.ttlSeconds, h.description, h.qualityPolicy⟩

theorem Number.value_inj {m n : Number} : m.value = n.value ↔ m = n := by
  cases m <;> cases n <;> simp [Number.value]

theorem FeatureQuality.agreesBy_eq {a b : FeatureQuality} :
    a.AgreesBy (· = ·) b ↔ a = b := by
  constructor
  · intro h
    obtain ⟨hnullable, hminimum, hmaximum, haccepted, hunique, hage⟩ := h
    simp only [Number.value_inj, rel_eq] at hminimum hmaximum
    rw [List.forall₂_eq_eq_eq, rel_eq] at haccepted
    cases a
    cases b
    subst hnullable hminimum hmaximum haccepted hunique hage
    rfl
  · rintro rfl
    refine ⟨rfl, ?_, ?_, ?_, rfl, rfl⟩
    · simp only [Number.value_inj, rel_eq]
    · simp only [Number.value_inj, rel_eq]
    · rw [List.forall₂_eq_eq_eq, rel_eq]

theorem Feature.agreesBy_eq {a b : Feature} : a.AgreesBy (· = ·) b ↔ a = b := by
  have hquality : Option.Rel (FeatureQuality.AgreesBy (· = ·)) a.quality b.quality ↔
      a.quality = b.quality :=
    (rel_congr fun _ _ _ _ => FeatureQuality.agreesBy_eq).trans rel_eq
  constructor
  · intro h
    obtain ⟨hname, hdtype, hdescription, hsame⟩ := h
    rw [hquality] at hsame
    cases a
    cases b
    subst hname hdtype hdescription hsame
    rfl
  · rintro rfl
    exact ⟨rfl, rfl, rfl, hquality.mpr rfl⟩

/-- Views that hold the same, numbers included, are equal. -/
theorem FeatureView.agreesBy_eq {a b : FeatureView} : a.AgreesBy (· = ·) b ↔ a = b := by
  have hfeatures : List.Forall₂ (Feature.AgreesBy (· = ·)) a.features b.features ↔
      a.features = b.features := by
    have hrel : Feature.AgreesBy (· = ·) = Eq := by
      ext x y
      exact Feature.agreesBy_eq
    rw [hrel, List.forall₂_eq_eq_eq]
  constructor
  · intro h
    obtain ⟨hname, hversion, hentity, hsame, hsource, hsql, hstream, httl, hdescription,
      hpolicy⟩ := h
    rw [hfeatures] at hsame
    cases a
    cases b
    subst hname hversion hentity hsame hsource hsql hstream httl hdescription hpolicy
    rfl
  · rintro rfl
    exact ⟨rfl, rfl, rfl, hfeatures.mpr rfl, rfl, rfl, rfl, rfl, rfl, rfl⟩

end Manifest

/-- A value whose leaves are texts or null. -/
inductive Value.Textual : Value → Prop
  | null : Textual .null
  | str (s : String) : Textual (.str s)
  | list {items : List Value} (hitems : ∀ item ∈ items, Textual item) : Textual (.list items)
  | dict {members : List (String × Value)} (hmembers : ∀ member ∈ members, Textual member.2) :
      Textual (.dict members)

/-- Texts are equal only if they are the same. -/
theorem agreesBy_of_textual {a b : Value} (htextual : a.Textual)
    (h : a.AgreesBy (fun x y => scalarEq x y = true) b) : a.AgreesBy (· = ·) b := by
  induction h with
  | @leaf a b hkind hleaf =>
      refine .leaf hkind ?_
      cases htextual with
      | null => exact (leafEquality_scalarEq.left_null b hleaf).symm
      | str s =>
          cases b with
          | str t => exact congrArg Value.str (beq_iff_eq.mp hleaf)
          | _ => simp [scalarEq, Value.asInt?] at hleaf
      | list _ => simp [scalarEq, Value.asInt?] at hleaf
      | dict _ => simp [scalarEq, Value.asInt?] at hleaf
  | list hlength _ ih =>
      cases htextual with
      | list htexts =>
          exact .list hlength fun index item other hitem hother =>
            ih index item other hitem hother (htexts item (List.mem_of_getElem? hitem))
  | dict hkeys _ ih =>
      cases htextual with
      | dict htexts =>
          refine .dict hkeys fun key value other hvalue hother =>
            ih key value other hvalue hother ?_
          obtain ⟨before, after, hsplit, -⟩ := List.lookup_eq_some_iff.mp hvalue
          exact htexts (key, value) (by simp [hsplit])

theorem optionValue_textual {value : Option String} : (optionValue .str value).Textual := by
  cases value with
  | none => exact .null
  | some s => exact .str s

/-- Only the specs of views hold numbers. -/
theorem RegistryObject.spec_textual {object : RegistryObject} (h : object.view? = none) :
    object.spec.Textual := by
  cases object with
  | entity e =>
      apply Value.Textual.dict
      intro member hmember
      simp only [List.mem_cons, List.not_mem_nil, or_false] at hmember
      rcases hmember with rfl | rfl
      · exact .str _
      · apply Value.Textual.dict
        intro key hkey
        obtain ⟨joinKey, -, rfl⟩ := List.mem_map.mp hkey
        exact .str _
  | batchSource source =>
      apply Value.Textual.dict
      intro member hmember
      simp only [List.mem_cons, List.not_mem_nil, or_false] at hmember
      rcases hmember with rfl | rfl | rfl <;> exact .str _
  | streamSource source =>
      apply Value.Textual.dict
      intro member hmember
      simp only [List.mem_cons, List.not_mem_nil, or_false] at hmember
      rcases hmember with rfl | rfl | rfl
      · exact .str _
      · exact .str _
      · exact optionValue_textual
  | featureView view => cases h
  | featureService service =>
      apply Value.Textual.dict
      intro member hmember
      simp only [List.mem_cons, List.not_mem_nil, or_false] at hmember
      rcases hmember with rfl | rfl | rfl
      · exact .str _
      · apply Value.Textual.list
        intro item hitem
        obtain ⟨ref, -, rfl⟩ := List.mem_map.mp hitem
        exact .str _
      · exact .str _

theorem Value.Textual.isJson {value : Value} (h : value.Textual) : value.isJson = true := by
  induction h with
  | null => rfl
  | str s => rfl
  | list _ ih =>
      rw [Value.isJson, itemsAreJson_iff]
      exact ih
  | dict _ ih =>
      rw [Value.isJson, membersAreJson_iff]
      exact ih

theorem RegistryObject.spec_isJson (object : RegistryObject) : object.spec.isJson = true := by
  cases hview : object.view? with
  | none => exact (spec_textual hview).isJson
  | some view =>
      rw [RegistryObject.view?_eq_some.mp hview]
      exact view.registrySpec_isJson

theorem optionValue_distinct {α : Type} {dump : α → Value} {value : Option α}
    (h : ∀ a, value = some a → (dump a).hasDistinctKeys = true) :
    (optionValue dump value).hasDistinctKeys = true := by
  cases value with
  | none => rfl
  | some a => exact h a rfl

theorem Manifest.FeatureQuality.dump_distinct (quality : FeatureQuality) :
    quality.dump.hasDistinctKeys = true := by
  have hnumber : ∀ number : Option Number,
      (optionValue Number.value number).hasDistinctKeys = true := by
    intro number
    apply optionValue_distinct
    intro n _
    cases n <;> rfl
  have haccepted : (optionValue (fun values => (Value.list values).jsonMode)
      quality.acceptedValues).hasDistinctKeys = true := by
    apply optionValue_distinct
    intro values hvalues
    apply Value.hasDistinctKeys_jsonMode
    rw [Value.hasDistinctKeys, itemsHaveDistinctKeys_iff]
    intro value hvalue
    have hscalar := quality.accepted_scalar values hvalues value hvalue
    cases value with
    | list _ => cases hscalar
    | dict _ => cases hscalar
    | _ => rfl
  have hage : (optionValue (fun n : Nat => .int n) quality.maxAgeSeconds).hasDistinctKeys = true :=
    optionValue_distinct fun _ _ => rfl
  rw [dump, Value.hasDistinctKeys_dict]
  constructor
  · simp [hnumber, haccepted, hage, Value.hasDistinctKeys, -Value.jsonMode_list]
  · simp

theorem Manifest.Feature.registrySpec_distinct (feature : Feature) :
    feature.registrySpec.hasDistinctKeys = true := by
  rw [registrySpec, Value.hasDistinctKeys_dict]
  cases feature.quality with
  | none =>
      constructor
      · simp [Value.hasDistinctKeys]
      · simp
  | some quality =>
      constructor
      · simp [Value.hasDistinctKeys, quality.dump_distinct]
      · simp

theorem Manifest.FeatureView.registrySpec_distinct (view : FeatureView) :
    view.registrySpec.hasDistinctKeys = true := by
  have hfeatures : itemsHaveDistinctKeys (view.features.map Feature.registrySpec) = true := by
    rw [itemsHaveDistinctKeys_iff, List.forall_mem_map]
    exact fun feature _ => feature.registrySpec_distinct
  have hstream : (optionValue .str view.streamSource).hasDistinctKeys = true :=
    optionValue_distinct fun _ _ => rfl
  have httl : (optionValue (fun n : Nat => .int n) view.ttlSeconds).hasDistinctKeys = true :=
    optionValue_distinct fun _ _ => rfl
  rw [registrySpec, Value.hasDistinctKeys_dict]
  cases view.qualityPolicy with
  | none =>
      constructor
      · simp [Value.hasDistinctKeys, hfeatures, hstream, httl]
      · simp
  | some policy =>
      constructor
      · simp [Value.hasDistinctKeys, hfeatures, hstream, httl]
      · simp

theorem RegistryObject.spec_distinct (object : RegistryObject) :
    object.spec.hasDistinctKeys = true := by
  have hoption : ∀ value : Option String, (optionValue .str value).hasDistinctKeys = true :=
    fun _ => optionValue_distinct fun _ _ => rfl
  cases object with
  | entity e =>
      have hkeys : (Value.dict (e.joinKeys.map fun key =>
          (key.1, .str key.2.value))).hasDistinctKeys = true := by
        rw [Value.hasDistinctKeys_dict, List.forall_mem_map, List.map_map]
        exact ⟨fun _ _ => rfl, e.joinKeys_nodup⟩
      rw [spec, Manifest.Entity.dump, Value.hasDistinctKeys_dict]
      constructor
      · intro member hmember
        simp only [List.mem_cons, List.not_mem_nil, or_false] at hmember
        rcases hmember with rfl | rfl
        · rfl
        · exact hkeys
      · simp
  | batchSource source =>
      rw [spec, Manifest.BatchSource.dump, Value.hasDistinctKeys_dict]
      constructor
      · simp [Value.hasDistinctKeys]
      · simp
  | streamSource source =>
      rw [spec, Manifest.StreamSource.dump, Value.hasDistinctKeys_dict]
      constructor
      · simp [Value.hasDistinctKeys, hoption]
      · simp
  | featureView view => exact view.registrySpec_distinct
  | featureService service =>
      have hrefs : itemsHaveDistinctKeys (service.features.map fun ref => .str ref.text) =
          true := by
        rw [itemsHaveDistinctKeys_iff, List.forall_mem_map]
        exact fun _ _ => rfl
      rw [spec, Manifest.FeatureService.dump, Value.hasDistinctKeys_dict]
      constructor
      · simp [Value.hasDistinctKeys, hrefs]
      · simp

end Specs

end FeatureStore
