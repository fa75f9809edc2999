import FeatureStore.JsonText
import FeatureStore.Library.Dictionaries

/-!
# Floats that JSON cannot write

`model_dump(mode="json")` writes null for the infinities and NaN of untyped values. So a
dump is the value that was dumped exactly if all floats in it are finite.
-/

namespace FeatureStore

/-- The digits of a number without sign, and the power of ten by which they are scaled. -/
def decimal? (chars : List Char) : Option (Nat × Int) :=
  let mantissa := chars.takeWhile fun c => c != 'e' && c != 'E'
  let whole := mantissa.takeWhile (· != '.')
  let fraction := mantissa.drop (whole.length + 1)
  if (whole ++ fraction).all Char.isDigit && !whole.isEmpty then
    let power := readInt ((chars.drop (mantissa.length + 1)).filter (· != '+'))
    some (Nat.ofDigitChars 10 (whole ++ fraction) 0, power - fraction.length)
  else none

/-- The least decimal that is rounded to infinity and not to a double. -/
def overflowBound : Nat := 2 ^ 1024 - 2 ^ 970

/-- `math.isfinite` of the float that the token denotes. -/
def isFiniteToken (token : String) : Bool :=
  let chars := token.toList
  match decimal? (if chars.head? = some '-' then chars.tail else chars) with
  | none => false
  | some (digits, power) =>
      if 0 ≤ power then decide (digits * 10 ^ power.toNat < overflowBound)
      else decide (digits < overflowBound * 10 ^ power.natAbs)

mutual

/-- What `model_dump(mode="json")` makes of a value in a field of type `Any`. The modelled
dumps are of JSON, which has no timestamps. -/
def Value.jsonMode : Value → Value
  | .float token => if isFiniteToken token then .float token else .null
  | .list items => .list (itemsJsonMode items)
  | .dict members => .dict (membersJsonMode members)
  | value => value

def itemsJsonMode : List Value → List Value
  | [] => []
  | value :: rest => value.jsonMode :: itemsJsonMode rest

def membersJsonMode : List (String × Value) → List (String × Value)
  | [] => []
  | (key, value) :: rest => (key, value.jsonMode) :: membersJsonMode rest

end

mutual

/-- No float of the value is an infinity or NaN. -/
def Value.isFinite : Value → Bool
  | .float token => isFiniteToken token
  | .list items => itemsAreFinite items
  | .dict members => membersAreFinite members
  | _ => true

def itemsAreFinite : List Value → Bool
  | [] => true
  | value :: rest => value.isFinite && itemsAreFinite rest

def membersAreFinite : List (String × Value) → Bool
  | [] => true
  | (_, value) :: rest => value.isFinite && membersAreFinite rest

end

theorem itemsJsonMode_eq (items : List Value) : itemsJsonMode items = items.map Value.jsonMode := by
  induction items with
  | nil => rfl
  | cons value rest ih => rw [itemsJsonMode, List.map_cons, ih]

theorem membersJsonMode_eq (members : List (String × Value)) :
    membersJsonMode members = members.map fun member => (member.1, member.2.jsonMode) := by
  induction members with
  | nil => rfl
  | cons member rest ih => rw [membersJsonMode, List.map_cons, ih]

theorem itemsAreFinite_iff {items : List Value} :
    itemsAreFinite items = true ↔ ∀ value ∈ items, value.isFinite = true := by
  induction items with
  | nil => simp [itemsAreFinite]
  | cons value rest ih => simp [itemsAreFinite, ih]

theorem membersAreFinite_iff {members : List (String × Value)} :
    membersAreFinite members = true ↔ ∀ member ∈ members, member.2.isFinite = true := by
  induction members with
  | nil => simp [membersAreFinite]
  | cons member rest ih => simp [membersAreFinite, ih]

@[simp] theorem Value.jsonMode_list (items : List Value) :
    (Value.list items).jsonMode = .list (items.map Value.jsonMode) := by
  rw [Value.jsonMode, itemsJsonMode_eq]

@[simp] theorem Value.jsonMode_dict (members : List (String × Value)) :
    (Value.dict members).jsonMode = .dict (membersJsonMode members) := by
  rw [Value.jsonMode]

/-- A dump has the keys of its dictionary. -/
@[simp] theorem membersJsonMode_keys (members : List (String × Value)) :
    (membersJsonMode members).map (·.1) = members.map (·.1) := by
  rw [membersJsonMode_eq, List.map_map]
  rfl

theorem lookup_membersJsonMode (members : List (String × Value)) (key : String) :
    (membersJsonMode members).lookup key = (members.lookup key).map Value.jsonMode := by
  rw [membersJsonMode_eq, Dictionaries.lookup_map]

theorem mem_membersJsonMode {members : List (String × Value)} {member : String × Value}
    (h : member ∈ membersJsonMode members) :
    ∃ value, (member.1, value) ∈ members ∧ member.2 = value.jsonMode := by
  rw [membersJsonMode_eq] at h
  obtain ⟨⟨key, value⟩, hmember, rfl⟩ := List.mem_map.mp h
  exact ⟨value, hmember, rfl⟩

@[simp] theorem Value.isFinite_list {items : List Value} :
    (Value.list items).isFinite = true ↔ ∀ item ∈ items, item.isFinite = true := by
  rw [Value.isFinite, itemsAreFinite_iff]

@[simp] theorem Value.isFinite_dict {members : List (String × Value)} :
    (Value.dict members).isFinite = true ↔ ∀ member ∈ members, member.2.isFinite = true := by
  rw [Value.isFinite, membersAreFinite_iff]

/-- A scalar is dumped as it is if it is finite, and as null otherwise. -/
theorem Value.jsonMode_scalar {value : Value} (hlist : ∀ items, value ≠ .list items)
    (hdict : ∀ members, value ≠ .dict members) :
    value.jsonMode = if value.isFinite then value else .null := by
  cases value with
  | list items => exact absurd rfl (hlist items)
  | dict members => exact absurd rfl (hdict members)
  | float token => rw [Value.jsonMode, Value.isFinite]
  | _ => rfl

/-- A dump has no infinities and no NaN. -/
@[simp] theorem Value.isFinite_jsonMode (value : Value) : value.jsonMode.isFinite = true := by
  induction value using Value.induction with
  | scalar value hlist hdict =>
      rw [Value.jsonMode_scalar hlist hdict]
      split
      · assumption
      · rfl
  | list items ih =>
      rw [Value.jsonMode_list, Value.isFinite_list, List.forall_mem_map]
      exact ih
  | dict members ih =>
      rw [Value.jsonMode_dict, Value.isFinite_dict]
      intro member hmember
      obtain ⟨value, hvalue, hdumped⟩ := mem_membersJsonMode hmember
      rw [hdumped]
      exact ih _ hvalue

/-- The dump of a value without them is the value. -/
theorem Value.jsonMode_of_isFinite (value : Value) (h : value.isFinite = true) :
    value.jsonMode = value := by
  induction value using Value.induction with
  | scalar value hlist hdict => rw [Value.jsonMode_scalar hlist hdict, if_pos h]
  | list items ih =>
      rw [Value.isFinite_list] at h
      rw [Value.jsonMode_list]
      apply congrArg Value.list
      exact (List.map_congr_left fun item hitem => ih item hitem (h item hitem)).trans
        (List.map_id items)
  | dict members ih =>
      rw [Value.isFinite_dict] at h
      rw [Value.jsonMode_dict, membersJsonMode_eq]
      have hmember : ∀ member ∈ members, (member.1, member.2.jsonMode) = id member :=
        fun member hmember => congrArg (Prod.mk member.1) (ih member hmember (h member hmember))
      exact congrArg Value.dict ((List.map_congr_left hmember).trans (List.map_id members))

theorem Value.jsonMode_eq_iff {value : Value} : value.jsonMode = value ↔ value.isFinite = true := by
  constructor
  · intro h
    rw [← h]
    exact value.isFinite_jsonMode
  · exact value.jsonMode_of_isFinite

theorem membersJsonMode_eq_iff {members : List (String × Value)} :
    membersJsonMode members = members ↔ (Value.dict members).isFinite = true := by
  rw [← Value.jsonMode_eq_iff, Value.jsonMode_dict, Value.dict.injEq]

@[simp] theorem Value.jsonMode_jsonMode (value : Value) :
    value.jsonMode.jsonMode = value.jsonMode :=
  Value.jsonMode_of_isFinite _ value.isFinite_jsonMode

@[simp] theorem membersJsonMode_membersJsonMode (members : List (String × Value)) :
    membersJsonMode (membersJsonMode members) = membersJsonMode members := by
  have h := (Value.dict members).jsonMode_jsonMode
  rwa [Value.jsonMode_dict, Value.jsonMode_dict, Value.dict.injEq] at h

theorem Value.isJson_jsonMode {value : Value} (h : value.isJson = true) :
    value.jsonMode.isJson = true := by
  induction value using Value.induction with
  | scalar value hlist hdict =>
      rw [Value.jsonMode_scalar hlist hdict]
      split
      · exact h
      · rfl
  | list items ih =>
      rw [Value.isJson, itemsAreJson_iff] at h
      rw [Value.jsonMode_list, Value.isJson, itemsAreJson_iff, List.forall_mem_map]
      exact fun item hitem => ih item hitem (h item hitem)
  | dict members ih =>
      rw [Value.isJson, membersAreJson_iff] at h
      rw [Value.jsonMode_dict, Value.isJson, membersAreJson_iff]
      intro member hmember
      obtain ⟨value, hvalue, hdumped⟩ := mem_membersJsonMode hmember
      rw [hdumped]
      exact ih _ hvalue (h _ hvalue)

/-- Sorting keys changes no float. -/
theorem Value.isFinite_sortKeys (value : Value) : value.sortKeys.isFinite = value.isFinite := by
  induction value using Value.induction with
  | scalar value hlist hdict =>
      cases value with
      | list items => exact absurd rfl (hlist items)
      | dict members => exact absurd rfl (hdict members)
      | _ => rfl
  | list items ih =>
      rw [Value.sortKeys, sortItems_eq, Bool.eq_iff_iff, Value.isFinite_list, Value.isFinite_list,
        List.forall_mem_map]
      exact forall₂_congr fun item hitem => by rw [ih item hitem]
  | dict members ih =>
      rw [Value.sortKeys, sortMembers_eq, Bool.eq_iff_iff, Value.isFinite_dict,
        Value.isFinite_dict]
      simp only [mem_sortByKey, List.forall_mem_map]
      exact forall₂_congr fun member hmember => by rw [ih member hmember]

example : isFiniteToken "1.5" = true ∧ isFiniteToken "-1E308" = true ∧
    isFiniteToken "1.7976931348623158e+308" = true ∧ isFiniteToken "1E400" = false ∧
    isFiniteToken "-Infinity" = false ∧ isFiniteToken "NaN" = false := by
  decide +kernel

end FeatureStore
