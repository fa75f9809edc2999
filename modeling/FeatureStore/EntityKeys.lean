import FeatureStore.JsonParser
import FeatureStore.RedisTexts
import FeatureStore.RegistryModels
import FeatureStore.StreamConsumer

/-!
# Keys of entities

`entity_key` names an entity by the canonical text of a dictionary. Two dictionaries
have the same text when they agree on every key, up to what `json.dumps` writes alike.
-/

namespace FeatureStore

open PrefixCode

mutual

/-- What the text of a value reads back as: `default=str` writes timestamps as strings. -/
def Value.asJson : Value → Value
  | .timestamp t => .str t.str
  | .list items => .list (itemsAsJson items)
  | .dict members => .dict (membersAsJson members)
  | value => value

def itemsAsJson : List Value → List Value
  | [] => []
  | value :: rest => value.asJson :: itemsAsJson rest

def membersAsJson : List (String × Value) → List (String × Value)
  | [] => []
  | (key, value) :: rest => (key, value.asJson) :: membersAsJson rest

end

/-- A value up to what `json.dumps(..., sort_keys=True)` writes alike. -/
def Value.normal (value : Value) : Value := value.asJson.sortKeys

/-- The floats of a value are written as floats. -/
def Value.isWritable (value : Value) : Bool := value.asJson.isJson

/-- `{key: values[key] for key in join_keys}`, where all of them are there. -/
def keyValues (joinKeys : List String) (values : Dict) : Dict :=
  joinKeys.filterMap fun key => (values.lookup key).map fun value => (key, value)

/-- Dictionaries that give the join keys the same values. -/
def SameEntity (joinKeys : List String) (a b : Dict) : Prop :=
  ∀ key ∈ joinKeys, (a.lookup key).map Value.normal = (b.lookup key).map Value.normal

/-- What is assumed of a hexadecimal digest on some texts: no colon and no collision. -/
structure HexDigest (sha256 : String → String) (texts : List String) : Prop where
  plain : ∀ text ∈ texts, ':' ∉ (sha256 text).toList
  injective : ∀ a ∈ texts, ∀ b ∈ texts, sha256 a = sha256 b → a = b

section Texts

theorem itemsAsJson_eq (items : List Value) : itemsAsJson items = items.map Value.asJson := by
  induction items with
  | nil => rfl
  | cons value rest ih => rw [itemsAsJson, List.map_cons, ih]

theorem membersAsJson_eq (members : List (String × Value)) :
    membersAsJson members = members.map fun member => (member.1, member.2.asJson) := by
  induction members with
  | nil => rfl
  | cons member rest ih => rw [membersAsJson, List.map_cons, ih]

theorem itemsChars_congr {items : List Value}
    (h : ∀ item ∈ items, item.asJson.jsonChars = item.jsonChars) :
    itemsChars (items.map Value.asJson) = itemsChars items := by
  induction items with
  | nil => rfl
  | cons item rest ih =>
      have hitem := h item List.mem_cons_self
      have hrest := ih fun other hother => h other (List.mem_cons_of_mem _ hother)
      cases rest with
      | nil => simpa [itemsChars] using hitem
      | cons other rest =>
          rw [List.map_cons] at hrest
          rw [List.map_cons, List.map_cons, itemsChars, itemsChars, hitem, hrest]

theorem membersChars_congr {members : List (String × Value)}
    (h : ∀ member ∈ members, member.2.asJson.jsonChars = member.2.jsonChars) :
    membersChars (members.map fun member => (member.1, member.2.asJson)) =
      membersChars members := by
  induction members with
  | nil => rfl
  | cons member rest ih =>
      have hmember := h member List.mem_cons_self
      have hrest := ih fun other hother => h other (List.mem_cons_of_mem _ hother)
      cases rest with
      | nil => simp [membersChars, hmember]
      | cons other rest =>
          rw [List.map_cons] at hrest
          rw [List.map_cons, List.map_cons, membersChars, membersChars, hmember, hrest]

theorem Value.jsonChars_asJson (value : Value) : value.asJson.jsonChars = value.jsonChars := by
  induction value using Value.induction with
  | scalar value hlist hdict =>
      cases value with
      | list items => exact absurd rfl (hlist items)
      | dict members => exact absurd rfl (hdict members)
      | timestamp t => rfl
      | null => rfl
      | bool b => rfl
      | int n => rfl
      | float token => rfl
      | str s => rfl
  | list items ih =>
      rw [Value.asJson, Value.jsonChars, Value.jsonChars, itemsAsJson_eq, itemsChars_congr ih]
  | dict members ih =>
      rw [Value.asJson, Value.jsonChars, Value.jsonChars, membersAsJson_eq, membersChars_congr ih]

theorem Value.jsonText_asJson (value : Value) : value.asJson.jsonText = value.jsonText := by
  rw [Value.jsonText, value.jsonChars_asJson, Value.jsonText]

/-- A value that the JSON parser can return is written as itself. -/
theorem Value.asJson_of_isJson (value : Value) (h : value.isJson = true) :
    value.asJson = value := by
  induction value using Value.induction with
  | scalar value hlist hdict =>
      cases value with
      | list items => exact absurd rfl (hlist items)
      | dict members => exact absurd rfl (hdict members)
      | timestamp t => cases h
      | null => rfl
      | bool b => rfl
      | int n => rfl
      | float token => rfl
      | str s => rfl
  | list items ih =>
      rw [Value.isJson, itemsAreJson_iff] at h
      rw [Value.asJson, itemsAsJson_eq]
      apply congrArg Value.list
      calc
        items.map Value.asJson = items.map id :=
          List.map_congr_left fun item hitem => ih item hitem (h item hitem)
        _ = items := List.map_id items
  | dict members ih =>
      rw [Value.isJson, membersAreJson_iff] at h
      rw [Value.asJson, membersAsJson_eq]
      have hmember : ∀ member ∈ members, (member.1, member.2.asJson) = id member :=
        fun member hmember => congrArg (Prod.mk member.1) (ih member hmember (h member hmember))
      apply congrArg Value.dict
      calc
        members.map (fun member => (member.1, member.2.asJson)) = members.map id :=
          List.map_congr_left hmember
        _ = members := List.map_id members

theorem Value.isWritable_of_isLoaded {value : Value} (h : value.isLoaded = true) :
    value.isWritable = true := by
  have hjson := value.isJson_of_isLoaded h
  rw [Value.isWritable, value.asJson_of_isJson hjson, hjson]

/-- A dump is what `json.loads` can return if its value is. -/
theorem Value.isLoaded_jsonMode {value : Value} (h : value.isLoaded = true) :
    value.jsonMode.isLoaded = true := by
  induction value using Value.induction with
  | scalar value hlist hdict =>
      rw [Value.jsonMode_scalar hlist hdict]
      split
      · exact h
      · rfl
  | list items ih =>
      rw [Value.isLoaded, itemsAreLoaded_iff] at h
      rw [Value.jsonMode_list, Value.isLoaded, itemsAreLoaded_iff, List.forall_mem_map]
      exact fun item hitem => ih item hitem (h item hitem)
  | dict members ih =>
      rw [Value.isLoaded, Bool.and_eq_true, membersAreLoaded_iff, decide_eq_true_eq] at h
      rw [Value.jsonMode_dict, Value.isLoaded, Bool.and_eq_true, membersAreLoaded_iff,
        decide_eq_true_eq, membersJsonMode_keys]
      refine ⟨fun member hmember => ?_, h.2⟩
      obtain ⟨value, hvalue, hdumped⟩ := mem_membersJsonMode hmember
      rw [hdumped]
      exact ih _ hvalue (h.1 _ hvalue)

theorem Value.isWritable_dict {members : List (String × Value)} :
    (Value.dict members).isWritable = true ↔
      ∀ member ∈ members, member.2.isWritable = true := by
  rw [Value.isWritable, Value.asJson, Value.isJson, membersAreJson_iff, membersAsJson_eq,
    List.forall_mem_map]
  rfl

/-- What keeps the keys of items keeps their order. -/
theorem sortByKey_map_keyed {α β : Type} {f : String × α → String × β}
    (hf : ∀ item, (f item).1 = item.1) (items : List (String × α)) :
    sortByKey (items.map f) = (sortByKey items).map f := by
  refine (List.map_insertionSort (fun a b : String × α => a.1 ≤ b.1)
    (fun a b : String × β => a.1 ≤ b.1) _ items fun a _ b _ => ?_).symm
  rw [hf, hf]

theorem sortByKey_map {α β : Type} (f : α → β) (items : List (String × α)) :
    sortByKey (items.map fun item => (item.1, f item.2)) =
      (sortByKey items).map fun item => (item.1, f item.2) :=
  sortByKey_map_keyed (f := fun item => (item.1, f item.2)) (fun _ => rfl) items

theorem Value.asJson_sortKeys (value : Value) : value.asJson.sortKeys = value.sortKeys.asJson := by
  induction value using Value.induction with
  | scalar value hlist hdict =>
      cases value with
      | list items => exact absurd rfl (hlist items)
      | dict members => exact absurd rfl (hdict members)
      | timestamp t => rfl
      | null => rfl
      | bool b => rfl
      | int n => rfl
      | float token => rfl
      | str s => rfl
  | list items ih =>
      simp only [Value.asJson, Value.sortKeys, itemsAsJson_eq, sortItems_eq, List.map_map,
        Value.list.injEq]
      exact List.map_congr_left ih
  | dict members ih =>
      simp only [Value.asJson, Value.sortKeys, membersAsJson_eq, sortMembers_eq, List.map_map,
        Value.dict.injEq]
      rw [← sortByKey_map, List.map_map]
      exact congrArg sortByKey (List.map_congr_left fun member hmember =>
        Prod.ext rfl (ih member hmember))

/-- The text of a timestamp is no float. -/
theorem Value.isFinite_normal (value : Value) : value.normal.isFinite = value.isFinite := by
  have hjson : value.asJson.isFinite = value.isFinite := by
    induction value using Value.induction with
    | scalar value hlist hdict =>
        cases value with
        | list items => exact absurd rfl (hlist items)
        | dict members => exact absurd rfl (hdict members)
        | _ => rfl
    | list items ih =>
        rw [Value.asJson, itemsAsJson_eq, Bool.eq_iff_iff, Value.isFinite_list,
          Value.isFinite_list, List.forall_mem_map]
        exact forall₂_congr fun item hitem => by rw [ih item hitem]
    | dict members ih =>
        rw [Value.asJson, membersAsJson_eq, Bool.eq_iff_iff, Value.isFinite_dict,
          Value.isFinite_dict, List.forall_mem_map]
        exact forall₂_congr fun member hmember => by rw [ih member hmember]
  rw [Value.normal, Value.isFinite_sortKeys, hjson]

theorem Value.canonicalText_eq (value : Value) : value.canonicalText = value.normal.jsonText := by
  rw [Value.canonicalText, Value.normal, Value.asJson_sortKeys, Value.jsonText_asJson]

/-- Canonical texts agree when the values are written alike. -/
theorem Value.canonicalText_inj {a b : Value} (ha : a.isWritable = true)
    (hb : b.isWritable = true) : a.canonicalText = b.canonicalText ↔ a.normal = b.normal := by
  rw [Value.canonicalText_eq, Value.canonicalText_eq]
  constructor
  · apply Value.jsonText_inj
    · rw [Value.normal, Value.isJson_sortKeys]
      exact ha
    · rw [Value.normal, Value.isJson_sortKeys]
      exact hb
  · exact congrArg Value.jsonText

theorem Value.normal_dict (members : List (String × Value)) :
    (Value.dict members).normal =
      .dict (sortByKey (members.map fun member => (member.1, member.2.normal))) := by
  rw [Value.normal, Value.asJson, Value.sortKeys, membersAsJson_eq, sortMembers_eq, List.map_map]
  rfl

/-- Sorted dictionaries are the same when they give every key the same. -/
theorem sortByKey_eq_iff {β : Type} {items others : List (String × β)}
    (h : (items.map (·.1)).Nodup) (hother : (others.map (·.1)).Nodup) :
    sortByKey items = sortByKey others ↔ ∀ key, items.lookup key = others.lookup key := by
  constructor
  · intro heq key
    rw [← Dictionaries.lookup_perm (sortByKey_perm _)
        (((sortByKey_perm _).map _).nodup_iff.mpr h), heq,
      Dictionaries.lookup_perm (sortByKey_perm _)
        (((sortByKey_perm _).map _).nodup_iff.mpr hother)]
  · intro hlookup
    exact sortByKey_congr h (Dictionaries.perm_of_lookup h hother hlookup)

/-- Dictionaries are written alike when all their values are. -/
theorem Value.normal_dict_iff {members others : List (String × Value)}
    (h : (members.map (·.1)).Nodup) (hother : (others.map (·.1)).Nodup) :
    (Value.dict members).normal = (Value.dict others).normal ↔
      ∀ key, (members.lookup key).map Value.normal = (others.lookup key).map Value.normal := by
  have hkeys : ∀ items : List (String × Value), (items.map (·.1)).Nodup →
      ((items.map fun item => (item.1, item.2.normal)).map (·.1)).Nodup := by
    intro items hitems
    rwa [List.map_map]
  rw [Value.normal_dict, Value.normal_dict, Value.dict.injEq,
    sortByKey_eq_iff (hkeys _ h) (hkeys _ hother)]
  simp only [Dictionaries.lookup_map]

end Texts

section JoinKeys

variable {joinKeys : List String} {values : Dict}

theorem keyValues_keys (h : ∀ key ∈ joinKeys, key ∈ values.map (·.1)) :
    (keyValues joinKeys values).map (·.1) = joinKeys := by
  induction joinKeys with
  | nil => rfl
  | cons key rest ih =>
      obtain ⟨value, hvalue⟩ := Option.isSome_iff_exists.mp
        (Dictionaries.lookup_isSome_iff.mpr (h key List.mem_cons_self))
      rw [keyValues, List.filterMap_cons, hvalue]
      exact congrArg (key :: ·) (ih fun other hother => h other (List.mem_cons_of_mem _ hother))

theorem mem_keyValues {member : String × Value} (h : member ∈ keyValues joinKeys values) :
    values.lookup member.1 = some member.2 := by
  obtain ⟨key, -, hmember⟩ := List.mem_filterMap.mp h
  obtain ⟨value, hvalue, rfl⟩ := Option.map_eq_some_iff.mp hmember
  exact hvalue

theorem lookup_keyValues (joinKeys : List String) (values : Dict) (key : String) :
    (keyValues joinKeys values).lookup key =
      if key ∈ joinKeys then values.lookup key else none := by
  induction joinKeys with
  | nil => simp [keyValues]
  | cons first rest ih =>
      rw [keyValues, List.filterMap_cons]
      by_cases hfirst : key = first
      · subst hfirst
        cases hvalue : values.lookup key with
        | none =>
            rw [keyValues, hvalue] at ih
            simpa using ih
        | some value => simp
      · cases values.lookup first with
        | none =>
            rw [keyValues] at ih
            simpa [hfirst] using ih
        | some value =>
            rw [keyValues] at ih
            simpa [hfirst, List.lookup_cons, beq_eq_false_iff_ne.mpr hfirst] using ih

/-- The comprehension over the join keys does not raise when all of them are there. -/
theorem mapM_dictItem (h : ∀ key ∈ joinKeys, key ∈ values.map (·.1)) :
    joinKeys.mapM (dictItem values) = .ok (keyValues joinKeys values) := by
  induction joinKeys with
  | nil => rfl
  | cons key rest ih =>
      obtain ⟨value, hvalue⟩ := Option.isSome_iff_exists.mp
        (Dictionaries.lookup_isSome_iff.mpr (h key List.mem_cons_self))
      have hrest := ih fun other hother => h other (List.mem_cons_of_mem _ hother)
      have hkey : keyValues (key :: rest) values = (key, value) :: keyValues rest values := by
        rw [keyValues, List.filterMap_cons, hvalue]
        rfl
      rw [List.mapM_cons, dictItem, hvalue, hrest, hkey]
      rfl

/-- A dictionary is written like its join keys when it has no others. -/
theorem normal_keyValues_iff (hnodup : joinKeys.Nodup) (h : (values.map (·.1)).Nodup)
    {others : Dict} (hmissing : ∀ key ∈ joinKeys, key ∈ others.map (·.1))
    (hsame : SameEntity joinKeys others values) :
    (Value.dict (keyValues joinKeys others)).normal = (Value.dict values).normal ↔
      ∀ key ∈ values.map (·.1), key ∈ joinKeys := by
  have hkeys : ((keyValues joinKeys others).map (·.1)).Nodup := by
    rwa [keyValues_keys hmissing]
  rw [Value.normal_dict_iff hkeys h]
  constructor
  · intro hlookup key hkey
    by_contra hnot
    have heq := hlookup key
    rw [lookup_keyValues, if_neg hnot, Option.map_none, eq_comm, Option.map_eq_none_iff,
      Dictionaries.lookup_eq_none_iff] at heq
    exact heq hkey
  · intro honly key
    rw [lookup_keyValues]
    split
    · rename_i hkey
      exact hsame key hkey
    · rename_i hkey
      rw [Dictionaries.lookup_eq_none_iff.mpr fun hmem => hkey (honly key hmem)]

/-- The dump of a dictionary is written like its join keys when it has no others, and no
infinity and no NaN among them. -/
theorem normal_keyValues_dump_iff (hnodup : joinKeys.Nodup) (h : (values.map (·.1)).Nodup)
    (hkeys : ∀ key ∈ joinKeys, key ∈ values.map (·.1)) :
    (Value.dict (keyValues joinKeys values)).normal = (Value.dict (membersJsonMode values)).normal ↔
      (∀ key ∈ values.map (·.1), key ∈ joinKeys) ∧ (Value.dict values).isFinite = true := by
  have hown := normal_keyValues_iff hnodup h hkeys fun _ _ => rfl
  constructor
  · intro heq
    have hfinite : (Value.dict (keyValues joinKeys values)).isFinite = true := by
      rw [← Value.isFinite_normal, heq, Value.isFinite_normal, ← Value.jsonMode_dict]
      exact Value.isFinite_jsonMode _
    have hdumped : (membersJsonMode values).map (·.1) = values.map (·.1) :=
      membersJsonMode_keys values
    have honly : ∀ key ∈ values.map (·.1), key ∈ joinKeys := by
      intro key hkey
      have hpicked : ((keyValues joinKeys values).map (·.1)).Nodup := by
        rwa [keyValues_keys hkeys]
      by_contra hnot
      have hlookup := (Value.normal_dict_iff hpicked (hdumped ▸ h)).mp heq key
      rw [lookup_keyValues, if_neg hnot, Option.map_none, eq_comm, Option.map_eq_none_iff,
        Dictionaries.lookup_eq_none_iff, hdumped] at hlookup
      exact hlookup hkey
    refine ⟨honly, ?_⟩
    rw [← Value.isFinite_normal, ← hown.mpr honly, Value.isFinite_normal, hfinite]
  · rintro ⟨honly, hfinite⟩
    rw [membersJsonMode_eq_iff.mpr hfinite, hown.mpr honly]

end JoinKeys

section Keys

variable {sha256 : String → String} {texts : List String}

theorem HexDigest.mono {others : List String} (h : HexDigest sha256 texts)
    (hsub : ∀ text ∈ others, text ∈ texts) : HexDigest sha256 others where
  plain text htext := h.plain text (hsub text htext)
  injective a ha b hb := h.injective a (hsub a ha) b (hsub b hb)

/-- Without colons and collisions in the digests, a key tells its view and its text. -/
theorem entityKey_inj (h : HexDigest sha256 texts) {viewRef other : String} {a b : Dict}
    (ha : (Value.dict a).canonicalText ∈ texts) (hb : (Value.dict b).canonicalText ∈ texts) :
    (jsonCodec sha256).entityKey viewRef a = (jsonCodec sha256).entityKey other b ↔
      viewRef = other ∧ (Value.dict a).canonicalText = (Value.dict b).canonicalText := by
  constructor
  · intro hkey
    have hchars : viewRef.toList ++ ':' :: (sha256 (Value.dict a).canonicalText).toList =
        other.toList ++ ':' :: (sha256 (Value.dict b).canonicalText).toList := by
      simpa [OnlineCodec.entityKey, jsonCodec, String.ext_iff, toString] using hkey
    have hreverse := congrArg List.reverse hchars
    simp only [List.reverse_append, List.reverse_cons, List.append_assoc,
      List.singleton_append] at hreverse
    have hplain : ∀ text ∈ texts, ∀ c ∈ (sha256 text).toList.reverse, (c != ':') = true := by
      intro text htext c hc
      rw [bne_iff_ne]
      rintro rfl
      exact h.plain text htext (List.mem_reverse.mp hc)
    obtain ⟨hdigest, hview⟩ := token_append (hplain _ ha) (hplain _ hb) (by simp) (by simp)
      hreverse
    refine ⟨String.toList_inj.mp (List.reverse_inj.mp (List.cons.inj hview).2), ?_⟩
    exact h.injective _ ha _ hb (String.toList_inj.mp (List.reverse_inj.mp hdigest))
  · rintro ⟨rfl, htext⟩
    have hdigest : (jsonCodec sha256).digest a = (jsonCodec sha256).digest b :=
      congrArg sha256 htext
    rw [OnlineCodec.entityKey, OnlineCodec.entityKey, hdigest]

end Keys

end FeatureStore
