import FeatureStore.EntityKeys

/-!
# Canonical JSON

The sorted compact text of a JSON value, with literals escaped to ASCII as in specs and entity
keys, or with raw characters as in event payloads. Either text determines its value up to
the order of object keys.
-/

namespace FeatureStore

open PrefixCode

/-- A character of a literal with `ensure_ascii=False`. -/
def escapeRaw (c : Char) : List Char :=
  match shortEscapes.lookup c with
  | some letter => ['\\', letter]
  | none => if c < ' ' then unitEscape c.toNat else [c]

/-- A string literal with `ensure_ascii=False`. -/
def rawQuoted (s : String) : List Char :=
  '"' :: (s.toList.flatMap escapeRaw ++ ['"'])

/-- `json.dumps(value, sort_keys=True, separators=(",", ":"), ensure_ascii=False)`. -/
def Value.rawCanonicalText (value : Value) : String :=
  String.ofList (value.sortKeys.charsWith rawQuoted)

/-- `payload_fingerprint`, by the given SHA-256. -/
def payloadFingerprint (sha256 : String → String) (payload : Value) : String :=
  sha256 payload.rawCanonicalText

mutual

/-- No object of the value has a key twice. -/
def Value.hasDistinctKeys : Value → Bool
  | .list items => itemsHaveDistinctKeys items
  | .dict members => membersHaveDistinctKeys members && decide (members.map (·.1)).Nodup
  | _ => true

def itemsHaveDistinctKeys : List Value → Bool
  | [] => true
  | value :: rest => value.hasDistinctKeys && itemsHaveDistinctKeys rest

def membersHaveDistinctKeys : List (String × Value) → Bool
  | [] => true
  | (_, value) :: rest => value.hasDistinctKeys && membersHaveDistinctKeys rest

end

/-- A JSON value: its objects are dictionaries, and its floats are opaque tokens. -/
structure JsonValue where
  value : Value
  isJson : value.isJson = true
  distinctKeys : value.hasDistinctKeys = true

/-- Equality of values up to the order of object keys. -/
inductive Value.SameJson : Value → Value → Prop
  | scalar {value : Value} (hlist : ∀ items, value ≠ .list items)
      (hdict : ∀ members, value ≠ .dict members) : SameJson value value
  | list {items others : List Value} (hlength : items.length = others.length)
      (hitems : ∀ (index : Nat) (item other : Value), items[index]? = some item →
        others[index]? = some other → SameJson item other) :
      SameJson (.list items) (.list others)
  | dict {members others : List (String × Value)}
      (hkeys : ∀ key, key ∈ members.map (·.1) ↔ key ∈ others.map (·.1))
      (hmembers : ∀ (key : String) (value other : Value), members.lookup key = some value →
        others.lookup key = some other → SameJson value other) :
      SameJson (.dict members) (.dict others)

/-- Both canonical texts of a value. -/
def JsonValue.canonicalTexts (json : JsonValue) : List String :=
  [json.value.canonicalText, json.value.rawCanonicalText]

section Literals

/-- The three kinds of raw escapes: a letter, a control unit, the character itself. -/
theorem escapeRaw_cases (c : Char) :
    (∃ letter, (c, letter) ∈ shortEscapes ∧ escapeRaw c = ['\\', letter]) ∨
      (c.toNat < 65536 ∧ escapeRaw c = unitEscape c.toNat) ∨
      (c ≠ '\\' ∧ c ≠ '"' ∧ escapeRaw c = [c]) := by
  unfold escapeRaw
  cases h : shortEscapes.lookup c with
  | some letter => exact Or.inl ⟨letter, mem_shortEscapes h, rfl⟩
  | none =>
      have hbackslash : c ≠ '\\' := by
        rintro rfl
        cases h
      have hquote : c ≠ '"' := by
        rintro rfl
        cases h
      dsimp only
      split
      · rename_i hcontrol
        have hsmall : c.toNat < 32 := hcontrol
        exact Or.inr (Or.inl ⟨by omega, rfl⟩)
      · exact Or.inr (Or.inr ⟨hbackslash, hquote, rfl⟩)

theorem escapeRaw_head (c : Char) : ∃ first rest, escapeRaw c = first :: rest ∧ first ≠ '"' := by
  rcases escapeRaw_cases c with ⟨letter, -, h⟩ | ⟨-, h⟩ | ⟨-, hquote, h⟩
  · exact ⟨_, _, h, by decide⟩
  · exact ⟨_, _, h, by decide⟩
  · exact ⟨_, _, h, hquote⟩

theorem escapeRaw_readsBack (a : Char) :
    ReadsBack escapeRaw (fun _ => True) (fun _ => True) a := by
  intro b _ r r' _ _ h
  rcases escapeRaw_cases a with ⟨la, hla, ha⟩ | ⟨hsmall, ha⟩ | ⟨hslash, -, ha⟩
  · rcases escapeRaw_cases b with ⟨lb, hlb, hb⟩ | ⟨-, hb⟩ | ⟨hslash, -, hb⟩
    · simp only [ha, hb, List.cons_append, List.nil_append, List.cons.injEq, true_and] at h
      exact ⟨shortEscapes_inj _ hla _ hlb h.1, h.2⟩
    · simp only [ha, hb, unitEscape, List.cons_append, List.nil_append, List.cons.injEq] at h
      exact absurd h.2.1 (shortEscapes_ne_u _ hla)
    · simp only [ha, hb, List.cons_append, List.nil_append, List.cons.injEq] at h
      exact absurd h.1.symm hslash
  · rcases escapeRaw_cases b with ⟨lb, hlb, hb⟩ | ⟨hsmallB, hb⟩ | ⟨hslash, -, hb⟩
    · simp only [ha, hb, unitEscape, List.cons_append, List.nil_append, List.cons.injEq] at h
      exact absurd h.2.1.symm (shortEscapes_ne_u _ hlb)
    · rw [ha, hb] at h
      obtain ⟨hunit, hrest⟩ := unitEscape_append hsmall hsmallB h
      exact ⟨Char.toNat_inj.mp hunit, hrest⟩
    · simp only [ha, hb, unitEscape, List.cons_append, List.nil_append, List.cons.injEq] at h
      exact absurd h.1.symm hslash
  · rcases escapeRaw_cases b with ⟨lb, -, hb⟩ | ⟨-, hb⟩ | ⟨-, -, hb⟩
    · simp only [ha, hb, List.cons_append, List.nil_append, List.cons.injEq] at h
      exact absurd h.1 hslash
    · simp only [ha, hb, unitEscape, List.cons_append, List.nil_append, List.cons.injEq] at h
      exact absurd h.1 hslash
    · simp only [ha, hb, List.cons_append, List.nil_append, List.cons.injEq] at h
      exact h

theorem rawQuoted_literals : StringLiterals rawQuoted where
  first _ := ⟨_, rfl⟩
  append {s t r r'} h := by
    simp only [rawQuoted, List.cons_append, List.append_assoc, List.nil_append, List.cons.injEq,
      true_and] at h
    obtain ⟨hchars, hrest⟩ := flatMap_terminated escapeRaw_readsBack escapeRaw_head h
    exact ⟨String.toList_inj.mp hchars, hrest⟩

end Literals

section Sorting

theorem itemsHaveDistinctKeys_iff {items : List Value} :
    itemsHaveDistinctKeys items = true ↔ ∀ value ∈ items, value.hasDistinctKeys = true := by
  induction items with
  | nil => simp [itemsHaveDistinctKeys]
  | cons value rest ih => simp [itemsHaveDistinctKeys, ih]

theorem membersHaveDistinctKeys_iff {members : List (String × Value)} :
    membersHaveDistinctKeys members = true ↔
      ∀ member ∈ members, member.2.hasDistinctKeys = true := by
  induction members with
  | nil => simp [membersHaveDistinctKeys]
  | cons member rest ih => simp [membersHaveDistinctKeys, ih]

theorem Value.hasDistinctKeys_dict {members : List (String × Value)} :
    (Value.dict members).hasDistinctKeys = true ↔
      (∀ member ∈ members, member.2.hasDistinctKeys = true) ∧ (members.map (·.1)).Nodup := by
  rw [Value.hasDistinctKeys, Bool.and_eq_true, membersHaveDistinctKeys_iff, decide_eq_true_eq]

/-- A dump has the keys of its value. -/
theorem Value.hasDistinctKeys_jsonMode {value : Value} (h : value.hasDistinctKeys = true) :
    value.jsonMode.hasDistinctKeys = true := by
  induction value using Value.induction with
  | scalar value hlist hdict =>
      rw [Value.jsonMode_scalar hlist hdict]
      split
      · exact h
      · rfl
  | list items ih =>
      rw [Value.hasDistinctKeys, itemsHaveDistinctKeys_iff] at h
      rw [Value.jsonMode_list, Value.hasDistinctKeys, itemsHaveDistinctKeys_iff,
        List.forall_mem_map]
      exact fun item hitem => ih item hitem (h item hitem)
  | dict members ih =>
      rw [Value.hasDistinctKeys_dict] at h
      rw [Value.jsonMode_dict, Value.hasDistinctKeys_dict, membersJsonMode_keys]
      refine ⟨fun member hmember => ?_, h.2⟩
      obtain ⟨value, hvalue, hdumped⟩ := mem_membersJsonMode hmember
      rw [hdumped]
      exact ih _ hvalue (h.1 _ hvalue)

/-- Members with distinct keys are sorted alike when all their values are. -/
theorem sortMembers_eq_iff {members others : List (String × Value)}
    (h : (members.map (·.1)).Nodup) (hother : (others.map (·.1)).Nodup) :
    sortByKey (sortMembers members) = sortByKey (sortMembers others) ↔
      ∀ key, (members.lookup key).map Value.sortKeys = (others.lookup key).map Value.sortKeys := by
  have hkeys : ∀ items : List (String × Value), (items.map (·.1)).Nodup →
      ((items.map fun item => (item.1, item.2.sortKeys)).map (·.1)).Nodup := by
    intro items hitems
    rwa [List.map_map]
  rw [sortMembers_eq, sortMembers_eq, sortByKey_eq_iff (hkeys _ h) (hkeys _ hother)]
  simp only [Dictionaries.lookup_map]

theorem map_eq_map_iff {α β : Type} {f : α → β} {items others : List α} :
    items.map f = others.map f ↔ items.length = others.length ∧
      ∀ (index : Nat) (item other : α), items[index]? = some item →
        others[index]? = some other → f item = f other := by
  constructor
  · intro h
    refine ⟨by simpa using congrArg List.length h, fun index item other hitem hother => ?_⟩
    have hindex := congrArg (·[index]?) h
    simpa [hitem, hother] using hindex
  · rintro ⟨hlength, hitems⟩
    apply List.ext_getElem
    · simpa using hlength
    · intro index hindex hindex'
      rw [List.length_map] at hindex hindex'
      rw [List.getElem_map, List.getElem_map]
      exact hitems index _ _ (List.getElem?_eq_getElem hindex) (List.getElem?_eq_getElem hindex')

theorem map_lookup_eq_iff {α β : Type} {f : α → β} {members others : List (String × α)} :
    (∀ key, (members.lookup key).map f = (others.lookup key).map f) ↔
      (∀ key, key ∈ members.map (·.1) ↔ key ∈ others.map (·.1)) ∧
      ∀ (key : String) (value other : α), members.lookup key = some value →
        others.lookup key = some other → f value = f other := by
  constructor
  · intro h
    constructor
    · intro key
      rw [← Dictionaries.lookup_isSome_iff, ← Dictionaries.lookup_isSome_iff,
        ← Option.isSome_map (f := f), h key, Option.isSome_map]
    · intro key value other hvalue hother
      have hkey := h key
      rw [hvalue, hother] at hkey
      exact Option.some.inj hkey
  · rintro ⟨hkeys, hvalues⟩ key
    have hkey := hkeys key
    rw [← Dictionaries.lookup_isSome_iff, ← Dictionaries.lookup_isSome_iff] at hkey
    cases hvalue : members.lookup key with
    | none =>
        cases hother : others.lookup key with
        | none => rfl
        | some other => simp [hvalue, hother] at hkey
    | some value =>
        cases hother : others.lookup key with
        | none => simp [hvalue, hother] at hkey
        | some other => exact congrArg some (hvalues key value other hvalue hother)

theorem sameJson_str {s t : String} : (Value.str s).SameJson (.str t) ↔ s = t := by
  constructor
  · intro h
    cases h with
    | scalar _ _ => rfl
  · rintro rfl
    exact .scalar nofun nofun

theorem sameJson_list {items others : List Value} :
    (Value.list items).SameJson (.list others) ↔ items.length = others.length ∧
      ∀ (index : Nat) (item other : Value), items[index]? = some item →
        others[index]? = some other → item.SameJson other := by
  constructor
  · intro h
    cases h with
    | scalar hlist _ => exact absurd rfl (hlist items)
    | list hlength hitems => exact ⟨hlength, hitems⟩
  · exact fun h => .list h.1 h.2

theorem sameJson_dict {members others : List (String × Value)} :
    (Value.dict members).SameJson (.dict others) ↔
      (∀ key, key ∈ members.map (·.1) ↔ key ∈ others.map (·.1)) ∧
      ∀ (key : String) (value other : Value), members.lookup key = some value →
        others.lookup key = some other → value.SameJson other := by
  constructor
  · intro h
    cases h with
    | scalar _ hdict => exact absurd rfl (hdict members)
    | dict hkeys hmembers => exact ⟨hkeys, hmembers⟩
  · exact fun h => .dict h.1 h.2

/-- Members with the same keys in the same order. -/
theorem sameJson_members {members others : List (String × Value)}
    (h : List.Forall₂ (fun member other => member.1 = other.1 ∧ member.2.SameJson other.2) members
      others) (hother : (others.map (·.1)).Nodup) :
    (Value.dict members).SameJson (.dict others) := by
  have hkeys : members.map (·.1) = others.map (·.1) := by
    have hsame := h.imp fun _ _ hmember => hmember.1
    rw [← List.forall₂_eq_eq_eq, List.forall₂_map_left_iff, List.forall₂_map_right_iff]
    exact hsame
  refine .dict (fun key => by rw [hkeys]) fun key value other hvalue hfound => ?_
  rw [Dictionaries.lookup_eq_some_iff hother] at hfound
  obtain ⟨found, hlookup, hsame⟩ := Dictionaries.lookup_of_forall₂ (R := Value.SameJson) h hother
    hfound
  rw [hvalue] at hlookup
  exact Option.some.inj hlookup ▸ hsame

/-- Sorting the keys decides equality up to their order. -/
theorem sameJson_iff {a b : Value} (ha : a.hasDistinctKeys = true)
    (hb : b.hasDistinctKeys = true) : a.SameJson b ↔ a.sortKeys = b.sortKeys := by
  induction a using Value.induction generalizing b with
  | scalar a hlist hdict =>
      have hself : a.sortKeys = a := by
        cases a with
        | list items => exact absurd rfl (hlist items)
        | dict members => exact absurd rfl (hdict members)
        | _ => rfl
      constructor
      · intro h
        cases h with
        | scalar _ _ => rfl
        | list _ _ => exact absurd rfl (hlist _)
        | dict _ _ => exact absurd rfl (hdict _)
      · intro h
        rw [hself] at h
        cases b with
        | list items => exact absurd h (hlist _)
        | dict members => exact absurd h (hdict _)
        | _ =>
            subst h
            exact .scalar hlist hdict
  | list items ih =>
      cases b with
      | list others =>
          rw [Value.hasDistinctKeys, itemsHaveDistinctKeys_iff] at ha hb
          rw [sameJson_list, Value.sortKeys, Value.sortKeys, sortItems_eq, sortItems_eq,
            Value.list.injEq, map_eq_map_iff]
          apply and_congr_right
          intro _
          apply forall₅_congr
          intro index item other hitem hother
          exact ih item (List.mem_of_getElem? hitem) (ha item (List.mem_of_getElem? hitem))
            (hb other (List.mem_of_getElem? hother))
      | _ =>
          refine iff_of_false ?_ (by simp [Value.sortKeys])
          intro h
          cases h
  | dict members ih =>
      cases b with
      | dict others =>
          rw [Value.hasDistinctKeys_dict] at ha hb
          rw [sameJson_dict, Value.sortKeys, Value.sortKeys, Value.dict.injEq,
            sortMembers_eq_iff ha.2 hb.2, map_lookup_eq_iff]
          apply and_congr_right
          intro _
          apply forall₅_congr
          intro key value other hvalue hother
          rw [Dictionaries.lookup_eq_some_iff ha.2] at hvalue
          rw [Dictionaries.lookup_eq_some_iff hb.2] at hother
          exact ih _ hvalue (ha.1 _ hvalue) (hb.1 _ hother)
      | _ =>
          refine iff_of_false ?_ (by simp [Value.sortKeys])
          intro h
          cases h

/-- Values that are the same up to the order of keys have the same floats. -/
theorem isFinite_of_sameJson {a b : Value} (ha : a.hasDistinctKeys = true)
    (hb : b.hasDistinctKeys = true) (h : a.SameJson b) : a.isFinite = b.isFinite := by
  rw [← a.isFinite_sortKeys, (sameJson_iff ha hb).mp h, b.isFinite_sortKeys]

end Sorting

section Faithful

theorem Value.rawCanonicalText_inj {a b : Value} (ha : a.isJson = true) (hb : b.isJson = true) :
    a.rawCanonicalText = b.rawCanonicalText ↔ a.sortKeys = b.sortKeys := by
  constructor
  · intro h
    apply charsWith_inj rawQuoted_literals (a.isJson_sortKeys.trans ha) (b.isJson_sortKeys.trans hb)
    exact String.ofList_inj.mp h
  · intro h
    rw [Value.rawCanonicalText, h, Value.rawCanonicalText]

theorem JsonValue.sameJson_iff (a b : JsonValue) :
    a.value.SameJson b.value ↔ a.value.sortKeys = b.value.sortKeys :=
  FeatureStore.sameJson_iff a.distinctKeys b.distinctKeys

theorem JsonValue.canonicalText_iff (a b : JsonValue) :
    a.value.canonicalText = b.value.canonicalText ↔ a.value.SameJson b.value :=
  (canonicalText_eq_iff a.isJson b.isJson).trans (a.sameJson_iff b).symm

theorem JsonValue.rawCanonicalText_iff (a b : JsonValue) :
    a.value.rawCanonicalText = b.value.rawCanonicalText ↔ a.value.SameJson b.value :=
  (Value.rawCanonicalText_inj a.isJson b.isJson).trans (a.sameJson_iff b).symm

/-- A digest without collisions tells texts apart. -/
theorem HexDigest.digest_iff {sha256 : String → String} {texts : List String}
    (h : HexDigest sha256 texts) {text other : String} (htext : text ∈ texts)
    (hother : other ∈ texts) : sha256 text = sha256 other ↔ text = other := by
  constructor
  · exact h.injective text htext other hother
  · exact congrArg sha256

/-- Both canonical texts say what a JSON value is up to the order of keys; so do the
fingerprints of specs and payloads and the keys of entities. -/
theorem canonical_json_faithful (sha256 : String → String) (a b : JsonValue) :
    (a.value.canonicalText = b.value.canonicalText ↔ a.value.SameJson b.value) ∧
      (a.value.rawCanonicalText = b.value.rawCanonicalText ↔ a.value.SameJson b.value) ∧
      (HexDigest sha256 (a.canonicalTexts ++ b.canonicalTexts) →
        (fingerprint sha256 a.value = fingerprint sha256 b.value ↔ a.value.SameJson b.value) ∧
        (payloadFingerprint sha256 a.value = payloadFingerprint sha256 b.value ↔
          a.value.SameJson b.value) ∧
        ∀ (viewRef other : String) (entityValues others : Dict), a.value = .dict entityValues →
          b.value = .dict others →
            ((jsonCodec sha256).entityKey viewRef entityValues =
                (jsonCodec sha256).entityKey other others ↔
              viewRef = other ∧ (Value.dict entityValues).SameJson (.dict others))) := by
  refine ⟨a.canonicalText_iff b, a.rawCanonicalText_iff b, fun hdigest => ⟨?_, ?_, ?_⟩⟩
  · rw [← a.canonicalText_iff b]
    apply hdigest.digest_iff
    · simp [JsonValue.canonicalTexts]
    · simp [JsonValue.canonicalTexts]
  · rw [← a.rawCanonicalText_iff b]
    apply hdigest.digest_iff
    · simp [JsonValue.canonicalTexts]
    · simp [JsonValue.canonicalTexts]
  · intro viewRef other entityValues others hvalues hothers
    rw [← hvalues, ← hothers, ← a.canonicalText_iff b, hvalues, hothers]
    apply entityKey_inj hdigest
    · simp [JsonValue.canonicalTexts, hvalues]
    · simp [JsonValue.canonicalTexts, hothers]

end Faithful

section Sample

def regionDigest (text : String) : String :=
  if text = "\x7b\"account_id\":\"a1\"\x7d" then
    "1f31d0230d93ce4ed77ba93f67ebb5958d9de81b938b05a76256f5aedd3cc4e7"
  else "f0553f17feec45f4646c5d4658cb5ad34942ceaa242822ae52fa6186bccc44d3"

def accountKey : JsonValue := ⟨.dict [("account_id", .str "a1")], rfl, by decide⟩

def regionKey : JsonValue :=
  ⟨.dict [("region", .str "eu"), ("account_id", .str "a1")], rfl, by decide⟩

/-- The key of an account tells whether the entity has a region. -/
theorem region_key_differs :
    (jsonCodec regionDigest).entityKey "account_stats@1.0.0" [("account_id", .str "a1")] ≠
      (jsonCodec regionDigest).entityKey "account_stats@1.0.0"
        [("region", .str "eu"), ("account_id", .str "a1")] := by
  have hdigest : HexDigest regionDigest
      (accountKey.canonicalTexts ++ regionKey.canonicalTexts) := ⟨by decide, by decide⟩
  have hkeys := ((canonical_json_faithful regionDigest accountKey regionKey).2.2 hdigest).2.2
    "account_stats@1.0.0" "account_stats@1.0.0" _ _ rfl rfl
  intro h
  have hsame := (sameJson_dict.mp (hkeys.mp h).2).1 "region"
  exact absurd hsame (by decide)

end Sample

end FeatureStore
