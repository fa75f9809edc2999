import FeatureStore.ConflictDifferences
import FeatureStore.ManifestParsing

/-!
# Round trips of specs

The models read back what they have dumped, with nulls or without the absent fields of quality,
unless an accepted value is an infinity or NaN, for which a dump has null. So the spec of any
other view tells the view, and a plan against a stored view finds it unchanged or in conflict by
the definition alone, whichever way it was written.
-/

namespace FeatureStore

open Manifest Relational

variable {rules : ManifestRules}

section Readers

theorem readNullable_ok {α : Type} (dump : α → Value) {members : Dict} {field : String}
    {read : Value → Except PyException α} {value : Option α}
    (hfield : (members.lookup field).getD .null = optionValue dump value)
    (hnull : ∀ a, dump a ≠ .null) (hread : ∀ a, value = some a → read (dump a) = .ok a) :
    readNullable members field read = .ok value := by
  rw [readNullable, hfield]
  cases value with
  | none => rfl
  | some a =>
      change readOptional read (dump a) = .ok (some a)
      rw [readOptional.eq_2 _ _ (hnull a), hread a rfl]
      rfl

theorem readDefault_ok {α : Type} {members : Dict} {field : String} {default a : α}
    {value : Value} {read : Value → Except PyException α}
    (hfield : members.lookup field = some value)
    (hread : read value = .ok a) : readDefault members field default read = .ok a := by
  rw [readDefault, hfield]
  exact hread

theorem readRequired_ok {members : Dict} {field : String} {value : Value}
    (hfield : members.lookup field = some value) : readRequired members field = .ok value := by
  rw [readRequired, hfield]

theorem require_ok {check : Prop} [Decidable check] {message : String} (h : check) :
    require check message = .ok () := if_pos h

theorem readValueType_value (dtype : ValueType) :
    readValueType (.str dtype.value) = .ok dtype := by
  cases dtype <;> rfl

theorem readPolicy_value (policy : QualityPolicy) :
    readPolicy (.str policy.value) = .ok policy := by
  cases policy <;> rfl

theorem readNumber_value (number : Number) : readNumber number.value = .ok number := by
  cases number with
  | int n => rfl
  | float token isFloat => exact dif_pos isFloat

theorem readAge_value (n : Nat) : readAge (.int n) = .ok n := by
  rw [readAge, if_pos (Int.natCast_nonneg n), Int.toNat_natCast]

theorem readBool_bool (b : Bool) : readBool rules (.bool b) = .ok b := by
  rw [readBool, rules.toBool_bool]

theorem readTtl_value {n : Nat} (h : 0 < n) : readTtl rules (.int n) = .ok n := by
  simp only [readTtl, rules.toInt_int]
  rw [if_pos (Int.natCast_pos.mpr h), Int.toNat_natCast]

theorem value_ne_null (number : Number) : number.value ≠ .null := by
  cases number <;> exact nofun

end Readers

section Features

/-- A contract is read back from its dump if it accepts no infinity and no NaN. -/
theorem parse_quality {quality : Manifest.FeatureQuality} (hfinite : quality.acceptsFinite = true)
    (h : quality.fields.validRange rules = .ok ()) :
    QualityFields.parse rules quality.dump = .ok quality.fields := by
  have hitems : ∀ values : List Value, readList .ok (.list values) = .ok values := fun values => by
    have hlist := @readList_map Value id .ok values fun _ _ => rfl
    rwa [List.map_id] at hlist
  obtain ⟨members, hdump⟩ : ∃ members, members = [("nullable", Value.bool quality.nullable),
    ("minimum", optionValue Number.value quality.minimum),
    ("maximum", optionValue Number.value quality.maximum),
    ("accepted_values",
      optionValue (fun values => (Value.list values).jsonMode) quality.acceptedValues),
    ("unique", .bool quality.unique),
    ("max_age_seconds", optionValue (fun n : Nat => .int n) quality.maxAgeSeconds)] := ⟨_, rfl⟩
  have hmodel : readModel ["nullable", "minimum", "maximum", "accepted_values", "unique",
      "max_age_seconds"] quality.dump = .ok members := by
    rw [hdump]
    exact readModel_ok (by simp)
  have hnullable : readDefault members "nullable" true (readBool rules) = .ok quality.nullable :=
    readDefault_ok (by rw [hdump]; rfl) (readBool_bool _)
  have hminimum : readNullable members "minimum" readNumber = .ok quality.minimum :=
    readNullable_ok Number.value (by rw [hdump]; rfl) value_ne_null fun _ _ => readNumber_value _
  have hmaximum : readNullable members "maximum" readNumber = .ok quality.maximum :=
    readNullable_ok Number.value (by rw [hdump]; rfl) value_ne_null fun _ _ => readNumber_value _
  have haccepted : readNullable members "accepted_values" (readList .ok) =
      .ok quality.acceptedValues := by
    refine readNullable_ok (fun values => (Value.list values).jsonMode) (by rw [hdump]; rfl)
      (fun _ => by simp [Value.jsonMode]) fun values hvalues => ?_
    rw [Manifest.FeatureQuality.acceptsFinite, hvalues, Option.all_some, List.all_eq_true]
      at hfinite
    rw [(Value.list values).jsonMode_of_isFinite (Value.isFinite_list.mpr hfinite)]
    exact hitems values
  have hunique : readDefault members "unique" false (readBool rules) = .ok quality.unique :=
    readDefault_ok (by rw [hdump]; rfl) (readBool_bool _)
  have hage : readNullable members "max_age_seconds" readAge = .ok quality.maxAgeSeconds :=
    readNullable_ok (fun n : Nat => .int n) (by rw [hdump]; rfl) (fun _ => by simp)
      fun _ _ => readAge_value _
  rw [QualityFields.parse, hmodel]
  simp only [bind, Except.bind, hnullable, hminimum, hmaximum, haccepted, hunique, hage]
  have hrange : QualityFields.validRange rules ⟨quality.nullable, quality.minimum,
      quality.maximum, quality.acceptedValues, quality.unique, quality.maxAgeSeconds⟩ =
        .ok () := h
  rw [hrange]
  rfl

/-- A feature is read back from members that hold its fields, whether an absent contract is
null or left out. -/
theorem parse_feature {feature : Manifest.Feature} {members : Dict} (h : feature.Valid rules)
    (hfinite : feature.acceptsFinite = true)
    (hmodel : ∀ member ∈ members, member.1 ∈ ["name", "dtype", "description", "quality"])
    (hname : members.lookup "name" = some (.str feature.name))
    (hdtype : members.lookup "dtype" = some (.str feature.dtype.value))
    (hdescription : members.lookup "description" = some (.str feature.description))
    (hquality : (members.lookup "quality").getD .null =
      optionValue Manifest.FeatureQuality.dump feature.quality) :
    Manifest.Feature.parse rules (.dict members) = .ok feature := by
  have hcontract : readNullable members "quality" (QualityFields.parse rules) =
      .ok (feature.quality.map Manifest.FeatureQuality.fields) := by
    rw [readNullable, hquality]
    cases hsome : feature.quality with
    | none => rfl
    | some quality =>
        rw [Manifest.Feature.acceptsFinite, hsome, Option.all_some] at hfinite
        change readOptional _ quality.dump = _
        rw [readOptional.eq_2 _ _ (fun h => by cases h),
          parse_quality hfinite (h.range quality hsome)]
        rfl
  have hchecked : unlessNone (validateQuality rules feature.dtype)
      (feature.quality.map Manifest.FeatureQuality.fields) = .ok () := by
    cases hsome : feature.quality with
    | none => rfl
    | some quality => exact h.quality quality hsome
  have htext : readDefault members "description" "" readStr = .ok feature.description :=
    readDefault_ok hdescription rfl
  rw [Manifest.Feature.parse, readModel_ok hmodel]
  simp only [bind, Except.bind, readRequired_ok hname, readRequired_ok hdtype, readStr,
    require_ok h.name, readValueType_value, htext, hcontract, hchecked]
  obtain ⟨name, dtype, description, quality⟩ := feature
  cases quality with
  | none => rfl
  | some quality => exact dif_pos quality.accepted_scalar

theorem parse_modelDump {feature : Manifest.Feature} (h : feature.Valid rules)
    (hfinite : feature.acceptsFinite = true) :
    Manifest.Feature.parse rules feature.modelDump = .ok feature :=
  parse_feature h hfinite (by simp) rfl rfl rfl rfl

theorem parse_registrySpec {feature : Manifest.Feature} (h : feature.Valid rules)
    (hfinite : feature.acceptsFinite = true) :
    Manifest.Feature.parse rules feature.registrySpec = .ok feature := by
  rw [Manifest.Feature.registrySpec]
  cases hquality : feature.quality with
  | none => exact parse_feature h hfinite (by simp) rfl rfl rfl (by rw [hquality]; rfl)
  | some quality => exact parse_feature h hfinite (by simp) rfl rfl rfl (by rw [hquality]; rfl)

/-- A view is read back from members that hold its fields, where each feature is dumped in some
way that is read back. -/
theorem parse_view {view : Manifest.FeatureView} {members : Dict}
    (dump : Manifest.Feature → Value) (h : view.Valid rules)
    (hdump : ∀ feature ∈ view.features, Manifest.Feature.parse rules (dump feature) = .ok feature)
    (hmodel : ∀ member ∈ members, member.1 ∈ ["name", "version", "entity", "features",
      "batch_source", "batch_sql", "stream_source", "ttl_seconds", "description",
      "quality_policy"])
    (hname : members.lookup "name" = some (.str view.name))
    (hversion : members.lookup "version" = some (.str view.version))
    (hentity : members.lookup "entity" = some (.str view.entity))
    (hfeatures : members.lookup "features" = some (.list (view.features.map dump)))
    (hsource : members.lookup "batch_source" = some (.str view.batchSource))
    (hsql : members.lookup "batch_sql" = some (.str view.batchSql))
    (hstream : members.lookup "stream_source" = some (optionValue .str view.streamSource))
    (httl : members.lookup "ttl_seconds" =
      some (optionValue (fun n : Nat => .int n) view.ttlSeconds))
    (hdescription : members.lookup "description" = some (.str view.description))
    (hpolicy : (members.lookup "quality_policy").getD .null =
      optionValue (fun policy => .str policy.value) view.qualityPolicy) :
    Manifest.FeatureView.parse rules (.dict members) = .ok view := by
  have hstream' : readNullable members "stream_source" readStr = .ok view.streamSource :=
    readNullable_ok .str (by rw [hstream]; rfl) (fun _ => nofun) fun _ _ => rfl
  have httl' : readNullable members "ttl_seconds" (readTtl rules) = .ok view.ttlSeconds :=
    readNullable_ok (fun n : Nat => .int n) (by rw [httl]; rfl) (fun _ => nofun)
      fun n hn => readTtl_value (h.ttlSeconds n hn)
  have htext : readDefault members "description" "" readStr = .ok view.description :=
    readDefault_ok hdescription rfl
  have hpolicy' : readNullable members "quality_policy" readPolicy = .ok view.qualityPolicy :=
    readNullable_ok (fun policy => .str policy.value) hpolicy (fun _ => nofun)
      fun _ _ => readPolicy_value _
  have hitems : readList (Manifest.Feature.parse rules) (.list (view.features.map dump)) =
      .ok view.features :=
    readList_map hdump
  have hnonempty : view.features.isEmpty = false := List.isEmpty_eq_false_iff.mpr h.nonempty
  rw [Manifest.FeatureView.parse, readModel_ok hmodel]
  simp only [bind, Except.bind, readRequired_ok hname, readRequired_ok hversion,
    readRequired_ok hentity, readRequired_ok hfeatures, readRequired_ok hsource,
    readRequired_ok hsql, readStr, hitems, hstream', httl', htext, hpolicy', require_ok h.name,
    require_ok h.version, require_ok hnonempty, require_ok h.batchSql, view.features_nodup,
    dite_true]
  rfl

theorem parse_viewDump {view : Manifest.FeatureView} (h : view.Valid rules)
    (hfinite : view.acceptsFinite = true) :
    Manifest.FeatureView.parse rules view.modelDump = .ok view :=
  parse_view Manifest.Feature.modelDump h
    (fun feature hfeature => parse_modelDump (h.features feature hfeature)
      (List.all_eq_true.mp hfinite feature hfeature))
    (by simp) rfl rfl rfl rfl rfl rfl rfl rfl rfl rfl

theorem parse_viewSpec {view : Manifest.FeatureView} (h : view.Valid rules)
    (hfinite : view.acceptsFinite = true) :
    Manifest.FeatureView.parse rules view.registrySpec = .ok view := by
  have hdump : ∀ feature ∈ view.features,
      Manifest.Feature.parse rules feature.registrySpec = .ok feature :=
    fun feature hfeature => parse_registrySpec (h.features feature hfeature)
      (List.all_eq_true.mp hfinite feature hfeature)
  rw [Manifest.FeatureView.registrySpec]
  cases hpolicy : view.qualityPolicy with
  | none =>
      exact parse_view Manifest.Feature.registrySpec h hdump (by simp)
        rfl rfl rfl rfl rfl rfl rfl rfl rfl (by rw [hpolicy]; rfl)
  | some policy =>
      exact parse_view Manifest.Feature.registrySpec h hdump (by simp)
        rfl rfl rfl rfl rfl rfl rfl rfl rfl (by rw [hpolicy]; rfl)

end Features

section Refusals

theorem ok_of_readModel {fields : List String} {members found : Dict}
    (h : readModel fields (.dict members) = .ok found) : found = members := by
  obtain ⟨-, -, hfound⟩ := ok_of_bind h
  exact (Except.ok.inj hfound).symm

/-- The accepted values are read as they are in the dump. -/
theorem accepted_of_parse {quality : Manifest.FeatureQuality} {fields : QualityFields}
    (h : QualityFields.parse rules quality.dump = .ok fields) :
    fields.acceptedValues = quality.acceptedValues.map fun values => values.map Value.jsonMode := by
  obtain ⟨members, hmembers, hrest⟩ := ok_of_bind h
  obtain rfl := ok_of_readModel hmembers
  obtain ⟨nullable, -, hrest⟩ := ok_of_bind hrest
  obtain ⟨minimum, -, hrest⟩ := ok_of_bind hrest
  obtain ⟨maximum, -, hrest⟩ := ok_of_bind hrest
  obtain ⟨acceptedValues, haccepted, hrest⟩ := ok_of_bind hrest
  obtain ⟨unique, -, hrest⟩ := ok_of_bind hrest
  obtain ⟨maxAgeSeconds, -, hrest⟩ := ok_of_bind hrest
  obtain ⟨-, -, hrest⟩ := ok_of_bind hrest
  obtain rfl := Except.ok.inj hrest
  cases hvalues : quality.acceptedValues with
  | none =>
      rw [hvalues] at haccepted
      exact (Except.ok.inj haccepted).symm
  | some values =>
      have hitems := @readList_map Value id .ok (values.map Value.jsonMode) fun _ _ => rfl
      rw [List.map_id] at hitems
      rw [hvalues] at haccepted
      change readOptional (readList .ok) (Value.list values).jsonMode = _ at haccepted
      rw [Value.jsonMode_list, readOptional.eq_2 _ _ (fun h => by cases h), hitems] at haccepted
      exact (Except.ok.inj haccepted).symm

/-- An accepted null is refused, whatever the dtype. -/
theorem ne_null_of_validateQuality {dtype : ValueType} {fields : QualityFields}
    {values : List Value} (hvalues : fields.acceptedValues = some values)
    (h : validateQuality rules dtype fields = .ok ()) : ∀ value ∈ values, value ≠ .null := by
  rw [validateQuality, hvalues] at h
  obtain ⟨_, -, h⟩ := ok_of_bind h
  obtain ⟨_, -, h⟩ := ok_of_bind h
  obtain ⟨_, -, h⟩ := ok_of_bind h
  obtain ⟨_, hchecked, -⟩ := ok_of_bind h
  rintro value hvalue rfl
  cases forM_ok_iff.mp hchecked _ hvalue

/-- A feature is refused if its contract is the dump of one that accepts an infinity or NaN. -/
theorem acceptsFinite_of_parse {feature parsed : Manifest.Feature} {members : Dict}
    (hquality : (members.lookup "quality").getD .null =
      optionValue Manifest.FeatureQuality.dump feature.quality)
    (h : Manifest.Feature.parse rules (.dict members) = .ok parsed) :
    feature.acceptsFinite = true := by
  rw [Manifest.Feature.acceptsFinite]
  cases hsome : feature.quality with
  | none => rfl
  | some quality =>
      obtain ⟨found, hfound, hrest⟩ := ok_of_bind h
      obtain rfl := ok_of_readModel hfound
      obtain ⟨nameValue, -, hrest⟩ := ok_of_bind hrest
      obtain ⟨name, -, hrest⟩ := ok_of_bind hrest
      obtain ⟨-, -, hrest⟩ := ok_of_bind hrest
      obtain ⟨dtypeValue, -, hrest⟩ := ok_of_bind hrest
      obtain ⟨dtype, -, hrest⟩ := ok_of_bind hrest
      obtain ⟨description, -, hrest⟩ := ok_of_bind hrest
      obtain ⟨contract, hcontract, hrest⟩ := ok_of_bind hrest
      obtain ⟨_, hvalid, -⟩ := ok_of_bind hrest
      rw [readNullable, hquality, hsome] at hcontract
      change readOptional (QualityFields.parse rules) quality.dump = _ at hcontract
      rw [readOptional.eq_2 _ _ (fun h => by cases h)] at hcontract
      cases hparsed : QualityFields.parse rules quality.dump with
      | error exc =>
          rw [hparsed] at hcontract
          cases hcontract
      | ok fields =>
          rw [hparsed] at hcontract
          obtain rfl := Except.ok.inj hcontract
          have haccepted := accepted_of_parse hparsed
          rw [Option.all_some, Manifest.FeatureQuality.acceptsFinite]
          cases hvalues : quality.acceptedValues with
          | none => rfl
          | some values =>
              rw [hvalues, Option.map_some] at haccepted
              rw [Option.all_some, List.all_eq_true]
              intro value hvalue
              have hkept := ne_null_of_validateQuality haccepted hvalid _
                (List.mem_map_of_mem hvalue)
              rw [Value.jsonMode_of_isScalar
                (quality.accepted_scalar values hvalues value hvalue)] at hkept
              by_contra hinfinite
              exact hkept (if_neg hinfinite)

theorem acceptsFinite_of_parseView {view parsed : Manifest.FeatureView} {members : Dict}
    (dump : Manifest.Feature → Value)
    (hdump : ∀ feature ∈ view.features, ∀ parsed,
      Manifest.Feature.parse rules (dump feature) = .ok parsed → feature.acceptsFinite = true)
    (hfeatures : members.lookup "features" = some (.list (view.features.map dump)))
    (h : Manifest.FeatureView.parse rules (.dict members) = .ok parsed) :
    view.acceptsFinite = true := by
  obtain ⟨found, hfound, hrest⟩ := ok_of_bind h
  obtain rfl := ok_of_readModel hfound
  obtain ⟨nameValue, -, hrest⟩ := ok_of_bind hrest
  obtain ⟨name, -, hrest⟩ := ok_of_bind hrest
  obtain ⟨versionValue, -, hrest⟩ := ok_of_bind hrest
  obtain ⟨version, -, hrest⟩ := ok_of_bind hrest
  obtain ⟨entityValue, -, hrest⟩ := ok_of_bind hrest
  obtain ⟨entity, -, hrest⟩ := ok_of_bind hrest
  obtain ⟨list, hlist, hrest⟩ := ok_of_bind hrest
  obtain ⟨features, hread, -⟩ := ok_of_bind hrest
  obtain rfl := Except.ok.inj ((readRequired_ok hfeatures).symm.trans hlist)
  rw [Manifest.FeatureView.acceptsFinite, List.all_eq_true]
  intro feature hfeature
  obtain ⟨parsed, -, hparsed⟩ := (mem_of_mapM hread).2 _ (List.mem_map_of_mem hfeature)
  exact hdump feature hfeature parsed hparsed

/-- A view is refused, whichever way it was dumped, if it accepts an infinity or NaN. -/
theorem acceptsFinite_of_viewDump {view parsed : Manifest.FeatureView}
    (h : Manifest.FeatureView.parse rules view.modelDump = .ok parsed) :
    view.acceptsFinite = true :=
  acceptsFinite_of_parseView Manifest.Feature.modelDump
    (fun _ _ _ hparsed => acceptsFinite_of_parse rfl hparsed) rfl h

theorem acceptsFinite_of_viewSpec {view parsed : Manifest.FeatureView}
    (h : Manifest.FeatureView.parse rules view.registrySpec = .ok parsed) :
    view.acceptsFinite = true := by
  have hdump : ∀ feature ∈ view.features, ∀ parsed,
      Manifest.Feature.parse rules feature.registrySpec = .ok parsed →
        feature.acceptsFinite = true := by
    intro feature _ parsed hparsed
    cases hquality : feature.quality with
    | none => rw [Manifest.Feature.acceptsFinite, hquality, Option.all_none]
    | some quality =>
        rw [Manifest.Feature.registrySpec, hquality] at hparsed
        exact acceptsFinite_of_parse (by rw [hquality]; rfl) hparsed
  rw [Manifest.FeatureView.registrySpec] at h
  exact acceptsFinite_of_parseView Manifest.Feature.registrySpec hdump rfl h

end Refusals

section Objects

/-- A reference is read back from its text. -/
theorem read_text {digits : DecimalDigits} {ref : Manifest.FeatureRef} (h : ref.Valid digits) :
    Manifest.FeatureRef.read? digits ref.text = some ref := by
  have hchars : ref.text.toList =
      ref.view.toList ++ '@' :: (ref.version.toList ++ ':' :: ref.feature.toList) := by
    simp [Manifest.FeatureRef.text, Manifest.FeatureRef.viewRef, toString]
  have hview : ∀ c ∈ ref.view.toList, decide (c ≠ '@') = true := by
    intro c hc
    rw [decide_eq_true_eq]
    rintro rfl
    exact ref.view_valid hc
  have hversion : ∀ c ∈ ref.version.toList, decide (c ≠ ':') = true := by
    intro c hc
    rw [decide_eq_true_eq]
    rintro rfl
    exact not_mem_of_isTriple h.version (fun _ => isDecimal_of_isNumber) (Or.inr rfl) hc
  have hat : PrefixCode.Ends (fun c => decide (c ≠ '@'))
      ('@' :: (ref.version.toList ++ ':' :: ref.feature.toList)) := by
    simp
  have hcolon : PrefixCode.Ends (fun c => decide (c ≠ ':')) (':' :: ref.feature.toList) := by
    simp
  have hmatch : digits.matchFeatureRef ref.text =
      some (ref.view, ref.version, ref.feature) := by
    rw [DecimalDigits.matchFeatureRef, hchars, PrefixCode.takeWhile_append hview hat,
      PrefixCode.dropWhile_append hview hat]
    simp only [PrefixCode.takeWhile_append hversion hcolon,
      PrefixCode.dropWhile_append hversion hcolon, String.ofList_toList, h.view, h.version,
      h.feature, Bool.and_self, if_true]
  rw [Manifest.FeatureRef.read?, hmatch]
  exact dif_pos ⟨ref.view_valid, ref.feature_valid⟩

theorem parse_entity {entity : Manifest.Entity} (h : entity.Valid) :
    Manifest.Entity.parse entity.dump = .ok entity := by
  have hkeys : readDict readValueType
      (.dict (entity.joinKeys.map fun key => (key.1, .str key.2.value))) = .ok entity.joinKeys := by
    rw [readDict]
    induction entity.joinKeys with
    | nil => rfl
    | cons key rest ih =>
        rw [List.map_cons, List.mapM_cons, ih, readValueType_value]
        rfl
  have hnames : (entity.joinKeys.forM fun key =>
      require (isName key.1 = true) s!"invalid join key: {key.1}") = .ok () := by
    have hall := h.keys
    generalize entity.joinKeys = keys at hall
    induction keys with
    | nil => rfl
    | cons key rest ih =>
        obtain ⟨hkey, hrest⟩ := List.forall_mem_cons.mp hall
        change (do require (isName key.1 = true) _; rest.forM _) = _
        rw [require_ok hkey]
        exact ih hrest
  have hnonempty : entity.joinKeys.isEmpty = false := List.isEmpty_eq_false_iff.mpr h.joinKeys
  rw [Manifest.Entity.parse, Manifest.Entity.dump, readModel_ok (by simp)]
  simp only [bind, Except.bind, readRequired, List.lookup_cons, hkeys, readStr, require_ok h.name,
    require_ok hnonempty, hnames, String.reduceBEq, entity.joinKeys_nodup, dite_true]
  rfl

theorem parse_batchSource {source : Manifest.BatchSource} (h : source.Valid) :
    Manifest.BatchSource.parse source.dump = .ok source := by
  rw [Manifest.BatchSource.parse, Manifest.BatchSource.dump, readModel_ok (by simp)]
  simp only [bind, Except.bind, readRequired, readDefault, List.lookup_cons, Option.elim, readStr,
    require_ok h.name, require_ok h.eventTimestampField, String.reduceBEq]
  rfl

theorem parse_streamSource {source : Manifest.StreamSource} (h : isName source.name = true) :
    Manifest.StreamSource.parse source.dump = .ok source := by
  have htopic : readNullable [("name", .str source.name), ("topic", .str source.topic),
      ("dead_letter_topic", optionValue .str source.deadLetterTopic)] "dead_letter_topic" readStr =
        .ok source.deadLetterTopic :=
    readNullable_ok .str rfl (fun _ => nofun) fun _ _ => rfl
  rw [Manifest.StreamSource.parse, Manifest.StreamSource.dump, readModel_ok (by simp)]
  simp only [bind, Except.bind, readRequired, List.lookup_cons, readStr, require_ok h, htopic,
    String.reduceBEq]
  rfl

theorem parse_service {service : Manifest.FeatureService} (h : service.Valid rules) :
    Manifest.FeatureService.parse rules service.dump = .ok service := by
  have hrefs : readList readStr (.list (service.features.map fun ref => .str ref.text)) =
      .ok (service.features.map (·.text)) := by
    have htexts := @readList_map String .str readStr (service.features.map (·.text))
      fun _ _ => rfl
    rwa [List.map_map] at htexts
  have hparts : (service.features.map (·.text)).mapM (Manifest.FeatureRef.read? rules.digits) =
      some service.features := by
    have hvalid := h.features
    generalize service.features = refs at hvalid
    induction refs with
    | nil => rfl
    | cons ref rest ih =>
        obtain ⟨href, hrest⟩ := List.forall_mem_cons.mp hvalid
        rw [List.map_cons, List.mapM_cons, read_text href, ih hrest]
        rfl
  have hnonempty : (service.features.map (·.text)).isEmpty = false := by
    simpa using h.nonempty
  rw [Manifest.FeatureService.parse, Manifest.FeatureService.dump, readModel_ok (by simp)]
  simp only [bind, Except.bind, readRequired, readDefault, List.lookup_cons, Option.elim, readStr,
    hrefs, require_ok h.name, require_ok hnonempty, hparts, String.reduceBEq]
  rfl

theorem RegistryManifest.acceptsFinite_iff {manifest : RegistryManifest} :
    manifest.acceptsFinite = true ↔ ∀ view ∈ manifest.featureViews, view.acceptsFinite = true := by
  rw [acceptsFinite, List.all_eq_true]
  constructor
  · intro h view hview
    refine h (.featureView view) ?_
    simp [objects, hview]
  · intro h object hobject
    cases object with
    | featureView view =>
        refine h view ?_
        simpa [objects] using hobject
    | _ => rfl

/-- A manifest is read back from what the client sends. -/
theorem RegistryManifest.parse_modelDump {manifest : RegistryManifest}
    (h : manifest.Valid rules) (hfinite : manifest.acceptsFinite = true) :
    RegistryManifest.parse rules manifest.modelDump = .ok manifest := by
  rw [RegistryManifest.parse, RegistryManifest.modelDump, readModel_ok (by simp)]
  simp only [bind, Except.bind, readDefault, List.lookup_cons, Option.elim, String.reduceBEq,
    readList_map fun entity hentity => parse_entity (h.entities entity hentity),
    readList_map fun source hsource => parse_batchSource (h.batchSources source hsource),
    readList_map fun source hsource => parse_streamSource (h.streamSources source hsource),
    readList_map fun view hview =>
      parse_viewDump (h.featureViews view hview) (acceptsFinite_iff.mp hfinite view hview),
    readList_map fun service hservice => parse_service (h.featureServices service hservice)]
  rfl

/-- What the client sends is refused if a view accepts an infinity or NaN. -/
theorem RegistryManifest.acceptsFinite_of_modelDump {manifest parsed : RegistryManifest}
    (h : RegistryManifest.parse rules manifest.modelDump = .ok parsed) :
    manifest.acceptsFinite = true := by
  obtain ⟨found, hfound, hrest⟩ := ok_of_bind h
  obtain rfl := ok_of_readModel hfound
  obtain ⟨entities, -, hrest⟩ := ok_of_bind hrest
  obtain ⟨batchSources, -, hrest⟩ := ok_of_bind hrest
  obtain ⟨streamSources, -, hrest⟩ := ok_of_bind hrest
  obtain ⟨featureViews, hviews, -⟩ := ok_of_bind hrest
  rw [acceptsFinite_iff]
  intro view hview
  obtain ⟨parsed, -, hparsed⟩ := (mem_of_mapM hviews).2 _ (List.mem_map_of_mem hview)
  exact acceptsFinite_of_viewDump hparsed

end Objects

section Specs

open Manifest

/-- The canonical text of its spec tells a view that is read back from it, with the numbers as
they are written. -/
theorem canonicalText_registrySpec_inj {view other : Manifest.FeatureView}
    (hfinite : view.acceptsFinite = true)
    (h : view.registrySpec.canonicalText = other.registrySpec.canonicalText) : view = other := by
  have hsorted := (canonicalText_eq_iff view.registrySpec_isJson other.registrySpec_isJson).mp h
  have hsame := (sameJson_iff view.registrySpec_distinct other.registrySpec_distinct).mpr hsorted
  rw [sameJson_iff_agreesBy, FeatureView.registrySpec_agreesBy leafEquality_eq hfinite] at hsame
  exact FeatureView.agreesBy_eq.mp hsame

/-- The dump of a feature before there were contracts. -/
def Manifest.Feature.legacySpec (feature : Manifest.Feature) : Value :=
  .dict [("name", .str feature.name), ("dtype", .str feature.dtype.value),
    ("description", .str feature.description)]

/-- The dump of a view before there were contracts and policies. -/
def Manifest.FeatureView.legacySpec (view : Manifest.FeatureView) : Value :=
  .dict [("name", .str view.name), ("version", .str view.version), ("entity", .str view.entity),
    ("features", .list (view.features.map Manifest.Feature.legacySpec)),
    ("batch_source", .str view.batchSource), ("batch_sql", .str view.batchSql),
    ("stream_source", optionValue .str view.streamSource),
    ("ttl_seconds", optionValue (fun n : Nat => .int n) view.ttlSeconds),
    ("description", .str view.description)]

/-- The view has no contract and no policy. -/
structure Manifest.FeatureView.WithoutQuality (view : Manifest.FeatureView) : Prop where
  features : ∀ feature ∈ view.features, feature.quality = none
  policy : view.qualityPolicy = none

/-- What an older client has stored is the spec of the same view. -/
theorem registrySpec_eq_legacySpec {view : Manifest.FeatureView} (h : view.WithoutQuality) :
    view.registrySpec = view.legacySpec := by
  have hfeatures : view.features.map Manifest.Feature.registrySpec =
      view.features.map Manifest.Feature.legacySpec := by
    apply List.map_congr_left
    intro feature hfeature
    rw [Manifest.Feature.registrySpec, h.features feature hfeature]
    rfl
  rw [Manifest.FeatureView.registrySpec, h.policy, hfeatures]
  rfl

end Specs

section Plans

variable {sha256 : String → String}

/-- A stored object finds its references among the names that are stored. -/
theorem viewIssues_of_hasReferences {records : RecordTable} {available : Availability}
    {view : Manifest.FeatureView} (hnames : (Availability.stored records).NamesIn available)
    (h : HasReferences records (.featureView view)) : viewIssues available view = [] := by
  obtain ⟨hentity, hsource, hstream⟩ := h
  refine viewIssues_eq_nil.mpr ⟨hnames.entities hentity, hnames.batchSources hsource, ?_⟩
  intro source hsome
  obtain ⟨hdeclared, hne⟩ := Option.filter_eq_some_iff.mp hsome
  exact hnames.streamSources (hstream source hdeclared (of_decide_eq_true hne))

theorem exists_conflictIssue {existing : Option RegistryRecord} {object : RegistryObject}
    (h : conflicts sha256 existing object = true) :
    ∃ issue ∈ conflictIssues sha256 existing object, issue.code = .immutableConflict := by
  rw [conflictIssues, if_pos h]
  exact ⟨_, List.mem_singleton_self _, rfl⟩

/-- How a plan classifies a view whose identity is stored: by its definition alone. -/
theorem planObject_view {records : RecordTable} {available : Availability}
    {record : RegistryRecord} {view : Manifest.FeatureView}
    (hnames : (Availability.stored records).NamesIn available)
    (hrecord : records.find? (RegistryObject.featureView view).identity = some record)
    (hreferences : HasReferences records record.object)
    (hprint : record.fingerprint = fingerprint sha256 record.object.spec)
    (hfinite : record.object.acceptsFinite = true)
    (hsha : Set.InjOn sha256 {record.object.spec.canonicalText, view.registrySpec.canonicalText}) :
    (record.object = .featureView view →
      (planObject sha256 records available (.featureView view)).status = .unchanged) ∧
    (record.object ≠ .featureView view →
      (planObject sha256 records available (.featureView view)).status = .rejected ∧
      ∃ issue ∈ (planObject sha256 records available (.featureView view)).issues,
        issue.code = .immutableConflict) := by
  have hconflicts : conflicts sha256 (some record) (.featureView view) = true ↔
      ¬record.object.spec.SameJson (RegistryObject.featureView view).spec :=
    conflicts_iff hprint hsha
  constructor
  · intro hsame
    rw [hsame] at hreferences hconflicts
    have hnone : conflicts sha256 (some record) (.featureView view) = false := by
      rw [← Bool.not_eq_true, hconflicts, not_not, sameJson_iff (RegistryObject.spec_distinct _)
        (RegistryObject.spec_distinct _)]
    have haccepts : RegistryStore.AcceptsObject sha256 records available (.featureView view) :=
      ⟨by rw [hrecord]; exact hnone, viewIssues_of_hasReferences hnames hreferences⟩
    rw [RegistryStore.planObject_status haccepts, RegistryStore.isNew, hrecord]
    rfl
  · intro hother
    have hdiffer : ¬record.object.spec.SameJson (RegistryObject.featureView view).spec := by
      intro hsame
      obtain ⟨stored, hstored⟩ := RegistryObject.exists_view_of_kind
        (Prod.mk.inj (Table.find?_some_iff.mp hrecord).2).1
      rw [hstored] at hsame hother hfinite
      apply hother
      have hsorted :=
        (sameJson_iff stored.registrySpec_distinct view.registrySpec_distinct).mp hsame
      exact congrArg _ (canonicalText_registrySpec_inj hfinite
        ((canonicalText_eq_iff stored.registrySpec_isJson view.registrySpec_isJson).mpr hsorted))
    have hconflict := hconflicts.mpr hdiffer
    rw [← hrecord] at hconflict
    constructor
    · apply RegistryStore.planObject_rejected_iff.mpr
      rintro ⟨hnone, -⟩
      rw [hconflict] at hnone
      cases hnone
    · obtain ⟨issue, hissue, hcode⟩ := exists_conflictIssue hconflict
      exact ⟨issue, List.mem_append_left _ hissue, hcode⟩

/-- The spec of a view is read back, tells it from every other view, and is what an older client
has stored for it if it has no fields of quality. -/
structure Manifest.FeatureView.RoundTrips (rules : ManifestRules) (view : Manifest.FeatureView) :
    Prop where
  parsed : Manifest.FeatureView.parse rules view.registrySpec = .ok view
  injective : ∀ other : Manifest.FeatureView, other.registrySpec = view.registrySpec → other = view
  told : ∀ other : Manifest.FeatureView,
    other.registrySpec.canonicalText = view.registrySpec.canonicalText → other = view
  legacy : view.WithoutQuality → Manifest.FeatureView.parse rules view.legacySpec = .ok view ∧
    view.legacySpec.canonicalText = view.registrySpec.canonicalText

/-- The manifest is read from what the client sends with the same fingerprint. Every plan of it
finds a view whose identity is stored unchanged if it is the same definition, and in conflict with
any other. -/
def RegistryManifest.RoundTrips (rules : ManifestRules) (sha256 : String → String)
    (manifest : RegistryManifest) : Prop :=
  ∃ parsed, RegistryManifest.parse rules manifest.modelDump = .ok parsed ∧
    fingerprint sha256 parsed.dump = fingerprint sha256 manifest.dump ∧
    ∀ (calls : List (Instant × RegistryCall)) (now : Instant),
      Set.InjOn sha256 {text | text ∈ specTexts (calls ++ [(now, .apply manifest)])} →
      ∃ planned, (registryAfter sha256 calls).validate sha256 parsed = .ok planned ∧
        ∀ (index : Nat) (view : Manifest.FeatureView) (plan : RegistryObjectPlan)
          (record : RegistryRecord), manifest.objects[index]? = some (.featureView view) →
          planned.objects[index]? = some plan →
          (registryAfter sha256 calls).records.find?
            (RegistryObject.featureView view).identity = some record →
          (record.object = .featureView view → plan.status = .unchanged) ∧
          (record.object ≠ .featureView view → plan.status = .rejected ∧
            ∃ issue ∈ plan.issues, issue.code = .immutableConflict)

theorem roundTrips_of_acceptsFinite {view : Manifest.FeatureView} (h : view.Valid rules)
    (hfinite : view.acceptsFinite = true) : view.RoundTrips rules where
  parsed := parse_viewSpec h hfinite
  injective _ hspecs :=
    (canonicalText_registrySpec_inj hfinite (congrArg Value.canonicalText hspecs.symm)).symm
  told _ htexts := (canonicalText_registrySpec_inj hfinite htexts.symm).symm
  legacy hnone := by
    rw [← registrySpec_eq_legacySpec hnone]
    exact ⟨parse_viewSpec h hfinite, rfl⟩

theorem manifest_roundTrips_of_acceptsFinite {manifest : RegistryManifest}
    (h : manifest.Valid rules) (hfinite : manifest.acceptsFinite = true) :
    manifest.RoundTrips rules sha256 := by
  refine ⟨manifest, RegistryManifest.parse_modelDump h hfinite, rfl, fun calls now hsha => ?_⟩
  refine ⟨_, RegistryStore.validate_of_acceptsFinite hfinite, ?_⟩
  intro index view plan record hobject hplan hrecord
  obtain ⟨hsound, htexts⟩ := registryAfter_stored hsha hobject hrecord
  have hmem := (Table.find?_some_iff.mp hrecord).1
  obtain ⟨available, hnames, rfl⟩ := planLoop_getElem? (.refl _) hobject hplan
  exact planObject_view hnames hrecord (hsound.references record hmem)
    (hsound.fingerprinted record hmem).1 (hsound.readable record hmem) htexts

end Plans

section Sample

theorem amountManifest_valid (minimum : Manifest.Number) :
    (amountManifest minimum).Valid ManifestRules.strict where
  entities := by
    intro entity hentity
    rw [List.mem_singleton.mp hentity]
    exact ⟨by decide, nofun, by decide⟩
  batchSources := by
    intro source hsource
    rw [List.mem_singleton.mp hsource]
    exact ⟨by decide, by decide⟩
  streamSources := nofun
  featureViews := by
    intro view hview
    rw [List.mem_singleton.mp hview]
    have hname : isName "account_stats" = true := by decide
    have hversion : ManifestRules.strict.digits.isVersion "1.0.0" = true := by decide
    have hquery : isQuery "SELECT * FROM source" = true := by decide
    refine ⟨hname, hversion, nofun, ?_, hquery, nofun⟩
    intro feature hfeature
    rw [List.mem_singleton.mp hfeature]
    have hamount : isName "amount" = true := by decide
    refine ⟨hamount, ?_, ?_⟩
    · rintro quality ⟨⟩
      rfl
    · rintro quality ⟨⟩
      rfl
  featureServices := nofun

/-- A view whose scores are all one float. -/
def scoreView (token : String) (h : isFloatToken token = true) : Manifest.FeatureView :=
  ⟨"account_scores", "1.0.0", "account", [⟨"score", .float64, "",
      some ⟨true, none, none, some [.float token], false, none, by
        rintro values ⟨⟩ value hvalue
        rw [List.mem_singleton.mp hvalue]
        exact h⟩⟩],
    "accounts", "SELECT * FROM source", none, none, "", none, List.nodup_singleton "score"⟩

theorem scoreView_valid (token : String) (h : isFloatToken token = true) :
    (scoreView token h).Valid ManifestRules.strict := by
  have hname : isName "account_scores" = true := by decide
  have hversion : ManifestRules.strict.digits.isVersion "1.0.0" = true := by decide
  have hquery : isQuery "SELECT * FROM source" = true := by decide
  refine ⟨hname, hversion, nofun, ?_, hquery, nofun⟩
  intro feature hfeature
  rw [List.mem_singleton.mp hfeature]
  have hscore : isName "score" = true := by decide
  refine ⟨hscore, ?_, ?_⟩
  · rintro quality ⟨⟩
    rfl
  · rintro quality ⟨⟩
    rfl

end Sample

end FeatureStore
