import FeatureStore.RegistryLifecycle

/-!
# Names, versions and references

The patterns that the models check, and the validator of registry targets. A validated target
can be read back from its reference, since the separators occur in none of its parts.
-/

namespace FeatureStore

/-- The characters that `\d` matches. The separators of versions and references are none. -/
structure DecimalDigits where
  isDecimal : Char → Bool
  of_isDigit : ∀ c : Char, c.isDigit = true → isDecimal c = true
  not_separator : ∀ c ∈ ['.', '@', ':'], isDecimal c = false

/-- `[a-z]` -/
def isNameStart (c : Char) : Bool := decide ('a' ≤ c) && decide (c ≤ 'z')

/-- `[a-z0-9_]` -/
def isNameChar (c : Char) : Bool :=
  isNameStart c || decide ('0' ≤ c) && decide (c ≤ '9') || decide (c = '_')

/-- `NAME_PATTERN.fullmatch` -/
def isName (text : String) : Bool :=
  match text.toList with
  | [] => false
  | first :: rest =>
      isNameStart first && rest.all isNameChar && decide (1 ≤ rest.length) &&
        decide (rest.length ≤ 62)

namespace DecimalDigits

variable (digits : DecimalDigits)

/-- `0|[1-9]\d*` -/
def isVersionNumber : List Char → Bool
  | [] => false
  | first :: rest =>
      decide (first = '0') && rest.isEmpty ||
        decide ('1' ≤ first) && decide (first ≤ '9') && rest.all digits.isDecimal

/-- `\d+` -/
def isNumber (part : List Char) : Bool := !part.isEmpty && part.all digits.isDecimal

/-- Three numbers with points between them. -/
def isTriple (number : List Char → Bool) (text : List Char) : Bool :=
  match text.splitOn '.' with
  | [major, minor, patch] => number major && number minor && number patch
  | _ => false

/-- `VERSION_PATTERN.fullmatch` -/
def isVersion (text : String) : Bool := isTriple digits.isVersionNumber text.toList

/-- The parts that `FEATURE_REF_PATTERN.fullmatch` tells apart. The view ends at the first `@`,
and the version at the first colon behind it. -/
def matchFeatureRef (text : String) : Option (String × String × String) :=
  let view := text.toList.takeWhile (· ≠ '@')
  match text.toList.dropWhile (· ≠ '@') with
  | [] => none
  | _ :: rest =>
      let version := rest.takeWhile (· ≠ ':')
      match rest.dropWhile (· ≠ ':') with
      | [] => none
      | _ :: feature =>
          if isName (String.ofList view) && isTriple digits.isNumber version &&
              isName (String.ofList feature) then
            some (String.ofList view, String.ofList version, String.ofList feature)
          else none

end DecimalDigits

/-- `RegistryTarget.validate_target` -/
def RegistryTarget.validateTarget (digits : DecimalDigits) (target : RegistryTarget) :
    Except PyException Unit :=
  if isName target.name = false then
    .error (valueError "registry target name must be lowercase snake_case")
  else if target.kind = .featureView ∧ target.version.any digits.isVersion = false then
    .error (valueError "feature view targets require a semantic version")
  else if target.kind ≠ .featureView ∧ target.version.isSome = true then
    .error (valueError "only feature view targets accept a version")
  else
    match target.feature with
    | none => .ok ()
    | some feature =>
        if target.kind ≠ .featureView then
          .error (valueError "only feature view targets accept a feature")
        else if isName feature = false then
          .error (valueError "feature target name must be lowercase snake_case")
        else .ok ()

example : isName "user_features" = true := by decide

example : isName "u" = false := by decide

section Characters

theorem isNameChar_of_isNameStart {c : Char} (h : isNameStart c = true) : isNameChar c = true := by
  rw [isNameChar, h]
  rfl

theorem isNameChar_of_isName {text : String} (h : isName text = true) :
    ∀ c ∈ text.toList, isNameChar c = true := by
  rw [isName] at h
  intro c hc
  split at h
  · cases h
  · rename_i first rest htext
    simp only [Bool.and_eq_true, List.all_eq_true] at h
    rw [htext] at hc
    cases List.mem_cons.mp hc with
    | inl heq => exact heq ▸ isNameChar_of_isNameStart h.1.1.1
    | inr hrest => exact h.1.1.2 c hrest

theorem ne_empty_of_isName {text : String} (h : isName text = true) : text ≠ "" := by
  rintro rfl
  cases h

variable {digits : DecimalDigits}

/-- What three numbers with points between them are made of. -/
theorem mem_of_isTriple {number : List Char → Bool} {text : List Char}
    (h : DecimalDigits.isTriple number text = true)
    (hnumber : ∀ part, number part = true → ∀ c ∈ part, digits.isDecimal c = true) :
    ∀ c ∈ text, c = '.' ∨ digits.isDecimal c = true := by
  rw [DecimalDigits.isTriple] at h
  intro c hc
  split at h
  · rename_i major minor patch hsplit
    simp only [Bool.and_eq_true] at h
    have htext : text = major ++ '.' :: (minor ++ '.' :: patch) := by
      rw [← @List.intercalate_splitOn _ text _ _ '.', hsplit]
      simp [List.intercalate, List.intersperse]
    rw [htext] at hc
    simp only [List.mem_append, List.mem_cons] at hc
    rcases hc with hmajor | hpoint | hminor | hpoint | hpatch
    · exact Or.inr (hnumber _ h.1.1 c hmajor)
    · exact Or.inl hpoint
    · exact Or.inr (hnumber _ h.1.2 c hminor)
    · exact Or.inl hpoint
    · exact Or.inr (hnumber _ h.2 c hpatch)
  · cases h

theorem isDecimal_of_isVersionNumber {part : List Char}
    (h : digits.isVersionNumber part = true) : ∀ c ∈ part, digits.isDecimal c = true := by
  intro c hc
  cases part with
  | nil => cases hc
  | cons first rest =>
      simp only [DecimalDigits.isVersionNumber, Bool.or_eq_true, Bool.and_eq_true,
        decide_eq_true_eq, List.isEmpty_iff, List.all_eq_true] at h
      rcases h with ⟨rfl, rfl⟩ | ⟨⟨hlow, hhigh⟩, hrest⟩
      · rw [List.mem_singleton.mp hc]
        exact digits.of_isDigit _ rfl
      · cases List.mem_cons.mp hc with
        | inl heq =>
            apply digits.of_isDigit
            have hzero : '0' ≤ first := Char.le_trans (by decide) hlow
            rw [heq, Char.isDigit, Bool.and_eq_true, decide_eq_true_eq, decide_eq_true_eq]
            exact ⟨hzero, hhigh⟩
        | inr hmem => exact hrest c hmem

theorem isDecimal_of_isNumber {part : List Char} (h : digits.isNumber part = true) :
    ∀ c ∈ part, digits.isDecimal c = true := by
  rw [DecimalDigits.isNumber, Bool.and_eq_true] at h
  exact List.all_eq_true.mp h.2

/-- A colon or an at sign is no character of a version. -/
theorem not_mem_of_isTriple {number : List Char → Bool} {text : List Char}
    (h : DecimalDigits.isTriple number text = true)
    (hnumber : ∀ part, number part = true → ∀ c ∈ part, digits.isDecimal c = true) {c : Char}
    (hc : c = '@' ∨ c = ':') : c ∉ text := by
  intro hmem
  cases mem_of_isTriple h hnumber c hmem with
  | inl hpoint =>
      rw [hpoint] at hc
      exact absurd hc (by decide)
  | inr hdecimal =>
      rw [digits.not_separator c (by cases hc <;> simp [*])] at hdecimal
      cases hdecimal

/-- A version has no at sign and no colon. -/
theorem not_mem_of_isVersion {text : String} (h : digits.isVersion text = true) {c : Char}
    (hc : c = '@' ∨ c = ':') : c ∉ text.toList :=
  not_mem_of_isTriple h (fun _ => isDecimal_of_isVersionNumber) hc

theorem ne_empty_of_isVersion {text : String} (h : digits.isVersion text = true) : text ≠ "" := by
  rintro rfl
  cases h

end Characters

namespace RegistryTarget

variable {digits : DecimalDigits} {target a b : RegistryTarget}

/-- What the validator accepts. -/
theorem validateTarget_ok (h : target.validateTarget digits = .ok ()) :
    isName target.name = true ∧
      (∀ version, target.version = some version →
        target.kind = .featureView ∧ digits.isVersion version = true) ∧
      (target.kind = .featureView → target.version.isSome = true) ∧
      (∀ feature, target.feature = some feature →
        target.kind = .featureView ∧ isName feature = true) := by
  obtain ⟨kind, name, version, feature⟩ := target
  unfold validateTarget at h
  split at h
  · cases h
  rename_i hname
  split at h
  · cases h
  rename_i hview
  split at h
  · cases h
  rename_i hother
  refine ⟨by simpa using hname, ?_, ?_, ?_⟩
  · rintro text rfl
    by_cases hkind : kind = .featureView
    · exact ⟨hkind, by simpa [hkind] using hview⟩
    · simp [hkind] at hother
  · rintro rfl
    cases version with
    | none => simp at hview
    | some text => rfl
  · rintro text rfl
    simp only at h
    split at h
    · cases h
    · rename_i hkind
      split at h
      · cases h
      · rename_i hfeature
        exact ⟨not_not.mp hkind, by simpa using hfeature⟩

/-- A validated target is valid. -/
theorem valid_of_validateTarget (h : target.validateTarget digits = .ok ()) : target.Valid := by
  obtain ⟨-, hversion, hview, hfeature⟩ := validateTarget_ok h
  refine ⟨⟨fun hsome => ?_, hview⟩, fun hempty => ?_, fun hsome => ?_, fun hempty => ?_⟩
  · obtain ⟨version, heq⟩ := Option.isSome_iff_exists.mp hsome
    exact (hversion version heq).1
  · exact ne_empty_of_isVersion (hversion _ hempty).2 rfl
  · obtain ⟨feature, heq⟩ := Option.isSome_iff_exists.mp hsome
    exact (hfeature feature heq).1
  · exact ne_empty_of_isName (hfeature _ hempty).2 rfl

/-- What follows the name and what follows the version in a reference. -/
def featureSuffix (target : RegistryTarget) : List Char :=
  target.feature.elim [] fun feature => ':' :: feature.toList

def versionSuffixChars (target : RegistryTarget) : List Char :=
  target.version.elim [] fun version => '@' :: version.toList

theorem toList_ref (h : target.Valid) :
    target.ref.toList = target.kind.value.toList ++ ':' ::
      (target.name.toList ++ (target.versionSuffixChars ++ target.featureSuffix)) := by
  obtain ⟨kind, name, version, feature⟩ := target
  have hversion := h.2.1
  have hfeature := h.2.2.2
  simp only at hversion hfeature
  cases version with
  | none =>
      cases feature with
      | none => simp [ref, versionSuffixChars, featureSuffix, toString]
      | some feature =>
          have hne : feature ≠ "" := fun heq => hfeature (congrArg some heq)
          simp [ref, versionSuffixChars, featureSuffix, toString, hne]
  | some version =>
      have hne : version ≠ "" := fun heq => hversion (congrArg some heq)
      cases feature with
      | none => simp [ref, versionSuffixChars, featureSuffix, toString, hne]
      | some feature =>
          have hne' : feature ≠ "" := fun heq => hfeature (congrArg some heq)
          simp [ref, versionSuffixChars, featureSuffix, toString, hne, hne']

theorem kindValue_injective : Function.Injective RegistryObjectKind.value := by
  intro kind kind' h
  cases kind <;> cases kind' <;> first | rfl | exact absurd h (by decide)

/-- The suffixes of a reference start with a separator, or not at all. -/
theorem ends_suffixes (isToken : Char → Bool) (hversion : isToken '@' = false)
    (hfeature : isToken ':' = false) (target : RegistryTarget) :
    PrefixCode.Ends isToken (target.versionSuffixChars ++ target.featureSuffix) := by
  rw [versionSuffixChars, featureSuffix]
  cases target.version with
  | none => cases target.feature <;> simp [hfeature]
  | some version => simp [hversion]

theorem featureSuffix_injective (h : a.featureSuffix = b.featureSuffix) :
    a.feature = b.feature := by
  rw [featureSuffix, featureSuffix] at h
  cases ha : a.feature with
  | none =>
      cases hb : b.feature with
      | none => rfl
      | some feature =>
          rw [ha, hb] at h
          cases h
  | some feature =>
      cases hb : b.feature with
      | none =>
          rw [ha, hb] at h
          cases h
      | some feature' =>
          rw [ha, hb] at h
          exact congrArg some (String.toList_inj.mp (List.cons_injective h))

/-- The version and the feature are read off the suffixes. -/
theorem suffixes_injective (ha : ∀ version, a.version = some version → ':' ∉ version.toList)
    (hb : ∀ version, b.version = some version → ':' ∉ version.toList)
    (h : a.versionSuffixChars ++ a.featureSuffix = b.versionSuffixChars ++ b.featureSuffix) :
    a.version = b.version ∧ a.feature = b.feature := by
  have hstart : ∀ target : RegistryTarget, '@' ∉ target.featureSuffix.head? := fun target => by
    rw [featureSuffix]
    cases target.feature <;> simp
  have hends : ∀ target : RegistryTarget,
      PrefixCode.Ends (fun c => decide (c ≠ ':')) target.featureSuffix := fun target => by
    rw [featureSuffix]
    cases target.feature <;> simp
  have htoken : ∀ {version : String}, ':' ∉ version.toList →
      ∀ c ∈ version.toList, decide (c ≠ ':') = true := fun hnot c hc => by
    rw [decide_eq_true_eq]
    rintro rfl
    exact hnot hc
  cases hva : a.version with
  | none =>
      cases hvb : b.version with
      | none =>
          rw [versionSuffixChars, versionSuffixChars, hva, hvb] at h
          exact ⟨rfl, featureSuffix_injective h⟩
      | some version =>
          rw [versionSuffixChars, versionSuffixChars, hva, hvb] at h
          refine absurd ?_ (hstart a)
          rw [show a.featureSuffix = _ from h]
          rfl
  | some version =>
      cases hvb : b.version with
      | none =>
          rw [versionSuffixChars, versionSuffixChars, hva, hvb] at h
          refine absurd ?_ (hstart b)
          rw [show b.featureSuffix = _ from h.symm]
          rfl
      | some version' =>
          rw [versionSuffixChars, versionSuffixChars, hva, hvb] at h
          obtain ⟨hversion, hrest⟩ := PrefixCode.token_append (htoken (ha _ hva))
            (htoken (hb _ hvb)) (hends a) (hends b) (List.cons_injective h)
          exact ⟨congrArg some (String.toList_inj.mp hversion), featureSuffix_injective hrest⟩

/-- Different validated targets have different references. -/
theorem ref_injective (ha : a.validateTarget digits = .ok ())
    (hb : b.validateTarget digits = .ok ()) (h : a.ref = b.ref) : a = b := by
  have hchars := congrArg String.toList h
  rw [toList_ref (valid_of_validateTarget ha), toList_ref (valid_of_validateTarget hb)] at hchars
  obtain ⟨hnameA, hversionA, -, -⟩ := validateTarget_ok ha
  obtain ⟨hnameB, hversionB, -, -⟩ := validateTarget_ok hb
  have hkinds : ∀ kind : RegistryObjectKind,
      ∀ c ∈ kind.value.toList, decide (c ≠ ':') = true := by
    intro kind
    apply List.all_eq_true.mp
    cases kind <;> rfl
  have hcolon : ∀ rest, PrefixCode.Ends (fun c => decide (c ≠ ':')) (':' :: rest) := by simp
  obtain ⟨hkind, hrest⟩ := PrefixCode.token_append (hkinds a.kind) (hkinds b.kind) (hcolon _)
    (hcolon _) hchars
  obtain ⟨hname, hsuffixes⟩ := PrefixCode.token_append (isNameChar_of_isName hnameA)
    (isNameChar_of_isName hnameB) (ends_suffixes _ rfl rfl a) (ends_suffixes _ rfl rfl b)
    (List.cons_injective hrest)
  obtain ⟨hversion, hfeature⟩ := suffixes_injective
    (fun version heq => not_mem_of_isVersion (hversionA version heq).2 (Or.inr rfl))
    (fun version heq => not_mem_of_isVersion (hversionB version heq).2 (Or.inr rfl)) hsuffixes
  obtain ⟨kind, name, version, feature⟩ := a
  obtain ⟨kind', name', version', feature'⟩ := b
  simp only at hkind hname hversion hfeature
  rw [kindValue_injective (String.toList_inj.mp hkind), String.toList_inj.mp hname, hversion,
    hfeature]

end RegistryTarget

end FeatureStore
