import FeatureStore.Library.MarkedWalk
import FeatureStore.NamePatterns
import FeatureStore.ReplacementLinks

/-!
# The walk over stored replacements

The loop of `_validate_replacement` marks the references of the targets that it visits. It ends
on every store, with stored cycles or without, and returns only from a target without a
replacement on a way that avoids the deprecated target.
-/

namespace FeatureStore

open MarkedWalk Redirects

namespace RegistryStore

variable {store : RegistryStore} {target replacement current last : RegistryTarget}

/-- The body of the loop on a target that has not been visited: it raises, returns or goes on. -/
def walkStep (store : RegistryStore) (target current : RegistryTarget) :
    Except PyException Unit ⊕ RegistryTarget :=
  if current = target then
    .inl (.error (conflictError "replacement would create a lifecycle cycle"))
  else
    match store.recordForTarget current with
    | .error exc => .inl (.error exc)
    | .ok record =>
        match (store.lifecycle record current.feature).bind (·.replacement) with
        | none => .inl (.ok ())
        | some next => .inr next

/-- `while current.ref not in visited` and the `raise` behind it, for a number of rounds; there
is no result when the loop is not over. -/
def replacementLoop (store : RegistryStore) (target replacement : RegistryTarget) (rounds : Nat) :
    Option (Except PyException Unit) :=
  (walk RegistryTarget.ref (store.walkStep target) rounds [] replacement).map
    (·.getD (.error (conflictError "replacement chain contains a lifecycle cycle")))

/-- The stored replacement of a target that is found. -/
def nextTarget (store : RegistryStore) (current : RegistryTarget) : Option RegistryTarget :=
  match store.recordForTarget current with
  | .error _ => none
  | .ok record => (store.lifecycle record current.feature).bind (·.replacement)

/-- The target is found and has no replacement. -/
def IsLast (store : RegistryStore) (current : RegistryTarget) : Prop :=
  ∃ record, store.recordForTarget current = .ok record ∧
    (store.lifecycle record current.feature).bind (·.replacement) = none

theorem IsLast.nextTarget (h : store.IsLast current) : store.nextTarget current = none := by
  obtain ⟨record, hrecord, hnone⟩ := h
  rw [RegistryStore.nextTarget, hrecord]
  exact hnone

theorem walkStep_eq_inr_iff {next : RegistryTarget} :
    store.walkStep target current = .inr next ↔
      current ≠ target ∧ store.nextTarget current = some next := by
  rw [walkStep, nextTarget]
  by_cases heq : current = target
  · simp [heq]
  · rw [if_neg heq]
    cases store.recordForTarget current with
    | error exc => simp
    | ok record =>
        cases hnext : (store.lifecycle record current.feature).bind (·.replacement) with
        | none => simp [hnext]
        | some other => simp [hnext, heq]

theorem walkStep_eq_ok_iff :
    store.walkStep target current = .inl (.ok ()) ↔ current ≠ target ∧ store.IsLast current := by
  rw [walkStep, IsLast]
  by_cases heq : current = target
  · simp [heq]
  · rw [if_neg heq]
    cases store.recordForTarget current with
    | error exc => simp
    | ok record =>
        cases hnext : (store.lifecycle record current.feature).bind (·.replacement) with
        | none =>
            simp only [hnext]
            exact iff_of_true trivial ⟨heq, record, rfl, hnext⟩
        | some other =>
            simp only [hnext]
            refine iff_of_false nofun ?_
            rintro ⟨-, found, hfound, hnone⟩
            obtain rfl := Except.ok.inj hfound
            rw [hnext] at hnone
            cases hnone

/-- The target itself ends the walk with a conflict. -/
theorem walkStep_self (store : RegistryStore) (target : RegistryTarget) :
    store.walkStep target target =
      .inl (.error (conflictError "replacement would create a lifecycle cycle")) :=
  if_pos rfl

/-- The rounds of the registry's walk are those of the loop. -/
theorem replacementWalk_of_walk {rounds : Nat} {visited : List String}
    {outcome : Option (Except PyException Unit)}
    (h : walk RegistryTarget.ref (store.walkStep target) rounds visited current = some outcome) :
    store.replacementWalk target rounds visited current =
      outcome.getD (.error (conflictError "replacement chain contains a lifecycle cycle")) := by
  induction rounds generalizing visited current with
  | zero => cases h
  | succ rounds ih =>
      rw [walk] at h
      rw [replacementWalk]
      split at h
      · rename_i hseen
        obtain rfl := Option.some.inj h
        rw [if_pos (List.contains_iff_mem.mpr hseen)]
        rfl
      rename_i hnew
      rw [if_neg (mt List.contains_iff_mem.mp hnew)]
      by_cases heq : current = target
      · rw [heq, walkStep_self] at h
        obtain rfl := Option.some.inj h
        rw [if_pos heq]
        rfl
      rw [if_neg heq]
      rw [walkStep, if_neg heq] at h
      cases hrecord : store.recordForTarget current with
      | error exc =>
          simp only [hrecord] at h ⊢
          obtain rfl := Option.some.inj h
          rfl
      | ok record =>
          simp only [hrecord] at h ⊢
          cases hnext : (store.lifecycle record current.feature).bind (·.replacement) with
          | none =>
              simp only [hnext] at h ⊢
              obtain rfl := Option.some.inj h
              rfl
          | some next =>
              simp only [hnext] at h ⊢
              exact ih h

/-- The references that a walk can visit. -/
def walkMarks (store : RegistryStore) (replacement : RegistryTarget) : Finset String :=
  (replacement.ref ::
    store.lifecycles.rows.filterMap fun lifecycle => lifecycle.replacement.map (·.ref)).toFinset

theorem card_walkMarks (store : RegistryStore) (replacement : RegistryTarget) :
    (store.walkMarks replacement).card ≤ store.lifecycles.rows.length + 1 := by
  have hlength := List.length_filterMap_le
    (fun lifecycle : RegistryLifecycleRecord => lifecycle.replacement.map (·.ref))
    store.lifecycles.rows
  have hcard := List.toFinset_card_le (replacement.ref ::
    store.lifecycles.rows.filterMap fun lifecycle => lifecycle.replacement.map (·.ref))
  rw [List.length_cons] at hcard
  exact hcard.trans (Nat.succ_le_succ hlength)

/-- A stored replacement is in a row. -/
theorem mem_rows_of_nextTarget {next : RegistryTarget} (h : store.nextTarget current = some next) :
    ∃ lifecycle ∈ store.lifecycles.rows, lifecycle.replacement = some next := by
  rw [nextTarget] at h
  cases hrecord : store.recordForTarget current with
  | error exc =>
      rw [hrecord] at h
      cases h
  | ok record =>
      simp only [hrecord] at h
      obtain ⟨lifecycle, hfind, hnext⟩ := Option.bind_eq_some_iff.mp h
      exact ⟨lifecycle, (Relational.Table.find?_some_iff.mp hfind).1, hnext⟩

/-- The loop is over after as many rounds as there are rows, and two more. -/
theorem replacementLoop_ends (store : RegistryStore) (target replacement : RegistryTarget) :
    ∃ outcome, walk RegistryTarget.ref (store.walkStep target)
      (store.lifecycles.rows.length + 2) [] replacement = some outcome := by
  have hfirst : replacement.ref ∈ store.walkMarks replacement := by
    rw [walkMarks, List.mem_toFinset]
    exact List.mem_cons_self
  apply walk_ends hfirst
  · intro a b hstep
    obtain ⟨lifecycle, hrow, hnext⟩ :=
      mem_rows_of_nextTarget (walkStep_eq_inr_iff.mp hstep).2
    rw [walkMarks, List.mem_toFinset]
    exact List.mem_cons_of_mem _ (List.mem_filterMap.mpr ⟨lifecycle, hrow, by rw [hnext]; rfl⟩)
  · have hcard := store.card_walkMarks replacement
    rw [List.toFinset_nil, Finset.sdiff_empty]
    omega

/-- The stored replacements lead from a target to one without a replacement, and avoid another. -/
def ChainAvoids (store : RegistryStore) (target replacement : RegistryTarget) : Prop :=
  (∃ last, Leads store.nextTarget replacement last ∧ store.IsLast last) ∧
    ∀ visited, Leads store.nextTarget replacement visited → visited ≠ target

theorem ChainAvoids.not_leads (h : store.ChainAvoids target replacement) :
    ¬Leads store.nextTarget replacement target := fun hleads => h.2 target hleads rfl

/-- A link to the start of the chain does not lead back. -/
theorem ChainAvoids.not_leads_update (h : store.ChainAvoids target replacement) :
    ¬Leads (Function.update store.nextTarget target (some replacement)) replacement target := by
  intro hback
  cases hback.of_update h.not_leads with
  | inl hway => exact h.not_leads hway
  | inr hway => exact h.not_leads hway.1

/-- A walk that returns has followed the stored replacements to their end, past the target. -/
theorem chainAvoids_of_reaches (hreaches : Reaches (store.walkStep target) replacement last)
    (hlast : store.walkStep target last = .inl (.ok ())) :
    store.ChainAvoids target replacement := by
  have hend := walkStep_eq_ok_iff.mp hlast
  refine ⟨⟨last, Relation.ReflTransGen.mono (fun a b hstep => (walkStep_eq_inr_iff.mp hstep).2)
    _ _ hreaches, hend.2⟩, ?_⟩
  have havoids : ∀ visited, Reaches (store.walkStep target) visited last → visited ≠ target := by
    rintro visited hvisited rfl
    exact hend.1 (hvisited.eq_of_left (store.walkStep_self _))
  intro visited hleads
  apply havoids
  induction hleads with
  | refl => exact hreaches
  | @tail a b _ hnext ih =>
      cases ih.cases_head with
      | inl heq =>
          rw [heq, hend.2.nextTarget] at hnext
          cases hnext
      | inr hstep =>
          obtain ⟨c, hc, hrest⟩ := hstep
          rw [(walkStep_eq_inr_iff.mp hc).2] at hnext
          exact Option.some.inj hnext ▸ hrest

/-- A chain that avoids the target is walked to its end. -/
theorem ChainAvoids.reaches (h : store.ChainAvoids target replacement) :
    ∃ last, Reaches (store.walkStep target) replacement last ∧
      store.walkStep target last = .inl (.ok ()) := by
  obtain ⟨⟨last, hleads, hlast⟩, havoids⟩ := h
  refine ⟨last, ?_, walkStep_eq_ok_iff.mpr ⟨havoids last hleads, hlast⟩⟩
  clear hlast
  induction hleads with
  | refl => exact .refl
  | @tail a b hleads hnext ih =>
      exact ih.tail (walkStep_eq_inr_iff.mpr ⟨havoids a hleads, hnext⟩)

/-- Validation returns only if the walk does. -/
theorem walk_of_validateReplacement
    (h : store.validateReplacement target replacement = .ok ()) :
    store.replacementWalk target (store.lifecycles.rows.length + 2) [] replacement = .ok () := by
  unfold validateReplacement at h
  split at h
  · cases h
  split at h
  · cases h
  split at h
  · cases h
  split at h
  · cases h
  split at h
  · cases h
  · exact h

theorem chainAvoids_of_validateReplacement
    (h : store.validateReplacement target replacement = .ok ()) :
    store.ChainAvoids target replacement := by
  obtain ⟨outcome, hwalk⟩ := store.replacementLoop_ends target replacement
  have hrounds := replacementWalk_of_walk hwalk
  rw [walk_of_validateReplacement h] at hrounds
  have hleft : outcome = some (.ok ()) := by
    cases outcome with
    | none => cases hrounds
    | some result => exact congrArg some hrounds.symm
  obtain ⟨last, hreaches, hlast⟩ := reaches_of_walk (hleft ▸ hwalk)
  exact chainAvoids_of_reaches hreaches hlast

/-- The loop behind `_validate_replacement` ends, with the outcome of the registry's walk. The
validation returns only if the stored replacements lead from the replacement to a target
without one and never to the deprecated target; the new link then closes no cycle through it. -/
theorem validateReplacement_exact (store : RegistryStore) (target replacement : RegistryTarget) :
    (∀ rounds, store.lifecycles.rows.length + 2 ≤ rounds →
      store.replacementLoop target replacement rounds =
        some (store.replacementWalk target (store.lifecycles.rows.length + 2) [] replacement)) ∧
    (store.validateReplacement target replacement = .ok () →
      store.ChainAvoids target replacement ∧
        ¬Leads (Function.update store.nextTarget target (some replacement)) replacement
          target) := by
  obtain ⟨outcome, hwalk⟩ := store.replacementLoop_ends target replacement
  have hrounds := replacementWalk_of_walk hwalk
  constructor
  · intro rounds hmore
    rw [replacementLoop, walk_mono hwalk hmore, hrounds]
    rfl
  · intro hok
    have hchain := chainAvoids_of_validateReplacement hok
    exact ⟨hchain, hchain.not_leads_update⟩

section Stored

variable {digits : DecimalDigits}

/-- The stored replacements have passed the validator of targets. -/
def ReplacementsValidated (digits : DecimalDigits) (store : RegistryStore) : Prop :=
  ∀ lifecycle ∈ store.lifecycles.rows, ∀ replacement, lifecycle.replacement = some replacement →
    replacement.validateTarget digits = .ok ()

theorem ReplacementsValidated.of_reaches (h : store.ReplacementsValidated digits)
    (hstart : replacement.validateTarget digits = .ok ())
    (hreaches : Reaches (store.walkStep target) replacement current) :
    current.validateTarget digits = .ok () := by
  cases hreaches.cases_tail with
  | inl heq => exact heq ▸ hstart
  | inr hstep =>
      obtain ⟨before, -, hnext⟩ := hstep
      obtain ⟨lifecycle, hrow, hstored⟩ :=
        mem_rows_of_nextTarget (walkStep_eq_inr_iff.mp hnext).2
      exact h lifecycle hrow current hstored

/-- On validated replacements the walk returns exactly when the chain ends and avoids the target:
different targets have different references. -/
theorem replacementWalk_ok_iff (h : store.ReplacementsValidated digits)
    (hstart : replacement.validateTarget digits = .ok ()) :
    store.replacementWalk target (store.lifecycles.rows.length + 2) [] replacement = .ok () ↔
      store.ChainAvoids target replacement := by
  obtain ⟨outcome, hwalk⟩ := store.replacementLoop_ends target replacement
  have hexact : walk RegistryTarget.ref (store.walkStep target)
      (store.lifecycles.rows.length + 2) [] replacement = some (some (.ok ())) ↔ _ :=
    walk_eq_some_iff (fun ha hb hmark => RegistryTarget.ref_injective (h.of_reaches hstart ha)
      (h.of_reaches hstart hb) hmark) ⟨outcome, hwalk⟩
  rw [replacementWalk_of_walk hwalk]
  constructor
  · intro hok
    cases outcome with
    | none => cases hok
    | some result =>
        obtain ⟨last, hreaches, hlast⟩ := hexact.mp (hwalk.trans (by rw [← hok]; rfl))
        exact chainAvoids_of_reaches hreaches hlast
  · intro hchain
    have hleft := hexact.mpr hchain.reaches
    rw [hwalk] at hleft
    rw [Option.some.inj hleft]
    rfl

end Stored

section Deprecation

variable {after : RegistryStore} {now : Instant} {message : Option String}
  {descriptor : RegistryDescriptor}

/-- After a deprecation a stored replacement is the new one, or an old one. -/
theorem nextTarget_deprecate
    (h : store.deprecateTarget now target message (some replacement) = .ok (after, descriptor))
    {next : RegistryTarget} (hnext : after.nextTarget current = some next) :
    next = replacement ∨ store.nextTarget current = some next := by
  obtain ⟨record, -, -, -, rfl⟩ := deprecateTarget_ok h
  have hfound : (store.assignLifecycle record target.feature now
      ⟨assignDeprecated message (some replacement) now, fun _ => rfl, fun _ => rfl⟩).recordForTarget
        current = store.recordForTarget current := recordForTarget_congr rfl
  rw [nextTarget, hfound] at hnext
  rw [nextTarget]
  cases hcurrent : store.recordForTarget current with
  | error exc =>
      rw [hcurrent] at hnext
      cases hnext
  | ok currentRecord =>
      simp only [hcurrent, lifecycle, assignLifecycle, find?_setLifecycle] at hnext ⊢
      split at hnext
      · exact Or.inl (Option.some.inj hnext).symm
      · exact Or.inr hnext

/-- Deprecation in favour of a replacement closes no cycle through the target, whatever links
the store holds. -/
theorem deprecateTarget_not_leads
    (h : store.deprecateTarget now target message (some replacement) = .ok (after, descriptor)) :
    ¬Leads after.nextTarget replacement target := by
  obtain ⟨record, -, hvalid, -, -⟩ := deprecateTarget_ok h
  have hchain := chainAvoids_of_validateReplacement (hvalid replacement rfl)
  have hback : ∀ visited, Leads after.nextTarget replacement visited →
      Leads store.nextTarget replacement visited := by
    intro visited hleads
    induction hleads with
    | refl => exact .refl
    | @tail a b _ hnext ih =>
        cases nextTarget_deprecate h hnext with
        | inl heq =>
            rw [heq]
            exact .refl
        | inr hold => exact ih.tail hold
  exact fun hleads => hchain.not_leads (hback target hleads)

end Deprecation

end RegistryStore

end FeatureStore
