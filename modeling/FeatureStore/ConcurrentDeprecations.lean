import FeatureStore.ReplacementLinks

/-!
# Deprecations that cross each other

A deprecation validates its replacement by several reads of the committed registry and
then writes the row of its own target. Between the reads and the commit other requests
may commit, so that what was validated need not hold of the registry that is written.
-/

namespace FeatureStore

open Relational Redirects

/-- A request of a client that changes the standing of a target. -/
inductive LifecycleRequest
  | deprecateTarget (target : ValidTarget) (message : Option String)
      (replacement : Option ValidTarget)
  | reactivate (target : ValidTarget)
deriving Repr

namespace LifecycleRequest

def target : LifecycleRequest → ValidTarget
  | .deprecateTarget target _ _ => target
  | .reactivate target => target

def replacement : LifecycleRequest → Option ValidTarget
  | .deprecateTarget _ _ replacement => replacement
  | .reactivate _ => none

def toCall : LifecycleRequest → RegistryCall
  | .deprecateTarget target message replacement => .deprecateTarget target message replacement
  | .reactivate target => .reactivate target

/-- The assignments of the request to the row of its target. -/
def assign (now : Instant) : LifecycleRequest → RegistryLifecycleRecord → RegistryLifecycleRecord
  | .deprecateTarget _ message replacement =>
      assignDeprecated message (replacement.map (·.1)) now
  | .reactivate _ => assignActive now

end LifecycleRequest

/-- What a request does next, with what it has read: it looks up its target and the
replacement, the view of the replacement, walks over the replacements, scans for
dependents, loads the row of the target and commits. -/
inductive RequestStage
  | target
  | replacement (record : RegistryRecord) (other : ValidTarget)
  | parent (record : RegistryRecord) (other : ValidTarget) (found : RegistryRecord)
  | walk (record : RegistryRecord) (visited : List String) (current : RegistryTarget)
  | dependents (record : RegistryRecord)
  | load (record : RegistryRecord)
  | commit (record : RegistryRecord) (loaded : Option RegistryLifecycleRecord)
  | finished (result : Except PyException Unit)

/-- A column in an UPDATE of the session: written where the value that was loaded has
been changed, else as it is stored. -/
def writeColumn {α : Type} [DecidableEq α] (loaded assigned stored : α) : α :=
  if assigned = loaded then stored else assigned

/-- The UPDATE that the session emits for a loaded row after assignments to it. -/
def writeChanges (loaded assigned stored : RegistryLifecycleRecord) : RegistryLifecycleRecord :=
  { stored with
    status := writeColumn loaded.status assigned.status stored.status
    deprecatedAt := writeColumn loaded.deprecatedAt assigned.deprecatedAt stored.deprecatedAt
    deprecationMessage := writeColumn loaded.deprecationMessage assigned.deprecationMessage
      stored.deprecationMessage
    replacement := writeColumn loaded.replacement assigned.replacement stored.replacement
    updatedAt := writeColumn loaded.updatedAt assigned.updatedAt stored.updatedAt }

namespace RegistryStore

/-- The next read of a request, on the committed store. -/
def read (store : RegistryStore) (request : LifecycleRequest) : RequestStage → RequestStage
  | .target =>
      match store.recordForTarget request.target.1 with
      | .error exc => .finished (.error exc)
      | .ok record =>
          match request with
          | .deprecateTarget _ _ (some other) => .replacement record other
          | .deprecateTarget _ _ none => .dependents record
          | .reactivate _ => .load record
  | .replacement record other =>
      if other.1 = request.target.1 then
        .finished (.error (conflictError "a deprecated target cannot replace itself"))
      else if other.1.kind ≠ request.target.1.kind ∨
          hasFeature other.1 ≠ hasFeature request.target.1 then
        .finished (.error
          (conflictError "replacement must match the target kind and feature granularity"))
      else
        match store.recordForTarget other.1 with
        | .error exc => .finished (.error exc)
        | .ok found =>
            if (store.lifecycle found other.1.feature).any
                fun lifecycle => decide (lifecycle.status = .deprecated) then
              .finished (.error (conflictError s!"replacement is deprecated: {other.1.ref}"))
            else if other.1.feature.isSome then .parent record other found
            else .walk record [] other.1
  | .parent record other found =>
      if (store.lifecycle found none).any fun lifecycle => decide (lifecycle.status = .deprecated)
      then .finished (.error (conflictError s!"replacement parent is deprecated: {other.1.ref}"))
      else .walk record [] other.1
  | .walk record visited current =>
      if visited.contains current.ref then
        .finished (.error (conflictError "replacement chain contains a lifecycle cycle"))
      else if current = request.target.1 then
        .finished (.error (conflictError "replacement would create a lifecycle cycle"))
      else
        match store.recordForTarget current with
        | .error exc => .finished (.error exc)
        | .ok found =>
            match (store.lifecycle found current.feature).bind (·.replacement) with
            | none => .dependents record
            | some next => .walk record (current.ref :: visited) next
  | .dependents record =>
      match store.dependent? request.target.1 with
      | some lifecycle =>
          .finished (.error (conflictError
            s!"cannot deprecate active replacement {request.target.1.ref}; repoint dependent {lifecycle.target.ref} first"))
      | none => .load record
  | .load record => .commit record (store.lifecycle record request.target.1.feature)
  | .commit record loaded => .commit record loaded
  | .finished result => .finished result

/-- The commit of a request: the row that it loaded is updated, and where there was none a
deprecation inserts one. -/
def commit (now : Instant) (store : RegistryStore) (request : LifecycleRequest)
    (record : RegistryRecord) : Option RegistryLifecycleRecord → Except PyException RegistryStore
  | some loaded =>
      .ok { store with
        lifecycles := store.lifecycles.modify (record.identity, request.target.1.feature)
          ⟨writeChanges loaded (request.assign now loaded), fun _ => rfl, fun _ => rfl⟩ }
  | none =>
      match request with
      | .reactivate _ => .ok store
      | .deprecateTarget target _ _ =>
          match store.lifecycles.insert?
              (request.assign now (newLifecycle record target.1.feature now)) with
          | some inserted => .ok { store with lifecycles := inserted }
          | none => .error ⟨.integrity, "UNIQUE constraint failed: registry_lifecycle"⟩

end RegistryStore

/-- The committed registry and the requests in flight, at most one of each client. -/
structure RegistryClients where
  store : RegistryStore
  requests : Nat → Option (LifecycleRequest × RequestStage)

/-- No request in flight. -/
def RegistryClients.idle (store : RegistryStore) : RegistryClients := ⟨store, fun _ => none⟩

inductive ClientAction
  | submit (client : Nat) (request : LifecycleRequest)
  | advance (client : Nat) (now : Instant)
deriving Repr

/-- A client submits a request, or takes the next read or the commit of its request. -/
def RegistryClients.step (state : RegistryClients) : ClientAction → RegistryClients
  | .submit client request =>
      { state with requests := Function.update state.requests client (some (request, .target)) }
  | .advance client now =>
      match state.requests client with
      | none => state
      | some (request, .commit record loaded) =>
          match state.store.commit now request record loaded with
          | .ok store =>
              ⟨store, Function.update state.requests client (some (request, .finished (.ok ())))⟩
          | .error exc =>
              { state with
                requests := Function.update state.requests client
                  (some (request, .finished (.error exc))) }
      | some (request, stage) =>
          { state with
            requests := Function.update state.requests client
              (some (request, state.store.read request stage)) }

namespace RegistryStore

/-- The stored replacement links, between the keys of lifecycle records. -/
def links (store : RegistryStore) (key : LifecycleKey) : Option LifecycleKey :=
  (store.columns key).2.map (·.key)

/-- The replacement that the commit of a request adds to the row of its target: it differs
from the one loaded, and the row is there if and only if it has been loaded. -/
def Adds (store : RegistryStore) (request : LifecycleRequest) (record : RegistryRecord)
    (loaded : Option RegistryLifecycleRecord) (other : ValidTarget) : Prop :=
  request.replacement = some other ∧ loaded.bind (·.replacement) ≠ some other.1 ∧
    (loaded.isSome = true ↔
      (store.lifecycles.find? (record.identity, request.target.1.feature)).isSome = true)

end RegistryStore

/-- When the action is a commit that adds a replacement, the stored links do not lead from
it to the target. -/
def ClosesNoCycle (state : RegistryClients) : ClientAction → Prop
  | .submit _ _ => True
  | .advance client _ =>
      ∀ request record loaded other,
        state.requests client = some (request, .commit record loaded) →
          state.store.Adds request record loaded other →
            ¬Leads state.store.links other.1.key (record.identity, request.target.1.feature)

namespace RegistryStore

variable {store : RegistryStore} {request : LifecycleRequest} {record : RegistryRecord}
  {loaded : Option RegistryLifecycleRecord} {now : Instant}

/-- The replacement of the row that a commit writes. -/
theorem replacement_writeChanges (old stored : RegistryLifecycleRecord) :
    (writeChanges old (request.assign now old) stored).replacement =
      writeColumn old.replacement (request.replacement.map (·.1)) stored.replacement := by
  cases request <;> rfl

theorem links_of_find? {after : RegistryStore} {key : LifecycleKey}
    (h : (after.lifecycles.find? key).bind (·.replacement) =
      (store.lifecycles.find? key).bind (·.replacement)) : after.links key = store.links key := by
  simp only [links, columns, h]

/-- A commit leaves all links but that of its own target. -/
theorem links_update {after : RegistryStore} {key : LifecycleKey}
    {replacement : Option RegistryTarget}
    (hself : (after.lifecycles.find? key).bind (·.replacement) = replacement)
    (hother : ∀ other, other ≠ key → after.lifecycles.find? other = store.lifecycles.find? other) :
    after.links = Function.update store.links key (replacement.map (·.key)) := by
  funext other
  rw [Function.update_apply]
  split
  · rename_i heq
    rw [heq, links, columns, hself]
  · rename_i hne
    rw [links, links, columns, columns, hother other hne]

/-- A commit that finds no row inserts one, with the replacement of the request. -/
theorem commit_none_ok {after : RegistryStore}
    (h : store.commit now request record none = .ok after) :
    (request.replacement = none ∧ after = store) ∨
      store.lifecycles.find? (record.identity, request.target.1.feature) = none ∧
        after.links = Function.update store.links (record.identity, request.target.1.feature)
          (request.replacement.map (·.1.key)) := by
  cases request with
  | reactivate target =>
      cases h
      exact Or.inl ⟨rfl, rfl⟩
  | deprecateTarget target message replacement =>
      simp only [commit] at h
      split at h
      · rename_i inserted hinsert
        cases h
        right
        constructor
        · exact Table.insert?_fresh hinsert
        · have hmap : replacement.map (·.1.key) = (replacement.map (·.1)).map (·.key) := by
            rw [Option.map_map]
            rfl
          change _ = Function.update store.links _ (replacement.map (·.1.key))
          rw [hmap]
          apply links_update
          · simp only [Table.find?_insert hinsert]
            exact congrArg (Option.bind · _) (if_pos rfl)
          · intro other hne
            simp only [Table.find?_insert hinsert]
            exact if_neg hne
      · cases h

/-- The replacement that a commit leaves in a row that was loaded and is stored. -/
theorem links_writeChanges {old row : RegistryLifecycleRecord}
    (hrow : store.lifecycles.find? (record.identity, request.target.1.feature) = some row) :
    links { store with
        lifecycles := store.lifecycles.modify (record.identity, request.target.1.feature)
          ⟨writeChanges old (request.assign now old), fun _ => rfl, fun _ => rfl⟩ } =
      Function.update store.links (record.identity, request.target.1.feature)
        ((writeColumn old.replacement (request.replacement.map (·.1)) row.replacement).map
          (·.key)) := by
  apply links_update
  · simp only [Table.find?_modify_self, hrow, Option.map_some, Option.bind_some]
    exact replacement_writeChanges old row
  · intro other hne
    exact Table.find?_modify_ne _ _ hne

/-- A commit that fails adds no replacement: the row of its target has been inserted by
another one. -/
theorem not_adds_of_error {exc : PyException}
    (h : store.commit now request record loaded = .error exc) (other : ValidTarget) :
    ¬store.Adds request record loaded other := by
  intro hadds
  cases loaded with
  | some old => cases h
  | none =>
      cases request with
      | reactivate target => cases h
      | deprecateTarget target message replacement =>
          simp only [commit] at h
          split at h
          · cases h
          · rename_i hinsert
            obtain ⟨row, hrow⟩ := Table.find?_of_insert?_none hinsert
            have hloaded := hadds.2.2.mpr (Option.isSome_of_eq_some hrow)
            cases hloaded

/-- What a commit does to the links: it adds one, removes that of its target, or leaves
them. -/
theorem links_commit {after : RegistryStore}
    (h : store.commit now request record loaded = .ok after) :
    (∃ other, store.Adds request record loaded other ∧
      after.links = Function.update store.links (record.identity, request.target.1.feature)
        (some other.1.key)) ∨
    (∀ other, ¬store.Adds request record loaded other) ∧
      (after.links = Function.update store.links (record.identity, request.target.1.feature) none ∨
        after.links = store.links) := by
  cases loaded with
  | none =>
      cases commit_none_ok h with
      | inl hkept =>
          right
          refine ⟨fun other hadds => ?_, Or.inr (by rw [hkept.2])⟩
          rw [hadds.1] at hkept
          cases hkept.1
      | inr hinserted =>
          cases hreplacement : request.replacement with
          | none =>
              refine Or.inr ⟨fun other hadds => ?_, Or.inl ?_⟩
              · rw [hadds.1] at hreplacement
                cases hreplacement
              · rw [hinserted.2, hreplacement]
                rfl
          | some other =>
              refine Or.inl ⟨other, ⟨hreplacement, nofun, ?_⟩, ?_⟩
              · rw [hinserted.1]
              · rw [hinserted.2, hreplacement, Option.map_some]
  | some old =>
      cases h
      cases hrow : store.lifecycles.find? (record.identity, request.target.1.feature) with
      | none =>
          refine Or.inr ⟨fun other hadds => ?_, Or.inr ?_⟩
          · have hstored := hadds.2.2.mp rfl
            rw [hrow] at hstored
            cases hstored
          · funext key
            apply links_of_find?
            rw [Table.find?_modify]
            split
            · rename_i heq
              rw [heq, hrow]
              rfl
            · rfl
      | some row =>
          rw [links_writeChanges hrow]
          by_cases hsame : request.replacement.map (·.1) = old.replacement
          · refine Or.inr ⟨fun other hadds => hadds.2.1 ?_, Or.inr ?_⟩
            · rw [Option.bind_some, ← hsame, hadds.1]
              rfl
            · rw [writeColumn, if_pos hsame]
              funext key
              rw [Function.update_apply]
              split
              · rename_i heq
                rw [heq, links, columns, hrow]
                rfl
              · rfl
          · rw [writeColumn, if_neg hsame]
            cases hreplacement : request.replacement with
            | none =>
                refine Or.inr ⟨fun other hadds => ?_, Or.inl rfl⟩
                rw [hadds.1] at hreplacement
                cases hreplacement
            | some other =>
                refine Or.inl ⟨other, ⟨hreplacement, fun heq => ?_, ?_⟩, rfl⟩
                · apply hsame
                  rw [hreplacement]
                  exact heq.symm
                · rw [hrow]
                  exact iff_of_true rfl rfl

end RegistryStore

/-- From acyclic links, a step leads to acyclic links exactly when it closes no cycle. -/
theorem step_acyclic_iff {state : RegistryClients} {action : ClientAction}
    (h : Acyclic state.store.links) :
    Acyclic (state.step action).store.links ↔ ClosesNoCycle state action := by
  cases action with
  | submit client request => exact iff_of_true h trivial
  | advance client now =>
      have hidle : (∀ request record loaded,
          state.requests client ≠ some (request, .commit record loaded)) →
            ClosesNoCycle state (.advance client now) :=
        fun hne request record loaded _ hcommit => absurd hcommit (hne request record loaded)
      rw [RegistryClients.step]
      split
      · rename_i hnone
        exact iff_of_true h (hidle fun _ _ _ heq => nomatch hnone.symm.trans heq)
      · rename_i request record loaded hcommit
        have hmine : ClosesNoCycle state (.advance client now) ↔
            ∀ other, state.store.Adds request record loaded other →
              ¬Leads state.store.links other.1.key
                (record.identity, request.target.1.feature) := by
          constructor
          · intro hall other
            exact hall request record loaded other hcommit
          · intro hall request' record' loaded' other hcommit' hadds
            obtain ⟨rfl, hstage⟩ := Prod.mk.inj (Option.some.inj (hcommit.symm.trans hcommit'))
            obtain ⟨rfl, rfl⟩ := RequestStage.commit.inj hstage
            exact hall other hadds
        rw [hmine]
        split
        · rename_i after hafter
          change Acyclic after.links ↔ _
          cases RegistryStore.links_commit hafter with
          | inl hadded =>
              obtain ⟨other, hadds, hlinks⟩ := hadded
              rw [hlinks, acyclic_update_iff h]
              constructor
              · intro hfree other' hadds'
                obtain rfl := Option.some.inj (hadds.1.symm.trans hadds'.1)
                exact hfree
              · intro hall
                exact hall other hadds
          | inr hnone =>
              refine iff_of_true ?_ fun other hadds => absurd hadds (hnone.1 other)
              cases hnone.2 with
              | inl hremoved =>
                  rw [hremoved]
                  exact h.update_none
              | inr hkept => rwa [hkept]
        · rename_i exc herror
          exact iff_of_true h fun other hadds =>
            absurd hadds (RegistryStore.not_adds_of_error herror other)
      · rename_i request stage hstage hrequests
        refine iff_of_true h (hidle fun request' record loaded heq => ?_)
        obtain ⟨rfl, rfl⟩ := Prod.mk.inj (Option.some.inj (hrequests.symm.trans heq))
        exact hstage record loaded rfl

/-- The links of a registry whose replacements are active are acyclic. -/
theorem LinksSound.acyclic {store : RegistryStore} (h : LinksSound store) :
    Acyclic store.links := by
  obtain ⟨standing, hstores, hsound⟩ := h
  apply acyclic_of_not_chained
  intro key next hlink
  obtain ⟨other, hother, rfl⟩ := Option.map_eq_some_iff.mp hlink
  obtain ⟨lifecycle, hfind, hreplacement⟩ := Option.bind_eq_some_iff.mp hother
  obtain ⟨target, replacement, hkey, rfl, -, hstanding⟩ :=
    hstores.link_of_mem (Table.mem_of_find? hfind) hreplacement
  rw [Table.key_of_find? hfind] at hkey
  constructor
  · rw [hkey]
    exact fun heq => hsound.ne hstanding
      (Subtype.ext (RegistryTarget.Valid.eq_of_key replacement.2 target.2 heq))
  · rw [RegistryStore.links, hstores.columns, hsound.active hstanding]
    rfl

section Undisturbed

variable {sha256 : String → String} {store : RegistryStore} {request : LifecycleRequest}
  {now : Instant} {stage stage' : RequestStage}

/-- Nothing is left to read. -/
def RequestStage.commits : RequestStage → Bool
  | .commit _ _ => true
  | _ => false

/-- One stage follows another by reads of one store. -/
inductive Reads (store : RegistryStore) (request : LifecycleRequest) :
    RequestStage → RequestStage → Prop
  | here (stage : RequestStage) : Reads store request stage stage
  | next {stage stage' : RequestStage}
      (read : Reads store request (store.read request stage) stage')
      (pending : stage.commits = false) : Reads store request stage stage'

/-- The reads of a client on a store that no other client changes. -/
theorem Reads.run {requests : Nat → Option (LifecycleRequest × RequestStage)} {client : Nat}
    (h : Reads store request stage stage') :
    ∃ n, Execution.run RegistryClients.step
        ⟨store, Function.update requests client (some (request, stage))⟩
        (List.replicate n (.advance client now)) =
      ⟨store, Function.update requests client (some (request, stage'))⟩ := by
  induction h with
  | here stage => exact ⟨0, rfl⟩
  | @next stage stage' _ hpending ih =>
      obtain ⟨n, hn⟩ := ih
      refine ⟨n + 1, ?_⟩
      rw [List.replicate_succ, Execution.run_cons, ← hn]
      congr 1
      have hpending : ∀ record loaded, stage ≠ .commit record loaded := by
        rintro record loaded rfl
        cases hpending
      simp only [RegistryClients.step, Function.update_self, Function.update_idem]

/-- The validation of a replacement by separate reads, on a store with sound links. -/
theorem reads_validateReplacement (h : LinksSound store) (record : RegistryRecord)
    (other : ValidTarget) :
    Reads store request (.replacement record other)
      (match store.validateReplacement request.target.1 other.1 with
        | .ok _ => .dependents record
        | .error exc => .finished (.error exc)) := by
  obtain ⟨standing, hstores, -⟩ := h
  apply Reads.next _ rfl
  rw [RegistryStore.read, RegistryStore.validateReplacement]
  split
  · exact .here _
  rename_i hne
  split
  · exact .here _
  cases hrecord : store.recordForTarget other.1 with
  | error exc => exact .here _
  | ok found =>
      simp only [find?_of_record hrecord]
      split
      · exact .here _
      rename_i hdirect
      have hactive : standing other = .active := by
        apply hstores.active_iff.mpr
        intro lifecycle hfind
        change store.lifecycles.find? (other.1.identity, other.1.feature) = _ at hfind
        cases hstatus : lifecycle.status with
        | active => rfl
        | deprecated => simp [hfind, hstatus] at hdirect
      have hend : (store.lifecycle found other.1.feature).bind (·.replacement) = none := by
        rw [find?_of_record hrecord]
        have hcolumns := hstores.columns other
        rw [hactive] at hcolumns
        exact congrArg Prod.snd hcolumns
      have hwalked : Reads store request (.walk record [] other.1) (.dependents record) := by
        apply Reads.next _ rfl
        simp only [RegistryStore.read, List.contains_nil, Bool.false_eq_true, if_false, if_neg hne,
          hrecord, hend]
        exact .here _
      have hok := replacementWalk_active hstores hactive (fun heq => hne (congrArg _ heq)) hrecord
        (store.lifecycles.rows.length + 1)
      rw [hok]
      cases hfeature : other.1.feature with
      | none => exact hwalked
      | some feature =>
          simp only [Option.isSome_some, if_true, Bool.true_and]
          apply Reads.next _ rfl
          simp only [RegistryStore.read, find?_of_record hrecord]
          split
          · exact .here _
          · exact hwalked

@[simp] theorem writeColumn_self {α : Type} [DecidableEq α] (loaded assigned : α) :
    writeColumn loaded assigned loaded = assigned := by
  unfold writeColumn
  split
  · rename_i heq
    exact heq.symm
  · rfl

/-- An UPDATE of the row as it was loaded makes the assignments of the request. -/
theorem writeChanges_self (loaded : RegistryLifecycleRecord) :
    writeChanges loaded (request.assign now loaded) loaded = request.assign now loaded := by
  simp only [writeChanges, writeColumn_self]
  cases request <;> rfl

/-- A deprecation that commits on the row it has just read assigns to the row of its target. -/
theorem commit_deprecate {target : ValidTarget} {message : Option String}
    {replacement : Option ValidTarget} (record : RegistryRecord) :
    store.commit now (.deprecateTarget target message replacement) record
        (store.lifecycle record target.1.feature) =
      .ok (store.assignLifecycle record target.1.feature now
        ⟨assignDeprecated message (replacement.map (·.1)) now, fun _ => rfl, fun _ => rfl⟩) := by
  have hfresh : (assignDeprecated message (replacement.map (·.1)) now
      (newLifecycle record target.1.feature now)).key = (record.identity, target.1.feature) := rfl
  cases hloaded : store.lifecycle record target.1.feature with
  | none =>
      cases hinsert : store.lifecycles.insert? (assignDeprecated message (replacement.map (·.1)) now
          (newLifecycle record target.1.feature now)) with
      | none =>
          obtain ⟨row, hrow⟩ := Table.find?_of_insert?_none hinsert
          rw [hfresh] at hrow
          cases hloaded.symm.trans hrow
      | some inserted =>
          rw [RegistryStore.assignLifecycle, setLifecycle, hinsert, RegistryStore.commit]
          simp only [LifecycleRequest.assign, hinsert]
  | some loaded =>
      have hsame := @writeChanges_self (.deprecateTarget target message replacement) now loaded
      have hstored : ∀ row, store.lifecycles.find? (record.identity, target.1.feature) = some row →
          row = loaded := fun row hrow => Option.some.inj (hrow.symm.trans hloaded)
      rw [RegistryStore.assignLifecycle, setLifecycle, RegistryStore.commit]
      cases hinsert : store.lifecycles.insert? (assignDeprecated message (replacement.map (·.1)) now
          (newLifecycle record target.1.feature now)) with
      | some inserted =>
          have hnone := Table.insert?_fresh hinsert
          rw [hfresh] at hnone
          cases hnone.symm.trans hloaded
      | none =>
          refine congrArg (fun rows => Except.ok { store with lifecycles := rows }) ?_
          apply Table.modify_congr
          intro row hrow
          rw [hstored row hrow]
          exact hsame

/-- The store when a request has committed what it has read, or has failed. -/
def RequestStage.outcome (now : Instant) (store : RegistryStore) (request : LifecycleRequest) :
    RequestStage → RegistryStore
  | .commit record loaded => (store.commit now request record loaded).toOption.getD store
  | _ => store

/-- What a request has done once its reads have led to a stage: it has committed what it
has loaded, or it has failed. -/
theorem Reads.settled (h : Reads store request .target stage) (client : Nat)
    (requests : Nat → Option (LifecycleRequest × RequestStage)) :
    ∃ n, (Execution.run RegistryClients.step ⟨store, requests⟩
        (.submit client request :: List.replicate n (.advance client now))).store =
      stage.outcome now store request := by
  obtain ⟨n, hn⟩ := @Reads.run _ _ now _ _ requests client h
  cases stage with
  | commit record loaded =>
      refine ⟨n + 1, ?_⟩
      rw [List.replicate_succ', Execution.run_cons, Execution.run_append]
      have hsubmit : RegistryClients.step ⟨store, requests⟩ (.submit client request) =
          ⟨store, Function.update requests client (some (request, .target))⟩ := rfl
      rw [hsubmit, hn]
      simp only [Execution.run_cons, Execution.run_nil, RegistryClients.step, Function.update_self,
        RequestStage.outcome]
      cases store.commit now request record loaded <;> rfl
  | _ => exact ⟨n, congrArg RegistryClients.store hn⟩

theorem Reads.trans {stage'' : RequestStage} (h : Reads store request stage stage')
    (h' : Reads store request stage' stage'') : Reads store request stage stage'' := by
  induction h with
  | here stage => exact h'
  | next _ hpending ih => exact .next (ih h') hpending

/-- The checks of a deprecation whose target is found, before it looks for dependents. -/
theorem reads_checks (h : LinksSound store) {target : ValidTarget} {message : Option String}
    (replacement : Option ValidTarget) {record : RegistryRecord}
    (hrecord : store.recordForTarget target.1 = .ok record) :
    Reads store (.deprecateTarget target message replacement) .target
      (match replacement.elim (.ok ()) fun other => store.validateReplacement target.1 other.1 with
        | .ok _ => .dependents record
        | .error exc => .finished (.error exc)) := by
  apply Reads.next _ rfl
  simp only [RegistryStore.read, LifecycleRequest.target, hrecord]
  cases replacement with
  | none => exact .here _
  | some other => exact reads_validateReplacement h record other

/-- A deprecation that the call accepts is read through to its commit. -/
theorem reads_deprecateTarget_ok (h : LinksSound store) {target : ValidTarget}
    {message : Option String} {replacement : Option ValidTarget}
    {result : RegistryStore × RegistryDescriptor}
    (hok : store.deprecateTarget now target.1 message (replacement.map (·.1)) = .ok result) :
    ∃ record, Reads store (.deprecateTarget target message replacement) .target
        (.commit record (store.lifecycle record target.1.feature)) ∧
      result.1 = store.assignLifecycle record target.1.feature now
        ⟨assignDeprecated message (replacement.map (·.1)) now, fun _ => rfl, fun _ => rfl⟩ := by
  obtain ⟨record, hrecord, hvalid, hindependent, hstore⟩ := RegistryStore.deprecateTarget_ok hok
  refine ⟨record, ?_, hstore⟩
  have hchecks := @reads_checks _ h target message replacement record hrecord
  have hpassed : (replacement.elim (.ok ()) fun other =>
      store.validateReplacement target.1 other.1) = .ok () := by
    cases replacement with
    | none => rfl
    | some other => exact hvalid other.1 rfl
  rw [hpassed] at hchecks
  apply hchecks.trans
  apply Reads.next _ rfl
  simp only [RegistryStore.read, LifecycleRequest.target, hindependent]
  exact .next (.here _) rfl

/-- A deprecation that the call rejects fails with the same exception. -/
theorem reads_deprecateTarget_error (h : LinksSound store) {target : ValidTarget}
    {message : Option String} {replacement : Option ValidTarget} {exc : PyException}
    (herror : store.deprecateTarget now target.1 message (replacement.map (·.1)) = .error exc) :
    Reads store (.deprecateTarget target message replacement) .target
      (.finished (.error exc)) := by
  unfold RegistryStore.deprecateTarget at herror
  cases hrecord : store.recordForTarget target.1 with
  | error missing =>
      rw [hrecord] at herror
      cases herror
      apply Reads.next _ rfl
      simp only [RegistryStore.read, LifecycleRequest.target, hrecord]
      exact .here _
  | ok record =>
      have hchecks := @reads_checks _ h target message replacement record hrecord
      rw [hrecord] at herror
      cases hpassed : (replacement.elim (.ok ()) fun other =>
          store.validateReplacement target.1 other.1) with
      | error failed =>
          rw [hpassed] at hchecks
          cases replacement with
          | none => cases hpassed
          | some other =>
              simp only [Option.map_some, show store.validateReplacement target.1 other.1 = _ from
                hpassed] at herror
              cases herror
              exact hchecks
      | ok _ =>
          rw [hpassed] at hchecks
          cases hdependent : store.dependent? target.1 with
          | none =>
              obtain ⟨result, hresult⟩ := @RegistryStore.deprecateTarget_of_valid store now
                target.1 (replacement.map (·.1)) record hrecord (fun raw hraw => by
                  obtain ⟨other, rfl, rfl⟩ := Option.map_eq_some_iff.mp hraw
                  exact hpassed) hdependent message
              rw [RegistryStore.deprecateTarget, hrecord] at hresult
              cases herror.symm.trans hresult
          | some lifecycle =>
              have hfailed : exc = RegistryStore.conflictError
                  s!"cannot deprecate active replacement {target.1.ref}; repoint dependent {lifecycle.target.ref} first" := by
                rw [hdependent] at herror
                cases replacement with
                | none =>
                    cases herror
                    rfl
                | some other =>
                    simp only [Option.map_some,
                      show store.validateReplacement target.1 other.1 = _ from hpassed] at herror
                    cases herror
                    rfl
              rw [hfailed]
              apply hchecks.trans
              apply Reads.next _ rfl
              simp only [RegistryStore.read, LifecycleRequest.target, hdependent]
              exact .here _

/-- A request that no other client disturbs has the effect of the call. -/
theorem request_undisturbed (h : LinksSound store) (request : LifecycleRequest) (client : Nat)
    (requests : Nat → Option (LifecycleRequest × RequestStage)) (now : Instant) :
    ∃ n, (Execution.run RegistryClients.step ⟨store, requests⟩
        (.submit client request :: List.replicate n (.advance client now))).store =
      store.call sha256 now request.toCall := by
  cases request with
  | deprecateTarget target message replacement =>
      rw [LifecycleRequest.toCall, RegistryStore.call]
      cases hcall : store.deprecateTarget now target.1 message (replacement.map (·.1)) with
      | error exc => exact (reads_deprecateTarget_error h hcall).settled client requests
      | ok result =>
          obtain ⟨record, hreads, hstore⟩ := reads_deprecateTarget_ok h hcall
          obtain ⟨n, hn⟩ := @Reads.settled _ _ now _ hreads client requests
          refine ⟨n, hn.trans ?_⟩
          simp only [RequestStage.outcome, commit_deprecate]
          exact hstore.symm
  | reactivate target =>
      rw [LifecycleRequest.toCall, RegistryStore.call]
      cases hrecord : store.recordForTarget target.1 with
      | error exc =>
          have hreads : Reads store (.reactivate target) .target (.finished (.error exc)) := by
            apply Reads.next _ rfl
            simp only [RegistryStore.read, LifecycleRequest.target, hrecord]
            exact .here _
          obtain ⟨n, hn⟩ := @Reads.settled _ _ now _ hreads client requests
          refine ⟨n, hn.trans ?_⟩
          rw [RegistryStore.reactivate, hrecord]
          rfl
      | ok record =>
          have hreads : Reads store (.reactivate target) .target
              (.commit record (store.lifecycle record target.1.feature)) := by
            apply Reads.next _ rfl
            simp only [RegistryStore.read, LifecycleRequest.target, hrecord]
            exact .next (.here _) rfl
          obtain ⟨n, hn⟩ := @Reads.settled _ _ now _ hreads client requests
          refine ⟨n, hn.trans ?_⟩
          rw [RegistryStore.reactivate, hrecord, RequestStage.outcome]
          cases hloaded : store.lifecycle record target.1.feature with
          | none =>
              simp only [bind, Except.bind, hloaded]
              rfl
          | some loaded =>
              simp only [bind, Except.bind, hloaded]
              refine congrArg (fun rows => { store with lifecycles := rows }) ?_
              apply Table.modify_congr
              intro row hrow
              obtain rfl := Option.some.inj (hloaded.symm.trans hrow)
              exact @writeChanges_self (.reactivate target) now loaded

end Undisturbed

/-- The requests of any clients keep the stored replacement links acyclic in a run exactly
when no commit of it adds a replacement from which the stored links lead to the target. -/
theorem links_acyclic_iff (sha256 : String → String) (calls : List (Instant × RegistryCall))
    (actions : List ClientAction) :
    Execution.Along RegistryClients.step
      (fun state action => Acyclic (state.step action).store.links)
        (.idle (registryAfter sha256 calls)) actions ↔
      Execution.Along RegistryClients.step ClosesNoCycle
        (.idle (registryAfter sha256 calls)) actions := by
  apply Execution.along_iff (I := fun _ => True)
    (P := fun state : RegistryClients => Acyclic state.store.links)
  · exact fun _ _ _ => trivial
  · exact fun _ _ _ => step_acyclic_iff
  · trivial
  · exact (registryAfter_linksSound sha256 calls).acyclic

/-- Two clients deprecate one entity each in favour of the other; both have read all they
check before either commits. -/
def crossedDeprecations : List ClientAction :=
  let account : ValidTarget := ⟨objectTarget .entity "account", by decide⟩
  let user : ValidTarget := ⟨objectTarget .entity "user", by decide⟩
  let reads : List ClientAction := (List.replicate 5 [.advance 0 1, .advance 1 1]).flatten
  [.submit 0 (.deprecateTarget account none (some user)),
    .submit 1 (.deprecateTarget user none (some account))] ++ reads ++
    [.advance 0 2, .advance 1 2]

/-- Two entities. -/
def accountAndUser : List (Instant × RegistryCall) :=
  [(0, .apply ⟨[⟨"account", [("account_id", .string)], List.nodup_singleton "account_id"⟩,
    ⟨"user", [("user_id", .string)], List.nodup_singleton "user_id"⟩], [], [], [], []⟩)]

theorem crossed_deprecations_form_cycle :
    ¬(∀ (sha256 : String → String) (calls : List (Instant × RegistryCall))
      (actions : List ClientAction),
      Acyclic (Execution.run RegistryClients.step (.idle (registryAfter sha256 calls))
        actions).store.links) := by
  intro h
  have hacyclic := h id accountAndUser crossedDeprecations
  have hforth : (Execution.run RegistryClients.step (.idle (registryAfter id accountAndUser))
      crossedDeprecations).store.links (objectTarget .entity "account").key =
        some (objectTarget .entity "user").key := by
    decide +kernel
  have hback : (Execution.run RegistryClients.step (.idle (registryAfter id accountAndUser))
      crossedDeprecations).store.links (objectTarget .entity "user").key =
        some (objectTarget .entity "account").key := by
    decide +kernel
  exact hacyclic _ _ hforth (Relation.ReflTransGen.single hback)

end FeatureStore
