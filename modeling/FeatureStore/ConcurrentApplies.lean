import FeatureStore.ConcurrentDeprecations

/-!
# Applications that cross each other

`apply` plans against the records that it has read, and its session adds the planned rows when it
commits. Other requests may commit between the two. The uniqueness of the identities makes the
commits serial: one that succeeds does what it would have done in a single step, but for the
warnings that it has read with its plan.
-/

namespace FeatureStore

open Relational

/-- An application that has made its plan. -/
structure PlannedApply where
  manifest : RegistryManifest
  plan : RegistryPlan

namespace RegistryStore

/-- What `apply` does after its plan. -/
def applyPlan (sha256 : String → String) (now : Instant) (store : RegistryStore)
    (planned : PlannedApply) : Except PyException (RegistryStore × ApplyResult) :=
  let rejected := planned.plan.objects.filter fun item => decide (item.status = .rejected)
  if rejected ≠ [] then .error (rejection rejected)
  else
    match store.records.insertAll?
        (createdRecords sha256 now planned.plan.objects planned.manifest.objects) with
    | none => .error ⟨.integrity, "UNIQUE constraint failed: registry_records"⟩
    | some records =>
        .ok ({ store with records := records },
          ⟨planned.plan.fingerprint, planned.plan.summary.created, planned.plan.summary.unchanged,
            planned.plan.warnings⟩)

/-- `apply` in one step plans and commits against the same store. -/
theorem apply_eq_applyPlan (sha256 : String → String) (now : Instant) (store : RegistryStore)
    (manifest : RegistryManifest) :
    store.apply sha256 now manifest =
      (store.validate sha256 manifest).bind fun plan =>
        store.applyPlan sha256 now ⟨manifest, plan⟩ := rfl

end RegistryStore

/-- The committed registry with the lifecycle requests and the applications in flight. -/
structure RegistryServer extends RegistryClients where
  planned : Nat → Option PlannedApply

def RegistryServer.idle : RegistryServer := ⟨.idle .empty, fun _ => none⟩

/-- A client reads the records and plans, which may raise, whatever the warnings are that it then
reads; a client commits its plan; everything else is a lifecycle request. -/
inductive RegistryAction
  | plan (client : Nat) (manifest : RegistryManifest) (warnings : List RegistryWarning)
  | commit (client : Nat) (now : Instant)
  | request (action : ClientAction)

namespace RegistryServer

def step (sha256 : String → String) (s : RegistryServer) : RegistryAction → RegistryServer
  | .plan client manifest warnings =>
      let planned := (s.store.validate sha256 manifest).toOption.map fun plan =>
        (⟨manifest, { plan with warnings := warnings }⟩ : PlannedApply)
      { s with planned := Function.update s.planned client planned }
  | .commit client now =>
      match s.planned client with
      | none => s
      | some planned =>
          match s.store.applyPlan sha256 now planned with
          | .ok (store, _) =>
              { s with store := store, planned := Function.update s.planned client none }
          | .error _ => { s with planned := Function.update s.planned client none }
  | .request action => { s with toRegistryClients := s.toRegistryClients.step action }

def run (sha256 : String → String) (actions : List RegistryAction) : RegistryServer :=
  Execution.run (step sha256) .idle actions

/-- The manifest that an action commits, with its time. -/
def committed? (sha256 : String → String) (s : RegistryServer) :
    RegistryAction → Option (Instant × RegistryManifest)
  | .commit client now =>
      (s.planned client).bind fun planned =>
        (s.store.applyPlan sha256 now planned).toOption.map fun _ => (now, planned.manifest)
  | _ => none

/-- The manifests that are committed in a run, in this order. -/
def commits (sha256 : String → String) (actions : List RegistryAction) :
    List (Instant × RegistryManifest) :=
  Execution.observations (step sha256) (committed? sha256) .idle actions

end RegistryServer

/-- A commit that succeeds has the answer of `apply` at that moment, but for the warnings. One
that fails has a rejected object in its plan, or one of the rows that it adds has an identity that
is stored by now or is added twice. -/
def AnswersSerially (sha256 : String → String) (s : RegistryServer) : RegistryAction → Prop
  | .commit client now =>
      ∀ planned, s.planned client = some planned →
        match s.store.applyPlan sha256 now planned with
        | .ok (after, result) =>
            ∃ warnings, s.store.apply sha256 now planned.manifest =
              .ok (after, { result with warnings := warnings })
        | .error _ =>
            (∃ item ∈ planned.plan.objects, item.status = .rejected) ∨
              ¬(s.store.records.rows.map RegistryRecord.identity ++
                (createdRecords sha256 now planned.plan.objects planned.manifest.objects).map
                  RegistryRecord.identity).Nodup
  | _ => True

namespace RegistryStore

section Commit

variable {sha256 : String → String} {records after : RecordTable} {available more : Availability}
  {objects : List RegistryObject} {earlier store : RegistryStore} {now : Instant}

/-- What was accepted is accepted by later records with the same record for each object. -/
theorem Accepts.congr (h : Accepts sha256 records available objects)
    (hmore : available.Extends more)
    (hfind : ∀ object ∈ objects, after.find? object.identity = records.find? object.identity) :
    Accepts sha256 after more objects := by
  induction objects generalizing available more with
  | nil => trivial
  | cons object rest ih =>
      obtain ⟨⟨hconflict, hrefs⟩, hrest⟩ := h
      obtain ⟨hobject, hothers⟩ := List.forall_mem_cons.mp hfind
      exact ⟨⟨by rw [hobject]; exact hconflict, hmore.referenceIssues hrefs⟩,
        ih hrest (hmore.add object) hothers⟩

/-- Rows are added to the new objects' identities only when none of these is stored. -/
theorem find?_of_insertAll? {manifest : RegistryManifest} {rows : List RegistryRecord}
    (hleading : earlier.records.rows ++ rows = store.records.rows)
    (hinsert : store.records.insertAll? ((earlier.newObjects manifest).map fun object =>
      ⟨object, fingerprint sha256 object.spec, now⟩) = some after)
    {object : RegistryObject} (hobject : object ∈ manifest.objects) :
    store.records.find? object.identity = earlier.records.find? object.identity := by
  cases hfind : earlier.records.find? object.identity with
  | some record =>
      obtain ⟨hmem, hkey⟩ := Table.find?_some_iff.mp hfind
      apply Table.find?_some_iff.mpr
      exact ⟨by rw [← hleading]; exact List.mem_append_left _ hmem, hkey⟩
  | none =>
      have hsome := Table.insertAll?_isSome_iff.mp (Option.isSome_of_eq_some hinsert)
      obtain ⟨-, -, hdisjoint⟩ := List.nodup_append.mp (List.map_append ▸ hsome.1)
      have hnew : object ∈ earlier.newObjects manifest :=
        List.mem_filter.mpr ⟨hobject, by simp [isNew, hfind]⟩
      apply Table.find?_none_iff.mpr
      intro record hrecord hkey
      refine hdisjoint _ (List.mem_map_of_mem hrecord) object.identity ?_ hkey
      rw [List.map_map]
      exact List.mem_map_of_mem hnew

/-- Statuses are counted alike where the same objects are new. -/
theorem countStatus_congr {manifest : RegistryManifest}
    (h : Accepts sha256 earlier.records (.stored earlier.records) manifest.objects)
    (hnow : Accepts sha256 store.records (.stored store.records) manifest.objects)
    (hfind : ∀ object ∈ manifest.objects,
      store.records.find? object.identity = earlier.records.find? object.identity)
    (status : RegistryObjectStatus) :
    countStatus (earlier.plan sha256 manifest).objects status =
      countStatus (store.plan sha256 manifest).objects status := by
  have hstatuses : ((earlier.plan sha256 manifest).objects).map (·.status) =
      ((store.plan sha256 manifest).objects).map (·.status) := by
    calc ((earlier.plan sha256 manifest).objects).map (·.status)
        = manifest.objects.map fun object =>
            if isNew earlier.records object then .created else .unchanged := h.status
      _ = manifest.objects.map fun object =>
            if isNew store.records object then .created else .unchanged :=
          List.map_congr_left fun object hobject => by rw [isNew, isNew, hfind object hobject]
      _ = ((store.plan sha256 manifest).objects).map (·.status) := hnow.status.symm
  have hcount : ∀ plans : List RegistryObjectPlan,
      countStatus plans status = (plans.map (·.status)).countP fun s => decide (s = status) :=
    fun plans => by rw [List.countP_map]; rfl
  rw [hcount, hcount, hstatuses]

/-- A plan that is committed to later records is the plan of these records. -/
theorem apply_of_applyPlan {planned : PlannedApply} {rows : List RegistryRecord}
    (hfinite : planned.manifest.acceptsFinite = true)
    (hleading : earlier.records.rows ++ rows = store.records.rows)
    (hplan : planned.plan =
      { earlier.plan sha256 planned.manifest with warnings := planned.plan.warnings })
    {result : ApplyResult} {committed : RegistryStore}
    (hok : store.applyPlan sha256 now planned = .ok (committed, result)) :
    store.apply sha256 now planned.manifest = .ok (committed,
      { result with warnings := (store.plan sha256 planned.manifest).warnings }) := by
  obtain ⟨manifest, plan⟩ := planned
  obtain ⟨warnings, rfl⟩ : ∃ warnings,
      plan = { earlier.plan sha256 manifest with warnings := warnings } := ⟨_, hplan⟩
  have haccepts : Accepts sha256 earlier.records (.stored earlier.records) manifest.objects := by
    rw [← planLoop_accepts]
    intro item hitem hrejected
    have hsome : (earlier.plan sha256 manifest).objects.filter
        (fun item => decide (item.status = .rejected)) ≠ [] :=
      List.ne_nil_of_mem (List.mem_filter.mpr ⟨hitem, by simpa using hrejected⟩)
    simp only [applyPlan, if_pos hsome] at hok
    cases hok
  have hnone : (earlier.plan sha256 manifest).objects.filter
      (fun item => decide (item.status = .rejected)) = [] := by
    rw [List.filter_eq_nil_iff]
    intro item hitem
    simpa using planLoop_accepts.mpr haccepts item hitem
  simp only [applyPlan, if_neg (not_not.mpr hnone), createdRecords_plan haccepts] at hok
  split at hok
  · cases hok
  · rename_i records hinsert
    cases hok
    have hfind : ∀ object ∈ manifest.objects,
        store.records.find? object.identity = earlier.records.find? object.identity :=
      fun _ => find?_of_insertAll? hleading hinsert
    have hnow : Accepts sha256 store.records (.stored store.records) manifest.objects :=
      haccepts.congr (Availability.stored_extends hleading.symm) hfind
    have hnew : store.newObjects manifest = earlier.newObjects manifest :=
      List.filter_congr fun object hobject => by simp only [isNew, hfind object hobject]
    rw [apply_of_accepts hfinite hnow, createdRecords_plan hnow, hnew, hinsert]
    have hcreated := countStatus_congr haccepts hnow hfind .created
    have hunchanged := countStatus_congr haccepts hnow hfind .unchanged
    simp only [plan] at hcreated hunchanged ⊢
    rw [hcreated, hunchanged]

end Commit

end RegistryStore

namespace RegistryServer

variable {sha256 : String → String} {s : RegistryServer}

/-- The plan was made of records that have only been added to since, and did not raise. -/
def Planned (sha256 : String → String) (store : RegistryStore) (planned : PlannedApply) : Prop :=
  planned.manifest.acceptsFinite = true ∧
    ∃ earlier : RegistryStore, earlier.records.rows <+: store.records.rows ∧ planned.plan =
      { earlier.plan sha256 planned.manifest with warnings := planned.plan.warnings }

def PlansSound (sha256 : String → String) (s : RegistryServer) : Prop :=
  ∀ client planned, s.planned client = some planned → Planned sha256 s.store planned

theorem Planned.mono {store after : RegistryStore} {planned : PlannedApply}
    (h : Planned sha256 store planned) (hleading : store.records.rows <+: after.records.rows) :
    Planned sha256 after planned := by
  obtain ⟨hfinite, earlier, hearlier, hplan⟩ := h
  exact ⟨hfinite, earlier, hearlier.trans hleading, hplan⟩

/-- Lifecycle requests leave the records. -/
theorem request_records (state : RegistryClients) (action : ClientAction) :
    (state.step action).store.records = state.store.records := by
  cases action with
  | submit client request => rfl
  | advance client now =>
      rw [RegistryClients.step]
      split
      · rfl
      · rename_i request record loaded _
        cases loaded with
        | some loaded => rfl
        | none =>
            cases request with
            | reactivate target => rfl
            | deprecateTarget target message replacement =>
                simp only [RegistryStore.commit]
                cases Table.insert? state.store.lifecycles _ <;> rfl
      · rfl

theorem applyPlan_ok {store after : RegistryStore} {now : Instant} {planned : PlannedApply}
    {result : ApplyResult} (h : store.applyPlan sha256 now planned = .ok (after, result)) :
    store.records.rows <+: after.records.rows := by
  unfold RegistryStore.applyPlan at h
  dsimp only at h
  split at h
  · cases h
  · split at h
    · cases h
    · rename_i records hinsert
      cases h
      exact ⟨_, (Table.insertAll?_rows hinsert).symm⟩

theorem PlansSound.update {client : Nat} {planned : Option PlannedApply} {store : RegistryStore}
    (h : s.PlansSound sha256) (hleading : s.store.records.rows <+: store.records.rows)
    (hnew : ∀ new, planned = some new → Planned sha256 store new) :
    PlansSound sha256
      { s with store := store, planned := Function.update s.planned client planned } := by
  intro other existing hexisting
  by_cases hother : other = client
  · subst hother
    exact hnew existing (by simpa using hexisting)
  · exact (h other existing (by simpa [hother] using hexisting)).mono hleading

theorem PlansSound.step (h : s.PlansSound sha256) (action : RegistryAction) :
    (s.step sha256 action).PlansSound sha256 := by
  cases action with
  | plan client manifest warnings =>
      refine h.update (List.prefix_refl _) fun new hnew => ?_
      rw [RegistryStore.validate] at hnew
      split at hnew
      · rename_i hfinite
        obtain rfl := Option.some.inj hnew
        exact ⟨hfinite, s.store, List.prefix_refl _, rfl⟩
      · cases hnew
  | commit client now =>
      rw [RegistryServer.step]
      split
      · exact h
      · split
        · rename_i hok
          exact h.update (applyPlan_ok hok) fun _ hnew => by cases hnew
        · exact h.update (List.prefix_refl _) fun _ hnew => by cases hnew
  | request action =>
      intro client planned hplanned
      refine (h client planned hplanned).mono ⟨[], ?_⟩
      change s.store.records.rows ++ [] = (s.toRegistryClients.step action).store.records.rows
      rw [List.append_nil, request_records]

theorem answersSerially (h : s.PlansSound sha256) (action : RegistryAction) :
    AnswersSerially sha256 s action := by
  cases action with
  | plan client manifest warnings => trivial
  | request action => trivial
  | commit client now =>
      intro planned hplanned
      obtain ⟨hfinite, earlier, ⟨rows, hleading⟩, hplan⟩ := h client planned hplanned
      split
      · rename_i hok
        exact ⟨_, RegistryStore.apply_of_applyPlan hfinite hleading hplan hok⟩
      · rename_i herror
        unfold RegistryStore.applyPlan at herror
        dsimp only at herror
        split at herror
        · rename_i hrejected
          obtain ⟨item, hitem⟩ := List.exists_mem_of_ne_nil _ hrejected
          obtain ⟨hmem, hstatus⟩ := List.mem_filter.mp hitem
          exact Or.inl ⟨item, hmem, by simpa using hstatus⟩
        · split at herror
          · rename_i hinsert
            right
            intro hnodup
            rw [← List.map_append] at hnodup
            have hsome := Table.insertAll?_isSome_iff.mpr ⟨hnodup, hnodup⟩
            simp [hinsert] at hsome
          · cases herror

/-- The records after the application of a manifest, which does not read lifecycles. -/
def recordsAfter (sha256 : String → String) (records : RecordTable)
    (commit : Instant × RegistryManifest) : RecordTable :=
  (RegistryStore.call sha256 ⟨records, RegistryStore.empty.lifecycles⟩ commit.1
    (.apply commit.2)).records

theorem call_apply_records (store : RegistryStore) (now : Instant) (manifest : RegistryManifest) :
    (store.call sha256 now (.apply manifest)).records =
      recordsAfter sha256 store.records (now, manifest) := by
  by_cases h : store.Rejects sha256 manifest
  · have hother : RegistryStore.Rejects sha256 ⟨store.records, RegistryStore.empty.lifecycles⟩
        manifest := by
      by_contra hother
      obtain ⟨hfinite, haccepts⟩ := RegistryStore.not_rejects_iff.mp hother
      have hkept : ¬store.Rejects sha256 manifest :=
        RegistryStore.not_rejects_iff.mpr ⟨hfinite, haccepts⟩
      exact hkept h
    obtain ⟨exc, hexc⟩ := @RegistryStore.apply_of_rejects sha256 store manifest now h
    obtain ⟨exc', hexc'⟩ := @RegistryStore.apply_of_rejects sha256 _ manifest now hother
    rw [recordsAfter, RegistryStore.call, RegistryStore.call, hexc, hexc']
    rfl
  · obtain ⟨hfinite, haccepts⟩ := RegistryStore.not_rejects_iff.mp h
    have hother := @RegistryStore.apply_of_accepts sha256
      ⟨store.records, RegistryStore.empty.lifecycles⟩ manifest now hfinite haccepts
    rw [recordsAfter, RegistryStore.call, RegistryStore.call,
      RegistryStore.apply_of_accepts hfinite haccepts, hother]
    simp only [RegistryStore.plan]
    split <;> rfl

theorem step_records (h : s.PlansSound sha256) (action : RegistryAction) :
    (s.step sha256 action).store.records =
      (s.committed? sha256 action).elim s.store.records (recordsAfter sha256 s.store.records) := by
  cases action with
  | plan client manifest warnings => rfl
  | request action => exact request_records s.toRegistryClients action
  | commit client now =>
      rw [step, committed?]
      cases hplanned : s.planned client with
      | none => rfl
      | some planned =>
          have hanswer := answersSerially h (.commit client now) planned hplanned
          simp only [Option.bind_some]
          cases hcommit : s.store.applyPlan sha256 now planned with
          | error exc => rfl
          | ok committed =>
              obtain ⟨after, result⟩ := committed
              rw [hcommit] at hanswer
              obtain ⟨warnings, happly⟩ := hanswer
              have hcall : s.store.call sha256 now (.apply planned.manifest) = after := by
                rw [RegistryStore.call, happly]
                rfl
              calc after.records
                  = (s.store.call sha256 now (.apply planned.manifest)).records := by rw [hcall]
                _ = recordsAfter sha256 s.store.records (now, planned.manifest) :=
                    call_apply_records ..

end RegistryServer

/-- The committed applications of a run, as calls of one client. -/
def RegistryServer.serialCalls (sha256 : String → String) (actions : List RegistryAction) :
    List (Instant × RegistryCall) :=
  (commits sha256 actions).map fun commit => (commit.1, .apply commit.2)

namespace RegistryServer

theorem idle_plansSound (sha256 : String → String) : idle.PlansSound sha256 :=
  fun _ _ h => by cases h

theorem run_records (sha256 : String → String) (actions : List RegistryAction) :
    (run sha256 actions).store.records =
      (registryAfter sha256 (serialCalls sha256 actions)).records := by
  rw [registryAfter, Execution.run, serialCalls, List.foldl_map]
  calc (run sha256 actions).store.records
      = (commits sha256 actions).foldl (recordsAfter sha256) RegistryStore.empty.records :=
        Execution.view_run_of (I := PlansSound sha256) _ (fun s => s.store.records) _
          (fun _ action h => h.step action) (fun _ action h => step_records h action)
          (idle_plansSound sha256) actions
    _ = _ := List.foldl_hom RegistryStore.records fun store commit =>
        (call_apply_records store commit.1 commit.2).symm

/-- What the stored objects refer to is stored. -/
theorem run_hasReferences (sha256 : String → String) (actions : List RegistryAction)
    (hsha : Set.InjOn sha256 {text | text ∈ specTexts (serialCalls sha256 actions)}) :
    ∀ record ∈ (run sha256 actions).store.records.rows,
      HasReferences (run sha256 actions).store.records record.object := by
  rw [run_records]
  exact (registryAfter_recordsSound hsha fun _ h => h).references

end RegistryServer

/-- However the requests of clients interleave, the stored records are those of the committed
applications one after the other, in the order of their commits, and each commit answers as
`apply` in a single step would have at that moment, but for the warnings. So what the objects
refer to is stored, if no two of their specs have one fingerprint. -/
theorem concurrent_applies_serial (sha256 : String → String) (actions : List RegistryAction)
    (hsha : Set.InjOn sha256
      {text | text ∈ specTexts (RegistryServer.serialCalls sha256 actions)}) :
    (RegistryServer.run sha256 actions).store.records =
        (registryAfter sha256 (RegistryServer.serialCalls sha256 actions)).records ∧
      Execution.Along (RegistryServer.step sha256) (AnswersSerially sha256) .idle actions ∧
      ∀ record ∈ (RegistryServer.run sha256 actions).store.records.rows,
        HasReferences (RegistryServer.run sha256 actions).store.records record.object :=
  ⟨RegistryServer.run_records sha256 actions,
    Execution.along_of_invariant (I := RegistryServer.PlansSound sha256)
      (fun _ action h => h.step action) (fun _ action h => RegistryServer.answersSerially h action)
      (RegistryServer.idle_plansSound sha256) actions,
    RegistryServer.run_hasReferences sha256 actions hsha⟩

/-- Two clients plan the same manifest before either commits; the second commit fails. -/
def crossedApplies : List RegistryAction :=
  [.plan 0 accountManifest [], .plan 1 accountManifest [], .commit 1 0, .commit 0 1]

theorem crossed_applies_serial :
    (RegistryServer.run accountDigest crossedApplies).store.records =
        (registryAfter accountDigest
          (RegistryServer.serialCalls accountDigest crossedApplies)).records ∧
      Execution.Along (RegistryServer.step accountDigest) (AnswersSerially accountDigest) .idle
        crossedApplies ∧
      ∀ record ∈ (RegistryServer.run accountDigest crossedApplies).store.records.rows,
        HasReferences (RegistryServer.run accountDigest crossedApplies).store.records
          record.object := by
  have htexts : specTexts (RegistryServer.serialCalls accountDigest crossedApplies) =
      specTexts [(0, .apply accountManifest)] := by
    decide +kernel
  apply concurrent_applies_serial
  rw [htexts]
  exact accountDigest_injOn

end FeatureStore
