import FeatureStore.HandOff
import FeatureStore.StreamConsumer

/-!
# The hand-off by the consumer

A registration adds a pending record. A staging transaction moves the pending records
of a batch into the care of a new append job, whose staging table has been written with
one row for each of their events.
-/

namespace FeatureStore

open Relational

section Registration

variable {fingerprint : StreamFeatureEvent → String} {db db' : Database}
  {event : StreamFeatureEvent} {topic : String} {partition offset : Nat} {id : Uuid}
  {now : Instant}

/-- A registration returns a stored record of the event's identity. -/
theorem register_stored {registration : Registration}
    (h : register fingerprint db event topic partition offset id now =
      (db', .ok registration)) :
    registration.record ∈ db'.streamEvents.rows ∧
      registration.record.identity = event.identity := by
  unfold register at h
  cases hknown : db.streamEvents.findUnique? event.identity with
  | some existing =>
      rw [hknown] at h
      cases h
      exact Table.findUnique?_some_iff.mp hknown
  | none =>
      rw [hknown] at h
      dsimp only at h
      split at h
      · rename_i streamEvents hinsert
        cases h
        refine ⟨?_, rfl⟩
        rw [Table.insert?_rows hinsert]
        exact List.mem_append_right _ (List.mem_singleton_self _)
      · cases h

/-- A registration adds at most the new record. -/
theorem register_cases (fingerprint : StreamFeatureEvent → String) (db : Database)
    (event : StreamFeatureEvent) (topic : String) (partition offset : Nat) (id : Uuid)
    (now : Instant) :
    (register fingerprint db event topic partition offset id now).1 = db ∨
      ∃ streamEvents,
        streamEvents.rows = db.streamEvents.rows ++
          [newStreamEventRecord fingerprint id event topic partition offset now] ∧
        (register fingerprint db event topic partition offset id now).1 =
          { db with streamEvents := streamEvents } := by
  unfold register
  cases db.streamEvents.findUnique? event.identity with
  | some existing => exact Or.inl rfl
  | none =>
      dsimp only
      split
      · rename_i streamEvents hinsert
        exact Or.inr ⟨streamEvents, Table.insert?_rows hinsert, rfl⟩
      · exact Or.inl rfl

theorem BackendSound.registered {config : Config} {b : AppendBackend} {drawn : List Uuid}
    (h : BackendSound b drawn) (event : StreamFeatureEvent) (topic : String)
    (partition offset : Nat) (id : Uuid) (now : Instant) :
    BackendSound
      { b with
        warehouse :=
          { b.warehouse with
            db := (register config.fingerprint b.warehouse.db event topic partition offset id
              now).1 } } drawn := by
  have hcommit := Call.commit config b.warehouse.db
    (.register event topic partition offset id now)
  rw [Call.apply] at hcommit
  rcases register_cases config.fingerprint b.warehouse.db event topic partition offset id now
    with hsame | ⟨streamEvents, hrows, hdb⟩
  · rw [hsame]
    exact h
  · rw [hdb] at hcommit ⊢
    have hmem : ∀ record ∈ streamEvents.rows, record ∈ b.warehouse.db.streamEvents.rows ∨
        record = newStreamEventRecord config.fingerprint id event topic partition offset now := by
      intro record hrecord
      rw [hrows] at hrecord
      exact (List.mem_append.mp hrecord).imp_right List.mem_singleton.mp
    refine ⟨?_, ?_, ?_, h.unique, h.appendsDrawn, h.stagingDrawn⟩
    · intro record hrecord
      rcases hmem record hrecord with hold | rfl
      · exact (h.records record hold).kept hcommit (by simp [Call.job?]) hrecord rfl (.refl _)
      · exact .pending rfl rfl
    · intro record hrecord
      rcases hmem record hrecord with hold | rfl
      · exact h.identities record hold
      · rfl
    · intro k a ha
      refine (h.attempts ha).kept hcommit fun record hrecord hstaged _ => ?_
      rcases hmem record hrecord with hold | rfl
      · exact hold
      · cases hstaged

end Registration

section Rows

/-- The items that `_flush_view` copies are items of the dictionary. -/
theorem dictItems_ok {α : Type} {mapping : Dict} {key : α → String} {keys : List α}
    {items : Dict} (h : keys.mapM (fun k => dictItem mapping (key k)) = .ok items) :
    ∀ item ∈ items, mapping.lookup item.1 = some item.2 := by
  have hitems := forall₂_of_mapM h
  clear h
  induction hitems with
  | nil => simp
  | cons hitem _ ih =>
      intro item hmem
      rcases List.mem_cons.mp hmem with rfl | hrest
      · obtain ⟨hkey, hvalue⟩ := dictItem_ok hitem
        rw [hkey]
        exact hvalue
      · exact ih item hrest

theorem stagingRow_written {entity : Entity} {view : FeatureView} {event : StreamFeatureEvent}
    {row : OfflineRow} (h : stagingRow entity view event = .ok row) : row.WrittenFor event := by
  unfold stagingRow at h
  split at h
  · cases h
  · rename_i entityValues hentity
    split at h
    · cases h
    · rename_i values hvalues
      cases h
      exact ⟨rfl, rfl, dictItems_ok hentity, dictItems_ok hvalues⟩

/-- Rows written for events with distinct ids hold each of them once. -/
theorem holdsOnce_of_written {events : List StreamFeatureEvent} {rows : List OfflineRow}
    (hrows : List.Forall₂ (fun event row => OfflineRow.WrittenFor row event) events rows)
    (hdistinct : (events.map (·.eventId)).Nodup) {record : StreamEventRecord}
    (hmem : record.payload ∈ events) (hid : record.eventId = record.payload.eventId) :
    HoldsOnce rows record := by
  have hids : ∀ {events rows},
      List.Forall₂ (fun event row => OfflineRow.WrittenFor row event) events rows →
      record.eventId ∉ events.map (·.eventId) →
      rows.filter (fun row => decide (row.eventId = some record.eventId)) = [] := by
    intro events rows hrows habsent
    induction hrows with
    | nil => rfl
    | cons hrow _ ih =>
        rw [List.map_cons, List.mem_cons, not_or] at habsent
        rw [List.filter_cons_of_neg, ih habsent.2]
        simpa [hrow.eventId] using fun h => habsent.1 h.symm
  induction hrows with
  | nil => cases hmem
  | @cons event row rest others hrow hothers ih =>
      rw [List.map_cons, List.nodup_cons] at hdistinct
      by_cases hevent : event.eventId = record.eventId
      · have hpayload : record.payload = event := by
          rcases List.mem_cons.mp hmem with hhead | hrest
          · exact hhead
          · have hmapped : record.payload.eventId ∈ rest.map (·.eventId) :=
              List.mem_map_of_mem hrest
            rw [← hid, ← hevent] at hmapped
            exact absurd hmapped hdistinct.1
        refine ⟨row, ?_, hpayload ▸ hrow⟩
        rw [List.filter_cons_of_pos (by simp [hrow.eventId, hevent]), hids hothers]
        rw [← hevent]
        exact hdistinct.1
      · have hrest : record.payload ∈ rest := by
          rcases List.mem_cons.mp hmem with hhead | hrest
          · exact absurd (hhead ▸ hid).symm hevent
          · exact hrest
        obtain ⟨found, hfound, hwritten⟩ := ih hdistinct.2 hrest
        refine ⟨found, ?_, hwritten⟩
        rw [List.filter_cons_of_neg (by simp [hrow.eventId, hevent]), hfound]

end Rows

section Staging

variable {settings : Settings} {db db' : Database} {viewRef : String} {stagingUri : StagingUri}
  {recordIds : List Uuid} {jobId : Uuid} {now : Instant}

/-- A staging transaction that raises has changed nothing. -/
theorem stageBatch_error {exc : PyException}
    (h : stageBatch settings db viewRef stagingUri recordIds jobId now = (db', .error exc)) :
    db' = db := by
  unfold stageBatch at h
  split at h
  · exact (Prod.mk.inj h).1.symm
  · split at h
    · exact (Prod.mk.inj h).1.symm
    · cases h

theorem stageBatch_ok
    (h : stageBatch settings db viewRef stagingUri recordIds jobId now = (db', .ok ())) :
    db.streamEvents.rowcount (stagingGuard recordIds) = recordIds.length ∧
      ∃ jobs, db.jobs.insert? (newJobRecord settings jobId .offlineAppend
          (.offlineAppend viewRef stagingUri) none now) = some jobs ∧
        db' = { db with
          jobs := jobs
          streamEvents := db.streamEvents.update (stagingGuard recordIds)
            (setStaged jobId now) } := by
  unfold stageBatch at h
  split at h
  · cases h
  · rename_i hcount
    split at h
    · cases h
    · rename_i jobs hinsert
      exact ⟨not_not.mp hcount, jobs, hinsert, (Prod.mk.inj h).1.symm⟩

/-- After the transaction every id of the batch is that of a staged record. -/
theorem stageBatch_staged
    (h : stageBatch settings db viewRef stagingUri recordIds jobId now = (db', .ok ()))
    {id : Uuid} (hid : id ∈ recordIds) :
    ∃ record ∈ db'.streamEvents.rows, record.id = id ∧ record.state = .staged := by
  obtain ⟨hcount, jobs, _, rfl⟩ := stageBatch_ok h
  obtain ⟨record, hrecord, hkey, hguard⟩ := Table.exists_of_rowcount
    (fun r hr => (stagingGuard_iff.mp hr).1) hcount hid
  refine ⟨(setStaged jobId now).set record, ?_, hkey, rfl⟩
  rw [Table.update_rows]
  exact List.mem_map.mpr ⟨record, hrecord, if_pos hguard⟩

/-- A record after the transaction is one of the batch, now linked to the new job, or
one that the transaction has left alone. -/
theorem mem_staged {t : StreamEventTable} {record : StreamEventRecord}
    (h : record ∈ (t.update (stagingGuard recordIds) (setStaged jobId now)).rows) :
    (∃ before ∈ t.rows, before.id ∈ recordIds ∧ before.state = .pending ∧
      record = (setStaged jobId now).set before) ∨ record ∈ t.rows := by
  rw [Table.update_rows] at h
  obtain ⟨before, hbefore, rfl⟩ := List.mem_map.mp h
  by_cases hguard : stagingGuard recordIds before = true
  · rw [if_pos hguard]
    obtain ⟨hid, hstate⟩ := stagingGuard_iff.mp hguard
    exact Or.inl ⟨before, hbefore, hid, hstate, rfl⟩
  · rw [if_neg hguard]
    exact Or.inr hbefore

/-- The staging transaction keeps the hand-off, if its location belongs to no job and
holds each record of the batch once. -/
theorem BackendSound.staged {config : Config} {b : AppendBackend} {drawn : List Uuid}
    {table : DeltaTable} (h : BackendSound b drawn)
    (hstage : stageBatch config.settings b.warehouse.db viewRef stagingUri recordIds jobId
      now = (db', .ok ()))
    (hunclaimed : Unclaimed b.warehouse.db stagingUri) (hdrawn : stagingUri.batch ∈ drawn)
    (hfound : b.warehouse.staging stagingUri = some table)
    (hbatch : ∀ record ∈ b.warehouse.db.streamEvents.rows, record.id ∈ recordIds →
      record.featureView = viewRef ∧ HoldsOnce table.rows record) :
    BackendSound { b with warehouse := { b.warehouse with db := db' } } drawn := by
  have hcommit := Call.commit config b.warehouse.db
    (.stageBatch viewRef stagingUri recordIds jobId now)
  rw [Call.apply, hstage] at hcommit
  obtain ⟨_, jobs, hinsert, rfl⟩ := stageBatch_ok hstage
  have hfind := Table.find?_insert hinsert
  have hnew : jobs.find? jobId = some (newJobRecord config.settings jobId .offlineAppend
      (.offlineAppend viewRef stagingUri) none now) :=
    (hfind jobId).trans (if_pos rfl)
  have hfresh : b.warehouse.db.jobs.find? jobId = none := Table.insert?_fresh hinsert
  -- A job that appends from somewhere is an old one, or the new one at its own location.
  have happends : ∀ {other : Uuid} {uri : StagingUri},
      AppendsFrom { b.warehouse.db with
        jobs := jobs
        streamEvents := b.warehouse.db.streamEvents.update (stagingGuard recordIds)
          (setStaged jobId now) } other uri →
      AppendsFrom b.warehouse.db other uri ∨ other = jobId ∧ uri = stagingUri := by
    rintro other uri ⟨job, view, hjob, hkind, hpayload⟩
    change jobs.find? other = some job at hjob
    rw [hfind] at hjob
    split at hjob
    · rename_i hother
      cases hjob
      exact Or.inr ⟨hother, (JobPayload.offlineAppend.inj hpayload).2.symm⟩
    · exact Or.inl ⟨job, view, hjob, hkind, hpayload⟩
  refine ⟨?_, ?_, ?_, ?_, ?_, h.stagingDrawn⟩
  · intro record hrecord
    rcases mem_staged hrecord with ⟨before, hbefore, hid, _, rfl⟩ | hold
    · obtain ⟨hview, honce⟩ := hbatch before hbefore hid
      exact .staged rfl rfl hnew (newJobRecord_awaiting _ _ _ _) (by rw [← hview]; rfl)
        hfound honce
    · exact (h.records record hold).kept hcommit (by simp [Call.job?]) hrecord rfl (.refl _)
  · intro record hrecord
    rcases mem_staged hrecord with ⟨before, hbefore, _, _, rfl⟩ | hold
    · exact h.identities before hbefore
    · exact h.identities record hold
  · intro k a ha
    have hcovers := h.attempts ha
    refine hcovers.kept hcommit fun record hrecord _ hlinked => ?_
    rcases mem_staged hrecord with ⟨before, _, _, _, rfl⟩ | hold
    · -- The new job is not one that an attempt already runs.
      obtain ⟨row, hrow, _⟩ := hcovers.copy
      cases Option.some.inj hlinked
      cases hfresh.symm.trans hrow
    · exact hold
  · intro first second uri hfirst hsecond
    rcases happends hfirst with hold | ⟨hid, huri⟩
    · rcases happends hsecond with hold' | ⟨_, huri⟩
      · exact h.unique hold hold'
      · rw [huri] at hold
        exact absurd hold (hunclaimed first)
    · rcases happends hsecond with hold | ⟨hid', _⟩
      · rw [huri] at hold
        exact absurd hold (hunclaimed second)
      · rw [hid, hid']
  · intro other uri happend
    rcases happends happend with happend | ⟨_, rfl⟩
    · exact h.appendsDrawn happend
    · exact hdrawn

end Staging

end FeatureStore
