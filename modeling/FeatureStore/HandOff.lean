import FeatureStore.LedgerEvolution
import FeatureStore.StreamOperations

/-!
# The hand-off of staged events

A staged record is in the care of its append job: the job waits, and its staging
table holds the row of the event. An applied record has a succeeded job whose attempt
has seen the event id in the target. The workers and the other processes keep this up,
whatever they do and wherever they stop.
-/

namespace FeatureStore

open Relational

/-- The row was written for the event: its key, its values and its feature columns are
those of the event. -/
structure OfflineRow.WrittenFor (row : OfflineRow) (event : StreamFeatureEvent) : Prop where
  timestamp : row.eventTimestamp = event.eventTimestamp.asUtc
  eventId : row.eventId = some event.eventId
  entityValues : ∀ item ∈ row.entityValues, event.entityValues.lookup item.1 = some item.2
  values : ∀ item ∈ row.values, event.values.lookup item.1 = some item.2

/-- Exactly one row has the event id of the record, and it was written for it. -/
def HoldsOnce (rows : List OfflineRow) (record : StreamEventRecord) : Prop :=
  ∃ row, rows.filter (fun row => decide (row.eventId = some record.eventId)) = [row] ∧
    row.WrittenFor record.payload

/-- The attempt has seen the event id in the target. -/
def AppendHistory.Saw (history : AppendHistory) (k : Nat) (id : String) : Prop :=
  ∃ rows, (k, rows) ∈ history.sightings ∧ id ∈ eventIds rows

/-- Nothing observed is forgotten. -/
structure AppendHistory.Extends (history' history : AppendHistory) : Prop where
  sightings : ∀ sighting ∈ history.sightings, sighting ∈ history'.sightings
  successes : ∀ success ∈ history.successes, success ∈ history'.successes

/-- Where a record stands between the ledger, its job, its staging table and the target. -/
inductive HandOff (w : Warehouse) (history : AppendHistory) (record : StreamEventRecord) :
    Prop
  | pending (state : record.state = .pending) (unlinked : record.jobId = none)
  | staged {job : JobRecord} {stagingUri : StagingUri} {table : DeltaTable}
      (state : record.state = .staged) (linked : record.jobId = some job.id)
      (stored : w.db.jobs.find? job.id = some job) (awaiting : job.Awaiting)
      (payload : job.payload = .offlineAppend record.featureView stagingUri)
      (kept : w.staging stagingUri = some table)
      (once : HoldsOnce table.rows record)
  | applied {job : JobRecord} {k : Nat}
      (state : record.state = .applied) (linked : record.jobId = some job.id)
      (stored : w.db.jobs.find? job.id = some job)
      (append : job.kind = .offlineAppend) (succeeded : job.status = .succeeded)
      (success : (job.id, k) ∈ history.successes) (saw : history.Saw k record.eventId)

/-- The staged records of the job have their event ids among those described. -/
def CoversStaged (db : Database) (jobId : Uuid) (described : String → Prop) : Prop :=
  ∀ record ∈ db.streamEvents.rows, record.state = .staged → record.jobId = some jobId →
    described record.eventId

/-- What an attempt has in hand covers the staged records of its job, and from the
checkpoint on it has seen them all in the target. -/
def StageCovers (db : Database) (history : AppendHistory) (k : Nat) (jobId : Uuid) :
    AppendStage → Prop
  | .loadingTarget staged => CoversStaged db jobId (· ∈ eventIds staged)
  | .confirmingOwnership comparison | .appending comparison =>
      CoversStaged db jobId (· ∈ eventIds comparison.staged) ∧
        (k, OfflineStore.load comparison.target) ∈ history.sightings
  | .checkpointing _ | .finalizing _ => CoversStaged db jobId (history.Saw k)
  | .cleaning => ∃ row, db.jobs.find? jobId = some row ∧ row.status = .succeeded
  | .starting | .requiringOwnership | .loadingStaging | .failing _ | .ended => True

/-- An attempt works on a copy of a stored append job. -/
structure AttemptCovers (db : Database) (history : AppendHistory) (k : Nat) (a : Attempt) :
    Prop where
  copy : a.job.SnapshotIn db
  append : a.job.kind = .offlineAppend
  stage : StageCovers db history k a.job.id a.stage

/-- A stored append job with its staging location. -/
def AppendsFrom (db : Database) (jobId : Uuid) (stagingUri : StagingUri) : Prop :=
  ∃ job viewRef, db.jobs.find? jobId = some job ∧ job.kind = .offlineAppend ∧
    job.payload = .offlineAppend viewRef stagingUri

/-- The staging location belongs to no job. -/
def Unclaimed (db : Database) (stagingUri : StagingUri) : Prop :=
  ∀ jobId, ¬ AppendsFrom db jobId stagingUri

/-- The invariant of the hand-off. The last three fields say that each staging location
is written for one job, under an id that has been drawn. -/
structure BackendSound (b : AppendBackend) (drawn : List Uuid) : Prop where
  records : ∀ record ∈ b.warehouse.db.streamEvents.rows,
    HandOff b.warehouse b.history record
  identities : ∀ record ∈ b.warehouse.db.streamEvents.rows,
    record.identity = record.payload.identity
  attempts : ∀ {k a}, b.attempts[k]? = some a → AttemptCovers b.warehouse.db b.history k a
  unique : ∀ {jobId jobId' stagingUri}, AppendsFrom b.warehouse.db jobId stagingUri →
    AppendsFrom b.warehouse.db jobId' stagingUri → jobId = jobId'
  appendsDrawn : ∀ {jobId stagingUri}, AppendsFrom b.warehouse.db jobId stagingUri →
    stagingUri.batch ∈ drawn
  stagingDrawn : ∀ {stagingUri}, (b.warehouse.staging stagingUri).isSome = true →
    stagingUri.batch ∈ drawn

theorem BackendSound.unlinked {b : AppendBackend} {drawn : List Uuid}
    (h : BackendSound b drawn) : PendingUnlinked b.warehouse.db := by
  intro record hrecord hpending
  cases h.records record hrecord with
  | pending _ unlinked => exact unlinked
  | staged state => cases hpending.symm.trans state
  | applied state => cases hpending.symm.trans state

theorem HoldsOnce.mem {rows : List OfflineRow} {record : StreamEventRecord}
    (h : HoldsOnce rows record) : record.eventId ∈ eventIds rows := by
  obtain ⟨row, hfilter, _⟩ := h
  have hrow : row ∈ rows.filter fun row => decide (row.eventId = some record.eventId) := by
    rw [hfilter]
    exact List.mem_singleton_self row
  obtain ⟨hmem, hid⟩ := List.mem_filter.mp hrow
  have htext : row.idText = record.eventId := by
    rw [OfflineRow.idText, of_decide_eq_true hid]
    rfl
  exact htext ▸ idText_mem_eventIds hmem

theorem AppendHistory.Extends.refl (history : AppendHistory) : history.Extends history :=
  ⟨fun _ h => h, fun _ h => h⟩

theorem AppendHistory.Saw.mono {history history' : AppendHistory} {k : Nat} {id : String}
    (h : history.Saw k id) (hextends : history'.Extends history) : history'.Saw k id := by
  obtain ⟨rows, hrows, hid⟩ := h
  exact ⟨rows, hextends.sightings _ hrows, hid⟩

theorem CoversStaged.mono {db : Database} {jobId : Uuid} {described described' : String → Prop}
    (h : CoversStaged db jobId described) (hdescribed : ∀ id, described id → described' id) :
    CoversStaged db jobId described' :=
  fun record hrecord hstaged hlinked =>
    hdescribed record.eventId (h record hrecord hstaged hlinked)

theorem AttemptCovers.mono {db : Database} {history history' : AppendHistory} {k : Nat}
    {a : Attempt} (h : AttemptCovers db history k a) (hextends : history'.Extends history) :
    AttemptCovers db history' k a := by
  refine ⟨h.copy, h.append, ?_⟩
  have hstage := h.stage
  cases hcase : a.stage with
  | confirmingOwnership comparison | appending comparison =>
      rw [hcase] at hstage
      exact ⟨hstage.1, hextends.sightings _ hstage.2⟩
  | checkpointing comparison | finalizing comparison =>
      rw [hcase] at hstage
      have hsaw : CoversStaged db a.job.id (history.Saw k) := hstage
      exact hsaw.mono fun _ hid => hid.mono hextends
  | loadingTarget staged | cleaning =>
      rw [hcase] at hstage
      exact hstage
  | starting | requiringOwnership | loadingStaging | failing exc | ended => trivial

section Transactions

variable {config : Config} {b : AppendBackend} {db' : Database} {call : Call}
  {drawn : List Uuid}

/-- What a transaction makes of a record that it leaves as it is. -/
theorem HandOff.kept {w w' : Warehouse} {history history' : AppendHistory}
    {record : StreamEventRecord} (h : HandOff w history record)
    (hcommit : Commit config w.db call w'.db) (hcopy : ∀ job ∈ call.job?, job.SnapshotIn w.db)
    (hrecord : record ∈ w'.db.streamEvents.rows) (hstaging : w'.staging = w.staging)
    (hextends : history'.Extends history) : HandOff w' history' record := by
  cases h with
  | pending state unlinked => exact .pending state unlinked
  | staged state linked stored awaiting payload kept once =>
      obtain ⟨job', linked', stored', awaiting', payload'⟩ :=
        hcommit.awaiting_of_staged hcopy hrecord state linked stored awaiting
      exact .staged state linked' stored' awaiting' (payload'.trans payload)
        ((congrFun hstaging _).trans kept) once
  | applied state linked stored append succeeded success saw =>
      obtain ⟨row, hrow, hstatus⟩ := hcommit.succeeded_kept stored succeeded
      obtain ⟨row', hrow', hkind, _⟩ := hcommit.job_kept stored
      cases hrow.symm.trans hrow'
      have hid := Table.key_of_find? hrow
      exact .applied state (hid ▸ linked) (hid ▸ hrow) (hkind.trans append) hstatus
        (hid ▸ hextends.successes _ success) (saw.mono hextends)

theorem AppendsFrom.origin {db : Database} (hcommit : Commit config db call db')
    (houtside : call.isIngestion = false) {jobId : Uuid} {stagingUri : StagingUri}
    (h : AppendsFrom db' jobId stagingUri) : AppendsFrom db jobId stagingUri := by
  obtain ⟨job, viewRef, hjob, hkind, hpayload⟩ := h
  obtain ⟨row, hrow, hrowKind, hrowPayload⟩ := hcommit.append_origin houtside hjob hkind
  exact ⟨row, viewRef, hrow, hrowKind, hrowPayload.trans hpayload⟩

/-- A record that a transaction outside the consumer leaves staged was staged before. -/
theorem Commit.staged_before (hcommit : Commit config b.warehouse.db call db')
    (houtside : call.isIngestion = false)
    {record : StreamEventRecord} (hrecord : record ∈ db'.streamEvents.rows)
    (hstaged : record.state = .staged) : record ∈ b.warehouse.db.streamEvents.rows := by
  rcases hcommit.appliesAtMost houtside with hsame | ⟨jobId, now, happlied⟩
  · exact hsame ▸ hrecord
  · rw [happlied, Table.update_rows] at hrecord
    obtain ⟨before, hbefore, rfl⟩ := List.mem_map.mp hrecord
    split at hstaged
    · cases hstaged
    · rename_i hguard
      rw [if_neg hguard]
      exact hbefore

/-- A transaction that stages nothing for the job keeps what its attempts have in hand. -/
theorem StageCovers.kept {db : Database} {stage : AppendStage} {history : AppendHistory}
    {k : Nat} {jobId : Uuid} (h : StageCovers db history k jobId stage)
    (hcommit : Commit config db call db')
    (hbefore : ∀ record ∈ db'.streamEvents.rows, record.state = .staged →
      record.jobId = some jobId → record ∈ db.streamEvents.rows) :
    StageCovers db' history k jobId stage := by
  have hcovers : ∀ {described}, CoversStaged db jobId described →
      CoversStaged db' jobId described :=
    fun hids record hrecord hstaged hlinked =>
      hids record (hbefore record hrecord hstaged hlinked) hstaged hlinked
  cases stage with
  | loadingTarget staged | checkpointing comparison | finalizing comparison =>
      exact hcovers h
  | confirmingOwnership comparison | appending comparison => exact ⟨hcovers h.1, h.2⟩
  | cleaning =>
      obtain ⟨row, hrow, hstatus⟩ := h
      exact hcommit.succeeded_kept hrow hstatus
  | starting | requiringOwnership | loadingStaging | failing exc | ended => trivial

theorem AttemptCovers.kept {db : Database} {history : AppendHistory} {k : Nat} {a : Attempt}
    (h : AttemptCovers db history k a) (hcommit : Commit config db call db')
    (hbefore : ∀ record ∈ db'.streamEvents.rows, record.state = .staged →
      record.jobId = some a.job.id → record ∈ db.streamEvents.rows) :
    AttemptCovers db' history k a := by
  obtain ⟨row, hrow, hkind, hpayload⟩ := h.copy
  obtain ⟨row', hrow', hkind', hpayload'⟩ := hcommit.job_kept hrow
  exact ⟨⟨row', hrow', hkind'.trans hkind, hpayload'.trans hpayload⟩, h.append,
    h.stage.kept hcommit hbefore⟩

/-- A transaction outside the consumer keeps the hand-off, if it does so for the records
that it applies; `attempts` are those that go on after it. -/
theorem BackendSound.transaction (h : BackendSound b drawn)
    (hcommit : Commit config b.warehouse.db call db')
    (hcopy : ∀ job ∈ call.job?, job.SnapshotIn b.warehouse.db)
    (houtside : call.isIngestion = false)
    {history : AppendHistory} (hextends : history.Extends b.history)
    (happlied : ∀ job token now resultUri resultMetadata,
      call = .finalizeSuccess job token now resultUri resultMetadata →
      job.kind = .offlineAppend →
      db'.streamEvents = b.warehouse.db.streamEvents.update (appliedGuard job.id)
        (setApplied now) →
      ∀ record ∈ b.warehouse.db.streamEvents.rows, appliedGuard job.id record = true →
        HandOff { b.warehouse with db := db' } history ((setApplied now).set record))
    {attempts : List Attempt}
    (hattempts : ∀ {k a}, attempts[k]? = some a →
      b.attempts[k]? = some a ∨ AttemptCovers db' history k a) :
    BackendSound ⟨{ b.warehouse with db := db' }, attempts, history⟩ drawn := by
  have hbefore : ∀ record ∈ db'.streamEvents.rows, record.state = .staged →
      record ∈ b.warehouse.db.streamEvents.rows :=
    fun record hrecord hstaged => hcommit.staged_before houtside hrecord hstaged
  have hkept : ∀ record ∈ b.warehouse.db.streamEvents.rows, record ∈ db'.streamEvents.rows →
      HandOff { b.warehouse with db := db' } history record :=
    fun record hold hrecord =>
      (h.records record hold).kept hcommit hcopy hrecord rfl hextends
  refine ⟨?_, ?_, ?_, ?_, ?_, h.stagingDrawn⟩
  · intro record hrecord
    change record ∈ db'.streamEvents.rows at hrecord
    rcases hcommit.events_cases houtside with
      hsame | ⟨job, token, now, resultUri, resultMetadata, hcall, hkind, hupdate⟩
    · exact hkept record (hsame ▸ hrecord) hrecord
    · have hmem := hrecord
      rw [hupdate, Table.update_rows] at hmem
      obtain ⟨before, hbefore', rfl⟩ := List.mem_map.mp hmem
      by_cases hguard : appliedGuard job.id before = true
      · rw [if_pos hguard]
        exact happlied job token now resultUri resultMetadata hcall hkind hupdate before
          hbefore' hguard
      · rw [if_neg hguard] at hrecord ⊢
        exact hkept before hbefore' hrecord
  · intro record hrecord
    change record ∈ db'.streamEvents.rows at hrecord
    rcases hcommit.appliesAtMost houtside with hsame | ⟨jobId, now, hupdate⟩
    · exact h.identities record (hsame ▸ hrecord)
    · rw [hupdate, Table.update_rows] at hrecord
      obtain ⟨before, hbefore', rfl⟩ := List.mem_map.mp hrecord
      split
      · exact h.identities before hbefore'
      · exact h.identities before hbefore'
  · intro k a ha
    rcases hattempts ha with hold | hnew
    · have hcovers := (h.attempts hold).kept hcommit
        fun record hrecord hstaged _ => hbefore record hrecord hstaged
      exact hcovers.mono hextends
    · exact hnew
  · intro jobId jobId' stagingUri happend happend'
    exact h.unique (happend.origin hcommit houtside) (happend'.origin hcommit houtside)
  · intro jobId stagingUri happend
    exact h.appendsDrawn (happend.origin hcommit houtside)

end Transactions

/-- A finalization that returns has made the job succeed. -/
theorem finalizeSuccess_succeeded {settings : Settings} {db db' : Database}
    {job job' : JobRecord} {token : Uuid} {now : Instant} {resultUri : Option String}
    {resultMetadata : Option ResultMetadata}
    (h : finalizeSuccess settings db job token now resultUri resultMetadata =
      (db', .ok job')) : job'.status = .succeeded := by
  have hstored := finalizeSuccess_stored h
  unfold finalizeSuccess at h
  rcases lease_cases db.jobs job.id token now with
    ⟨row, hrow, _, hcount, hupdate⟩ | ⟨hcount, _⟩
  · have hset : ∀ a, (db.jobs.modify job.id a).find? job.id = some (a.set row) := by
      intro a
      rw [Table.find?_modify_self, hrow, Option.map_some]
    rw [if_neg hcount, hupdate] at h
    dsimp only at h
    split at h
    · split at h
      · cases h
      · obtain ⟨rfl, _⟩ := Prod.mk.inj h
        cases hstored.symm.trans (hset _)
        rfl
    · obtain ⟨rfl, _⟩ := Prod.mk.inj h
      split at hstored
      · rw [markStreamEventsApplied_jobs] at hstored
        cases hstored.symm.trans (hset _)
        rfl
      · cases hstored.symm.trans (hset _)
        rfl
  · rw [if_pos hcount] at h
    cases h

theorem offlineAppend?_eq_some {payload : JobPayload} {viewRef : String}
    {stagingUri : StagingUri} (h : payload.offlineAppend? = some (viewRef, stagingUri)) :
    payload = .offlineAppend viewRef stagingUri := by
  cases payload with
  | offlineAppend =>
      cases h
      rfl
  | range | incremental | historicalQuery => cases h

section Attempts

variable {config : Config} {canonicalRow : OfflineRow → String} {b b' : AppendBackend}
  {drawn drawn' : List Uuid} {a a' : Attempt} {k : Nat} {now : Instant}

/-- The staging location of an append job that is still to succeed. -/
def Waits (db : Database) (stagingUri : StagingUri) : Prop :=
  ∃ job viewRef, db.jobs.find? job.id = some job ∧ job.Awaiting ∧
    job.payload = .offlineAppend viewRef stagingUri

/-- Writes outside the database keep the hand-off, unless they touch a staging table
that a job waits for. -/
theorem BackendSound.of_same_db (h : BackendSound b drawn)
    (hdb : b'.warehouse.db = b.warehouse.db)
    (hstaging : ∀ stagingUri, Waits b.warehouse.db stagingUri →
      b'.warehouse.staging stagingUri = b.warehouse.staging stagingUri)
    (hdrawn : ∀ id ∈ drawn, id ∈ drawn')
    (hwritten : ∀ stagingUri, (b'.warehouse.staging stagingUri).isSome = true →
      (b.warehouse.staging stagingUri).isSome = true ∨ stagingUri.batch ∈ drawn')
    (hextends : b'.history.Extends b.history)
    (hattempts : ∀ {k a}, b'.attempts[k]? = some a →
      b.attempts[k]? = some a ∨ AttemptCovers b.warehouse.db b'.history k a) :
    BackendSound b' drawn' := by
  refine ⟨?_, ?_, ?_, ?_, ?_, ?_⟩
  · intro record hrecord
    rw [hdb] at hrecord
    cases h.records record hrecord with
    | pending state unlinked => exact .pending state unlinked
    | staged state linked stored awaiting payload kept once =>
        refine .staged state linked (hdb ▸ stored) awaiting payload ?_ once
        rw [hstaging _ ⟨_, _, stored, awaiting, payload⟩, kept]
    | applied state linked stored append succeeded success saw =>
        exact .applied state linked (hdb ▸ stored) append succeeded
          (hextends.successes _ success) (saw.mono hextends)
  · rw [hdb]
    exact h.identities
  · intro k a ha
    rw [hdb]
    exact (hattempts ha).elim (fun hold => (h.attempts hold).mono hextends) id
  · rw [hdb]
    exact h.unique
  · rw [hdb]
    exact fun happend => hdrawn _ (h.appendsDrawn happend)
  · intro stagingUri hsome
    exact (hwritten stagingUri hsome).elim (fun hold => hdrawn _ (h.stagingDrawn hold)) id

theorem getElem?_set_or {attempts : List Attempt} {i : Nat} {x : Attempt}
    (hx : (attempts.set k a')[i]? = some x) : attempts[i]? = some x ∨ i = k ∧ x = a' := by
  by_cases hi : k = i
  · subst hi
    rw [List.getElem?_set_self'] at hx
    obtain ⟨_, _, rfl⟩ := Option.map_eq_some_iff.mp hx
    exact Or.inr ⟨rfl, rfl⟩
  · rw [List.getElem?_set_ne hi] at hx
    exact Or.inl hx

/-- What an attempt finds at its staging location covers the staged records of its job. -/
theorem BackendSound.covers_of_load (h : BackendSound b drawn)
    (hcopy : a.job.SnapshotIn b.warehouse.db) {viewRef : String} {stagingUri : StagingUri}
    {table : DeltaTable} (hpayload : a.job.payload.offlineAppend? = some (viewRef, stagingUri))
    (hfound : b.warehouse.staging stagingUri = some table) :
    CoversStaged b.warehouse.db a.job.id (· ∈ eventIds table.rows) := by
  intro record hrecord hstaged hlinked
  obtain ⟨row, hrow, _, hrowPayload⟩ := hcopy
  cases h.records record hrecord with
  | pending state => cases hstaged.symm.trans state
  | applied state => cases hstaged.symm.trans state
  | staged _ linked stored _ payload kept once =>
      have hid := Option.some.inj (linked.symm.trans hlinked)
      rw [hid] at stored
      cases stored.symm.trans hrow
      have hsame := payload.symm.trans (hrowPayload.trans (offlineAppend?_eq_some hpayload))
      cases hsame
      cases kept.symm.trans hfound
      exact once.mem

theorem AttemptCovers.goto {db : Database} {history history' : AppendHistory}
    (h : AttemptCovers db history k a) {stage : AppendStage}
    (hstage : StageCovers db history' k a.job.id stage) :
    AttemptCovers db history' k (a.goto stage) :=
  ⟨h.copy, h.append, hstage⟩

theorem AttemptCovers.raise {db : Database} {history : AppendHistory}
    (h : AttemptCovers db history k a) (exc : PyException) :
    AttemptCovers db history k (a.raise exc) := by
  obtain ⟨hjob, hstage⟩ := a.raise_cases exc
  refine ⟨hjob ▸ h.copy, hjob ▸ h.append, ?_⟩
  rcases hstage with hstage | hstage <;> rw [hstage] <;> trivial

/-- A transaction of an attempt: the copy that it returns is the committed row. -/
theorem AttemptCovers.refreshed {db db' : Database} {history : AppendHistory} {call : Call}
    (h : AttemptCovers db history k a) (hcommit : Commit config db call db') {job : JobRecord}
    (hstored : db'.jobs.find? a.job.id = some job) {stage : AppendStage}
    (hstage : StageCovers db' history k a.job.id stage) :
    AttemptCovers db' history k ⟨job, a.token, stage⟩ := by
  obtain ⟨row, hrow, hkind, _⟩ := h.copy
  obtain ⟨row', hrow', hkind', _⟩ := hcommit.job_kept hrow
  cases hstored.symm.trans hrow'
  have hid := Table.key_of_find? hstored
  refine ⟨⟨job, by rw [hid]; exact hstored, rfl, rfl⟩,
    (hkind'.trans hkind).trans h.append, ?_⟩
  change StageCovers db' history k job.id stage
  rw [hid]
  exact hstage

/-- The observations of a statement extend those before it. -/
theorem AppendHistory.after_extends (history : AppendHistory) (w w' : Warehouse) :
    (history.after config w w' k a now).Extends history := by
  constructor
  · intro sighting hsighting
    exact List.mem_append_right _ hsighting
  · intro success hsuccess
    unfold AppendHistory.after
    dsimp only
    split
    · exact List.mem_cons_of_mem _ hsuccess
    · exact hsuccess

theorem AppendHistory.after_sighting {history : AppendHistory} {w w' : Warehouse}
    {viewRef : String} {stagingUri : StagingUri} (hstage : a.stage.isAtTarget = true)
    (hpayload : a.job.payload.offlineAppend? = some (viewRef, stagingUri)) :
    (k, OfflineStore.load (w'.views viewRef)) ∈
      (history.after config w w' k a now).sightings := by
  apply List.mem_append_left
  simp [Attempt.sighting?, hstage, hpayload]

/-- After the comparison, or the append that follows it, the attempt has seen every
staged id in the target. -/
theorem Comparison.saw {comparison : Comparison} {history : AppendHistory}
    (htarget : (k, OfflineStore.load comparison.target) ∈ history.sightings)
    (hunseen : ∀ id ∈ eventIds comparison.unseen, history.Saw k id) {id : String}
    (hid : id ∈ eventIds comparison.staged) : history.Saw k id := by
  rcases comparison.spec.complete id hid with hold | hnew
  · exact ⟨_, htarget, hold⟩
  · exact hunseen id hnew

/-- A statement of an attempt keeps the hand-off, with what it has seen recorded. -/
theorem BackendSound.statement (h : BackendSound b drawn) (ha : b.attempts[k]? = some a)
    {w' : Warehouse} (hstatement : Statement config canonicalRow b.warehouse a now w' a') :
    BackendSound ⟨w', b.attempts.set k a', b.history.after config b.warehouse w' k a now⟩
      drawn := by
  have hcovers := h.attempts ha
  have hcopy : ∀ job, some a.job = some job → job.SnapshotIn b.warehouse.db := by
    rintro job hjob
    cases hjob
    exact hcovers.copy
  have hset : ∀ {db : Database} {history : AppendHistory}, AttemptCovers db history k a' →
      ∀ {i x}, (b.attempts.set k a')[i]? = some x →
        b.attempts[i]? = some x ∨ AttemptCovers db history i x := by
    intro db history ha' i x hx
    refine (getElem?_set_or hx).imp_right ?_
    rintro ⟨rfl, rfl⟩
    exact ha'
  have hextends : ∀ w', (b.history.after config b.warehouse w' k a now).Extends b.history :=
    fun w' => AppendHistory.after_extends b.history b.warehouse w'
  have hread : ∀ stage,
      a' = a.goto stage →
      StageCovers b.warehouse.db (b.history.after config b.warehouse b.warehouse k a now) k
        a.job.id stage →
      BackendSound ⟨b.warehouse, b.attempts.set k a',
        b.history.after config b.warehouse b.warehouse k a now⟩ drawn := by
    rintro stage rfl hstage
    exact h.of_same_db rfl (fun _ _ => rfl) (fun _ hid => hid) (fun _ hsome => Or.inl hsome)
      (hextends _) (hset (hcovers.goto hstage))
  have hstage := hcovers.stage
  cases hstatement with
  | stopped stage stopped =>
      refine hread stage rfl ?_
      rcases stopped with rfl | ⟨exc, rfl⟩ <;> trivial
  | checked stage => exact hread _ rfl trivial
  | required stage => exact hread _ rfl trivial
  | loadedStaging stage payload found =>
      exact hread _ rfl (h.covers_of_load hcovers.copy payload found)
  | compared comparison stage payload target selected =>
      rw [stage] at hstage
      have hcovered : CoversStaged b.warehouse.db a.job.id (· ∈ eventIds comparison.staged) :=
        hstage
      have hsighting : (k, OfflineStore.load comparison.target) ∈
          (b.history.after config b.warehouse b.warehouse k a now).sightings := by
        rw [target]
        exact AppendHistory.after_sighting (by rw [stage]; rfl) payload
      refine hread _ rfl ?_
      split
      · rename_i hnone
        refine hcovered.mono fun id hid => comparison.saw hsighting ?_ hid
        rw [hnone]
        simp
      · exact ⟨hcovered, hsighting⟩
  | confirmed stage owned =>
      rw [stage] at hstage
      exact hread _ rfl ⟨hstage.1, (hextends _).sightings _ hstage.2⟩
  | @appended viewRef stagingUri comparison stage payload =>
      rw [stage] at hstage
      refine h.of_same_db rfl (fun _ _ => rfl) (fun _ hid => hid) (fun _ hsome => Or.inl hsome)
        (hextends _) (hset (hcovers.goto (hstage.1.mono fun id hid => ?_)))
      refine comparison.saw ((hextends _).sightings _ hstage.2) ?_ hid
      intro id hnew
      refine ⟨_, AppendHistory.after_sighting (by rw [stage]; rfl) payload, ?_⟩
      simp [hnew]
  | @checkpointed comparison checkpoints job db stage commit =>
      rw [stage] at hstage
      have hcommit := Call.commit config b.warehouse.db
        (.commitCheckpoints a.job a.token now checkpoints)
      rw [Call.apply, commit] at hcommit
      refine h.transaction hcommit hcopy rfl (hextends _) (by simp)
        (hset (hcovers.mono (hextends _) |>.refreshed hcommit
          (commitCheckpoints_stored commit) ?_))
      have hfinalizing : StageCovers b.warehouse.db b.history k a.job.id
        (.finalizing comparison) := hstage
      have hkept := hfinalizing.kept hcommit fun record hrecord hstaged _ =>
        hcommit.staged_before rfl hrecord hstaged
      have hsaw : CoversStaged db a.job.id (b.history.Saw k) := hkept
      exact hsaw.mono fun _ hid => hid.mono (hextends _)
  | @finalized comparison job db stage commit =>
      rw [stage] at hstage
      have hcommit := Call.commit config b.warehouse.db
        (.finalizeSuccess a.job a.token now none none)
      rw [Call.apply, commit] at hcommit
      have hstored := finalizeSuccess_stored commit
      have hstatus := finalizeSuccess_succeeded commit
      have hid := Table.key_of_find? hstored
      have hrefreshed := (hcovers.mono (hextends { b.warehouse with db := db })).refreshed
        hcommit hstored (show StageCovers db _ k a.job.id .cleaning from
          ⟨job, hstored, hstatus⟩)
      have hsuccess : (a.job.id, k) ∈ (b.history.after config b.warehouse
          { b.warehouse with db := db } k a now).successes := by
        have hsucceeds : a.succeeds config b.warehouse.db now = true := by
          simp only [Attempt.succeeds, stage, commit]
          rfl
        rw [AppendHistory.after, if_pos hsucceeds]
        exact List.mem_cons_self
      refine h.transaction hcommit hcopy rfl (hextends _) ?_ (hset hrefreshed)
      intro job' token now' resultUri resultMetadata hcall _ _ record hrecord hguard
      cases hcall
      obtain ⟨hlinked, hstaged⟩ := appliedGuard_iff.mp hguard
      have hsaw : b.history.Saw k record.eventId := hstage record hrecord hstaged hlinked
      exact .applied rfl (hid.symm ▸ hlinked) (by rw [hid]; exact hstored) hrefreshed.append
        hstatus (hid.symm ▸ hsuccess) (hsaw.mono (hextends _))
  | @cleaned viewRef stagingUri stage payload =>
      rw [stage] at hstage
      obtain ⟨row, hrow, hstatus⟩ := hstage
      obtain ⟨row', hrow', hkind, hpayload⟩ := hcovers.copy
      cases hrow.symm.trans hrow'
      have hown : AppendsFrom b.warehouse.db a.job.id stagingUri :=
        ⟨row, viewRef, hrow, hkind.trans hcovers.append,
          hpayload.trans (offlineAppend?_eq_some payload)⟩
      refine h.of_same_db rfl ?_ (fun _ hid => hid) ?_ (hextends _)
        (hset (hcovers.goto trivial))
      · -- The job that waits for this location would be the one that has succeeded.
        rintro other ⟨job, otherView, hstored, hwaiting, hother⟩
        refine Function.update_of_ne ?_ _ _
        rintro rfl
        have hid := h.unique ⟨job, otherView, hstored, hwaiting.append, hother⟩ hown
        rw [hid] at hstored
        cases hstored.symm.trans hrow
        exact hwaiting.unsucceeded hstatus
      · intro other hsome
        by_cases hother : other = stagingUri
        · subst hother
          simp only [Function.update_self] at hsome
          cases hsome
        · exact Or.inl (by simpa only [Function.update_of_ne hother] using hsome)
  | @failed exc stage =>
      have hcommit := Call.commit config b.warehouse.db
        (.finalizeFailure a.job a.token now exc exc.message none)
      have hkept := hcovers.kept hcommit fun record hrecord hstaged _ =>
        hcommit.staged_before rfl hrecord hstaged
      exact h.transaction hcommit hcopy rfl (hextends _) (by simp)
        (hset ⟨hkept.copy, hcovers.append, trivial⟩)

/-- A statement commits at most one transaction. -/
theorem Statement.commit {w w' : Warehouse} (h : Statement config canonicalRow w a now w' a') :
    ∃ call : Call, call.isIngestion = false ∧ Commit config w.db call w'.db := by
  cases h with
  | stopped | checked | required | loadedStaging | compared | confirmed | appended | cleaned =>
      exact ⟨.cancel a.job.id now, rfl, .unchanged _⟩
  | @checkpointed comparison checkpoints job db stage commit =>
      have hcommit := Call.commit config w.db (.commitCheckpoints a.job a.token now checkpoints)
      rw [Call.apply, commit] at hcommit
      exact ⟨_, rfl, hcommit⟩
  | @finalized comparison job db stage commit =>
      have hcommit := Call.commit config w.db (.finalizeSuccess a.job a.token now none none)
      rw [Call.apply, commit] at hcommit
      exact ⟨_, rfl, hcommit⟩
  | @failed exc stage =>
      exact ⟨_, rfl, Call.commit config w.db
        (.finalizeFailure a.job a.token now exc exc.message none)⟩

/-- An attempt deletes the staging table of its own job only. -/
theorem Statement.unclaimed_staging {w w' : Warehouse} (hcopy : a.job.SnapshotIn w.db)
    (happend : a.job.kind = .offlineAppend)
    (h : Statement config canonicalRow w a now w' a') {stagingUri : StagingUri}
    (hunclaimed : Unclaimed w.db stagingUri) :
    w'.staging stagingUri = w.staging stagingUri := by
  cases h with
  | stopped | checked | required | loadedStaging | compared | confirmed | appended
  | checkpointed | finalized | failed => rfl
  | @cleaned viewRef own stage payload =>
      refine Function.update_of_ne ?_ _ _
      rintro rfl
      obtain ⟨row, hrow, hkind, hpayload⟩ := hcopy
      exact hunclaimed a.job.id ⟨row, viewRef, hrow, hkind.trans happend,
        hpayload.trans (offlineAppend?_eq_some payload)⟩

end Attempts

end FeatureStore
