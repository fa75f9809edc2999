import FeatureStore.IngestionHandOff
import FeatureStore.StreamInvariant

/-!
# The effects of the consumer's operations

Each operation of the consumer against its invariant. Most leave the position and the
buffers alone; the others are the poll, the commit of an offset, the two writes of a
staged batch and the updates of the buffers, with the conditions that each needs.
-/

namespace FeatureStore

open Relational

variable {d : StreamDeployment} {w w' : StreamWorld} {current : Option Message}
  {unwritten : Option StreamFeatureEvent} {message : Message}

theorem message?_some {broker : Broker} {source : TopicPartition} {offset : Nat}
    (h : broker.message? source offset = some message) :
    message.source = source ∧ message.offset = offset := by
  obtain ⟨entry, _, rfl⟩ := Option.map_eq_some_iff.mp h
  exact ⟨rfl, rfl⟩

section QuietOperations

/-- The operations that leave the position, the buffers, the committed offsets and the
staging area alone. -/
def StreamOp.isQuiet : StreamOp → Bool
  | .now | .external | .subscribe _ | .close | .produce _ | .registry | .pending
  | .register _ _ | .upsert _ | .drawUuid | .memory | .touch _ | .noteServed _
  | .noteFailed _ => true
  | .poll | .commit _ _ | .writeStaging _ _ | .stageBatch _ _ _ | .buffer _ _ _
  | .clearBuffer _ => false

/-- A step that leaves the backend and the committed offsets alone is quiet. -/
theorem Core.quiet (h : Core d w) (hgrows : Grows w w') (hbackend : w'.backend = w.backend)
    (hcommitted : w'.broker.committed = w.broker.committed)
    (hposition : w'.process.position = w.process.position)
    (hbuffers : w'.process.buffers = w.process.buffers)
    (hdrawn : ∀ id ∈ w.drawn, id ∈ w'.drawn) : Quiet d w w' := by
  have hdb : w'.db = w.db := congrArg (fun b => b.warehouse.db) hbackend
  refine ⟨⟨⟨?_, h.committed_grows hgrows hcommitted, ?_⟩, hgrows, hposition, hbuffers⟩,
    hdrawn, ?_⟩
  · rw [hbackend]
    exact h.backend.of_same_db rfl (fun _ _ => rfl) hdrawn (fun _ hsome => Or.inl hsome)
      (.refl _) Or.inl
  · rw [hdb]
    intro record hrecord hstate
    exact (h.online record hrecord hstate).imp (hgrows.served _) (hgrows.stagedUnserved _)
  · rw [hdb, hbackend]
    exact fun _ hunclaimed => ⟨hunclaimed, rfl⟩

/-- A registration is quiet. -/
theorem Core.register (h : Core d w) (event : StreamFeatureEvent) (topic : String)
    (partition offset : Nat) (id : Uuid) (now : Instant) :
    Quiet d w (w.setDb (FeatureStore.register d.config.fingerprint w.db event topic partition
      offset id now).1) := by
  have hcommit := Call.commit d.config w.db (.register event topic partition offset id now)
  rw [Call.apply] at hcommit
  have hgrows : Grows w (w.setDb (FeatureStore.register d.config.fingerprint w.db event topic
      partition offset id now).1) :=
    { Grows.refl w with ledger := hcommit.ledgerStep h.backend.unlinked }
  refine ⟨⟨⟨h.backend.registered event topic partition offset id now,
    h.committed_grows hgrows rfl, ?_⟩, hgrows, rfl, rfl⟩, fun _ hid => hid, ?_⟩
  · intro record hrecord hstate
    change record ∈ (FeatureStore.register _ _ _ _ _ _ _ _).1.streamEvents.rows at hrecord
    rcases register_cases d.config.fingerprint w.db event topic partition offset id now with
      hsame | ⟨streamEvents, hrows, hdb⟩
    · rw [hsame] at hrecord
      exact h.online record hrecord hstate
    · rw [hdb] at hrecord
      change record ∈ streamEvents.rows at hrecord
      rw [hrows] at hrecord
      rcases List.mem_append.mp hrecord with hold | hnew
      · exact h.online record hold hstate
      · rw [List.mem_singleton.mp hnew] at hstate
        exact absurd rfl hstate
  · intro stagingUri hunclaimed
    refine ⟨?_, rfl⟩
    change Unclaimed (FeatureStore.register _ _ _ _ _ _ _ _).1 stagingUri
    rcases register_cases d.config.fingerprint w.db event topic partition offset id now with
      hsame | ⟨streamEvents, _, hdb⟩
    · rw [hsame]
      exact hunclaimed
    · rw [hdb]
      exact hunclaimed

theorem Core.perform_quiet (h : Core d w) (choice : StreamChoice) {o : StreamOp}
    (ho : o.isQuiet = true) : Quiet d w (d.perform choice w o).1 := by
  have hsame : Quiet d w w := h.quiet (.refl w) rfl rfl rfl rfl fun _ hid => hid
  cases o with
  | now | external | registry | pending | memory => exact hsame
  | subscribe | close | touch =>
      exact h.quiet { Grows.refl w with } rfl rfl rfl rfl fun _ hid => hid
  | produce letter =>
      exact h.quiet
        { Grows.refl w with deadLetters := fun _ hletter => List.mem_cons_of_mem _ hletter }
        rfl rfl rfl rfl fun _ hid => hid
  | register event message =>
      exact h.register event message.topic message.partition message.offset choice.id choice.now
  | upsert event => exact h.quiet { Grows.refl w with } rfl rfl rfl rfl fun _ hid => hid
  | drawUuid =>
      exact h.quiet { Grows.refl w with } rfl rfl rfl rfl
        fun _ hid => List.mem_cons_of_mem _ hid
  | noteServed event =>
      exact h.quiet { Grows.refl w with served := fun _ hevent => List.mem_cons_of_mem _ hevent }
        rfl rfl rfl rfl fun _ hid => hid
  | noteFailed event =>
      exact h.quiet { Grows.refl w with failed := fun _ hid => List.mem_cons_of_mem _ hid }
        rfl rfl rfl rfl fun _ hid => hid
  | poll | commit | writeStaging | stageBatch | buffer | clearBuffer => cases ho

end QuietOperations

section Staging

/-- A drawn staging location that belongs to no job, with the rows written there. -/
structure Prepared (stagingUri : StagingUri) (content : Option (List OfflineRow))
    (w : StreamWorld) : Prop where
  drawn : stagingUri.batch ∈ w.drawn
  unclaimed : Unclaimed w.db stagingUri
  content : (w.backend.warehouse.staging stagingUri).map (·.rows) = content

theorem Prepared.quiet {stagingUri : StagingUri} {content : Option (List OfflineRow)}
    (h : Prepared stagingUri content w) (hquiet : Quiet d w w') :
    Prepared stagingUri content w' := by
  obtain ⟨hunclaimed, hstaging⟩ := hquiet.unclaimed stagingUri h.unclaimed
  exact ⟨hquiet.drawn _ h.drawn, hunclaimed, by rw [hstaging, h.content]⟩

theorem freshUuid_notMem (drawn : List Uuid) (id : Uuid) : freshUuid drawn id ∉ drawn := by
  have hbound : ∀ {ids : List Uuid} {x : Uuid}, x ∈ ids → x ≤ ids.foldr max 0 := by
    intro ids x hx
    induction ids with
    | nil => cases hx
    | cons head rest ih =>
        rw [List.foldr_cons]
        rcases List.mem_cons.mp hx with rfl | hrest
        · exact le_max_left _ _
        · exact le_trans (ih hrest) (le_max_right _ _)
  unfold freshUuid
  split
  · intro hmem
    exact Nat.not_succ_le_self _ (hbound hmem)
  · rename_i hfresh
    exact hfresh

/-- Nothing is at a location under a newly drawn id. -/
theorem Core.drawUuid (h : Core d w) {choice : StreamChoice} {id : Uuid}
    (hid : (d.perform choice w .drawUuid).2 = .ok id) (viewRef : String) :
    Prepared ⟨viewRef, id⟩ none (d.perform choice w .drawUuid).1 := by
  cases hid
  have hfresh := freshUuid_notMem w.drawn choice.id
  refine ⟨List.mem_cons_self, fun jobId happend => hfresh (h.backend.appendsDrawn happend), ?_⟩
  change (w.backend.warehouse.staging _).map _ = none
  rw [Option.map_eq_none_iff, ← Option.not_isSome_iff_eq_none]
  exact fun hsome => hfresh (h.backend.stagingDrawn hsome)

theorem Core.writeStaging (h : Core d w) {stagingUri : StagingUri}
    (hprepared : Prepared stagingUri none w) (rows : List OfflineRow) :
    Steady d w (w.writeStaging stagingUri rows) ∧
      Prepared stagingUri (some rows) (w.writeStaging stagingUri rows) := by
  have hgrows : Grows w (w.writeStaging stagingUri rows) := { Grows.refl w with }
  refine ⟨⟨⟨?_, h.committed_grows hgrows rfl, h.online⟩, hgrows, rfl, rfl⟩,
    hprepared.drawn, hprepared.unclaimed, ?_⟩
  · refine h.backend.of_same_db rfl ?_ (fun _ hid => hid) ?_ (.refl _) Or.inl
    · rintro other ⟨job, viewRef, hstored, hwaiting, hpayload⟩
      refine Function.update_of_ne ?_ _ _
      rintro rfl
      exact hprepared.unclaimed job.id ⟨job, viewRef, hstored, hwaiting.append, hpayload⟩
    · intro other hsome
      by_cases hother : other = stagingUri
      · exact Or.inr (hother ▸ hprepared.drawn)
      · refine Or.inl ?_
        change (Function.update w.backend.warehouse.staging stagingUri _ other).isSome = true
          at hsome
        rwa [Function.update_of_ne hother] at hsome
  · change (Function.update w.backend.warehouse.staging stagingUri _ stagingUri).map _ = _
    rw [Function.update_self, Option.map_some, OfflineStore.append_rows,
      Option.map_eq_none_iff.mp hprepared.content]
    rfl

/-- The record under a recorded id holds the recorded event. -/
theorem Recorded.payload {db : Database} {recordId : Uuid} {event : StreamFeatureEvent}
    (h : Recorded db recordId event) {record : StreamEventRecord}
    (hrecord : record ∈ db.streamEvents.rows) (hid : record.id = recordId) :
    record.payload = event := by
  obtain ⟨stored, hstored, hstoredId, rfl⟩ := h
  have hfind := Table.find?_of_mem hstored
  rw [hstoredId, ← hid, Table.find?_of_mem hrecord] at hfind
  cases hfind
  rfl

theorem Core.stage_grows (h : Core d w) (viewRef : String) (stagingUri : StagingUri)
    (items : List BufferedEvent) (jobId : Uuid) (now : Instant) :
    Grows w (w.stage d.config.settings viewRef stagingUri items jobId now).1 := by
  have hcommit := Call.commit d.config w.db
    (.stageBatch viewRef stagingUri (items.map (·.recordId)) jobId now)
  rw [Call.apply] at hcommit
  have hledger := hcommit.ledgerStep h.backend.unlinked
  unfold StreamWorld.stage
  split
  · rename_i db hstage
    rw [hstage] at hledger
    exact { Grows.refl w with
      ledger := hledger
      stagedUnserved := fun _ hold => List.mem_append_left _ hold }
  · rename_i db exc hstage
    rw [hstage] at hledger
    exact { Grows.refl w with ledger := hledger }

/-- The staging transaction of a view's buffer: afterwards the ledger knows all its
events as staged. -/
theorem Sound.stage (h : Sound d current none w) {stagingUri : StagingUri}
    {rows : List OfflineRow} (viewRef : String) (jobId : Uuid) (now : Instant)
    (hprepared : Prepared stagingUri (some rows) w)
    (hrows : List.Forall₂ (fun item row => OfflineRow.WrittenFor row item.event)
      (w.process.buffers.items viewRef) rows) :
    Steady d w (w.stage d.config.settings viewRef stagingUri (w.process.buffers.items viewRef)
        jobId now).1 ∧
      ((w.stage d.config.settings viewRef stagingUri (w.process.buffers.items viewRef)
        jobId now).2 = .ok () → ∀ item ∈ w.process.buffers.items viewRef,
        Settled (w.stage d.config.settings viewRef stagingUri
          (w.process.buffers.items viewRef) jobId now).1.db item.event.identity) := by
  generalize hitems : w.process.buffers.items viewRef = items at hrows ⊢
  have hsound : ∀ item ∈ items, ItemSound d w none viewRef item :=
    fun item hitem => h.buffers.items viewRef item (hitems ▸ hitem)
  have hdistinct : (items.map (·.event.eventId)).Nodup := hitems ▸ h.buffers.distinct viewRef
  have hgrows := h.core.stage_grows viewRef stagingUri items jobId now
  unfold StreamWorld.stage at hgrows ⊢
  cases hstage : stageBatch d.config.settings w.db viewRef stagingUri
      (items.map (·.recordId)) jobId now with
  | mk db result =>
      cases result with
      | error exc =>
          rw [stageBatch_error hstage]
          exact ⟨⟨h.core, .refl w, rfl, rfl⟩, nofun⟩
      | ok _ =>
          rw [hstage] at hgrows
          -- The records of the batch are those of the buffered events.
          have hbatch : ∀ record ∈ w.db.streamEvents.rows,
              record.id ∈ items.map (·.recordId) →
              ∃ item ∈ items, record.payload = item.event := by
            intro record hrecord hid
            obtain ⟨item, hitem, hitemId⟩ := List.mem_map.mp hid
            exact ⟨item, hitem, (hsound item hitem).recorded.payload hrecord hitemId.symm⟩
          obtain ⟨table, hfound, htable⟩ := Option.map_eq_some_iff.mp hprepared.content
          have hbackend := h.core.backend.staged hstage hprepared.unclaimed hprepared.drawn
            hfound (by
              intro record hrecord hid
              obtain ⟨item, hitem, hpayload⟩ := hbatch record hrecord hid
              have hidentity := h.core.backend.identities record hrecord
              obtain ⟨hview, heventId⟩ := Prod.mk.inj hidentity
              refine ⟨hview.trans (hpayload ▸ (hsound item hitem).view), ?_⟩
              rw [htable]
              refine holdsOnce_of_written (List.forall₂_map_left_iff.mpr hrows) ?_ ?_ heventId
              · rwa [List.map_map]
              · exact hpayload ▸ List.mem_map_of_mem hitem)
          refine ⟨⟨⟨hbackend, h.core.committed_grows hgrows rfl, ?_⟩, hgrows, rfl, rfl⟩, ?_⟩
          · intro record hrecord hstate
            obtain ⟨_, jobs, _, hdb⟩ := stageBatch_ok hstage
            change record ∈ db.streamEvents.rows at hrecord
            rw [hdb] at hrecord
            rcases mem_staged hrecord with ⟨before, hbefore, hid, _, rfl⟩ | hold
            · obtain ⟨item, hitem, hpayload⟩ := hbatch before hbefore hid
              have hidentity := h.core.backend.identities before hbefore
              rcases (hsound item hitem).online with hserved | hfailed | hnone
              · exact Or.inl (hpayload ▸ hserved)
              · refine Or.inr (List.mem_append_right _ (List.mem_filter.mpr ⟨?_, ?_⟩))
                · change before.identity ∈ _
                  rw [hidentity, hpayload]
                  exact List.mem_map_of_mem hitem
                · change decide (before.identity ∈ w.process.failed) = true
                  rw [hidentity, hpayload]
                  exact decide_eq_true hfailed
              · cases hnone
            · exact (h.core.online record hold hstate).imp_right (List.mem_append_left _)
          · intro _ item hitem
            obtain ⟨record, hrecord, hid, hstate⟩ :=
              stageBatch_staged hstage (List.mem_map_of_mem hitem)
            have hpayload := ((hsound item hitem).recorded.grows hgrows).payload hrecord hid
            refine ⟨record, hrecord, ?_, by simp [hstate]⟩
            rw [← hpayload]
            exact hbackend.identities record hrecord

end Staging

section Offsets

theorem commit_grows (w : StreamWorld) (message : Message) (rejected : Bool) :
    Grows w (w.commit message rejected) := by
  refine { Grows.refl w with rejected := fun other hother => ?_ }
  unfold StreamWorld.commit
  dsimp only
  split
  · exact List.mem_cons_of_mem _ hother
  · exact hother

/-- What the broker has handed out up to an offset is durable, if nothing is buffered
and the message at the offset is. -/
theorem Sound.commit (h : Sound d current unwritten w)
    (hempty : ∀ viewRef, w.process.buffers.items viewRef = []) (hpassed : Passed w message)
    {rejected : Bool} (houtcome : rejected = true ∨ Durable d w message) :
    Steady d w (w.commit message rejected) ∧ Durable d (w.commit message rejected) message := by
  have hgrows := commit_grows w message rejected
  have hdurable : Durable d (w.commit message rejected) message := by
    rcases houtcome with hrejected | hdurable
    · refine .rejected ?_
      unfold StreamWorld.commit
      rw [if_pos hrejected]
      exact List.mem_cons_self
    · exact hdurable.grows hgrows
  refine ⟨⟨⟨h.core.backend, ?_, h.core.online⟩, hgrows, rfl, rfl⟩, hdurable⟩
  intro source offset hoffset
  by_cases hsource : source = message.source
  · subst hsource
    have hle : offset ≤ message.offset := by
      have hlt : offset < message.offset + 1 := by
        simpa [StreamWorld.commit] using hoffset
      omega
    obtain ⟨other, hfound, hcases⟩ := h.polled message.source offset
      (Nat.lt_of_le_of_lt hle hpassed.passed)
    refine ⟨other, hgrows.message? hfound, ?_⟩
    rcases hcases with hother | ⟨viewRef, item, hitem, _⟩ | hcurrent
    · exact hother.grows hgrows
    · rw [hempty viewRef] at hitem
      cases hitem
    · -- The message in hand is the last one that was polled, so it is the committed one.
      obtain ⟨hotherSource, hotherOffset⟩ := message?_some hfound
      have hlast := (h.inHand other hcurrent).2
      rw [hotherSource, hotherOffset] at hlast
      have hpast := hpassed.passed
      have hsame : offset = message.offset := by omega
      rw [hsame] at hfound
      cases hfound.symm.trans hpassed.found
      exact hdurable
  · have hbefore : offset < w.broker.committed source := by
      simpa [StreamWorld.commit, Function.update_of_ne hsource] using hoffset
    obtain ⟨other, hfound, hother⟩ := h.core.committed source offset hbefore
    exact ⟨other, hgrows.message? hfound, hother.grows hgrows⟩

/-- A poll returns no message and moves nothing, or hands out the next message of a
partition. -/
theorem poll_cases (w : StreamWorld) (choice : PollChoice) :
    ((w.poll choice).1 = w ∧ ∀ message, (w.poll choice).2 ≠ some (.message message)) ∨
      ∃ message, w.broker.message? message.source (w.process.position message.source) =
          some message ∧ w.poll choice = (w.receive message, some (.message message)) := by
  cases choice with
  | nothing => exact Or.inl ⟨rfl, by simp [StreamWorld.poll]⟩
  | error => exact Or.inl ⟨rfl, by simp [StreamWorld.poll]⟩
  | deliver source =>
      unfold StreamWorld.poll
      dsimp only
      split
      · cases hfound : w.broker.message? source (w.process.position source) with
        | none => exact Or.inl ⟨rfl, by simp⟩
        | some message =>
            obtain ⟨rfl, _⟩ := message?_some hfound
            exact Or.inr ⟨message, hfound, rfl⟩
      · exact Or.inl ⟨rfl, by simp⟩

theorem Grows.receive (w : StreamWorld) {message : Message}
    (hnext : message.offset = w.process.position message.source) : Grows w (w.receive message) := by
  refine { Grows.refl w with position := fun source => ?_ }
  by_cases hsource : source = message.source
  · subst hsource
    simp [StreamWorld.receive, hnext]
  · simp [StreamWorld.receive, Function.update_of_ne hsource]

/-- The message that a poll hands out is the one in hand. -/
theorem Sound.receive (h : Sound d none unwritten w)
    (hfound : w.broker.message? message.source (w.process.position message.source) =
      some message) : Sound d (some message) unwritten (w.receive message) := by
  have hnext := (message?_some hfound).2
  have hgrows := Grows.receive w hnext
  refine ⟨⟨h.core.backend, h.core.committed_grows hgrows rfl, h.core.online⟩, ?_, ?_,
    h.buffers.grows hgrows rfl⟩
  · intro source offset hoffset
    by_cases hcurrent : source = message.source ∧ offset = message.offset
    · obtain ⟨rfl, rfl⟩ := hcurrent
      rw [← hnext] at hfound
      exact ⟨message, hgrows.message? hfound, Or.inr (Or.inr rfl)⟩
    · have hbefore : offset < w.process.position source := by
        by_cases hsource : source = message.source
        · subst hsource
          have hlt : offset < message.offset + 1 := by
            simpa [StreamWorld.receive] using hoffset
          have hne : offset ≠ message.offset := fun heq => hcurrent ⟨rfl, heq⟩
          omega
        · simpa [StreamWorld.receive, Function.update_of_ne hsource] using hoffset
      obtain ⟨other, hother, hcases⟩ := h.polled source offset hbefore
      refine ⟨other, hgrows.message? hother, ?_⟩
      rcases hcases with hdurable | hbuffered | hnone
      · exact Or.inl (hdurable.grows hgrows)
      · exact Or.inr (Or.inl (hbuffered.of_same rfl))
      · cases hnone
  · intro other hother
    cases hother
    rw [← hnext] at hfound
    exact ⟨hgrows.message? hfound, by simp [StreamWorld.receive]⟩

end Offsets

section Buffers

theorem Grows.setBuffers (w : StreamWorld) (buffers : StreamBuffers) :
    Grows w (w.setBuffers buffers) :=
  { Grows.refl w with }

theorem Core.setBuffers (h : Core d w) (buffers : StreamBuffers) :
    Core d (w.setBuffers buffers) :=
  ⟨h.backend, h.committed_grows (.setBuffers w buffers) rfl, h.online⟩

/-- New buffers are sound if their items are and no message is lost from them before its
outcome is durable. -/
theorem Sound.setBuffers {unwritten' : Option StreamFeatureEvent} {buffers : StreamBuffers}
    (h : Sound d current unwritten w)
    (hkept : ∀ message, Buffered w message →
      Buffered (w.setBuffers buffers) message ∨ Durable d w message)
    (hbuffers : BuffersSound d (w.setBuffers buffers) unwritten') :
    Sound d current unwritten' (w.setBuffers buffers) := by
  have hgrows := Grows.setBuffers w buffers
  refine ⟨h.core.setBuffers buffers, ?_, h.inHand, hbuffers⟩
  intro source offset hoffset
  obtain ⟨message, hfound, hcases⟩ := h.polled source offset hoffset
  refine ⟨message, hfound, ?_⟩
  rcases hcases with hdurable | hbuffered | hcurrent
  · exact Or.inl (hdurable.grows hgrows)
  · exact (hkept message hbuffered).elim (fun hstill => Or.inr (Or.inl hstill))
      fun hdurable => Or.inl (hdurable.grows hgrows)
  · exact Or.inr (Or.inr hcurrent)

theorem ItemSound.weaken {viewRef : String} {item : BufferedEvent}
    (h : ItemSound d w none viewRef item) (unwritten : Option StreamFeatureEvent) :
    ItemSound d w unwritten viewRef item := by
  refine ⟨h.view, h.recorded, h.messages, ?_⟩
  rcases h.online with hserved | hfailed | hnone
  · exact Or.inl hserved
  · exact Or.inr (Or.inl hfailed)
  · cases hnone

/-- A message joins the item of its identity. -/
theorem ItemSound.receive {viewRef : String} {item : BufferedEvent}
    (h : ItemSound d w unwritten viewRef item) {message : Option Message}
    (hmessage : ∀ m ∈ message.toList, Passed w m ∧ m.Carries d item.event.identity) :
    ItemSound d w unwritten viewRef
      { item with messages := item.messages ++ message.toList } := by
  refine ⟨h.view, h.recorded, ?_, h.online⟩
  intro m hm
  rcases List.mem_append.mp hm with hold | hnew
  · exact h.messages m hold
  · exact hmessage m hnew

/-- What `_buffer` may be called with: a recorded event, and a message that carries it. -/
structure Bufferable (d : StreamDeployment) (recordId : Uuid) (event : StreamFeatureEvent)
    (message : Option Message) (w : StreamWorld) : Prop where
  recorded : Recorded w.db recordId event
  carried : ∀ m ∈ message.toList, Passed w m ∧ m.Carries d event.identity

theorem Bufferable.grows {recordId : Uuid} {event : StreamFeatureEvent}
    {message : Option Message} (h : Bufferable d recordId event message w)
    (hgrows : Grows w w') : Bufferable d recordId event message w' :=
  ⟨h.recorded.grows hgrows, fun m hm => ⟨(h.carried m hm).1.grows hgrows, (h.carried m hm).2⟩⟩

/-- An update of one view is sound if the items of that view are. -/
theorem BuffersSound.set {unwritten' : Option StreamFeatureEvent} {viewRef : String}
    {items : List BufferedEvent} (h : BuffersSound d w none)
    (hitems : ∀ item ∈ items, ItemSound d w unwritten' viewRef item)
    (hdistinct : (items.map (·.event.eventId)).Nodup) :
    BuffersSound d (w.setBuffers (w.process.buffers.set viewRef items)) unwritten' := by
  have hgrows := Grows.setBuffers w (w.process.buffers.set viewRef items)
  refine ⟨?_, ?_, ?_⟩
  · intro other hother
    change other ∈ if viewRef ∈ w.process.buffers.views then _ else _
    by_cases hview : other = viewRef
    · subst hview
      split
      · assumption
      · exact List.mem_append_right _ (List.mem_singleton_self _)
    · change Function.update w.process.buffers.items viewRef items other ≠ [] at hother
      rw [Function.update_of_ne hview] at hother
      have hlisted := h.listed other hother
      split
      · exact hlisted
      · exact List.mem_append_left _ hlisted
  · intro other item hitem
    change item ∈ Function.update w.process.buffers.items viewRef items other at hitem
    by_cases hview : other = viewRef
    · subst hview
      rw [Function.update_self] at hitem
      exact (hitems item hitem).grows hgrows
    · rw [Function.update_of_ne hview] at hitem
      exact ((h.items other item hitem).weaken unwritten').grows hgrows
  · intro other
    change ((Function.update w.process.buffers.items viewRef items other).map _).Nodup
    by_cases hview : other = viewRef
    · subst hview
      rwa [Function.update_self]
    · rw [Function.update_of_ne hview]
      exact h.distinct other

/-- A message is buffered after an update of one view if it is in one of the new items,
or was buffered elsewhere. -/
theorem buffered_set {viewRef : String} {items : List BufferedEvent}
    (h : Buffered w message)
    (hkept : ∀ item ∈ w.process.buffers.items viewRef, message ∈ item.messages →
      ∃ item ∈ items, message ∈ item.messages) :
    Buffered (w.setBuffers (w.process.buffers.set viewRef items)) message := by
  obtain ⟨other, item, hitem, hmessage⟩ := h
  by_cases hview : other = viewRef
  · subst hview
    obtain ⟨item', hitem', hmessage'⟩ := hkept item hitem hmessage
    refine ⟨other, item', ?_, hmessage'⟩
    change item' ∈ Function.update w.process.buffers.items other items other
    rwa [Function.update_self]
  · refine ⟨other, item, ?_, hmessage⟩
    change item ∈ Function.update w.process.buffers.items viewRef items other
    rwa [Function.update_of_ne hview]

theorem buffered_of_set {viewRef : String} {items : List BufferedEvent} {item : BufferedEvent}
    (hitem : item ∈ items) (hmessage : message ∈ item.messages) :
    Buffered (w.setBuffers (w.process.buffers.set viewRef items)) message := by
  refine ⟨viewRef, item, ?_, hmessage⟩
  change item ∈ Function.update w.process.buffers.items viewRef items viewRef
  rwa [Function.update_self]

theorem mem_joinMessage {items : List BufferedEvent} {eventId : String}
    {message : Option Message} {item : BufferedEvent} (hitem : item ∈ items) :
    ∃ item' ∈ joinMessage items eventId message,
      item'.messages = item.messages ++
        if item.event.eventId = eventId then message.toList else [] := by
  refine ⟨_, List.mem_map_of_mem hitem, ?_⟩
  split
  · rfl
  · exact (List.append_nil _).symm

/-- `_buffer` keeps the invariant; a new item is one whose online write is to come. -/
theorem Sound.buffer (h : Sound d current none w) {recordId : Uuid}
    {event : StreamFeatureEvent} {message : Option Message}
    (hevent : Bufferable d recordId event message w) {buffers : StreamBuffers}
    {created : Bool} (hadd : w.process.buffers.add recordId event message = (buffers, created)) :
    Sound d current (if created then some event else none) (w.setBuffers buffers) ∧
      ∀ m ∈ message.toList, Buffered (w.setBuffers buffers) m := by
  have hsound : ∀ item ∈ w.process.buffers.items event.featureView,
      ItemSound d w none event.featureView item :=
    fun item hitem => h.buffers.items event.featureView item hitem
  have hdistinct := h.buffers.distinct event.featureView
  by_cases hany : (w.process.buffers.items event.featureView).any
      (fun item => decide (item.event.eventId = event.eventId)) = true
  · have hset : w.process.buffers.add recordId event message =
        (w.process.buffers.set event.featureView
          (joinMessage (w.process.buffers.items event.featureView) event.eventId message),
          false) := by
      simp only [StreamBuffers.add, if_pos hany]
    rw [hset] at hadd
    cases hadd
    change Sound d current none _ ∧ _
    refine ⟨h.setBuffers ?_ (h.buffers.set ?_ ?_), ?_⟩
    · intro m hm
      refine Or.inl (buffered_set hm fun item hitem hmessage => ?_)
      obtain ⟨item', hitem', hmessages⟩ := mem_joinMessage hitem
      exact ⟨item', hitem', hmessages ▸ List.mem_append_left _ hmessage⟩
    · intro item hitem
      obtain ⟨before, hbefore, rfl⟩ := List.mem_map.mp hitem
      by_cases hid : before.event.eventId = event.eventId
      · rw [if_pos hid]
        refine (hsound before hbefore).receive fun m hm => ?_
        have hidentity : before.event.identity = event.identity :=
          Prod.ext (hsound before hbefore).view hid
        rw [hidentity]
        exact hevent.carried m hm
      · rw [if_neg hid]
        exact hsound before hbefore
    · have hids : (joinMessage (w.process.buffers.items event.featureView) event.eventId
          message).map (·.event.eventId) =
          (w.process.buffers.items event.featureView).map (·.event.eventId) := by
        rw [joinMessage, List.map_map]
        refine List.map_congr_left fun item _ => ?_
        rw [Function.comp_apply]
        split <;> rfl
      rwa [hids]
    · intro m hm
      obtain ⟨item, hitem, hid⟩ := List.any_eq_true.mp hany
      obtain ⟨item', hitem', hmessages⟩ := mem_joinMessage hitem
      rw [if_pos (of_decide_eq_true hid)] at hmessages
      exact buffered_of_set hitem' (hmessages ▸ List.mem_append_right _ hm)
  · have hset : w.process.buffers.add recordId event message =
        (w.process.buffers.set event.featureView
          (w.process.buffers.items event.featureView ++
            [⟨recordId, event, message.toList⟩]), true) := by
      simp only [StreamBuffers.add, if_neg hany]
    rw [hset] at hadd
    cases hadd
    have hnew : ItemSound d w (some event) event.featureView
        ⟨recordId, event, message.toList⟩ :=
      ⟨rfl, hevent.recorded, hevent.carried, Or.inr (Or.inr rfl)⟩
    refine ⟨h.setBuffers ?_ (h.buffers.set ?_ ?_), ?_⟩
    · intro m hm
      exact Or.inl (buffered_set hm fun item hitem hmessage =>
        ⟨item, List.mem_append_left _ hitem, hmessage⟩)
    · intro item hitem
      rcases List.mem_append.mp hitem with hold | hlast
      · exact (hsound item hold).weaken _
      · rw [List.mem_singleton.mp hlast]
        exact hnew
    · rw [List.map_append, List.nodup_append]
      refine ⟨hdistinct, by simp, ?_⟩
      intro id hid other hother
      obtain ⟨item, hitem, rfl⟩ := List.mem_map.mp hid
      rw [List.mem_singleton.mp (by simpa using hother : other ∈ [event.eventId])]
      intro hsame
      exact hany (List.any_eq_true.mpr ⟨item, hitem, decide_eq_true hsame⟩)
    · intro m hm
      exact buffered_of_set (List.mem_append_right _ (List.mem_singleton_self _)) hm

/-- A view whose events are all settled can be cleared. -/
theorem Sound.clear (h : Sound d current none w) {viewRef : String}
    (hsettled : ∀ item ∈ w.process.buffers.items viewRef,
      Settled w.db item.event.identity) :
    Sound d current none (w.setBuffers (w.process.buffers.clear viewRef)) := by
  have hgrows := Grows.setBuffers w (w.process.buffers.clear viewRef)
  refine h.setBuffers ?_ ⟨?_, ?_, ?_⟩
  · rintro message ⟨other, item, hitem, hmessage⟩
    by_cases hview : other = viewRef
    · subst hview
      have hcarries := ((h.buffers.items other item hitem).messages message hmessage).2
      exact Or.inr (.settled hcarries (hsettled item hitem))
    · refine Or.inl ⟨other, item, ?_, hmessage⟩
      change item ∈ Function.update w.process.buffers.items viewRef [] other
      rwa [Function.update_of_ne hview]
  · intro other hother
    change Function.update w.process.buffers.items viewRef [] other ≠ [] at hother
    by_cases hview : other = viewRef
    · subst hview
      exact absurd (Function.update_self ..) hother
    · rw [Function.update_of_ne hview] at hother
      exact h.buffers.listed other hother
  · intro other item hitem
    change item ∈ Function.update w.process.buffers.items viewRef [] other at hitem
    by_cases hview : other = viewRef
    · subst hview
      rw [Function.update_self] at hitem
      cases hitem
    · rw [Function.update_of_ne hview] at hitem
      exact (h.buffers.items other item hitem).grows hgrows
  · intro other
    change ((Function.update w.process.buffers.items viewRef [] other).map _).Nodup
    by_cases hview : other = viewRef
    · subst hview
      rw [Function.update_self]
      exact List.nodup_nil
    · rw [Function.update_of_ne hview]
      exact h.buffers.distinct other

end Buffers

/-- No operation takes back what the invariant relies on. -/
theorem Core.perform_grows (h : Core d w) (choice : StreamChoice) (o : StreamOp) :
    Grows w (d.perform choice w o).1 := by
  by_cases ho : o.isQuiet = true
  · exact (h.perform_quiet choice ho).grows
  cases o with
  | poll =>
      change Grows w (w.poll choice.poll).1
      rcases poll_cases w choice.poll with ⟨hsame, _⟩ | ⟨message, hfound, hpoll⟩
      · rw [hsame]
        exact .refl w
      · rw [hpoll]
        exact .receive w (message?_some hfound).2
  | commit message rejected => exact commit_grows w message rejected
  | writeStaging => exact { Grows.refl w with }
  | stageBatch viewRef stagingUri items =>
      exact h.stage_grows viewRef stagingUri items choice.id choice.now
  | buffer => exact .setBuffers w _
  | clearBuffer => exact .setBuffers w _
  | now | external | subscribe | close | produce | registry | pending | register | upsert
  | drawUuid | memory | touch | noteServed | noteFailed => exact absurd rfl ho

end FeatureStore
