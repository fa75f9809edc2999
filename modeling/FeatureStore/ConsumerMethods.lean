import FeatureStore.ConsumerTriples

/-!
# The methods of the consumer keep its invariant

A triple for each method of `StreamConsumer`, from its operations up to the loop. A
normal end of a method settles what it was called for; an exception anywhere leaves the
invariant with the message still in hand, which no later commit may pass.
-/

namespace FeatureStore

open Programs

variable {d : StreamDeployment} {current : Option Message} {message : Message}
  {unwritten : Option StreamFeatureEvent} {P : Fact d}

section Operations

/-- `memory` answers with the buffers of the process. -/
theorem ask_memory (P : Fact d) :
    Meets P (d.ask .memory)
      (fun memory : ConsumerProcess => P.and (.buffersAre memory.buffers)) P := by
  refine Meets.quiet_answer rfl P fun w choice answer _ _ hanswer => ?_
  cases hanswer
  rfl

/-- Every record that `pending` answers with is stored. -/
theorem ask_pending (P : Fact d) :
    Meets P (d.ask .pending)
      (fun records : List StreamEventRecord =>
        P.and (.all records fun record => .bufferable record.id record.payload none)) P := by
  refine Meets.quiet_answer rfl P fun w choice answer _ _ hanswer => ?_
  cases hanswer
  intro record hrecord
  exact ⟨⟨record, (mem_pendingRecords.mp hrecord).1, rfl, rfl⟩, by simp⟩

theorem ask_register (P : Fact d) (event : StreamFeatureEvent) (message : Message) :
    Meets P (d.ask (.register event message))
      (fun registration : Registration => P.and (.registered registration event)) P := by
  refine Meets.quiet_answer rfl P fun w choice answer _ _ hanswer => ?_
  obtain ⟨hrecord, hidentity⟩ := register_stored (Prod.ext rfl hanswer)
  exact ⟨answer.record, hrecord, rfl, rfl, hidentity, id⟩

theorem ask_produce (P : Fact d) (letter : DeadLetter) :
    Meets P (d.ask (.produce letter)) (fun _ => P.and (.durable letter.message)) P :=
  Meets.quiet_answer rfl P fun _ _ _ _ _ _ => .deadLettered List.mem_cons_self rfl

theorem ask_drawUuid (P : Fact d) (viewRef : String) :
    Meets P (d.ask .drawUuid)
      (fun id : Uuid => P.and (.prepared ⟨viewRef, id⟩ none)) P :=
  Meets.quiet_answer rfl P fun _ _ _ hcore _ hanswer => hcore.drawUuid hanswer viewRef

/-- After its online write an event has been served, or is known as failed. -/
theorem ask_note {o : StreamOp} {event : StreamFeatureEvent}
    (ho : o = .noteServed event ∨ o = .noteFailed event) (F : Fact d) :
    Meets ((Fact.sound current (some event)).and F) (d.ask o)
      (fun _ => (Fact.sound current none).and F) ((Fact.sound current none).and F) := by
  have hquiet : o.isQuiet = true := by
    rcases ho with rfl | rfl <;> rfl
  have hnoted : ∀ w choice, Core d w → ((Fact.sound current (some event)).and F).holds w →
      Core d (d.perform choice w o).1 ∧
        ((Fact.sound current none).and F).holds (d.perform choice w o).1 := by
    rintro w choice hcore ⟨hsound, hF⟩
    have hstep := hcore.perform_quiet choice hquiet
    have hsteady := Sound.steady hsound hstep.toSteady
    refine ⟨hstep.core, ⟨hsteady.core, hsteady.polled, hsteady.inHand,
      hsteady.buffers.listed, ?_, hsteady.buffers.distinct⟩, F.kept hstep hF⟩
    intro viewRef item hitem
    have hbefore := hsteady.buffers.items viewRef item hitem
    refine ⟨hbefore.view, hbefore.recorded, hbefore.messages, ?_⟩
    rcases hbefore.online with hserved | hfailed | hevent
    · exact Or.inl hserved
    · exact Or.inr (Or.inl hfailed)
    · cases hevent
      rcases ho with rfl | rfl
      · exact Or.inl List.mem_cons_self
      · exact Or.inr (Or.inl List.mem_cons_self)
  refine Meets.ask (fun w choice _ hcore hw _ => hnoted w choice hcore hw)
    (fun w choice hcore hw _ => hnoted w choice hcore hw) ?_
  rcases ho with rfl | rfl <;> exact nofun

/-- What a poll hands out is in hand. -/
def Fact.polled : Option PolledMessage → Fact d
  | some (.message message) => .sound (some message) none
  | some (.error _) | none => .sound none none

theorem ask_poll : Meets (.sound none none) (d.ask .poll) Fact.polled .soundSomehow := by
  have hpolled : ∀ w (choice : StreamChoice), Sound d none none w →
      (Fact.polled (w.poll choice.poll).2 : Fact d).holds (w.poll choice.poll).1 := by
    intro w choice hsound
    rcases poll_cases w choice.poll with ⟨hsame, hnone⟩ | ⟨message, hfound, hpoll⟩
    · rw [hsame]
      unfold Fact.polled
      split
      · rename_i message hmessage
        exact absurd hmessage (hnone message)
      · exact hsound
      · exact hsound
    · rw [hpoll]
      exact hsound.receive hfound
  have hsomehow : ∀ w polled, (Fact.polled polled : Fact d).holds w →
      Core d w ∧ (Fact.soundSomehow : Fact d).holds w := by
    intro w polled hw
    rcases polled with _ | _ | _
    · exact ⟨Sound.core hw, none, hw⟩
    · exact ⟨Sound.core hw, _, hw⟩
    · exact ⟨Sound.core hw, none, hw⟩
  refine Meets.ask ?_ ?_ fun _ w _ hsound => ⟨none, hsound⟩
  · intro w choice answer _ hsound hanswer
    cases hanswer
    have hw := hpolled w choice hsound
    exact ⟨(hsomehow _ _ hw).1, hw⟩
  · intro w choice _ hsound _
    exact hsomehow _ _ (hpolled w choice hsound)

/-- The commit of a message whose outcome is decided, with nothing left in the buffers. -/
theorem ask_commit (message : Message) (rejected : Bool)
    (hP : ∀ w, P.holds w → Sound d current unwritten w ∧
      (∀ viewRef, w.process.buffers.items viewRef = []) ∧ Passed w message ∧
        (rejected = true ∨ Durable d w message)) :
    Meets P (d.ask (.commit message rejected))
      (fun _ => ((Fact.sound current unwritten).and (.emptyBeyond [])).and (.durable message))
      (.sound current unwritten) := by
  have hcommitted : ∀ w, P.holds w →
      Core d (w.commit message rejected) ∧
        Sound d current unwritten (w.commit message rejected) ∧
          Durable d (w.commit message rejected) message := by
    intro w hw
    obtain ⟨hsound, hempty, hpassed, hdecided⟩ := hP w hw
    obtain ⟨hsteady, hdurable⟩ := hsound.commit hempty hpassed hdecided
    exact ⟨hsteady.core, hsound.steady hsteady, hdurable⟩
  refine Meets.ask ?_ ?_ ?_
  · intro w choice _ _ hw _
    obtain ⟨hcore, hsound, hdurable⟩ := hcommitted w hw
    exact ⟨hcore, ⟨hsound, fun viewRef _ => (hP w hw).2.1 viewRef⟩, hdurable⟩
  · intro w choice _ hw _
    exact ⟨(hcommitted w hw).1, (hcommitted w hw).2.1⟩
  · exact fun _ w _ hw => (hP w hw).1

/-- `_buffer`, on a stored event and a message that carries it. -/
theorem ask_buffer (recordId : Uuid) (event : StreamFeatureEvent) (message : Option Message) :
    Meets ((Fact.sound current none).and (.bufferable recordId event message))
      (d.ask (.buffer recordId event message))
      (fun created : Bool => (Fact.sound current (if created then some event else none)).and
        (.buffered message)) (.sound current none) := by
  refine Meets.ask ?_ ?_ nofun
  · rintro w choice answer _ ⟨hsound, hevent⟩ hanswer
    cases hanswer
    obtain ⟨hafter, hbuffered⟩ := hsound.buffer hevent rfl
    exact ⟨hafter.core, hafter, hbuffered⟩
  · rintro w choice _ _ (hfallible | ⟨exc, hraised⟩)
    · cases hfallible
    · cases hraised

/-- The staging table of a batch is written at a location that nothing else uses. -/
theorem ask_writeStaging (buffers : StreamBuffers) (stagingUri : StagingUri)
    (rows : List OfflineRow) :
    Meets (((Fact.sound current none).and (.buffersAre buffers)).and
        (.prepared stagingUri none))
      (d.ask (.writeStaging stagingUri rows))
      (fun _ => ((Fact.sound current none).and (.buffersAre buffers)).and
        (.prepared stagingUri (some rows))) (.sound current none) := by
  have hwritten : ∀ w, Sound d current none w → Prepared stagingUri none w →
      Sound d current none (w.writeStaging stagingUri rows) ∧
        Prepared stagingUri (some rows) (w.writeStaging stagingUri rows) := by
    intro w hsound hprepared
    obtain ⟨hsteady, hcontent⟩ := hsound.core.writeStaging hprepared rows
    exact ⟨hsound.steady hsteady, hcontent⟩
  refine Meets.ask ?_ ?_ fun _ _ _ hw => hw.1.1
  · rintro w choice _ _ ⟨⟨hsound, hbuffers⟩, hprepared⟩ _
    obtain ⟨hafter, hcontent⟩ := hwritten w hsound hprepared
    exact ⟨hafter.core, ⟨hafter, hbuffers⟩, hcontent⟩
  · rintro w choice _ ⟨⟨hsound, _⟩, hprepared⟩ _
    obtain ⟨hafter, _⟩ := hwritten w hsound hprepared
    exact ⟨hafter.core, hafter⟩

/-- The staging transaction settles the buffered events of the view. -/
theorem ask_stageBatch (buffers : StreamBuffers) (viewRef : String) (stagingUri : StagingUri)
    {rows : List OfflineRow}
    (hrows : List.Forall₂ (fun item row => OfflineRow.WrittenFor row item.event)
      (buffers.items viewRef) rows) :
    Meets (((Fact.sound current none).and (.buffersAre buffers)).and
        (.prepared stagingUri (some rows)))
      (d.ask (.stageBatch viewRef stagingUri (buffers.items viewRef)))
      (fun _ => ((Fact.sound current none).and (.buffersAre buffers)).and
        (.all (buffers.items viewRef) fun item => .settled item.event.identity))
      (.sound current none) := by
  refine Meets.ask ?_ ?_ fun _ _ _ hw => hw.1.1
  · rintro w choice _ _ ⟨⟨hsound, rfl⟩, hprepared⟩ hanswer
    obtain ⟨hsteady, hsettled⟩ :=
      hsound.stage viewRef choice.id choice.now hprepared hrows
    exact ⟨hsteady.core, ⟨hsound.steady hsteady, hsteady.buffers⟩, hsettled hanswer⟩
  · rintro w choice _ ⟨⟨hsound, rfl⟩, hprepared⟩ _
    obtain ⟨hsteady, _⟩ := hsound.stage viewRef choice.id choice.now hprepared hrows
    exact ⟨hsteady.core, hsound.steady hsteady⟩

/-- A view whose events are settled is cleared. -/
theorem ask_clearBuffer (buffers : StreamBuffers) (viewRef : String) :
    Meets (((Fact.sound current none).and (.buffersAre buffers)).and
        (.all (buffers.items viewRef) fun item => .settled item.event.identity))
      (d.ask (.clearBuffer viewRef))
      (fun _ => (Fact.sound current none).and (.buffersAre (buffers.clear viewRef)))
      (.sound current none) := by
  refine Meets.ask ?_ ?_ nofun
  · rintro w choice _ _ ⟨⟨hsound, rfl⟩, hsettled⟩ _
    have hafter := hsound.clear hsettled
    exact ⟨hafter.core, hafter, rfl⟩
  · rintro w choice _ _ (hfallible | ⟨exc, hraised⟩)
    · cases hfallible
    · cases hraised

end Operations

section Flush

theorem lookup_meets {α : Type} (find : Registry → Except PyException α) (P : Fact d) :
    Meets P (d.lookup find) (fun _ => P) P := by
  refine .bind (.quiet rfl P) fun registry => ?_
  exact .ofExcept (fun _ _ _ _ hw => hw) fun _ _ hw => hw

/-- The messages of a settled view have durable outcomes. -/
theorem Sound.outcomes {w : StreamWorld} {viewRef : String}
    (h : Sound d current none w)
    (hsettled : ∀ item ∈ w.process.buffers.items viewRef, Settled w.db item.event.identity) :
    ∀ message ∈ (w.process.buffers.items viewRef).flatMap (·.messages),
      Passed w message ∧ Durable d w message := by
  intro message hmessage
  obtain ⟨item, hitem, hmem⟩ := List.mem_flatMap.mp hmessage
  obtain ⟨hpassed, hcarries⟩ := (h.buffers.items viewRef item hitem).messages message hmem
  exact ⟨hpassed, .settled hcarries (hsettled item hitem)⟩

/-- What `_flush_view` leaves when it returns. -/
def Fact.flushed (current : Option Message) (buffers : StreamBuffers) (viewRef : String)
    (messages : List Message) : Fact d :=
  (((Fact.sound current none).and (.buffersAre buffers)).and
    (.all (buffers.items viewRef) fun item => .settled item.event.identity)).and
      (.all messages .outcome)

theorem flushView_meets (buffers : StreamBuffers) (viewRef : String) :
    Meets ((Fact.sound current none).and (.buffersAre buffers))
      (d.flushView viewRef (buffers.items viewRef))
      (Fact.flushed current buffers viewRef) (.sound current none) := by
  have hsound : ∀ {P : Fact d} {α : Type} {x : d.Consumer α} {Q : α → Fact d} {E : Fact d},
      Meets P x Q (((Fact.sound current none).and (.buffersAre buffers)).and E) →
      Meets P x Q (.sound current none) := fun h => h.weakenError fun _ _ hw => hw.1.1
  have hread : ∀ {α : Type} {x : d.Consumer α}, (∀ P : Fact d, Meets P x (fun _ => P) P) →
      Meets ((Fact.sound current none).and (.buffersAre buffers)) x
        (fun _ => (Fact.sound current none).and (.buffersAre buffers))
        (.sound current none) := fun h => (h _).weakenError fun _ _ hw => hw.1
  refine .bind (hread (lookup_meets _)) fun view => ?_
  refine .bind (hread (lookup_meets _)) fun entity => ?_
  refine .bind (R := fun rows => ((Fact.sound current none).and (.buffersAre buffers)).and
      (.pure ((buffers.items viewRef).mapM (fun item => stagingRow entity view item.event) =
        .ok rows)))
    (.ofExcept (fun rows hrows _ _ hw => ⟨hw, hrows⟩) fun _ _ hw => hw.1) fun rows => ?_
  refine .of_pure fun hrows => ?_
  have hwritten : List.Forall₂ (fun item row => OfflineRow.WrittenFor row item.event)
      (buffers.items viewRef) rows :=
    (forall₂_of_mapM hrows).imp fun _ _ hrow => stagingRow_written hrow
  refine .bind (hread (.quiet rfl)) fun _ => ?_
  refine .bind ((ask_drawUuid _ viewRef).weakenError fun _ _ hw => hw.1) fun batch => ?_
  refine .bind (ask_writeStaging buffers ⟨viewRef, batch⟩ rows) fun _ => ?_
  refine .bind (ask_stageBatch buffers viewRef ⟨viewRef, batch⟩ hwritten) fun _ => ?_
  refine .bind (hsound (.quiet rfl _)) fun _ => ?_
  refine .bind (hsound (.quiet rfl _)) fun _ => ?_
  refine .pure ?_
  rintro w _ ⟨⟨hw, rfl⟩, hsettled⟩
  exact ⟨⟨⟨hw, rfl⟩, hsettled⟩, hw.outcomes hsettled⟩

theorem outcomes_grow {messages : List Message} {w w' : StreamWorld} (h : Grows w w')
    (hmessages : (Fact.all messages Fact.outcome : Fact d).holds w) :
    (Fact.all messages Fact.outcome : Fact d).holds w' :=
  fun message hmessage =>
    ⟨(hmessages message hmessage).1.grows h, (hmessages message hmessage).2.grows h⟩

/-- The loop of `flush` empties the views one by one. -/
theorem flushViews_meets (views : List String) (staged : List Message) :
    Meets (((Fact.sound current none).and (.emptyBeyond views)).and (.all staged .outcome))
      (d.flushViews views staged)
      (fun messages => ((Fact.sound current none).and (.emptyBeyond [])).and
        (.all messages .outcome)) (.sound current none) := by
  induction views generalizing staged with
  | nil => exact .pure fun _ _ hw => hw
  | cons viewRef rest ih =>
      unfold StreamDeployment.flushViews
      refine .bind ((ask_memory _).weakenError fun _ _ hw => hw.1.1) fun memory => ?_
      dsimp only
      split
      · rename_i hempty
        refine (ih staged).strengthen ?_
        rintro w _ ⟨⟨⟨hsound, hbeyond⟩, hstaged⟩, hbuffers⟩
        refine ⟨⟨hsound, fun other hother => ?_⟩, hstaged⟩
        by_cases hview : other = viewRef
        · rw [hbuffers, hview]
          exact List.isEmpty_iff.mp hempty
        · exact hbeyond other (List.not_mem_cons_of_ne_of_not_mem hview hother)
      · have hflush := (@flushView_meets d current memory.buffers viewRef).frame
          (F := .all staged .outcome) outcomes_grow
        refine Meets.strengthen (P := ((((Fact.sound current none).and
            (.buffersAre memory.buffers)).and (.all staged .outcome)).and
            (.pure (∀ other, other ∉ viewRef :: rest → memory.buffers.items other = []))))
          (.of_pure fun hbeyond => ?_) ?_
        · refine .bind (hflush.weakenError fun _ _ hw => hw.1) fun messages => ?_
          have hclear := ((@ask_clearBuffer d current memory.buffers viewRef).frame
            (F := .all messages .outcome) outcomes_grow).frame
            (F := .all staged .outcome) outcomes_grow
          refine .bind (hclear.weakenError fun _ _ hw => hw.1.1) fun _ => ?_
          refine (ih (staged ++ messages)).strengthen ?_
          rintro w _ ⟨⟨⟨hsound, hbuffers⟩, hmessages⟩, hstaged⟩
          refine ⟨⟨hsound, fun other hother => ?_⟩, fun message hmessage => ?_⟩
          · rw [hbuffers]
            by_cases hview : other = viewRef
            · rw [hview]
              exact Function.update_self ..
            · refine (Function.update_of_ne hview _ _).trans ?_
              exact hbeyond other (List.not_mem_cons_of_ne_of_not_mem hview hother)
          · exact (List.mem_append.mp hmessage).elim (hstaged message) (hmessages message)
        · rintro w _ ⟨⟨⟨hsound, hbeyond⟩, hstaged⟩, hbuffers⟩
          exact ⟨⟨⟨hsound, hbuffers⟩, hstaged⟩, fun other hother => hbuffers ▸ hbeyond other hother⟩

theorem mem_latestByPartition {messages : List Message} :
    ∀ entry ∈ latestByPartition messages, entry.2 ∈ messages := by
  have hfold : ∀ (messages : List Message) (latest : List (TopicPartition × Message)),
      ∀ entry ∈ messages.foldl keepLatest latest, entry ∈ latest ∨ entry.2 ∈ messages := by
    intro messages
    induction messages with
    | nil => exact fun latest entry hentry => Or.inl hentry
    | cons message rest ih =>
        intro latest entry hentry
        rcases ih _ entry hentry with hkept | hrest
        · unfold keepLatest at hkept
          split at hkept
          · rcases List.mem_append.mp hkept with hold | hnew
            · exact Or.inl hold
            · rw [List.mem_singleton.mp hnew]
              exact Or.inr List.mem_cons_self
          · split at hkept
            · obtain ⟨before, hbefore, rfl⟩ := List.mem_map.mp hkept
              split
              · exact Or.inr List.mem_cons_self
              · exact Or.inl hbefore
            · exact Or.inl hkept
        · exact Or.inr (List.mem_cons_of_mem _ hrest)
  intro entry hentry
  exact (hfold messages [] entry hentry).resolve_left List.not_mem_nil

/-- `_commit_latest` commits messages whose outcomes are durable. -/
theorem commitLatest_meets (messages : List Message) :
    Meets (((Fact.sound current none).and (.emptyBeyond [])).and (.all messages .outcome))
      (d.commitLatest messages) (fun _ => (Fact.sound current none).and (.emptyBeyond []))
      (.sound current none) := by
  have hloop : Meets (((Fact.sound current none).and (.emptyBeyond [])).and
      (.all messages .outcome)) (d.commitLatest messages)
      (fun _ => ((Fact.sound current none).and (.emptyBeyond [])).and (.all messages .outcome))
      ((Fact.sound current none).and (.all messages .outcome)) := by
    refine .forEach fun entry hentry => ?_
    have hmessage := mem_latestByPartition entry hentry
    have hcommit : Meets (((Fact.sound current none).and (.emptyBeyond [])).and
        (.outcome entry.2)) (d.ask (.commit entry.2 false))
        (fun _ => ((Fact.sound current none).and (.emptyBeyond [])).and (.durable entry.2))
        (.sound current none) := by
      refine ask_commit entry.2 false fun w hw => ?_
      obtain ⟨⟨hsound, hempty⟩, hpassed, hdurable⟩ := hw
      exact ⟨hsound, fun viewRef => hempty viewRef List.not_mem_nil, hpassed, Or.inr hdurable⟩
    refine (hcommit.frame (F := .all messages .outcome) outcomes_grow).conseq ?_
      (fun _ _ _ hw => ⟨hw.1.1, hw.2⟩) fun _ _ hw => hw
    exact fun w _ hw => ⟨⟨hw.1, hw.2 entry.2 hmessage⟩, hw.2⟩
  exact hloop.conseq (fun _ _ hw => hw) (fun _ _ _ hw => hw.1) fun _ _ hw => hw.1

theorem flushBuffers_meets :
    Meets (.sound current none) d.flushBuffers
      (fun _ => (Fact.sound current none).and (.emptyBeyond [])) (.sound current none) := by
  refine .bind (ask_memory _) fun memory => ?_
  refine .bind ((flushViews_meets memory.buffers.views []).strengthen ?_) fun staged => ?_
  · rintro w _ ⟨hsound, hbuffers⟩
    refine ⟨⟨hsound, fun viewRef hview => ?_⟩, nofun⟩
    by_contra hitems
    exact hview (hbuffers ▸ hsound.buffers.listed viewRef hitems)
  · refine .bind (commitLatest_meets staged) fun _ => ?_
    refine .bind ((Meets.quiet rfl _).weakenError fun _ _ hw => hw.1) fun now => ?_
    exact (Meets.quiet rfl _).weakenError fun _ _ hw => hw.1

/-- `flush`: the buffers are empty when it returns. -/
theorem flush_meets :
    Meets (.sound current none) d.flush
      (fun _ => (Fact.sound current none).and (.emptyBeyond [])) (.sound current none) :=
  .ensuring flushBuffers_meets
    (fun _ => (Meets.quiet rfl _).weakenError fun _ _ hw => hw.1) (.quiet rfl _)

end Flush

section Handle

/-- `_write_online` on the event that has just been buffered. -/
theorem writeOnline_meets (event : StreamFeatureEvent) (F : Fact d) :
    Meets ((Fact.sound current (some event)).and F) (d.writeOnline event)
      (fun _ => (Fact.sound current none).and F) ((Fact.sound current none).and F) := by
  refine .bind (R := fun _ => (Fact.sound current (some event)).and F)
    (.tryCatch (.quiet rfl _) fun exc => ?_) fun accepted => ?_
  · refine .bind (ask_note (Or.inr rfl) F) fun _ => ?_
    refine .bind (.quiet rfl _) fun _ => ?_
    exact .raise fun _ _ hw => hw
  · refine .bind (ask_note (Or.inl rfl) F) fun _ => ?_
    refine .bind (.quiet rfl _) fun _ => ?_
    exact .pure fun _ _ hw => hw

/-- A dead letter makes the outcome of its message durable. -/
theorem deadLetter_meets (message : Message) (error : String) (quality : Bool) (P : Fact d) :
    Meets P (d.deadLetter message error quality) (fun _ => P.and (.durable message)) P :=
  .bind (.quiet rfl P) fun _ => ask_produce P _

/-- The message in hand whose outcome is decided: everything is flushed, and its offset
committed. -/
theorem settle_meets (message : Message) (rejected : Bool) :
    Meets ((Fact.sound (some message) none).and (.decided message rejected))
      (d.settle message rejected)
      (fun _ => (Fact.sound (some message) none).and (.durable message))
      (.sound (some message) none) := by
  have hflush := (@flush_meets d (some message)).frame (F := .decided message rejected)
    fun h hw => hw.imp_right fun hdurable => hdurable.grows h
  refine .bind (hflush.weakenError fun _ _ hw => hw.1) fun _ => ?_
  refine .bind (ask_commit message rejected ?_) fun _ => ?_
  · rintro w ⟨⟨hsound, hempty⟩, hdecided⟩
    obtain ⟨hfound, hposition⟩ := Sound.inHand hsound message rfl
    exact ⟨hsound, fun viewRef => hempty viewRef List.not_mem_nil,
      ⟨hfound, by omega⟩, hdecided⟩
  · have hmetric := Meets.quiet (o := .external) rfl
      ((Fact.sound (some message) none).and (.durable message) : Fact d)
    exact hmetric.conseq (fun _ _ hw => ⟨hw.1.1, hw.2⟩) (fun _ _ _ hw => hw)
      fun _ _ hw => hw.1

/-- A message with a durable outcome is settled. -/
theorem settle_durable (message : Message) :
    Meets ((Fact.sound (some message) none).and (.durable message)) (d.settle message false)
      (fun _ => (Fact.sound (some message) none).and (.handled message))
      (.sound (some message) none) :=
  (settle_meets message false).conseq (fun _ _ hw => ⟨hw.1, Or.inr hw.2⟩)
    (fun _ _ _ hw => ⟨hw.1, Or.inl hw.2⟩) fun _ _ hw => hw

/-- The end of `_handle` for a message that goes to the dead-letter topic. -/
theorem deadLetter_settle (message : Message) (error : String) (quality : Bool) :
    Meets (.sound (some message) none)
      (do
        d.deadLetter message error quality
        d.settle message false
        d.ask .external)
      (fun _ => (Fact.sound (some message) none).and (.handled message))
      (.sound (some message) none) := by
  refine .bind (deadLetter_meets message error quality _) fun _ => ?_
  refine .bind (settle_durable message) fun _ => ?_
  exact (Meets.quiet rfl _).weakenError fun _ _ hw => hw.1

/-- `_handle` from the registration on, for a message that carries the event. -/
theorem registerEvent_meets {event : StreamFeatureEvent}
    (hcarries : message.Carries d event.identity) :
    Meets (.sound (some message) none) (d.registerEvent message event)
      (fun _ => (Fact.sound (some message) none).and (.handled message))
      (.sound (some message) none) := by
  refine .bind (ask_register _ event message) fun registration => ?_
  have hregistered : ∀ w, (Fact.registered registration event : Fact d).holds w → Core d w →
      Recorded w.db registration.record.id registration.record.payload ∧
        registration.record.payload.identity = event.identity := by
    rintro w ⟨record, hrecord, hid, hpayload, hidentity, _⟩ hcore
    refine ⟨⟨record, hrecord, hid, hpayload⟩, ?_⟩
    rw [← hidentity, hcore.backend.identities record hrecord, hpayload]
  refine .ite (fun _ => ?_) fun _ => .ite (fun hstate => ?_) fun _ => ?_
  · exact (deadLetter_settle message _ false).strengthen fun _ _ hw => hw.1
  · refine (settle_durable message).strengthen ?_
    rintro w hcore ⟨hsound, record, hrecord, _, _, hidentity, hsettled⟩
    exact ⟨hsound, .settled hcarries ⟨record, hrecord, hidentity, hsettled hstate⟩⟩
  · have hbuffer := @ask_buffer d (some message) registration.record.id
      registration.record.payload (some message)
    refine .bind (hbuffer.strengthen ?_) fun created => ?_
    · rintro w hcore ⟨hsound, hrecord⟩
      obtain ⟨hstored, hidentity⟩ := hregistered w hrecord hcore
      obtain ⟨hfound, hposition⟩ := Sound.inHand hsound message rfl
      refine ⟨hsound, hstored, fun m hm => ?_⟩
      cases Option.mem_toList.mp hm
      exact ⟨⟨hfound, by omega⟩, hidentity ▸ hcarries⟩
    · have hhandled : ∀ w, Core d w →
          ((Fact.sound (some message) none).and (.buffered (some message)) : Fact d).holds w →
          ((Fact.sound (some message) none).and (.handled message) : Fact d).holds w :=
        fun w _ hw => ⟨hw.1, Or.inr (hw.2 message (Option.mem_toList.mpr rfl))⟩
      refine .ite (fun hcreated => ?_) fun hcreated => ?_
      · rw [if_pos hcreated]
        refine .bind ((writeOnline_meets _ _).weakenError fun _ _ hw => hw.1) fun _ => ?_
        exact (Meets.quiet rfl _).conseq (fun _ _ hw => hw) (fun _ => hhandled)
          fun _ _ hw => hw.1
      · rw [if_neg hcreated]
        exact (Meets.quiet rfl _).conseq (fun _ _ hw => hw) (fun _ => hhandled)
          fun _ _ hw => hw.1

/-- The registry lookups and the schema checks of `_handle` keep every fact. -/
theorem configuredView_meets (message : Message) (event : StreamFeatureEvent) (P : Fact d) :
    Meets P (d.configuredView message event) (fun _ => P) P := by
  refine .bind (lookup_meets _ P) fun view => ?_
  cases view.streamSource.filter fun name => !name.isEmpty with
  | none => exact .raise fun _ _ hw => hw
  | some name =>
      refine .bind (lookup_meets _ P) fun stream => .ite (fun _ => ?_) fun _ => ?_
      · exact .raise fun _ _ hw => hw
      · refine .bind (lookup_meets _ P) fun entity => ?_
        refine .bind (.ofExcept (fun _ _ _ _ hw => hw) fun _ _ hw => hw) fun _ => ?_
        exact .pure fun _ _ hw => hw

theorem handleEvent_meets {event : StreamFeatureEvent}
    (hcarries : message.Carries d event.identity) :
    Meets (.sound (some message) none) (d.handleEvent message event)
      (fun _ => (Fact.sound (some message) none).and (.handled message))
      (.sound (some message) none) := by
  refine .ite (fun _ => .raise fun _ _ hw => hw) fun _ => ?_
  refine .bind (.quiet rfl _) fun ingestionTime => ?_
  refine .bind (.quiet rfl _) fun _ => ?_
  refine .bind (configuredView_meets message event _) fun view => ?_
  refine .bind (.forEach fun _ _ => .quiet rfl _) fun _ => ?_
  refine .ite (fun _ => registerEvent_meets hcarries) fun _ => ?_
  cases view.effectiveQualityPolicy with
  | reject =>
      exact (settle_meets message true).conseq (fun _ _ hw => ⟨hw, Or.inl rfl⟩)
        (fun _ _ _ hw => ⟨hw.1, Or.inl hw.2⟩) fun _ _ hw => hw
  | quarantine => exact deadLetter_settle message _ true
  | report => exact registerEvent_meets hcarries

/-- The `try` block of `_handle`. -/
theorem process_meets (message : Message) :
    Meets (.sound (some message) none) (d.process message)
      (fun _ => (Fact.sound (some message) none).and (.handled message))
      (.sound (some message) none) := by
  unfold StreamDeployment.process
  cases hvalue : message.value with
  | none => exact .raise fun _ _ hw => hw
  | some rawValue =>
      dsimp only
      cases hevent : d.decode rawValue with
      | error exc => exact .raise fun _ _ hw => hw
      | ok event => exact handleEvent_meets ⟨rawValue, event, hvalue, hevent, rfl⟩

/-- A message that is taken care of is no longer in hand. -/
theorem Sound.release {w : StreamWorld} (h : Sound d (some message) none w)
    (hhandled : Durable d w message ∨ Buffered w message) : Sound d none none w := by
  refine ⟨h.core, ?_, nofun, h.buffers⟩
  intro source offset hoffset
  obtain ⟨other, hfound, hcases⟩ := h.polled source offset hoffset
  refine ⟨other, hfound, ?_⟩
  rcases hcases with hdurable | hbuffered | hcurrent
  · exact Or.inl hdurable
  · exact Or.inr (Or.inl hbuffered)
  · cases hcurrent
    exact hhandled.imp_right Or.inl

/-- `_handle`: whatever happens to the message, it is taken care of or still in hand. -/
theorem handle_meets (message : Message) :
    Meets (.sound (some message) none) (d.handle (.message message))
      (fun _ => .sound none none) (.sound (some message) none) := by
  refine .ensuring (Q := fun _ => (Fact.sound (some message) none).and (.handled message))
    (.tryCatch (process_meets message) fun exc => deadLetter_settle message _ false)
    (fun _ => ?_) (.quiet rfl _)
  exact (Meets.quiet rfl _).conseq (fun _ _ hw => hw)
    (fun _ _ _ hw => Sound.release hw.1 hw.2) fun _ _ hw => hw.1

end Handle

section Loop

theorem recoverRecord_meets {records : List StreamEventRecord} {record : StreamEventRecord}
    (hrecord : record ∈ records) :
    Meets ((Fact.sound none none).and
        (.all records fun record => .bufferable record.id record.payload none))
      (d.recoverRecord record)
      (fun _ => (Fact.sound none none).and
        (.all records fun record => .bufferable record.id record.payload none))
      (.sound none none) := by
  have hbuffer := (@ask_buffer d none record.id record.payload none).frame
    (F := .all records fun record => .bufferable record.id record.payload none)
    fun h hw record hrecord => (hw record hrecord).grows h
  refine .bind (R := fun created => (Fact.sound none
      (if created then some record.payload else none)).and
      (.all records fun record => .bufferable record.id record.payload none))
    (hbuffer.conseq (fun _ _ hw => ⟨⟨hw.1, hw.2 record hrecord⟩, hw.2⟩)
      (fun _ _ _ hw => ⟨hw.1.1, hw.2⟩) fun _ _ hw => hw.1) fun created => ?_
  refine .ite (fun hcreated => ?_) fun hcreated => ?_
  · rw [if_pos hcreated]
    refine .bind ((writeOnline_meets _ _).weakenError fun _ _ hw => hw.1) fun _ => ?_
    exact .pure fun _ _ hw => hw
  · rw [if_neg hcreated]
    exact .pure fun _ _ hw => hw

/-- `recover_pending`: the pending records of earlier processes are staged. -/
theorem recoverPending_meets :
    Meets (.sound none none) d.recoverPending (fun _ => .sound none none) (.sound none none) := by
  refine .bind (ask_pending _) fun records => ?_
  refine .bind (.forEach fun record hrecord => recoverRecord_meets hrecord) fun _ => ?_
  refine .ite (fun _ => .pure fun _ _ hw => hw.1) fun _ => ?_
  exact flush_meets.conseq (fun _ _ hw => hw.1) (fun _ _ _ hw => hw.1) fun _ _ hw => hw

theorem subscribe_meets (P : Fact d) : Meets P d.subscribe (fun _ => P) P :=
  .bind (.quiet rfl P) fun _ => .ite (fun _ => .raise fun _ _ hw => hw) fun _ => .quiet rfl P

/-- The body of the loop. -/
theorem pollOnce_meets :
    Meets (.sound none none) d.pollOnce (fun _ => .sound none none) .soundSomehow := by
  have hflush : Meets (.sound none none)
      (do
        let due ← d.shouldFlush
        if due then d.flush else Pure.pure ())
      (fun _ => .sound none none) (.soundSomehow : Fact d) := by
    have hdue : Meets (.sound none none) d.shouldFlush (fun _ => .sound none none)
        (.sound none none) := by
      refine .bind (.quiet rfl _) fun memory => ?_
      refine .bind (.quiet rfl _) fun now => ?_
      exact .pure fun _ _ hw => hw
    refine .bind (hdue.weakenError fun _ _ hw => ⟨none, hw⟩) fun due => ?_
    refine .ite (fun _ => ?_) fun _ => .pure fun _ _ hw => hw
    exact flush_meets.conseq (fun _ _ hw => hw) (fun _ _ _ hw => hw.1) fun _ _ hw => ⟨none, hw⟩
  refine .bind ask_poll fun polled => ?_
  rcases polled with _ | message | endOfPartition
  · exact hflush
  · refine .bind ((handle_meets message).weakenError fun _ _ hw => ⟨some message, hw⟩)
      fun _ => hflush
  · refine .bind (R := fun _ => .sound none none) ?_ fun _ => hflush
    exact (Meets.quiet rfl _).weakenError fun _ _ hw => ⟨none, hw⟩

/-- `finally: self.flush(); self.consumer.close()`. -/
theorem closing_meets :
    Meets (.soundSomehow : Fact d) d.service.closing (fun _ => .pure True) (.pure True) := by
  rintro w ⟨hcore, current, hsound⟩
  have hclosing : Meets (.sound current none) d.service.closing (fun _ => .pure True)
      (.pure True) := by
    refine .bind (flush_meets.weakenError fun _ _ _ => trivial) fun _ => ?_
    exact (Meets.quiet rfl _).conseq (fun _ _ hw => hw) (fun _ _ _ _ => trivial)
      fun _ _ _ => trivial
  exact hclosing w ⟨hcore, hsound⟩

/-- A new process has nothing buffered, and starts at the committed offsets. -/
theorem Core.restart {w : StreamWorld} (h : Core d w) : Sound d none none w.restart := by
  have hcommitted : ∀ source, ∀ offset < w.broker.committed source, ∃ message,
      w.broker.message? source offset = some message ∧ Durable d w.restart message := by
    intro source offset hoffset
    obtain ⟨message, hfound, hdurable⟩ := h.committed source offset hoffset
    refine ⟨message, hfound, ?_⟩
    cases hdurable with
    | settled carries settled => exact .settled carries settled
    | deadLettered delivered message => exact .deadLettered delivered message
    | rejected dropped => exact .rejected dropped
  refine ⟨⟨h.backend, hcommitted, h.online⟩, ?_, nofun, ?_⟩
  · intro source offset hoffset
    obtain ⟨message, hfound, hdurable⟩ := hcommitted source offset hoffset
    exact ⟨message, hfound, Or.inl hdurable⟩
  · exact ⟨fun _ hitems => absurd rfl hitems, nofun, fun _ => List.nodup_nil⟩

theorem core_stable : @Stable d.interface (Core d) :=
  fun _ event h => (Core.disturb h event).core

/-- The service `loop` meets its specification: the core of the invariant holds in every
state that it reaches. -/
def StreamDeployment.verified (d : StreamDeployment) : d.service.Verified (Core d) core_stable where
  loop := (Fact.sound none none).assertion
  closed := Fact.soundSomehow.assertion
  ready := (Fact.sound none none).assertion
  restarted := fun _ h => ⟨(Core.restart h).core, Core.restart h⟩
  startup := by
    have hstartup : Meets (.sound none none) d.service.startup (fun _ => .sound none none)
        (.sound none none) := .bind recoverPending_meets fun _ => subscribe_meets _
    exact Triple.conseq hstartup (fun _ hw => hw) (fun _ _ hw => hw) fun _ hw => hw.1
  body := pollOnce_meets
  closing := Triple.conseq closing_meets (fun _ hw => hw) (fun _ _ hw => hw.1) fun _ hw => hw.1

end Loop

end FeatureStore
