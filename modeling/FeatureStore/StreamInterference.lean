import FeatureStore.StreamInvariant

/-!
# The other processes

Whatever the workers, the clients of the service and the producers do, nothing is taken
back of what the consumer relies on, and the core of its invariant holds.
-/

namespace FeatureStore

open Relational

variable {d : StreamDeployment} {w w' : StreamWorld}

theorem Call.Foreign.outside {db : Database} {call : Call} (h : call.Foreign db) :
    call.isIngestion = false := by
  cases call with
  | register | stageBatch => exact absurd h.1 (by simp [Call.isForeign])
  | createBackfill | createMaterialization | createHistoricalQuery
  | createIncrementalMaterialization | cancel | retry | claimPass | heartbeat
  | commitCheckpoints | finalizeSuccess | finalizeFailure => rfl

/-- No foreign transaction finishes an append job. -/
theorem Call.Foreign.not_append {db : Database} {job : JobRecord} {token : Uuid}
    {now : Instant} {resultUri : Option String} {resultMetadata : Option ResultMetadata}
    (h : (Call.finalizeSuccess job token now resultUri resultMetadata).Foreign db) :
    job.kind ≠ .offlineAppend :=
  of_decide_eq_true h.1

/-- An event changes the ledger as a transaction outside the consumer does. -/
theorem disturb_applies (w : StreamWorld) (event : StreamEvent) :
    AppliesAtMost w.db (d.disturb w event).db := by
  cases event with
  | call call =>
      unfold StreamDeployment.disturb
      dsimp only
      split
      · rename_i hforeign
        exact (Call.commit d.config w.db call).appliesAtMost hforeign.outside
      · exact Or.inl rfl
  | statement k now =>
      unfold StreamDeployment.disturb AppendBackend.advance
      dsimp only
      split
      · exact Or.inl rfl
      · obtain ⟨call, houtside, hcommit⟩ := Attempt.advance_statement.commit
        exact hcommit.appliesAtMost houtside
  | raise k exc =>
      unfold StreamDeployment.disturb
      dsimp only
      split <;> exact Or.inl rfl
  | writeView | upsert | produce | register => exact Or.inl rfl

/-- What an event leaves alone, besides the ledger. -/
structure Spared (w w' : StreamWorld) : Prop where
  process : w'.process = w.process
  committed : w'.broker.committed = w.broker.committed
  log : ∀ source, w.broker.log source <+: w'.broker.log source
  deadLetters : w'.broker.deadLetters = w.broker.deadLetters
  rejected : w'.broker.rejected = w.broker.rejected
  drawn : w'.drawn = w.drawn
  served : w'.served = w.served
  stagedUnserved : w'.stagedUnserved = w.stagedUnserved

theorem disturb_spared (w : StreamWorld) (event : StreamEvent) :
    Spared w (d.disturb w event) := by
  have hbackend : ∀ backend, Spared w { w with backend := backend } := fun _ =>
    ⟨rfl, rfl, fun _ => List.prefix_rfl, rfl, rfl, rfl, rfl, rfl⟩
  cases event with
  | call call =>
      unfold StreamDeployment.disturb
      dsimp only
      split
      · exact hbackend _
      · exact hbackend w.backend
  | statement => exact hbackend _
  | raise k exc =>
      unfold StreamDeployment.disturb
      dsimp only
      split
      · exact hbackend w.backend
      · exact hbackend _
  | writeView => exact hbackend _
  | upsert | register => exact ⟨rfl, rfl, fun _ => List.prefix_rfl, rfl, rfl, rfl, rfl, rfl⟩
  | produce source entry =>
      refine ⟨rfl, rfl, ?_, rfl, rfl, rfl, rfl, rfl⟩
      intro other
      unfold StreamDeployment.disturb
      dsimp only
      by_cases hother : other = source
      · subst hother
        rw [Function.update_self]
        exact List.prefix_append _ _
      · simp only [Function.update_of_ne hother, List.prefix_rfl]

theorem disturb_grows (w : StreamWorld) (event : StreamEvent) :
    Grows w (d.disturb w event) := by
  have hspared := @disturb_spared d w event
  refine ⟨(disturb_applies w event).ledgerStep, hspared.log, ?_, ?_, ?_, ?_, ?_, ?_⟩
  · rw [hspared.deadLetters]
    exact fun _ h => h
  · rw [hspared.rejected]
    exact fun _ h => h
  · rw [hspared.process]
    exact fun _ => Nat.le_refl _
  · rw [hspared.process]
    exact fun _ h => h
  · rw [hspared.served]
    exact fun _ h => h
  · rw [hspared.stagedUnserved]
    exact fun _ h => h

/-- A claimed append job is stored, and its attempt has nothing in hand. -/
theorem claimedAttempt?_covers {config : Config} {db : Database} {call : Call} {a : Attempt}
    (h : claimedAttempt? config db call = some a) (history : AppendHistory) (k : Nat) :
    AttemptCovers (call.apply config db) history k a := by
  cases call with
  | claimPass owner now locked token =>
      unfold claimedAttempt? at h
      dsimp only at h
      split at h
      · rename_i job hclaimed
        split at h
        · rename_i happend
          cases h
          exact ⟨⟨job, (claimPass_claimed hclaimed).1, rfl, rfl⟩, happend, trivial⟩
        · cases h
      · cases h
      · cases h
  | createBackfill | createMaterialization | createHistoricalQuery
  | createIncrementalMaterialization | cancel | retry | heartbeat | commitCheckpoints
  | finalizeSuccess | finalizeFailure | register | stageBatch => cases h

theorem BackendSound.disturb (h : BackendSound w.backend w.drawn) (event : StreamEvent) :
    BackendSound (d.disturb w event).backend w.drawn := by
  cases event with
  | call call =>
      unfold StreamDeployment.disturb
      dsimp only
      split
      · rename_i hforeign
        refine h.transaction (Call.commit d.config w.db call) hforeign.2 hforeign.outside
          (.refl _) ?_ ?_
        · rintro job token now resultUri resultMetadata rfl happend
          exact absurd happend hforeign.not_append
        · intro k a ha
          rw [List.getElem?_append] at ha
          split at ha
          · exact Or.inl ha
          · have hclaimed := Option.mem_toList.mp (List.mem_of_getElem? ha)
            exact Or.inr (claimedAttempt?_covers hclaimed _ k)
      · exact h
  | statement k now =>
      unfold StreamDeployment.disturb AppendBackend.advance
      dsimp only
      split
      · exact h
      · rename_i a ha
        exact h.statement ha Attempt.advance_statement
  | raise k exc =>
      unfold StreamDeployment.disturb
      dsimp only
      split
      · exact h
      · rename_i a ha
        refine h.of_same_db rfl (fun _ _ => rfl) (fun _ hid => hid)
          (fun _ hsome => Or.inl hsome) (.refl _) ?_
        intro i x hx
        refine (getElem?_set_or hx).imp_right ?_
        rintro ⟨rfl, rfl⟩
        exact (h.attempts ha).raise exc
  | writeView viewRef table =>
      exact h.of_same_db rfl (fun _ _ => rfl) (fun _ hid => hid)
        (fun _ hsome => Or.inl hsome) (.refl _) Or.inl
  | upsert | produce | register => exact h

/-- No event gives a staging location to a job, or deletes an unclaimed one. -/
theorem disturb_unclaimed (h : BackendSound w.backend w.drawn) (event : StreamEvent)
    {stagingUri : StagingUri} (hunclaimed : Unclaimed w.db stagingUri) :
    Unclaimed (d.disturb w event).db stagingUri ∧
      (d.disturb w event).backend.warehouse.staging stagingUri =
        w.backend.warehouse.staging stagingUri := by
  cases event with
  | call call =>
      unfold StreamDeployment.disturb
      dsimp only
      split
      · rename_i hforeign
        have hcommit := Call.commit d.config w.db call
        exact ⟨fun jobId happend => hunclaimed jobId (happend.origin hcommit hforeign.outside),
          rfl⟩
      · exact ⟨hunclaimed, rfl⟩
  | statement k now =>
      unfold StreamDeployment.disturb AppendBackend.advance
      dsimp only
      split
      · exact ⟨hunclaimed, rfl⟩
      · rename_i a ha
        have hcovers := h.attempts ha
        have hstatement : Statement d.config d.canonicalRow w.backend.warehouse a now _ _ :=
          Attempt.advance_statement
        obtain ⟨call, houtside, hcommit⟩ := hstatement.commit
        exact ⟨fun jobId happend => hunclaimed jobId (happend.origin hcommit houtside),
          hstatement.unclaimed_staging hcovers.copy hcovers.append hunclaimed⟩
  | raise k exc =>
      unfold StreamDeployment.disturb
      dsimp only
      split <;> exact ⟨hunclaimed, rfl⟩
  | writeView | upsert | produce | register => exact ⟨hunclaimed, rfl⟩

/-- No event of another process disturbs the consumer. -/
theorem Core.disturb (h : Core d w) (event : StreamEvent) : Quiet d w (d.disturb w event) := by
  have hgrows := @disturb_grows d w event
  have hspared := @disturb_spared d w event
  refine ⟨⟨⟨?_, h.committed_grows hgrows hspared.committed, ?_⟩, hgrows, ?_, ?_⟩, ?_, ?_⟩
  · rw [hspared.drawn]
    exact h.backend.disturb event
  · intro record hrecord hstate
    obtain ⟨before, hbefore, hbeforeState, hpayload, hidentity⟩ :=
      (disturb_applies w event).settled_origin hrecord hstate
    rw [← hpayload, ← hidentity, hspared.served, hspared.stagedUnserved]
    exact h.online before hbefore hbeforeState
  · rw [hspared.process]
  · rw [hspared.process]
  · rw [hspared.drawn]
    exact fun _ hid => hid
  · exact fun stagingUri hunclaimed => disturb_unclaimed h.backend event hunclaimed

end FeatureStore
