import FeatureStore.BackfillProgress

/-!
# The frame of a backfill

What a backfill leaves alone, and what leaves a backfill alone: it keeps the rows of the view
outside its range, and the transactions of others keep its checkpoints and its result.
-/

namespace FeatureStore

open Relational

section Interference

variable {config : Config} {s : JobSystem} {action : JobAction} {row row' : JobRecord}

/-- The actions that write the checkpoints or the success of a job. -/
def JobAction.writesProgress (jobId : Uuid) : JobAction → Bool
  | .call (.commitCheckpoints job _ _ _) | .call (.finalizeSuccess job _ _ _ _) =>
      decide (job.id = jobId)
  | _ => false

theorem RowStep.progress_kept (h : RowStep config s action row row')
    (hother : action.writesProgress row.id = false) :
    row'.payload = row.payload ∧ row'.checkpoints = row.checkpoints ∧
      (row'.status = .succeeded →
        row.status = .succeeded ∧ row'.resultMetadata = row.resultMetadata) := by
  cases h with
  | kept | renewed | cleaned => exact ⟨rfl, rfl, fun hsucceeded => ⟨hsucceeded, rfl⟩⟩
  | cancelled | retried | exhausted | claimed => exact ⟨rfl, rfl, nofun⟩
  | checkpointed _ _ _ _ _ same | succeeded _ _ _ _ _ _ same =>
      exact absurd same (of_decide_eq_false hother)
  | failed job _ _ exc =>
      exact ⟨rfl, rfl, fun hsucceeded => absurd hsucceeded (failureStatus_ne (by decide))⟩

/-- Every other action of clients and workers may interfere with a backfill. -/
theorem step_keepsJob (config : Config) (s : JobSystem) (action : JobAction) {jobId : Uuid}
    (hother : action.writesProgress jobId = false) :
    keepsJob jobId s.db (s.step config action).db = true := by
  rw [keepsJob]
  cases hrow : s.db.jobs.find? jobId with
  | none => rfl
  | some row =>
      obtain ⟨row', hrow', hstep⟩ := s.step_row config action hrow
      obtain ⟨hpayload, hcheckpoints, hsucceeded⟩ :=
        hstep.progress_kept (Table.key_of_find? hrow ▸ hother)
      rw [Option.all_some, hrow', Option.any_some]
      simp only [Bool.and_eq_true, decide_eq_true_eq]
      exact ⟨⟨⟨hstep.kind_eq, hpayload⟩, hcheckpoints⟩, hsucceeded⟩

end Interference

/-- Whatever the batch SQL gives and wherever attempts end, a backfill keeps the rows of the view
outside its range, and every row of the view is in the partition of its UTC date. -/
theorem backfill_keeps_other_rows (s : BackfillJob) (actions : List BackfillAction) :
    ((OfflineStore.load (s.run actions).view).filter fun row =>
        decide (row.eventTimestamp < s.request.start) ||
          decide (s.request.endAt ≤ row.eventTimestamp)).Perm
      ((OfflineStore.load s.initial).filter fun row =>
        decide (row.eventTimestamp < s.request.start) ||
          decide (s.request.endAt ≤ row.eventTimestamp)) ∧
      ∀ row ∈ OfflineStore.load (s.run actions).view,
        row.eventDate = dateOf row.eventTimestamp := by
  have houtside : s.outside = fun row : OfflineRow =>
      decide (row.eventTimestamp < s.request.start) ||
        decide (s.request.endAt ≤ row.eventTimestamp) := by
    funext row
    rw [BackfillJob.outside, BackfillJob.plan_range.1, BackfillJob.plan_range.2]
  refine ⟨?_, fun row _ => row.eventDate_eq⟩
  rw [← houtside]
  exact (s.run_sound actions).view.outside

end FeatureStore
