import FeatureStore.ControlPlane
import Mathlib.Data.Prod.Lex

/-!
# What `claim_next` does

Each pass of the loop looks at the first eligible row alone. Together the passes exhaust the
eligible rows without attempts left up to the first one that has some, and claim that one.
-/

namespace FeatureStore

open Relational

/-- `claim_next` without interference, run for at most the given number of passes. -/
def claimNext (settings : Settings) (owner : String) (now : Instant) (token : Uuid) :
    Nat → Database → Option (Database × Option JobRecord)
  | 0, _ => none
  | passes + 1, db =>
      match claimPass settings db owner now [] token with
      | (committed, .nothing) => some (committed, none)
      | (committed, .claimed job) => some (committed, some job)
      | (committed, .next) => claimNext settings owner now token passes committed

namespace JobRecord

/-- An eligible row with attempts left. -/
def claimable (row : JobRecord) (now : Instant) : Bool :=
  row.eligible now && decide ((row.attemptCount : Int) < row.maxAttempts)

/-- An eligible row without attempts left. -/
def spent (row : JobRecord) (now : Instant) : Bool :=
  row.eligible now && decide (row.maxAttempts ≤ row.attemptCount)

/-- The reservation of an incremental job, which a release ends. -/
def reserves (row : JobRecord) (state : MaterializationState) : Bool :=
  row.incremental?.any fun (featureView, _) =>
    decide (state.featureView = featureView) && decide (state.activeJobId = some row.id)

/-- The order of the queue is the lexicographic one. -/
theorem queueOrder_iff (a b : JobRecord) :
    a.queueOrder b ↔ toLex (a.createdAt, a.id) ≤ toLex (b.createdAt, b.id) := by
  rw [Prod.Lex.toLex_le_toLex, queueOrder]

instance : Std.Total queueOrder where
  total a b := by
    rw [queueOrder_iff, queueOrder_iff]
    exact le_total _ _

instance : IsTrans JobRecord queueOrder where
  trans a b c := by
    rw [queueOrder_iff, queueOrder_iff, queueOrder_iff]
    exact le_trans

theorem queueOrder_antisymm (a b : JobRecord) (hab : a.queueOrder b) (hba : b.queueOrder a) :
    a.id = b.id := by
  rw [queueOrder_iff] at hab hba
  have hpair := le_antisymm hab hba
  rw [toLex_inj, Prod.mk.injEq] at hpair
  exact hpair.2

theorem claimable_or_spent {row : JobRecord} {now : Instant} (h : row.eligible now = true) :
    (row.claimable now = true ∧ row.spent now = false) ∨
      (row.claimable now = false ∧ row.spent now = true) := by
  simp only [claimable, spent, h, Bool.true_and, decide_eq_true_eq, decide_eq_false_iff_not]
  omega

theorem eligible_of_claimable {row : JobRecord} {now : Instant} (h : row.claimable now = true) :
    row.eligible now = true :=
  (Bool.and_eq_true_iff.mp h).1

theorem eligible_of_spent {row : JobRecord} {now : Instant} (h : row.spent now = true) :
    row.eligible now = true :=
  (Bool.and_eq_true_iff.mp h).1

end JobRecord

theorem released_featureView (now : Instant) (state : MaterializationState) :
    { state with activeJobId := none, updatedAt := now }.featureView = state.featureView :=
  rfl

/-- The SET clause of a release. -/
def setReleased (now : Instant) :
    Assignment MaterializationState.featureView MaterializationState.featureView :=
  setState (fun state => { state with activeJobId := none, updatedAt := now })
    (released_featureView now)

section Specification

variable (settings : Settings) (db : Database) (owner : String) (now : Instant) (token : Uuid)

/-- The first eligible job with attempts left. -/
def firstClaimable : Option JobRecord :=
  db.jobs.selectFirst (fun row => row.claimable now) JobRecord.queueOrder

/-- The jobs to exhaust: eligible, without attempts left, and before the first job that has
some. -/
def exhausts (row : JobRecord) : Bool :=
  row.spent now && (firstClaimable db now).all fun first => decide (row.queueOrder first)

def exhaustedJob (row : JobRecord) : JobRecord := (setExhausted settings row now).set row

def claimedJob (row : JobRecord) : JobRecord :=
  (setClaimed settings row owner token now).set row

/-- What `claim_next` makes of a row. -/
def afterClaim (row : JobRecord) : JobRecord :=
  if exhausts db now row then exhaustedJob settings now row
  else if (firstClaimable db now).any fun first => decide (first.id = row.id) then
    claimedJob settings owner now token row
  else row

theorem afterClaim_id (row : JobRecord) :
    (afterClaim settings db owner now token row).id = row.id := by
  unfold afterClaim
  split
  · rfl
  · split <;> rfl

/-- What `claim_next` leaves behind: every row after its own change, and the reservations of
the exhausted jobs released. -/
def afterClaims : Database where
  jobs := db.jobs.update (fun _ => true)
    (setJob (afterClaim settings db owner now token) (afterClaim_id settings db owner now token))
  materializationStates := db.materializationStates.update
    (fun state => (db.jobs.select (exhausts db now)).any fun row => row.reserves state)
    (setReleased now)
  streamEvents := db.streamEvents

end Specification

section Candidates

variable {settings : Settings} {db : Database} {owner : String} {now : Instant} {token : Uuid}
variable {candidate row : JobRecord}

theorem claimCandidate_none (h : claimCandidate db [] now = none) (hrow : row ∈ db.jobs.rows) :
    row.eligible now = false := by
  simpa using Table.selectFirst_eq_none_iff.mp h row hrow

theorem claimCandidate_le (h : claimCandidate db [] now = some candidate)
    (hrow : row ∈ db.jobs.rows) (heligible : row.eligible now = true) :
    candidate.queueOrder row :=
  Table.selectFirst_le h hrow (by simp [heligible])

theorem firstClaimable_eq_some_iff {first : JobRecord} :
    firstClaimable db now = some first ↔
      first ∈ db.jobs.rows ∧ first.claimable now = true ∧
        ∀ row ∈ db.jobs.rows, row.claimable now = true → first.queueOrder row := by
  constructor
  · intro h
    obtain ⟨hmem, hclaimable⟩ := Table.mem_of_selectFirst h
    exact ⟨hmem, hclaimable, fun row hrow hguard => Table.selectFirst_le h hrow hguard⟩
  · rintro ⟨hmem, hclaimable, hle⟩
    exact Table.selectFirst_eq JobRecord.queueOrder_antisymm hmem hclaimable hle

/-- The first eligible row with attempts left is the first eligible row, when that has some. -/
theorem firstClaimable_of_candidate (h : claimCandidate db [] now = some candidate)
    (hclaimable : candidate.claimable now = true) : firstClaimable db now = some candidate := by
  obtain ⟨hstored, -⟩ := claimCandidate_stored h
  refine firstClaimable_eq_some_iff.mpr ⟨Table.mem_of_find? hstored, hclaimable, ?_⟩
  intro row hrow hguard
  exact claimCandidate_le h hrow (JobRecord.eligible_of_claimable hguard)

/-- Nothing is exhausted while the first eligible row has attempts left. -/
theorem exhausts_of_claimable (h : claimCandidate db [] now = some candidate)
    (hclaimable : candidate.claimable now = true) (hrow : row ∈ db.jobs.rows) :
    exhausts db now row = false := by
  obtain ⟨hstored, heligible⟩ := claimCandidate_stored h
  rw [exhausts, firstClaimable_of_candidate h hclaimable, Option.all_some]
  by_contra hexhausts
  obtain ⟨hspent, hbefore⟩ := Bool.and_eq_true_iff.mp (Bool.not_eq_false _ ▸ hexhausts)
  have hafter := claimCandidate_le h hrow (JobRecord.eligible_of_spent hspent)
  have hid := JobRecord.queueOrder_antisymm _ _ (of_decide_eq_true hbefore) hafter
  obtain rfl : row = candidate :=
    Option.some.inj ((Table.find?_of_mem hrow).symm.trans (hid ▸ hstored))
  cases JobRecord.claimable_or_spent heligible with
  | inl hcases => simp [hcases.2] at hspent
  | inr hcases => simp [hcases.1] at hclaimable

/-- The first eligible row is exhausted, when it has no attempts left. -/
theorem exhausts_candidate (h : claimCandidate db [] now = some candidate)
    (hspent : candidate.spent now = true) : exhausts db now candidate = true := by
  rw [exhausts, hspent, Bool.true_and]
  cases hfirst : firstClaimable db now with
  | none => rfl
  | some first =>
      obtain ⟨hmem, hclaimable⟩ := Table.mem_of_selectFirst hfirst
      exact decide_eq_true (claimCandidate_le h hmem (JobRecord.eligible_of_claimable hclaimable))

theorem firstClaimable_id_ne (hmem : candidate ∈ db.jobs.rows)
    (hspent : candidate.spent now = true) :
    ((firstClaimable db now).any fun first => decide (first.id = candidate.id)) = false := by
  cases hfirst : firstClaimable db now with
  | none => rfl
  | some first =>
      obtain ⟨hstored, hclaimable⟩ := Table.mem_of_selectFirst hfirst
      rw [Option.any_some, decide_eq_false_iff_not]
      intro hid
      obtain rfl : first = candidate :=
        Option.some.inj ((Table.find?_of_mem hstored).symm.trans (hid ▸ Table.find?_of_mem hmem))
      cases JobRecord.claimable_or_spent (JobRecord.eligible_of_spent hspent) with
      | inl hcases => simp [hcases.2] at hspent
      | inr hcases => simp [hcases.1] at hclaimable

end Candidates

section Passes

variable {settings : Settings} {db : Database} {owner : String} {now : Instant} {token : Uuid}
variable {candidate row : JobRecord}

theorem releaseIncrementalReservation_eq (db : Database) (job : JobRecord) (now : Instant) :
    releaseIncrementalReservation db job now =
      { db with
        materializationStates :=
          db.materializationStates.update job.reserves (setReleased now) } := by
  unfold releaseIncrementalReservation
  cases hincremental : job.incremental? with
  | none =>
      have hnone : ∀ state ∈ db.materializationStates.rows, job.reserves state = false := by
        intro state hstate
        rw [JobRecord.reserves, hincremental, Option.any_none]
      rw [Table.update_eq_self _ hnone]
  | some view =>
      have hsame : job.reserves = fun state =>
          decide (state.featureView = view.1) && decide (state.activeJobId = some job.id) := by
        funext state
        rw [JobRecord.reserves, hincremental, Option.any_some]
      rw [hsame]
      rfl

/-- The database after a pass that exhausts the row it selected. -/
def exhaustedDatabase (settings : Settings) (db : Database) (candidate : JobRecord)
    (now : Instant) : Database :=
  releaseIncrementalReservation
    { db with jobs := db.jobs.modify candidate.id (setExhausted settings candidate now) }
    candidate now

theorem claimPass_nothing (h : claimCandidate db [] now = none) :
    claimPass settings db owner now [] token = (db, .nothing) := by
  rw [claimPass, h]

theorem claimPass_spent (h : claimCandidate db [] now = some candidate)
    (hspent : candidate.spent now = true) :
    claimPass settings db owner now [] token =
      (exhaustedDatabase settings db candidate now, .next) := by
  obtain ⟨hstored, -⟩ := claimCandidate_stored h
  obtain ⟨heligible, hbudget⟩ := Bool.and_eq_true_iff.mp hspent
  obtain ⟨hcount, hupdate⟩ := Table.update_hit
    (fun row : JobRecord => row.eligible now && decide (row.maxAttempts ≤ row.attemptCount))
    hstored hspent
  rw [claimPass, h]
  dsimp only
  rw [if_pos (of_decide_eq_true hbudget), if_neg hcount, hupdate, exhaustedDatabase]

theorem claimPass_claims (h : claimCandidate db [] now = some candidate)
    (hclaimable : candidate.claimable now = true) :
    claimPass settings db owner now [] token =
      ({ db with
          jobs := db.jobs.modify candidate.id (setClaimed settings candidate owner token now) },
        .claimed (claimedJob settings owner now token candidate)) := by
  obtain ⟨hstored, -⟩ := claimCandidate_stored h
  obtain ⟨heligible, hbudget⟩ := Bool.and_eq_true_iff.mp hclaimable
  have hleft : ¬candidate.maxAttempts ≤ candidate.attemptCount := by
    have hlt := of_decide_eq_true hbudget
    omega
  obtain ⟨hcount, hupdate⟩ := Table.update_hit
    (fun row : JobRecord => row.eligible now && decide ((row.attemptCount : Int) < row.maxAttempts))
    hstored hclaimable
  rw [claimPass, h]
  dsimp only
  rw [if_neg hleft, if_neg hcount, hupdate, Table.find?_modify_self, hstored, Option.map_some,
    claimedJob]

@[simp] theorem exhaustedDatabase_jobs (settings : Settings) (db : Database)
    (candidate : JobRecord) (now : Instant) :
    (exhaustedDatabase settings db candidate now).jobs =
      db.jobs.modify candidate.id (setExhausted settings candidate now) :=
  releaseIncrementalReservation_jobs _ _ _

@[simp] theorem exhaustedDatabase_states (settings : Settings) (db : Database)
    (candidate : JobRecord) (now : Instant) :
    (exhaustedDatabase settings db candidate now).materializationStates =
      db.materializationStates.update candidate.reserves (setReleased now) := by
  rw [exhaustedDatabase, releaseIncrementalReservation_eq]

/-- Exhausting a row leaves the first row with attempts left where it is. -/
theorem exhaustedDatabase_firstClaimable (h : claimCandidate db [] now = some candidate)
    (hspent : candidate.spent now = true) :
    firstClaimable (exhaustedDatabase settings db candidate now) now = firstClaimable db now := by
  obtain ⟨hstored, heligible⟩ := claimCandidate_stored h
  have hclaimable : candidate.claimable now = false := by
    cases JobRecord.claimable_or_spent heligible with
    | inl hcases => simp [hcases.2] at hspent
    | inr hcases => exact hcases.1
  rw [firstClaimable, firstClaimable, exhaustedDatabase_jobs, Table.selectFirst,
    Table.select_modify hstored hclaimable rfl, Table.selectFirst]

theorem exhaustedDatabase_exhausts (h : claimCandidate db [] now = some candidate)
    (hspent : candidate.spent now = true) :
    exhausts (exhaustedDatabase settings db candidate now) now = exhausts db now := by
  funext row
  rw [exhausts, exhausts, exhaustedDatabase_firstClaimable h hspent]

/-- The row of the candidate is settled; every other row is still to be handled. -/
theorem afterClaim_exhaustedDatabase (h : claimCandidate db [] now = some candidate)
    (hspent : candidate.spent now = true) (hrow : row ∈ db.jobs.rows) :
    afterClaim settings (exhaustedDatabase settings db candidate now) owner now token
        (if decide (row.id = candidate.id) then (setExhausted settings candidate now).set row
          else row) =
      afterClaim settings db owner now token row := by
  obtain ⟨hstored, -⟩ := claimCandidate_stored h
  by_cases hid : row.id = candidate.id
  · obtain rfl : row = candidate :=
      Option.some.inj ((Table.find?_of_mem hrow).symm.trans (hid ▸ hstored))
    have hsettled : exhausts db now ((setExhausted settings row now).set row) = false := rfl
    have hother := firstClaimable_id_ne hrow hspent
    rw [decide_eq_true hid, if_pos rfl, afterClaim, afterClaim, exhaustedDatabase_exhausts h hspent,
      exhaustedDatabase_firstClaimable h hspent, exhausts_candidate h hspent, if_pos rfl, hsettled,
      if_neg (by simp)]
    exact if_neg (by simp [setExhausted, setJob, JobRecord.unleased, hother])
  · rw [decide_eq_false hid, if_neg (by simp), afterClaim, afterClaim,
      exhaustedDatabase_exhausts h hspent, exhaustedDatabase_firstClaimable h hspent]

/-- The reservations still to be released after a pass are the others. -/
theorem exhaustedDatabase_reserves (h : claimCandidate db [] now = some candidate)
    (hspent : candidate.spent now = true) (state : MaterializationState) :
    ((db.jobs.select (exhausts db now)).any fun row => row.reserves state) =
      (candidate.reserves state ||
        (((exhaustedDatabase settings db candidate now).jobs.select
          (exhausts (exhaustedDatabase settings db candidate now) now)).any
            fun row => row.reserves state)) := by
  obtain ⟨hstored, -⟩ := claimCandidate_stored h
  have hmem := Table.mem_of_find? hstored
  rw [exhaustedDatabase_exhausts h hspent, exhaustedDatabase_jobs, Bool.eq_iff_iff, Bool.or_eq_true,
    List.any_eq_true, List.any_eq_true]
  constructor
  · rintro ⟨row, hselect, hreserves⟩
    obtain ⟨hrow, hexhausts⟩ := (Table.mem_select _ _ _).mp hselect
    by_cases hid : row.id = candidate.id
    · obtain rfl : row = candidate :=
        Option.some.inj ((Table.find?_of_mem hrow).symm.trans (hid ▸ hstored))
      exact Or.inl hreserves
    · refine Or.inr ⟨row, (Table.mem_select _ _ _).mpr ⟨?_, hexhausts⟩, hreserves⟩
      exact List.mem_map.mpr ⟨row, hrow, by simp [hid]⟩
  · rintro (hreserves | ⟨row, hselect, hreserves⟩)
    · exact ⟨candidate, (Table.mem_select _ _ _).mpr ⟨hmem, exhausts_candidate h hspent⟩,
        hreserves⟩
    · obtain ⟨hrow, hexhausts⟩ := (Table.mem_select _ _ _).mp hselect
      obtain ⟨stored, hmemStored, rfl⟩ := List.mem_map.mp hrow
      by_cases hid : stored.id = candidate.id
      · simp only [hid, decide_true, if_true] at hexhausts
        cases hexhausts
      · simp only [hid, decide_false, Bool.false_eq_true, if_false] at hexhausts hreserves
        exact ⟨stored, (Table.mem_select _ _ _).mpr ⟨hmemStored, hexhausts⟩, hreserves⟩

/-- What the loop will have done is the same before and after a pass that exhausts. -/
theorem afterClaims_exhaustedDatabase (h : claimCandidate db [] now = some candidate)
    (hspent : candidate.spent now = true) :
    afterClaims settings (exhaustedDatabase settings db candidate now) owner now token =
      afterClaims settings db owner now token := by
  have hjobs : (afterClaims settings (exhaustedDatabase settings db candidate now) owner now
      token).jobs = (afterClaims settings db owner now token).jobs := by
    apply Table.ext
    rw [afterClaims, afterClaims, exhaustedDatabase_jobs]
    simp only [Table.modify, Table.update_rows, List.map_map, if_true]
    exact List.map_congr_left fun row hrow => afterClaim_exhaustedDatabase h hspent hrow
  have hstates : (afterClaims settings (exhaustedDatabase settings db candidate now) owner now
      token).materializationStates =
        (afterClaims settings db owner now token).materializationStates := by
    have hreleased : ∀ state, candidate.reserves state = true →
        ((exhaustedDatabase settings db candidate now).jobs.select
          (exhausts (exhaustedDatabase settings db candidate now) now)).any
            (fun row => row.reserves ((setReleased now).set state)) = false := by
      intro state hreserves
      rw [List.any_eq_false]
      intro row hrow
      simp [JobRecord.reserves, setReleased, setState]
    rw [afterClaims, afterClaims]
    dsimp only
    rw [exhaustedDatabase_states, Table.update_update hreleased]
    exact Table.update_congr _ fun state _ => (exhaustedDatabase_reserves h hspent state).symm
  have hevents : (exhaustedDatabase settings db candidate now).streamEvents = db.streamEvents :=
    releaseIncrementalReservation_streamEvents _ _ _
  exact (Database.mk.injEq _ _ _ _ _ _).mpr ⟨hjobs, hstates, hevents⟩

theorem exhaustedDatabase_spent_lt (h : claimCandidate db [] now = some candidate)
    (hspent : candidate.spent now = true) :
    (exhaustedDatabase settings db candidate now).jobs.rowcount (fun row => row.spent now) <
      db.jobs.rowcount (fun row => row.spent now) := by
  obtain ⟨hstored, -⟩ := claimCandidate_stored h
  rw [exhaustedDatabase_jobs]
  exact Table.rowcount_modify_lt hstored hspent rfl

theorem firstClaimable_none (h : claimCandidate db [] now = none) :
    firstClaimable db now = none := by
  apply Table.selectFirst_eq_none_iff.mpr
  intro row hrow
  rw [JobRecord.claimable, claimCandidate_none h hrow, Bool.false_and]

/-- Without an exhausted row, the claimed one is all that changes. -/
theorem afterClaims_of_no_exhausts (h : ∀ row ∈ db.jobs.rows, exhausts db now row = false) :
    afterClaims settings db owner now token =
      { db with
        jobs := db.jobs.update
          (fun row => (firstClaimable db now).any fun first => decide (first.id = row.id))
          (setJob (claimedJob settings owner now token)) } := by
  have hjobs : (afterClaims settings db owner now token).jobs = db.jobs.update
      (fun row => (firstClaimable db now).any fun first => decide (first.id = row.id))
      (setJob (claimedJob settings owner now token)) := by
    apply Table.ext
    rw [afterClaims]
    simp only [Table.update_rows, if_true]
    apply List.map_congr_left
    intro row hrow
    exact if_neg (by rw [h row hrow]; exact nofun)
  have hstates : (afterClaims settings db owner now token).materializationStates =
      db.materializationStates := by
    apply Table.update_eq_self
    intro state hstate
    rw [List.any_eq_false]
    intro row hselect
    obtain ⟨hrow, hexhausts⟩ := (Table.mem_select _ _ _).mp hselect
    rw [h row hrow] at hexhausts
    cases hexhausts
  exact (Database.mk.injEq _ _ _ _ _ _).mpr ⟨hjobs, hstates, rfl⟩

theorem afterClaims_of_nothing (h : claimCandidate db [] now = none) :
    afterClaims settings db owner now token = db := by
  rw [afterClaims_of_no_exhausts]
  · rw [firstClaimable_none h, Table.update_eq_self]
    intro row hrow
    rfl
  · intro row hrow
    rw [exhausts, JobRecord.spent, claimCandidate_none h hrow, Bool.false_and, Bool.false_and]

theorem afterClaims_of_claimable (h : claimCandidate db [] now = some candidate)
    (hclaimable : candidate.claimable now = true) :
    afterClaims settings db owner now token =
      { db with
        jobs := db.jobs.modify candidate.id
          (setClaimed settings candidate owner token now) } := by
  obtain ⟨hstored, -⟩ := claimCandidate_stored h
  rw [afterClaims_of_no_exhausts fun row hrow => exhausts_of_claimable h hclaimable hrow,
    firstClaimable_of_candidate h hclaimable]
  have hjobs : db.jobs.update
      (fun row => (some candidate).any fun first => decide (first.id = row.id))
      (setJob (claimedJob settings owner now token)) =
        db.jobs.modify candidate.id (setJob (claimedJob settings owner now token)) :=
    Table.update_congr _ fun row _ => by simp [eq_comm]
  have hset : db.jobs.modify candidate.id (setJob (claimedJob settings owner now token)) =
      db.jobs.modify candidate.id (setClaimed settings candidate owner token now) := by
    apply Table.modify_congr
    intro row hrow
    obtain rfl := Option.some.inj (hstored.symm.trans hrow)
    rfl
  rw [hjobs, hset]

/-- The loop ends after one pass for each row it can exhaust and one more. -/
theorem claimNext_of_passes (passes : Nat)
    (h : db.jobs.rowcount (fun row => row.spent now) < passes) :
    claimNext settings owner now token passes db =
      some (afterClaims settings db owner now token,
        (firstClaimable db now).map (claimedJob settings owner now token)) := by
  induction passes generalizing db with
  | zero => omega
  | succ passes ih =>
      rw [claimNext]
      cases hcandidate : claimCandidate db [] now with
      | none =>
          rw [claimPass_nothing hcandidate, afterClaims_of_nothing hcandidate,
            firstClaimable_none hcandidate, Option.map_none]
      | some candidate =>
          obtain ⟨-, heligible⟩ := claimCandidate_stored hcandidate
          cases JobRecord.claimable_or_spent heligible with
          | inl hcases =>
              rw [claimPass_claims hcandidate hcases.1,
                afterClaims_of_claimable hcandidate hcases.1,
                firstClaimable_of_candidate hcandidate hcases.1, Option.map_some]
          | inr hcases =>
              have hlt : (exhaustedDatabase settings db candidate now).jobs.rowcount _ < _ :=
                exhaustedDatabase_spent_lt hcandidate hcases.2
              rw [claimPass_spent hcandidate hcases.2]
              dsimp only
              rw [ih (by omega), afterClaims_exhaustedDatabase hcandidate hcases.2,
                exhaustedDatabase_firstClaimable hcandidate hcases.2]

end Passes

/-- `claim_next` ends, whatever the table and the clock: the exhausted jobs are the eligible
ones without attempts left before the first job that has some, that job is claimed and
returned, and the reservations released are those of the exhausted jobs. -/
theorem claim_next_exhausts_and_claims (settings : Settings) (db : Database) (owner : String)
    (now : Instant) (token : Uuid) (more : Nat) :
    claimNext settings owner now token
        (db.jobs.rowcount (fun row => row.spent now) + 1 + more) db =
      some (afterClaims settings db owner now token,
        (firstClaimable db now).map (claimedJob settings owner now token)) :=
  claimNext_of_passes _ (by omega)

end FeatureStore
