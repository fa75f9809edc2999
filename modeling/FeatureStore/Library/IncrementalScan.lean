import Mathlib.Data.Set.Basic
import Mathlib.Order.Defs.LinearOrder

/-!
# Incremental scans

A table is scanned again and again, each time in a window of times. A scan that
does not start from the beginning resumes behind the cutoff of an earlier one, far
enough to meet every row that has arrived since. Then no row before a cutoff has
been left out.
-/

namespace IncrementalScan

/-- A completed scan: its window, and the rows that were present. -/
structure Scan (τ ρ : Type*) where
  start : Option τ
  cutoff : τ
  present : Set ρ

variable {τ ρ : Type*} [LinearOrder τ] {time : ρ → τ}

/-- The row was present and its time is in the window. -/
def Scan.Processes (time : ρ → τ) (scan : Scan τ ρ) (row : ρ) : Prop :=
  row ∈ scan.present ∧ (∀ start, scan.start = some start → start ≤ time row) ∧
    time row < scan.cutoff

/-- The scan starts from the beginning, or not after the cutoff of an earlier scan
and not after any row that this one had not met. -/
def Resumes (time : ρ → τ) (scan : Scan τ ρ) (earlier : List (Scan τ ρ)) : Prop :=
  scan.start = none ∨ ∃ prior ∈ earlier, ∃ start, scan.start = some start ∧
    start ≤ prior.cutoff ∧ ∀ row ∈ scan.present, row ∉ prior.present → start ≤ time row

/-- A history of scans, the latest first. -/
def History (time : ρ → τ) : List (Scan τ ρ) → Prop
  | [] => True
  | scan :: earlier => Resumes time scan earlier ∧ History time earlier

/-- Every row that a scan found before its cutoff has been processed, by this scan
or by an earlier one. -/
theorem History.processed {scans : List (Scan τ ρ)} (h : History time scans) :
    ∀ scan ∈ scans, ∀ row ∈ scan.present, time row < scan.cutoff →
      ∃ scan ∈ scans, scan.Processes time row := by
  induction scans with
  | nil =>
      intro scan hscan
      cases hscan
  | cons latest earlier ih =>
      intro scan hscan row hrow hcutoff
      have hearlier : ∀ prior ∈ earlier, row ∈ prior.present → time row < prior.cutoff →
          ∃ scan ∈ latest :: earlier, scan.Processes time row := by
        intro prior hprior hpresent hbefore
        obtain ⟨scan, hscan, hprocesses⟩ := ih h.2 prior hprior row hpresent hbefore
        exact ⟨scan, List.mem_cons_of_mem latest hscan, hprocesses⟩
      rcases List.mem_cons.mp hscan with rfl | hscan
      · rcases h.1 with hnone | ⟨prior, hprior, start, hstart, hle, harrived⟩
        · have hprocesses : scan.Processes time row := by
            refine ⟨hrow, ?_, hcutoff⟩
            intro start hstart
            cases hnone.symm.trans hstart
          exact ⟨scan, List.mem_cons_self, hprocesses⟩
        · by_cases hwindow : start ≤ time row
          · have hprocesses : scan.Processes time row := by
              refine ⟨hrow, ?_, hcutoff⟩
              intro other hother
              cases hstart.symm.trans hother
              exact hwindow
            exact ⟨scan, List.mem_cons_self, hprocesses⟩
          · -- A row behind the window was already there at the earlier scan.
            have hpresent : row ∈ prior.present := by
              by_contra hmissing
              exact hwindow (harrived row hrow hmissing)
            exact hearlier prior hprior hpresent
              (lt_of_lt_of_le (lt_of_not_ge hwindow) hle)
      · exact hearlier scan hscan hrow hcutoff

end IncrementalScan
