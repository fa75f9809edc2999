import Mathlib.Algebra.GroupWithZero.Nat
import Mathlib.Data.List.Lex
import Mathlib.Data.Nat.Basic

/-!
# The proleptic Gregorian calendar

Civil dates and times of day from a count of microseconds since the start of
year 1. The calendar fields, most significant first, are ordered as the counts.
-/

namespace Calendar

def isLeap (year : Nat) : Bool :=
  year % 4 == 0 && (year % 100 != 0 || year % 400 == 0)

/-- The number of days before January 1 of a year. -/
def daysBeforeYear (year : Nat) : Nat :=
  (year - 1) * 365 + (year - 1) / 4 + (year - 1) / 400 - (year - 1) / 100

/-- The year of a day, by cycles of 400, 100, 4 and 1 years. -/
def yearOf (day : Nat) : Nat :=
  let inCycle := day % 146097
  let centuries := min 3 (inCycle / 36524)
  let inCentury := inCycle - centuries * 36524
  let years := min 3 (inCentury % 1461 / 365)
  400 * (day / 146097) + 100 * centuries + 4 * (inCentury / 1461) + years + 1

def monthLengths (leap : Bool) : List Nat :=
  [31, if leap then 29 else 28, 31, 30, 31, 30, 31, 31, 30, 31, 30, 31]

/-- The month and the day of the month, both from 1, by walking over the months. -/
def monthDay : List Nat → Nat → Nat × Nat
  | [], day => (1, day + 1)
  | length :: rest, day =>
      if day < length then (1, day + 1)
      else ((monthDay rest (day - length)).1 + 1, (monthDay rest (day - length)).2)

structure Civil where
  year : Nat
  month : Nat
  day : Nat
  hour : Nat
  minute : Nat
  second : Nat
  microsecond : Nat
deriving DecidableEq, Repr

/-- The fields, most significant first. -/
def Civil.fields (c : Civil) : List Nat :=
  [c.year, c.month, c.day, c.hour, c.minute, c.second, c.microsecond]

def microsecondsPerDay : Nat := 86400000000

/-- The civil time of a count of microseconds since the start of year 1. -/
def civil (t : Nat) : Civil :=
  let day := t / microsecondsPerDay
  let time := t % microsecondsPerDay
  let year := yearOf day
  let date := monthDay (monthLengths (isLeap year)) (day - daysBeforeYear year)
  ⟨year, date.1, date.2, time / 3600000000, time / 60000000 % 60, time / 1000000 % 60,
    time % 1000000⟩

/-- The days before a year, by the position of the year in its cycles. -/
theorem daysBeforeYear_cycles {q c f y : Nat} (hc : c ≤ 3) (hf : f ≤ 24) (hy : y ≤ 3) :
    daysBeforeYear (400 * q + 100 * c + 4 * f + y + 1) =
      146097 * q + 36524 * c + 1461 * f + 365 * y := by
  unfold daysBeforeYear
  omega

theorem daysBeforeYear_mono {a b : Nat} (h : a ≤ b) : daysBeforeYear a ≤ daysBeforeYear b := by
  have hcentury : (a - 1) / 100 ≤ (b - 1) / 100 := Nat.div_le_div_right (by omega)
  have hfour : (a - 1) / 4 ≤ (b - 1) / 4 := Nat.div_le_div_right (by omega)
  have hcycle : (a - 1) / 400 ≤ (b - 1) / 400 := Nat.div_le_div_right (by omega)
  unfold daysBeforeYear
  omega

/-- A day lies in its year. -/
theorem yearOf_bounds (day : Nat) :
    daysBeforeYear (yearOf day) ≤ day ∧ day < daysBeforeYear (yearOf day + 1) := by
  obtain ⟨q, hq⟩ : ∃ q, q = day / 146097 := ⟨_, rfl⟩
  obtain ⟨c, hc⟩ : ∃ c, c = min 3 (day % 146097 / 36524) := ⟨_, rfl⟩
  obtain ⟨f, hf⟩ : ∃ f, f = (day % 146097 - c * 36524) / 1461 := ⟨_, rfl⟩
  obtain ⟨y, hy⟩ : ∃ y, y = min 3 ((day % 146097 - c * 36524) % 1461 / 365) := ⟨_, rfl⟩
  have hyear : yearOf day = 400 * q + 100 * c + 4 * f + y + 1 := by
    rw [hy, hf, hc, hq]
    rfl
  have hc3 : c ≤ 3 := by omega
  have hf24 : f ≤ 24 := by omega
  have hy3 : y ≤ 3 := by omega
  rw [hyear]
  constructor
  · rw [daysBeforeYear_cycles hc3 hf24 hy3]
    omega
  · -- The next year starts the next cycle of the longest kind that ends with this one.
    rcases Nat.lt_or_ge y 3 with hlast | hlast
    · have hnext := daysBeforeYear_cycles (q := q) (y := y + 1) hc3 hf24 (by omega)
      rw [show 400 * q + 100 * c + 4 * f + (y + 1) + 1 = 400 * q + 100 * c + 4 * f + y + 1 + 1
        by omega] at hnext
      omega
    rcases Nat.lt_or_ge f 24 with hfour | hfour
    · have hnext := daysBeforeYear_cycles (q := q) (f := f + 1) (y := 0) hc3 (by omega) (by omega)
      rw [show 400 * q + 100 * c + 4 * (f + 1) + 0 + 1 = 400 * q + 100 * c + 4 * f + y + 1 + 1
        by omega] at hnext
      omega
    rcases Nat.lt_or_ge c 3 with hcentury | hcentury
    · have hnext := daysBeforeYear_cycles (q := q) (c := c + 1) (f := 0) (y := 0) (by omega)
        (by omega) (by omega)
      rw [show 400 * q + 100 * (c + 1) + 4 * 0 + 0 + 1 = 400 * q + 100 * c + 4 * f + y + 1 + 1
        by omega] at hnext
      omega
    · have hnext := daysBeforeYear_cycles (q := q + 1) (c := 0) (f := 0) (y := 0) (by omega)
        (by omega) (by omega)
      rw [show 400 * (q + 1) + 100 * 0 + 4 * 0 + 0 + 1 = 400 * q + 100 * c + 4 * f + y + 1 + 1
        by omega] at hnext
      omega

theorem yearOf_mono {a b : Nat} (h : a ≤ b) : yearOf a ≤ yearOf b := by
  by_contra hlt
  have hyears : daysBeforeYear (yearOf b + 1) ≤ daysBeforeYear (yearOf a) :=
    daysBeforeYear_mono (by omega)
  have ha := (yearOf_bounds a).1
  have hb := (yearOf_bounds b).2
  omega

theorem sum_monthLengths (leap : Bool) :
    (monthLengths leap).sum = if leap then 366 else 365 := by
  cases leap <;> rfl

theorem isLeap_iff (year : Nat) :
    isLeap year = true ↔ 4 ∣ year ∧ (¬100 ∣ year ∨ 400 ∣ year) := by
  simp [isLeap, Nat.dvd_iff_mod_eq_zero]

/-- The months of a year fill it. -/
theorem daysBeforeYear_succ (year : Nat) :
    daysBeforeYear (year + 1 + 1) =
      daysBeforeYear (year + 1) + (monthLengths (isLeap (year + 1))).sum := by
  have hcentury : 100 ∣ year + 1 → 4 ∣ year + 1 := Nat.dvd_trans (show 4 ∣ 100 by decide)
  have hcycle : 400 ∣ year + 1 → 100 ∣ year + 1 := Nat.dvd_trans (show 100 ∣ 400 by decide)
  have hleap := isLeap_iff (year + 1)
  have hcount : ∀ {w x y d e f : Nat}, w ≤ year → d ≤ 1 →
      (year + 1) * 365 + (x + e) + (y + f) - (w + d) + d =
        year * 365 + x + y - w + 365 + (e + f) := by
    omega
  have hle : year / 100 ≤ year := Nat.div_le_self _ _
  rw [sum_monthLengths]
  simp only [daysBeforeYear, Nat.add_sub_cancel, Nat.succ_div]
  by_cases h4 : 4 ∣ year + 1
  · by_cases h100 : 100 ∣ year + 1
    · by_cases h400 : 400 ∣ year + 1
      · rw [hleap.mpr ⟨h4, Or.inr h400⟩, if_pos h4, if_pos h100, if_pos h400, if_pos rfl]
        have := @hcount (year / 100) (year / 4) (year / 400) 1 1 1 hle (Nat.le_refl _)
        clear h4 h100 h400 hcentury hcycle hleap hcount
        omega
      · rw [Bool.eq_false_iff.mpr (mt hleap.mp (by simp [h100, h400])), if_pos h4, if_pos h100,
          if_neg h400, if_neg Bool.false_ne_true]
        have := @hcount (year / 100) (year / 4) (year / 400) 1 1 0 hle (Nat.le_refl _)
        omega
    · rw [hleap.mpr ⟨h4, Or.inl h100⟩, if_pos h4, if_neg h100, if_neg (mt hcycle h100),
        if_pos rfl]
      have := @hcount (year / 100) (year / 4) (year / 400) 0 1 0 hle (Nat.zero_le _)
      omega
  · have h100 := mt hcentury h4
    rw [Bool.eq_false_iff.mpr (mt hleap.mp (by simp [h4])), if_neg h4, if_neg h100,
      if_neg (mt hcycle h100), if_neg Bool.false_ne_true]
    exact @hcount (year / 100) (year / 4) (year / 400) 0 0 0 hle (Nat.zero_le _)

theorem monthDay_month_pos (lengths : List Nat) (day : Nat) : 1 ≤ (monthDay lengths day).1 := by
  cases lengths with
  | nil => exact Nat.le_refl _
  | cons length rest =>
      unfold monthDay
      split <;> simp

/-- A later day of a year has a later month, or a later day in the same month. -/
theorem monthDay_lt {lengths : List Nat} {a b : Nat} (hab : a < b) (hb : b < lengths.sum) :
    (monthDay lengths a).1 < (monthDay lengths b).1 ∨
      (monthDay lengths a).1 = (monthDay lengths b).1 ∧
        (monthDay lengths a).2 < (monthDay lengths b).2 := by
  induction lengths generalizing a b with
  | nil => simp at hb
  | cons length rest ih =>
      rw [List.sum_cons] at hb
      rcases Nat.lt_or_ge a length with hla | hla
      · rcases Nat.lt_or_ge b length with hlb | hlb
        · simp [monthDay, hla, hlb, hab]
        · have hmonth := monthDay_month_pos rest (b - length)
          simp only [monthDay, hla, Nat.not_lt.mpr hlb, if_true, if_false]
          omega
      · have hlb : length ≤ b := by omega
        have hrest := ih (a := a - length) (b := b - length) (by omega) (by omega)
        simp only [monthDay, Nat.not_lt.mpr hla, Nat.not_lt.mpr hlb, if_false]
        omega

theorem monthDay_bounds {lengths : List Nat} {bound day : Nat} (hday : day < lengths.sum)
    (hlengths : ∀ length ∈ lengths, length ≤ bound) :
    (monthDay lengths day).1 ≤ lengths.length ∧ (monthDay lengths day).2 ≤ bound := by
  induction lengths generalizing day with
  | nil => simp at hday
  | cons length rest ih =>
      rw [List.sum_cons] at hday
      have hlength := hlengths length List.mem_cons_self
      rcases Nat.lt_or_ge day length with hl | hl
      · simp only [monthDay, hl, if_true, List.length_cons]
        omega
      · have hrest : day - length < rest.sum := by omega
        obtain ⟨hmonth, hmonthDay⟩ := ih hrest
          fun other hother => hlengths other (List.mem_cons_of_mem _ hother)
        simp only [monthDay, Nat.not_lt.mpr hl, if_false, List.length_cons]
        omega

/-- The day of the year lies in the months of the year. -/
theorem dayOfYear_lt (day : Nat) :
    day - daysBeforeYear (yearOf day) < (monthLengths (isLeap (yearOf day))).sum := by
  have hbounds := yearOf_bounds day
  obtain ⟨year, hyear⟩ : ∃ year, yearOf day = year + 1 := ⟨_, rfl⟩
  rw [hyear] at hbounds ⊢
  rw [daysBeforeYear_succ] at hbounds
  omega

/-- The calendar fields of instants are in the order of the instants. -/
theorem civil_lt {a b : Nat} (hab : a < b) : (civil a).fields < (civil b).fields := by
  obtain ⟨da, hda⟩ : ∃ d, d = a / microsecondsPerDay := ⟨_, rfl⟩
  obtain ⟨db, hdb⟩ : ∃ d, d = b / microsecondsPerDay := ⟨_, rfl⟩
  have hdays : da ≤ db := hda ▸ hdb ▸ Nat.div_le_div_right hab.le
  simp only [Civil.fields, civil, ← hda, ← hdb, List.cons_lt_cons_iff]
  rcases Nat.lt_or_ge (yearOf da) (yearOf db) with hyear | hyear
  · exact Or.inl hyear
  have hsame : yearOf da = yearOf db := Nat.le_antisymm (yearOf_mono hdays) hyear
  refine Or.inr ⟨hsame, ?_⟩
  rcases Nat.lt_or_ge da db with hday | hday
  · have hdate : da - daysBeforeYear (yearOf da) < db - daysBeforeYear (yearOf da) := by
      have := (yearOf_bounds da).1
      omega
    have hlater : db - daysBeforeYear (yearOf da) <
        (monthLengths (isLeap (yearOf da))).sum := by
      rw [hsame]
      exact dayOfYear_lt db
    rw [← hsame]
    rcases monthDay_lt hdate hlater with hmonth | ⟨hmonth, hlater⟩
    · exact Or.inl hmonth
    · exact Or.inr ⟨hmonth, Or.inl hlater⟩
  · obtain rfl : da = db := Nat.le_antisymm hdays hday
    refine Or.inr ⟨rfl, Or.inr ⟨rfl, ?_⟩⟩
    have htime : a % microsecondsPerDay < b % microsecondsPerDay := by
      unfold microsecondsPerDay at hda hdb ⊢
      omega
    simp only [List.not_lt_nil, and_false, or_false]
    omega

theorem yearOf_lt {day year : Nat} (h : day < daysBeforeYear year) : yearOf day < year := by
  by_contra hge
  have hyears := daysBeforeYear_mono (Nat.not_lt.mp hge)
  have hday := (yearOf_bounds day).1
  omega

theorem monthLengths_le (leap : Bool) : ∀ length ∈ monthLengths leap, length ≤ 31 := by
  cases leap <;> decide

/-- The ranges of the fields other than the year. -/
theorem civil_bounds (t : Nat) :
    (civil t).month ≤ 12 ∧ (civil t).day ≤ 31 ∧ (civil t).hour < 24 ∧ (civil t).minute < 60 ∧
      (civil t).second < 60 ∧ (civil t).microsecond < 1000000 := by
  have hdate := monthDay_bounds (dayOfYear_lt (t / microsecondsPerDay)) (monthLengths_le _)
  have hmonths : (monthLengths (isLeap (yearOf (t / microsecondsPerDay)))).length = 12 := by
    cases isLeap (yearOf (t / microsecondsPerDay)) <;> rfl
  have htime : t % microsecondsPerDay < 86400000000 := Nat.mod_lt _ (by decide)
  refine ⟨?_, hdate.2, ?_, ?_, ?_, ?_⟩
  · exact hmonths ▸ hdate.1
  all_goals
    simp only [civil]
    omega

end Calendar
