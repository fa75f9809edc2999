import FeatureStore.Library.Calendar
import FeatureStore.Library.FixedWidth
import FeatureStore.Models

/-!
# The texts of timestamps

`datetime.isoformat` and `str` on the calendar of the standard library, which has
the years 1 to 9999. The microsecond texts of UTC timestamps are compared by the
script of the online store.
-/

namespace FeatureStore

open FixedWidth

/-- Midnight of January 1 of the years 1 and 10000, UTC. -/
def minInstant : Instant := -62135596800000000

def endInstant : Instant := 253402300800000000

/-- The instants that a Python `datetime` can hold in UTC. -/
def Instant.IsRepresentable (instant : Instant) : Prop :=
  minInstant ≤ instant ∧ instant < endInstant

instance (instant : Instant) : Decidable (Instant.IsRepresentable instant) :=
  inferInstanceAs (Decidable (_ ∧ _))

/-- The calendar fields of a wall clock. -/
def civilOf (wall : Instant) : Calendar.Civil :=
  Calendar.civil (wall - minInstant).toNat

def dateTemplate (separator : Char) : List Field :=
  [⟨[], 4⟩, ⟨['-'], 2⟩, ⟨['-'], 2⟩, ⟨[separator], 2⟩, ⟨[':'], 2⟩, ⟨[':'], 2⟩]

/-- `isoformat(timespec="microseconds")` of a UTC timestamp. -/
def isoMicroseconds (instant : Instant) : String :=
  String.ofList (render (dateTemplate 'T' ++ [⟨['.'], 6⟩]) (civilOf instant).fields ++
    "+00:00".toList)

/-- `timestamp.astimezone(UTC).isoformat(timespec="microseconds")`; there is no text
when the conversion overflows. -/
def DateTime.utcText? (timestamp : DateTime) : Option String :=
  if Instant.IsRepresentable timestamp.asUtc then some (isoMicroseconds timestamp.asUtc)
  else none

/-- The UTC offset in the text of a timestamp, in seconds and microseconds as needed. -/
def offsetText : Option Int → List Char
  | none => []
  | some offset =>
      let size := offset.natAbs
      (if offset < 0 then '-' else '+') ::
        render ([⟨[], 2⟩, ⟨[':'], 2⟩] ++
            (if size % 60000000 = 0 then [] else [⟨[':'], 2⟩]) ++
            if size % 1000000 = 0 then [] else [⟨['.'], 6⟩])
          [size / 3600000000, size / 60000000 % 60, size / 1000000 % 60, size % 1000000]

/-- `str(timestamp)`, which leaves out a zero fraction. -/
def DateTime.str (timestamp : DateTime) : String :=
  let civil := civilOf timestamp.wall
  String.ofList (render
      (dateTemplate ' ' ++ if civil.microsecond = 0 then [] else [⟨['.'], 6⟩]) civil.fields ++
    offsetText timestamp.utcOffset)

example : isoMicroseconds 1704164645000006 = "2024-01-02T03:04:05.000006+00:00" := by decide

example : (DateTime.utc 1704164645000000).str = "2024-01-02 03:04:05+00:00" := by decide

/-- The fields of a representable instant fit the template. -/
theorem fits_civilOf {instant : Instant} (h : Instant.IsRepresentable instant) :
    Fits (dateTemplate 'T' ++ [⟨['.'], 6⟩]) (civilOf instant).fields := by
  have hend : @LT.lt Int _ instant 253402300800000000 := h.2
  have hdays : (instant - minInstant).toNat / Calendar.microsecondsPerDay <
      Calendar.daysBeforeYear 10000 := by
    have hlimit : Calendar.daysBeforeYear 10000 = 3652059 := by decide
    unfold Calendar.microsecondsPerDay minInstant
    omega
  have hyear : (civilOf instant).year < 10000 := Calendar.yearOf_lt hdays
  obtain ⟨hmonth, hday, hhour, hminute, hsecond, hmicro⟩ :=
    Calendar.civil_bounds (instant - minInstant).toNat
  simp only [dateTemplate, Calendar.Civil.fields, List.cons_append, List.nil_append, Fits,
    List.forall₂_cons, List.Forall₂.nil, and_true]
  change _ < _ at hmicro
  refine ⟨hyear, ?_, ?_, ?_, ?_, ?_, hmicro⟩ <;> simp only [civilOf] <;> omega

/-- The order of the microsecond texts is chronological. -/
theorem isoMicroseconds_lt {a b : Instant} (ha : Instant.IsRepresentable a)
    (hb : Instant.IsRepresentable b) (hab : a < b) :
    isoMicroseconds a < isoMicroseconds b := by
  have hcount : (a - minInstant).toNat < (b - minInstant).toNat := by
    have hstart : @LE.le Int _ (-62135596800000000) a := ha.1
    have hlt : @LT.lt Int _ a b := hab
    unfold minInstant
    omega
  rw [String.lt_iff_toList_lt]
  simp only [isoMicroseconds, String.toList_ofList]
  exact render_append_lt (fits_civilOf ha) (fits_civilOf hb) (Calendar.civil_lt hcount) _

end FeatureStore
