import VaultSearch.Proofs.Filtering.DayRange
import VaultSearch.Proofs.Time.DayNames

namespace VaultSearch.Filtering

open Text Time Note

def dayText (year month day : Nat) : Text := pad 4 year ++ '-' :: pad 2 month ++ '-' :: pad 2 day

theorem text_of_ofCivil {year month day : Nat} {date : Date}
    (h : Date.ofCivil year month day = .ok date) : date.text = dayText year month day := by
  rw [Date.text, Date.ofCivil_eq_ok_iff.mp h, dayText]

/-- Only the last day of the calendar has no day after it. -/
theorem isBeforeLast_iff {date : Date} :
    date.index + 1 < dayCount ↔ date.civil ≠ (9999, 12, 31) := by
  have hlast : date.civil = (9999, 12, 31) ↔ date.index = dayCount - 1 := by
    rw [← Date.ofCivil_eq_ok_iff]
    have hday : Date.ofCivil 9999 12 31 = .ok ⟨dayCount - 1, by decide⟩ :=
      eq_ok_of_toOption (by decide +kernel)
    rw [hday, Except.ok.injEq]
    exact ⟨fun h => h ▸ rfl, fun h => (Date.ext_index h).symm⟩
  have hrange := date.inRange
  rw [ne_eq, hlast]
  omega

/-- The end of the last day is outside the calendar, so its filter cannot be read. -/
theorem readDates_lastDay {date : Date} (h : ¬date.index + 1 < dayCount) :
    readDates date.text = .error (.time .date) := by
  have hcut : cut? rangeMark date.text = none :=
    cut?_eq_none fun hmem => (Date.text_plain hmem).2.2 rfl
  have hend : ¬InCalendar ((Stamp.naive (.ofDate date)).utcMicros + dayMicros) := by
    have hnext : (Stamp.naive (.ofDate date)).utcMicros + dayMicros =
        ((date.index + 1) * dayMicros : Nat) := by
      simp [Stamp.utcMicros, Stamp.naive, Moment.ofDate, Nat.add_mul]
    rw [hnext]
    rintro ⟨-, hlt⟩
    exact h (Nat.lt_of_mul_lt_mul_right (a := dayMicros) (by exact_mod_cast hlt))
  exact (readDates_day_eq_error_iff hcut).mpr ⟨rfl, _, readStamp?_date date, fun hin => hend hin.2⟩

theorem keepsCreated_lastDay (strict : Bool) {date : Date} (h : ¬date.index + 1 < dayCount)
    (d : Document) : keepsCreated strict date.text d = .error (.time .date) := by
  rw [keepsCreated, parseDates, readDates_lastDay h]
  rfl

section Days

variable (strict : Bool) {d : Document} {t : Timestamp} {m : Moment}
  (ht : d.created = some t) (hm : t.moment? = .ok (some m))

include ht hm

theorem keepsCreated_date_iff (date : Date) :
    keepsCreated strict date.text d = .ok true ↔ date.index + 1 < dayCount ∧ m.date = date := by
  by_cases h : date.index + 1 < dayCount
  · obtain ⟨kept, hkept, hiff⟩ := keepsCreated_day strict ht hm h
    simp [hkept, hiff, h]
  · simp [keepsCreated_lastDay strict h d, h]

/-- The filter for a day keeps what is of that day in universal time, and any document with a usable
date is kept by the filter for one day only. -/
theorem keepsCreated_one_day :
    (∀ year month day date, Date.ofCivil year month day = .ok date → (year, month, day) ≠ (9999, 12, 31) →
      ∃ kept, keepsCreated strict (dayText year month day) d = .ok kept ∧
        (kept = true ↔ m.date.civil = (year, month, day))) ∧
    (m.date.civil ≠ (9999, 12, 31) →
      ∃! date : Date, keepsCreated strict date.text d = .ok true) := by
  refine ⟨fun year month day date hdate hlast => ?_, fun hlast => ⟨m.date, ?_, fun date hdate => ?_⟩⟩
  · have hcivil := Date.ofCivil_eq_ok_iff.mp hdate
    have hbefore : date.index + 1 < dayCount := isBeforeLast_iff.mpr (by rwa [hcivil])
    obtain ⟨kept, hkept, hiff⟩ := keepsCreated_day strict ht hm hbefore
    refine ⟨kept, text_of_ofCivil hdate ▸ hkept, hiff.trans ?_⟩
    rw [← Date.ofCivil_eq_ok_iff, hdate, Except.ok.injEq, eq_comm]
  · exact (keepsCreated_date_iff strict ht hm _).mpr ⟨isBeforeLast_iff.mpr hlast, rfl⟩
  · exact ((keepsCreated_date_iff strict ht hm date).mp hdate).2.symm

end Days

def leapNight : Timestamp := .text "2024-02-28 23:30:00.000001-01:00".toList

def leapMoment : Moment := ⟨738944 * dayMicros + 30 * minuteMicros + 1, by decide⟩

theorem keepsCreated_one_day_leapNight :
    leapNight.moment? = .ok (some leapMoment) ∧ leapMoment.date.civil = (2024, 2, 29) ∧
      keepsCreated true (dayText 2024 2 29) { id := ['a'], created := some leapNight } = .ok true ∧
      keepsCreated true (dayText 2024 2 28) { id := ['a'], created := some leapNight } = .ok false ∧
      ∃! date : Date,
        keepsCreated true date.text { id := ['a'], created := some leapNight } = .ok true := by
  have hmoment : leapNight.moment? = .ok (some leapMoment) := eq_ok_of_toOption (by decide +kernel)
  have hcivil : leapMoment.date.civil = (2024, 2, 29) := by decide +kernel
  have hday : Date.ofCivil 2024 2 29 = .ok leapMoment.date := eq_ok_of_toOption (by decide +kernel)
  have hbefore : Date.ofCivil 2024 2 28 = .ok ⟨738943, by decide⟩ :=
    eq_ok_of_toOption (by decide +kernel)
  obtain ⟨hkeeps, hone⟩ :=
    keepsCreated_one_day true (d := { id := ['a'], created := some leapNight }) rfl hmoment
  obtain ⟨kept, hkept, hiff⟩ := hkeeps 2024 2 29 _ hday (by decide)
  obtain ⟨dropped, hdropped, hnot⟩ := hkeeps 2024 2 28 _ hbefore (by decide)
  rw [hcivil] at hiff hnot
  refine ⟨hmoment, hcivil, ?_, ?_, hone (by rw [hcivil]; decide)⟩
  · rw [hkept, hiff.mpr rfl]
  · cases dropped with
    | false => exact hdropped
    | true => exact absurd (hnot.mp rfl) (by decide)

end VaultSearch.Filtering
