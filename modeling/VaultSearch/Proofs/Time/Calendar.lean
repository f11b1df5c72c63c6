import VaultSearch.Time.Moment

namespace VaultSearch.Time

/-- The microseconds from the start of year one to some moment of the years 1 to 9999. -/
def InCalendar (n : Int) : Prop := 0 ≤ n ∧ n < dayCount * dayMicros

theorem Moment.inCalendar (m : Moment) : InCalendar m.micros :=
  ⟨Int.natCast_nonneg _, by exact_mod_cast m.inRange⟩

namespace Moment

theorem ofMicros?_eq_some_iff {n : Int} {m : Moment} :
    ofMicros? n = some m ↔ (m.micros : Int) = n := by
  constructor
  · intro h
    rw [ofMicros?] at h
    split at h
    · rename_i hn
      split at h
      · cases h
        exact Int.toNat_of_nonneg hn
      · cases h
    · cases h
  · rintro rfl
    rw [ofMicros?, if_pos (Int.natCast_nonneg _), dif_pos (by exact m.inRange)]
    rfl

theorem ofMicros?_eq_none_iff {n : Int} : ofMicros? n = none ↔ ¬InCalendar n := by
  constructor
  · rintro h ⟨hn, hlast⟩
    have hin : n.toNat < dayCount * dayMicros := by
      have : (n.toNat : Int) = n := Int.toNat_of_nonneg hn
      exact_mod_cast this ▸ hlast
    rw [ofMicros?, if_pos hn, dif_pos hin] at h
    cases h
  · intro hout
    cases h : ofMicros? n with
    | none => rfl
    | some m => exact absurd (ofMicros?_eq_some_iff.mp h ▸ m.inCalendar) hout

theorem add_eq_ok_iff {m k : Moment} {n : Int} :
    m.add n = .ok k ↔ (k.micros : Int) = m.micros + n := by
  rw [← ofMicros?_eq_some_iff, add]
  cases ofMicros? (m.micros + n) <;> simp

theorem add_eq_error_iff {m : Moment} {n : Int} {err : TimeError} :
    m.add n = .error err ↔ err = .date ∧ ¬InCalendar (m.micros + n) := by
  rw [← ofMicros?_eq_none_iff, add]
  cases ofMicros? (m.micros + n) <;> simp [eq_comm]

end Moment

namespace Stamp

/-- Where universal time stands when the clock shows the stamp, also outside the calendar. -/
def utcMicros (s : Stamp) : Int := s.shown.micros - (s.offset.map Offset.micros).getD 0

theorem toUtc_eq_ok_iff {s : Stamp} {m : Moment} :
    s.toUtc = .ok m ↔ (m.micros : Int) = s.utcMicros := by
  have hshown : (.ok s.shown : Except TimeError Moment) = .ok m ↔
      (m.micros : Int) = s.shown.micros := by
    rw [← Moment.ofMicros?_eq_some_iff, Moment.ofMicros?_eq_some_iff.mpr rfl]
    simp
  rw [toUtc, utcMicros]
  cases s.offset with
  | none => simpa using hshown
  | some o =>
      simp only [Option.map_some, Option.getD_some]
      split
      · rename_i hzero
        rw [hzero, Int.sub_zero]
        exact hshown
      · rw [Moment.add_eq_ok_iff, Int.sub_eq_add_neg]

theorem toUtc_eq_error_iff {s : Stamp} {err : TimeError} :
    s.toUtc = .error err ↔ err = .date ∧ ¬InCalendar s.utcMicros := by
  have hshown : (.ok s.shown : Except TimeError Moment) = .error err ↔
      err = .date ∧ ¬InCalendar s.shown.micros := by
    simp [s.shown.inCalendar]
  rw [toUtc, utcMicros]
  cases s.offset with
  | none => simpa using hshown
  | some o =>
      simp only [Option.map_some, Option.getD_some]
      split
      · rename_i hzero
        rw [hzero, Int.sub_zero]
        exact hshown
      · rw [Moment.add_eq_error_iff, Int.sub_eq_add_neg]

end Stamp

end VaultSearch.Time
