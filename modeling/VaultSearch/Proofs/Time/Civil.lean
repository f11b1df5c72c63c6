import VaultSearch.Proofs.Except
import VaultSearch.Time.Date

namespace VaultSearch.Time

def yearLength (year : Nat) : Nat := if isLeap year then 366 else 365

def daysIn (lens : List Nat) : Nat := lens.foldl (· + ·) 0

theorem daysIn_cons (len : Nat) (lens : List Nat) : daysIn (len :: lens) = len + daysIn lens := by
  rw [daysIn, daysIn, ← List.sum_eq_foldl, ← List.sum_eq_foldl, List.sum_cons]

theorem daysIn_monthLengths (year : Nat) : daysIn (monthLengths year) = yearLength year := by
  rw [monthLengths, yearLength]
  cases isLeap year <;> rfl

theorem isLeap_iff {year : Nat} :
    isLeap year = true ↔ year % 4 = 0 ∧ (year % 100 ≠ 0 ∨ year % 400 = 0) := by
  simp [isLeap]

/-- A day is told by its year and the number of days before it in that year. -/
theorem yearOfDay_spec {n : Nat} (h : n < dayCount) :
    (1 ≤ (yearOfDay n).1 ∧ (yearOfDay n).1 ≤ lastYear) ∧
      daysBeforeYear (yearOfDay n).1 + (yearOfDay n).2 = n ∧
      (yearOfDay n).2 < yearLength (yearOfDay n).1 := by
  have hn : n < 3652059 := h
  simp only [yearOfDay, daysBeforeYear, Nat.add_sub_cancel, lastYear]
  -- Centuries and years are cut off at three, so that the last day of a leap cycle stays in it.
  generalize hq : n / 146097 = q
  generalize hr : n % 146097 = r
  generalize hc : min (r / 36524) 3 = c
  generalize hs : r - c * 36524 = s
  generalize hb : s / 1461 = b
  generalize ht : s % 1461 = t
  generalize ha : min (t / 365) 3 = a
  have hcentury : c ≤ 3 ∧ s ≤ 36524 ∧ (c < 3 → s < 36524) ∧ r = c * 36524 + s := by omega
  have hcycle : b ≤ 24 ∧ t ≤ 1460 ∧ (b = 24 → c < 3 → t < 1460) ∧ s = 1461 * b + t := by omega
  have hyear : a ≤ 3 ∧ t - a * 365 ≤ 365 ∧ (a < 3 → t - a * 365 < 365) ∧ a * 365 ≤ t := by omega
  have hfour : (400 * q + 100 * c + 4 * b + a) / 4 = 100 * q + 25 * c + b := by omega
  have hhundred : (400 * q + 100 * c + 4 * b + a) / 100 = 4 * q + c := by omega
  have hfourHundred : (400 * q + 100 * c + 4 * b + a) / 400 = q := by omega
  refine ⟨by omega, by rw [hfour, hhundred, hfourHundred]; omega, ?_⟩
  rw [yearLength]
  split
  · omega
  · rename_i hleap
    rw [isLeap_iff] at hleap
    by_cases hlast : a = 3
    · omega
    · omega

/-- The month that holds a day of the year, and the day of the month. -/
theorem monthOfDay_spec {lens : List Nat} {n : Nat} (h : n < daysIn lens) (first : Nat) :
    ∃ i len, lens[i]? = some len ∧ (monthOfDay lens first n).1 = first + i ∧
      (1 ≤ (monthOfDay lens first n).2 ∧ (monthOfDay lens first n).2 ≤ len) ∧
      daysIn (lens.take i) + ((monthOfDay lens first n).2 - 1) = n := by
  induction lens generalizing first n with
  | nil => cases h
  | cons len lens ih =>
      rw [monthOfDay]
      split
      · rename_i hlt
        exact ⟨0, len, rfl, rfl, ⟨Nat.le_add_left 1 n, hlt⟩, by simp [daysIn]⟩
      · rename_i hle
        rw [daysIn_cons] at h
        obtain ⟨i, len', hlen, hmonth, hday, hsum⟩ := ih (n := n - len) (by omega) (first + 1)
        refine ⟨i + 1, len', hlen, by omega, hday, ?_⟩
        rw [List.take_succ_cons, daysIn_cons]
        omega

namespace Date

theorem civil_spec (d : Date) :
    (1 ≤ d.civil.1 ∧ d.civil.1 ≤ lastYear) ∧ 1 ≤ d.civil.2.1 ∧
      ∃ len, (monthLengths d.civil.1)[d.civil.2.1 - 1]? = some len ∧
        (1 ≤ d.civil.2.2 ∧ d.civil.2.2 ≤ len) ∧
        daysBeforeYear d.civil.1 + daysIn ((monthLengths d.civil.1).take (d.civil.2.1 - 1)) +
          (d.civil.2.2 - 1) = d.index := by
  obtain ⟨hyear, hindex, hrest⟩ := yearOfDay_spec d.inRange
  rw [← daysIn_monthLengths] at hrest
  obtain ⟨i, len, hlen, hmonth, hday, hsum⟩ := monthOfDay_spec hrest 1
  have hcivil : d.civil = ((yearOfDay d.index).1,
      monthOfDay (monthLengths (yearOfDay d.index).1) 1 (yearOfDay d.index).2) := rfl
  have hi : d.civil.2.1 - 1 = i := by
    rw [hcivil]
    dsimp only
    omega
  rw [hi]
  refine ⟨hyear, ?_, len, hlen, hday, ?_⟩
  · rw [hcivil]
    dsimp only
    omega
  · rw [hcivil]
    dsimp only
    omega

/-- A date is the one of its year, month and day. -/
theorem ofCivil_civil (d : Date) : ofCivil d.civil.1 d.civil.2.1 d.civil.2.2 = .ok d := by
  obtain ⟨⟨hfirst, hlast⟩, hmonth, len, hlen, ⟨hday, hend⟩, hindex⟩ := d.civil_spec
  rw [ofCivil, if_neg (by simp; omega), hlen]
  dsimp only
  rw [if_neg (by omega), if_neg (by simp; omega), ← daysIn, hindex, dif_pos d.inRange]

theorem civil_lt (d : Date) : d.civil.1 < 10000 ∧ d.civil.2.1 < 100 ∧ d.civil.2.2 < 100 := by
  obtain ⟨⟨-, hlast⟩, -, len, hlen, ⟨-, hend⟩, -⟩ := d.civil_spec
  have hmonth := (List.getElem?_eq_some_iff.mp hlen).1
  have hshort : ∀ m ∈ monthLengths d.civil.1, m ≤ 31 := by
    rw [monthLengths]
    cases isLeap d.civil.1 <;> decide
  have hlen31 := hshort len (List.mem_of_getElem? hlen)
  have hmonths : (monthLengths d.civil.1).length = 12 := rfl
  rw [lastYear] at hlast
  omega

end Date

end VaultSearch.Time
