import Mathlib.Algebra.Order.Ring.Nat
import Mathlib.Tactic.SplitIfs
import VaultSearch.Proofs.Time.Civil

namespace VaultSearch.Time

theorem daysBeforeYear_succ {year : Nat} (h : 1 ≤ year) :
    daysBeforeYear (year + 1) = daysBeforeYear year + yearLength year := by
  have hstep : ∀ k, 0 < k → year / k = (year - 1) / k + if year % k = 0 then 1 else 0 := by
    intro k hk
    obtain ⟨y, rfl⟩ := Nat.exists_eq_add_of_le' h
    rw [Nat.add_sub_cancel, Nat.succ_div]
    simp only [Nat.dvd_iff_mod_eq_zero]
  have hfour := hstep 4 (by decide)
  have hcentury := hstep 100 (by decide)
  have hcycle := hstep 400 (by decide)
  have hleap : yearLength year = 365 + (if year % 4 = 0 then 1 else 0) -
      (if year % 100 = 0 then 1 else 0) + if year % 400 = 0 then 1 else 0 := by
    simp only [yearLength, isLeap_iff]
    split_ifs <;> omega
  have hless : (year - 1) / 100 ≤ (year - 1) / 4 := Nat.div_le_div_left (by decide) (by decide)
  simp only [daysBeforeYear, Nat.add_sub_cancel, hleap, hfour, hcentury, hcycle]
  split_ifs <;> omega

/-- A year ends before any later one starts. -/
theorem yearEnd_le {a b : Nat} (ha : 1 ≤ a) (h : a < b) :
    daysBeforeYear a + yearLength a ≤ daysBeforeYear b := by
  induction b, h using Nat.le_induction with
  | base => exact (daysBeforeYear_succ ha).ge
  | succ b hb ih =>
      rw [daysBeforeYear_succ (by omega)]
      exact ih.trans (Nat.le_add_right _ _)

/-- A month ends before any later one starts, and before the end of the year. -/
theorem monthEnd_le {lens : List Nat} {i j len : Nat} (hlen : lens[i]? = some len) (h : i < j) :
    daysIn (lens.take i) + len ≤ daysIn (lens.take j) := by
  induction lens generalizing i j with
  | nil => cases hlen
  | cons l lens ih =>
      obtain ⟨j, rfl⟩ : ∃ k, j = k + 1 := ⟨j - 1, by omega⟩
      rw [List.take_succ_cons, daysIn_cons]
      cases i with
      | zero =>
          cases hlen
          rw [List.take_zero]
          simp [daysIn]
      | succ i =>
          have hrest := ih (i := i) hlen (j := j) (by omega)
          rw [List.take_succ_cons, daysIn_cons]
          omega

structure IsCivil (n year month day : Nat) : Prop where
  yearStarts : 1 ≤ year
  monthStarts : 1 ≤ month
  inMonth : ∃ len, (monthLengths year)[month - 1]? = some len ∧ 1 ≤ day ∧ day ≤ len
  index : daysBeforeYear year + daysIn ((monthLengths year).take (month - 1)) + (day - 1) = n

namespace IsCivil

variable {n year month day year' month' day' : Nat}

theorem lt_yearEnd (h : IsCivil n year month day) : n < daysBeforeYear year + yearLength year := by
  obtain ⟨len, hlen, hday, hend⟩ := h.inMonth
  have hmonth := (List.getElem?_eq_some_iff.mp hlen).1
  have hfit := monthEnd_le hlen (j := (monthLengths year).length) hmonth
  rw [List.take_length, daysIn_monthLengths] at hfit
  have hindex := h.index
  omega

theorem year_le (h : IsCivil n year month day) (h' : IsCivil n year' month' day') : year ≤ year' := by
  apply Nat.le_of_not_lt
  intro hlt
  have hbefore := yearEnd_le h'.yearStarts hlt
  have hend := h'.lt_yearEnd
  have hindex := h.index
  omega

theorem month_le (h : IsCivil n year month day) (h' : IsCivil n year month' day') :
    month ≤ month' := by
  apply Nat.le_of_not_lt
  intro hlt
  obtain ⟨len, hlen, hday, hend⟩ := h'.inMonth
  have hbefore := monthEnd_le hlen (j := month - 1) (by have := h'.monthStarts; omega)
  have hindex := h.index
  have hindex' := h'.index
  omega

/-- No day has two names. -/
theorem unique (h : IsCivil n year month day) (h' : IsCivil n year' month' day') :
    (year, month, day) = (year', month', day') := by
  obtain rfl := Nat.le_antisymm (h.year_le h') (h'.year_le h)
  obtain rfl := Nat.le_antisymm (h.month_le h') (h'.month_le h)
  obtain ⟨-, -, hday, -⟩ := h.inMonth
  obtain ⟨-, -, hday', -⟩ := h'.inMonth
  have hindex := h.index
  have hindex' := h'.index
  obtain rfl : day = day' := by omega
  rfl

end IsCivil

namespace Date

theorem isCivil (d : Date) : IsCivil d.index d.civil.1 d.civil.2.1 d.civil.2.2 := by
  obtain ⟨⟨hyear, -⟩, hmonth, len, hlen, hday, hindex⟩ := d.civil_spec
  exact ⟨hyear, hmonth, ⟨len, hlen, hday⟩, hindex⟩

theorem isCivil_of_ofCivil {year month day : Nat} {d : Date} (h : ofCivil year month day = .ok d) :
    IsCivil d.index year month day := by
  rw [ofCivil] at h
  split at h
  · cases h
  · rename_i hyear
    split at h
    · cases h
    · rename_i len hlen
      split at h
      · cases h
      · rename_i hmonth
        split at h
        · cases h
        · rename_i hday
          dsimp only at h
          split at h
          · cases h
            simp only [Bool.or_eq_true, decide_eq_true_eq, not_or, Nat.not_lt] at hyear hday
            exact ⟨hyear.1, by omega, ⟨len, hlen, hday⟩, rfl⟩
          · cases h

/-- Days and their names determine each other. -/
theorem ofCivil_eq_ok_iff {year month day : Nat} {d : Date} :
    ofCivil year month day = .ok d ↔ d.civil = (year, month, day) := by
  constructor
  · exact fun h => d.isCivil.unique (isCivil_of_ofCivil h)
  · intro h
    have hback := d.ofCivil_civil
    rwa [h] at hback

end Date

end VaultSearch.Time
