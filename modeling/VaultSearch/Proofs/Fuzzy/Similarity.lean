import VaultSearch.Fuzzy.Match
import VaultSearch.Proofs.Fuzzy.Distance
import VaultSearch.Proofs.Number.Rounding
import VaultSearch.Proofs.Text.Steady

namespace VaultSearch.Fuzzy

open Text Number

variable {a b : Text}

section Lengths

/-- The lengths that bound the distance are those in lower case. -/
theorem distance_lower_le (a b : Text) : distance (lower a) (lower b) ≤
    max (a.length + a.count dottedI) (b.length + b.count dottedI) := by
  rw [← length_lower, ← length_lower]
  exact distance_le_max _ _

theorem lower_eq_iff : lower a = lower b ↔ distance (lower a) (lower b) = 0 := by
  constructor
  · intro h
    rw [h]
    exact distance_self _
  · intro h
    have hedits := Edits.of_distance (lower a) (lower b)
    rw [h] at hedits
    exact hedits.eq_of_zero

theorem distance_lower_le_twice (a b : Text) :
    distance (lower a) (lower b) ≤ 2 * max a.length b.length := by
  have hdistance := distance_lower_le a b
  have ha := List.count_le_length (a := dottedI) (l := a)
  have hb := List.count_le_length (a := dottedI) (l := b)
  omega

/-- Only a text with a dotted capital I can be further than the longer length from a text without. -/
theorem dottedI_notMem_iff : dottedI ∉ a ↔
    ∀ c, dottedI ∉ c → distance (lower a) (lower c) ≤ max a.length c.length := by
  constructor
  · intro ha c hc
    rw [← length_lower_of_notMem ha, ← length_lower_of_notMem hc]
    exact distance_le_max _ _
  · intro h ha
    have hempty := h [] List.not_mem_nil
    have hlonger := length_lower_lt_of_mem ha
    rw [show lower [] = [] from rfl, distance_nil_right, List.length_nil] at hempty
    omega

end Lengths

section Score

def fraction (a b : Text) : Rat := mkRat (distance (lower a) (lower b)) (max a.length b.length)

theorem similarity_eq (a b : Text) : similarity a b = nearest (1 - nearest (fraction a b)) := by
  rw [similarity, fraction]
  split
  · rename_i hempty
    rw [hempty, Rat.mkRat_zero, nearest_zero, sub_zero, nearest_one]
  · rfl

theorem fraction_nonneg (a b : Text) : 0 ≤ fraction a b := by
  rw [fraction, Rat.mkRat_eq_div]
  positivity

theorem fraction_le_iff {k l : Nat} (hk : 0 < k) : fraction a b ≤ (l : Rat) / k ↔
    k * distance (lower a) (lower b) ≤ l * max a.length b.length := by
  have hdistance := distance_lower_le_twice a b
  rw [fraction, Rat.mkRat_eq_div]
  generalize distance (lower a) (lower b) = d at *
  generalize max a.length b.length = n at *
  have hk : (0 : Rat) < k := by exact_mod_cast hk
  rcases Nat.eq_zero_or_pos n with rfl | hn
  · obtain rfl : d = 0 := by omega
    simp only [Nat.mul_zero, Nat.le_refl, iff_true]
    simp only [Nat.cast_zero, Int.cast_zero, div_zero]
    positivity
  · have hn : (0 : Rat) < n := by exact_mod_cast hn
    rw [div_le_div_iff₀ hn hk, mul_comm]
    exact_mod_cast Iff.rfl

theorem similarity_le_one (a b : Text) : similarity a b ≤ 1 := by
  have hfraction := nearest_nonneg (fraction_nonneg a b)
  have hmono : nearest (1 - nearest (fraction a b)) ≤ nearest 1 := nearest_mono (by linarith)
  rwa [nearest_one, ← similarity_eq] at hmono

theorem neg_one_le_similarity (a b : Text) : -1 ≤ similarity a b := by
  have hfraction : fraction a b ≤ (2 : Nat) / (1 : Nat) :=
    (fraction_le_iff Nat.one_pos).mpr (by simpa using distance_lower_le_twice a b)
  have htwo : nearest (fraction a b) ≤ 2 := by
    rw [← nearest_two]
    exact nearest_mono (by simpa using hfraction)
  have hmono : nearest (-1) ≤ nearest (1 - nearest (fraction a b)) := nearest_mono (by linarith)
  rwa [nearest_neg, nearest_one, ← similarity_eq] at hmono

/-- What the distance has over the longer length counts unless rounding loses it. -/
theorem similarity_nonneg_iff : 0 ≤ similarity a b ↔
    2 ^ 53 * distance (lower a) (lower b) ≤ (2 ^ 53 + 1) * max a.length b.length := by
  have hbound : twoPow 0 + twoPow (0 - 53) = ((2 ^ 53 + 1 : Nat) : Rat) / (2 ^ 53 : Nat) := by
    rw [twoPow_eq, twoPow_eq]
    norm_num
  rw [← fraction_le_iff (by positivity), ← hbound, ← nearest_le_twoPow_iff (by omega), similarity_eq]
  constructor
  · intro h
    by_contra hlt
    have hplace := place_le_nearest (by omega) (not_le.mp hlt)
    rw [twoPow_zero] at hplace
    have hneg : nearest (1 - nearest (fraction a b)) ≤ nearest (-twoPow (0 - 52)) :=
      nearest_mono (by linarith)
    rw [nearest_neg, nearest_twoPow (by omega)] at hneg
    linarith [twoPow_pos (0 - 52)]
  · intro h
    rw [twoPow_zero] at h
    exact nearest_nonneg (by linarith)

/-- Texts are as similar as can be if they are the same in lower case, or so long that rounding loses
their distance. -/
theorem similarity_eq_one_iff : similarity a b = 1 ↔
    2 ^ 107 * distance (lower a) (lower b) ≤ (2 ^ 53 + 1) * max a.length b.length := by
  have hbound : twoPow (-54) + twoPow (-54 - 53) =
      ((2 ^ 53 + 1 : Nat) : Rat) / (2 ^ 107 : Nat) := by
    rw [twoPow_eq, twoPow_eq]
    norm_num
  have hone : similarity a b = 1 ↔ twoPow 0 ≤ similarity a b := by
    rw [twoPow_zero]
    exact ⟨fun h => h.ge, fun h => le_antisymm (similarity_le_one a b) h⟩
  rw [← fraction_le_iff (by positivity), ← hbound, ← nearest_le_twoPow_iff (by omega), hone,
    similarity_eq, twoPow_le_nearest_iff (by omega), twoPow_zero]
  exact sub_le_sub_iff_left 1

end Score

/-- In lower case a text is further from another than the longer of them is long only if there is a
dotted capital I in one of them, which is two characters there. So the similarity can be as low as
minus one. It is not negative if the distance is within that length, and one if the texts are the same
in lower case; in texts of `2 ^ 53` characters and more rounding loses small differences. -/
theorem similarity_range (a b : Text) :
    (dottedI ∉ a ↔ ∀ c, dottedI ∉ c →
        distance (lower a) (lower c) ≤ max a.length c.length) ∧
      (-1 ≤ similarity a b ∧ similarity a b ≤ 1) ∧
      (0 ≤ similarity a b ↔
        2 ^ 53 * distance (lower a) (lower b) ≤ (2 ^ 53 + 1) * max a.length b.length) ∧
      (similarity a b = 1 ↔
        2 ^ 107 * distance (lower a) (lower b) ≤ (2 ^ 53 + 1) * max a.length b.length) ∧
      (max a.length b.length < 2 ^ 53 →
        (0 ≤ similarity a b ↔ distance (lower a) (lower b) ≤ max a.length b.length) ∧
          (similarity a b = 1 ↔ lower a = lower b)) := by
  refine ⟨dottedI_notMem_iff, ⟨neg_one_le_similarity a b, similarity_le_one a b⟩,
    similarity_nonneg_iff, similarity_eq_one_iff, fun hlength => ?_⟩
  rw [similarity_nonneg_iff, similarity_eq_one_iff, lower_eq_iff]
  constructor <;> constructor <;> intro h <;> omega

def istanbul : Text := "Istanbul".toList

def turkish : Text := dottedI :: "stanbul".toList

/-- The dot that the lower case keeps is one edit, which is well within the length of the names. -/
theorem similarity_range_istanbul :
    distance (lower istanbul) (lower "islands".toList) ≤ max istanbul.length "islands".toList.length ∧
      0 ≤ similarity turkish istanbul ∧ similarity turkish istanbul ≠ 1 := by
  have hplain := (similarity_range istanbul istanbul).1.mp (by decide) "islands".toList (by decide)
  have hlength : max turkish.length istanbul.length < 2 ^ 53 := by decide
  have hdistance : distance (lower turkish) (lower istanbul) ≤
      max turkish.length istanbul.length := by
    decide +kernel
  have hother : lower turkish ≠ lower istanbul := by decide +kernel
  obtain ⟨hnonneg, hone⟩ := (similarity_range turkish istanbul).2.2.2.2 hlength
  exact ⟨hplain, hnonneg.mpr hdistance, fun h => hother (hone.mp h)⟩

/-- Both characters that the lower case of one dotted capital I has are edits. -/
theorem dottedI_below_range :
    max [dottedI].length ([] : Text).length = 1 ∧ distance (lower [dottedI]) (lower []) = 2 ∧
      similarity [dottedI] [] = -1 := by
  decide +kernel

end VaultSearch.Fuzzy
