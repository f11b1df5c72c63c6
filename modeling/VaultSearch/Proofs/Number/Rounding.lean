import Mathlib.Algebra.Order.Field.Power
import Mathlib.Algebra.Order.Field.Rat
import Mathlib.Data.Rat.Cast.Order
import Mathlib.Tactic.FieldSimp
import Mathlib.Tactic.Linarith
import Mathlib.Tactic.Positivity
import VaultSearch.Number.Rounding

namespace VaultSearch.Number

variable {p q : Rat}

section Whole

theorem roundDiv_near (num : Nat) {den : Nat} (hden : 0 < den) :
    2 * num ≤ 2 * roundDiv num den * den + den ∧ 2 * roundDiv num den * den ≤ 2 * num + den := by
  have hsplit := Nat.div_add_mod num den
  have hrest := Nat.mod_lt num hden
  rw [roundDiv]
  generalize num / den = n at *
  generalize num % den = r at *
  subst hsplit
  split
  · constructor <;> nlinarith
  · split
    · constructor <;> nlinarith
    · have hhalf : 2 * r = den := by omega
      rcases Nat.mod_two_eq_zero_or_one n with h | h <;> rw [h] <;> constructor <;> nlinarith

theorem abs_eq (q : Rat) : abs q = |q| := by
  rw [abs]
  split
  · exact (abs_of_neg ‹_›).symm
  · exact (abs_of_nonneg (not_lt.mp ‹_›)).symm

theorem natAbs_num (q : Rat) : (q.num.natAbs : Rat) = |q| * q.den := by
  have hden : (0 : Rat) < q.den := by exact_mod_cast q.den_pos
  have hq : q * q.den = q.num := Rat.mul_den_eq_num q
  rw [Nat.cast_natAbs, Int.cast_abs, ← hq, abs_mul, abs_of_pos hden]

theorem roundDiv_abs_near (q : Rat) :
    |(roundDiv q.num.natAbs q.den : Rat) - (|q| : Rat)| ≤ 1 / 2 := by
  have hden : (0 : Rat) < q.den := by exact_mod_cast q.den_pos
  have hnum := natAbs_num q
  obtain ⟨hlow, hhigh⟩ := roundDiv_near q.num.natAbs q.den_pos
  generalize roundDiv q.num.natAbs q.den = n at *
  have hlow : 2 * (q.num.natAbs : Rat) ≤ 2 * n * q.den + q.den := by exact_mod_cast hlow
  have hhigh : 2 * (n : Rat) * q.den ≤ 2 * q.num.natAbs + q.den := by exact_mod_cast hhigh
  rw [hnum] at hlow hhigh
  rw [abs_le]
  constructor
  · refine le_of_mul_le_mul_right ?_ hden
    linarith
  · refine le_of_mul_le_mul_right ?_ hden
    linarith

theorem roundInt_near (q : Rat) : |(roundInt q : Rat) - q| ≤ 1 / 2 := by
  have hnear := roundDiv_abs_near q
  rw [roundInt]
  split
  · rename_i hneg
    rw [abs_of_neg hneg, sub_neg_eq_add] at hnear
    rw [← abs_neg, neg_sub, Int.cast_neg, sub_neg_eq_add, add_comm]
    exact_mod_cast hnear
  · rename_i hpos
    rw [abs_of_nonneg (not_lt.mp hpos)] at hnear
    exact_mod_cast hnear

theorem roundInt_mono (h : p ≤ q) : roundInt p ≤ roundInt q := by
  rcases h.eq_or_lt with rfl | hlt
  · exact le_rfl
  · have hp := abs_le.mp (roundInt_near p)
    have hq := abs_le.mp (roundInt_near q)
    have hnear : (roundInt p : Rat) < (roundInt q : Rat) + 1 := by linarith
    exact Int.lt_add_one_iff.mp (by exact_mod_cast hnear)

theorem roundInt_intCast (n : Int) : roundInt n = n := by
  have hnear := abs_le.mp (roundInt_near n)
  have hlow : (roundInt n : Rat) < n + 1 := by linarith
  have hhigh : (n : Rat) < roundInt n + 1 := by linarith
  have hlow : roundInt n < n + 1 := by exact_mod_cast hlow
  have hhigh : n < roundInt n + 1 := by exact_mod_cast hhigh
  omega

theorem roundInt_neg (q : Rat) : roundInt (-q) = -roundInt q := by
  rw [roundInt, roundInt, Rat.neg_num, Rat.neg_den, Int.natAbs_neg]
  rcases lt_trichotomy q 0 with h | rfl | h
  · rw [if_neg (by linarith), if_pos h, neg_neg]
  · rfl
  · rw [if_pos (by linarith), if_neg (by linarith)]

end Whole

section Powers

theorem twoPow_eq (e : Int) : twoPow e = (2 : Rat) ^ e := by
  rw [twoPow]
  split
  · rename_i h
    lift e to Nat using h
    simp
  · rename_i h
    obtain ⟨n, rfl⟩ := Int.exists_eq_neg_ofNat (not_le.mp h).le
    simp [Rat.mkRat_eq_div]

theorem twoPow_pos (e : Int) : 0 < twoPow e := by
  rw [twoPow_eq]
  positivity

theorem twoPow_mono {a b : Int} (h : a ≤ b) : twoPow a ≤ twoPow b := by
  rw [twoPow_eq, twoPow_eq]
  exact zpow_le_zpow_right₀ (by norm_num) h

theorem twoPow_add (a b : Int) : twoPow (a + b) = twoPow a * twoPow b := by
  rw [twoPow_eq, twoPow_eq, twoPow_eq, zpow_add₀ (by norm_num)]

theorem twoPow_natCast (n : Nat) : twoPow n = (2 ^ n : Nat) := by
  rw [twoPow_eq]
  push_cast
  rw [zpow_natCast]

theorem le_nat_log2 {n : Nat} (h : n ≠ 0) :
    twoPow n.log2 ≤ n ∧ (n : Rat) < twoPow (n.log2 + 1) := by
  have hlow := Nat.log2_self_le h
  have hhigh := Nat.lt_log2_self (n := n)
  constructor
  · rw [twoPow_natCast]
    exact_mod_cast hlow
  · rw [← Nat.cast_succ, twoPow_natCast]
    exact_mod_cast hhigh

theorem log2_spec (h : 0 < q) : twoPow (log2 q) ≤ q ∧ q < twoPow (log2 q + 1) := by
  have hden : (0 : Rat) < q.den := by exact_mod_cast q.den_pos
  have hnum := natAbs_num q
  rw [abs_of_pos h] at hnum
  have hne : q.num.natAbs ≠ 0 := by simpa using h.ne'
  obtain ⟨hnlow, hnhigh⟩ := le_nat_log2 hne
  obtain ⟨hdlow, hdhigh⟩ := le_nat_log2 q.den_pos.ne'
  rw [log2]
  generalize q.num.natAbs.log2 = a at *
  generalize q.den.log2 = b at *
  have hup : (a : Int) - b - 1 + (b + 1) = a := by omega
  have hdown : (a : Int) + 1 = a - b + 1 + b := by omega
  have hlow : twoPow (a - b - 1) < q := by
    refine lt_of_mul_lt_mul_right ?_ hden.le
    calc twoPow (a - b - 1) * q.den
        < twoPow (a - b - 1) * twoPow (b + 1) := mul_lt_mul_of_pos_left hdhigh (twoPow_pos _)
      _ = twoPow a := by rw [← twoPow_add, hup]
      _ ≤ q * q.den := hnum ▸ hnlow
  have hhigh : q < twoPow (a - b + 1) := by
    refine lt_of_mul_lt_mul_right ?_ hden.le
    calc q * q.den
        < twoPow (a + 1) := hnum ▸ hnhigh
      _ = twoPow (a - b + 1) * twoPow b := by rw [← twoPow_add, hdown]
      _ ≤ twoPow (a - b + 1) * q.den := mul_le_mul_of_nonneg_left hdlow (twoPow_pos _).le
  split
  · exact ⟨‹_›, hhigh⟩
  · exact ⟨hlow.le, by rw [sub_add_cancel]; exact not_le.mp ‹_›⟩

theorem log2_mono (hp : 0 < p) (h : p ≤ q) : log2 p ≤ log2 q := by
  by_contra hlt
  have hstep : twoPow (log2 q + 1) ≤ twoPow (log2 p) := twoPow_mono (by omega)
  have hlow := (log2_spec hp).1
  have hhigh := (log2_spec (hp.trans_le h)).2
  linarith

end Powers

section Nearest

def place (q : Rat) : Int := max (log2 (abs q) - 52) (-1074)

theorem unit_eq (q : Rat) : unit q = twoPow (place q) := rfl

theorem unit_pos (q : Rat) : 0 < unit q := twoPow_pos _

theorem nearest_neg (q : Rat) : nearest (-q) = -nearest q := by
  have hunit : unit (-q) = unit q := by rw [unit, unit, abs_eq, abs_eq, abs_neg]
  rw [nearest, nearest, hunit, neg_div, roundInt_neg]
  by_cases h : q = 0
  · simp [h]
  · rw [if_neg (neg_ne_zero.mpr h), if_neg h, Int.cast_neg, neg_mul]

theorem nearest_eq (h : 0 < q) : nearest q = roundInt (q / unit q) * unit q := if_neg h.ne'

theorem nearest_nonneg (h : 0 ≤ q) : 0 ≤ nearest q := by
  rcases h.eq_or_lt with rfl | h
  · exact le_rfl
  · have hunit := unit_pos q
    have hround := roundInt_mono (p := (0 : Int)) (q := q / unit q) (by positivity)
    rw [roundInt_intCast] at hround
    rw [nearest_eq h]
    have hround : (0 : Rat) ≤ roundInt (q / unit q) := by exact_mod_cast hround
    positivity

/-- Rounding passes no multiple of the last place. -/
theorem nearest_le_mul {n : Int} (h : 0 < q) (hq : q ≤ n * unit q) : nearest q ≤ n * unit q := by
  have hround := roundInt_mono ((div_le_iff₀ (unit_pos q)).mpr hq)
  rw [roundInt_intCast] at hround
  rw [nearest_eq h]
  exact mul_le_mul_of_nonneg_right (by exact_mod_cast hround) (unit_pos q).le

theorem mul_le_nearest {n : Int} (h : 0 < q) (hq : n * unit q ≤ q) : n * unit q ≤ nearest q := by
  have hround := roundInt_mono ((le_div_iff₀ (unit_pos q)).mpr hq)
  rw [roundInt_intCast] at hround
  rw [nearest_eq h]
  exact mul_le_mul_of_nonneg_right (by exact_mod_cast hround) (unit_pos q).le

theorem twoPow_eq_mul_unit {e : Int} (h : place q ≤ e) : ∃ n : Int, twoPow e = n * unit q := by
  obtain ⟨n, hn⟩ := Int.le.dest h
  refine ⟨2 ^ n, ?_⟩
  rw [← hn, twoPow_add, twoPow_natCast, unit_eq, mul_comm]
  norm_cast

theorem place_eq (h : 0 < q) : place q = max (log2 q - 52) (-1074) := by
  rw [place, abs_eq, abs_of_pos h]

theorem nearest_mono_pos (hp : 0 < p) (h : p ≤ q) : nearest p ≤ nearest q := by
  have hq := hp.trans_le h
  have hlog := log2_mono hp h
  have hplace := place_eq hp
  have hplace' := place_eq hq
  rcases (show place p ≤ place q by omega).eq_or_lt with heq | hlt
  · have hunit : unit p = unit q := congrArg twoPow heq
    have hround := roundInt_mono (div_le_div_of_nonneg_right h (unit_pos q).le)
    rw [nearest_eq hp, nearest_eq hq, hunit]
    exact mul_le_mul_of_nonneg_right (by exact_mod_cast hround) (unit_pos q).le
  -- Between numbers of different last places there is a power of two, which is a multiple of both.
  · have hpow : p ≤ twoPow (log2 q) :=
      (log2_spec hp).2.le.trans (twoPow_mono (by omega))
    obtain ⟨n, hn⟩ := twoPow_eq_mul_unit (q := p) (e := log2 q) (by omega)
    obtain ⟨m, hm⟩ := twoPow_eq_mul_unit (q := q) (e := log2 q) (by omega)
    calc nearest p ≤ twoPow (log2 q) := hn ▸ nearest_le_mul hp (hn ▸ hpow)
      _ ≤ nearest q := hm ▸ mul_le_nearest hq (hm ▸ (log2_spec hq).1)

/-- Rounding keeps the order of numbers. -/
theorem nearest_mono (h : p ≤ q) : nearest p ≤ nearest q := by
  rcases lt_or_ge 0 p with hp | hp
  · exact nearest_mono_pos hp h
  · rcases le_or_gt 0 q with hq | hq
    · have hneg := nearest_nonneg (neg_nonneg.mpr hp)
      rw [nearest_neg] at hneg
      linarith [nearest_nonneg hq]
    · have hneg := nearest_mono_pos (p := -q) (q := -p) (by linarith) (by linarith)
      rw [nearest_neg, nearest_neg] at hneg
      linarith

end Nearest

section Binades

variable {e : Int}

theorem log2_eq (hlow : twoPow e ≤ q) (hhigh : q < twoPow (e + 1)) : log2 q = e := by
  have hpos := (twoPow_pos e).trans_le hlow
  obtain ⟨hlow', hhigh'⟩ := log2_spec hpos
  apply le_antisymm
  · by_contra hlt
    have := twoPow_mono (a := e + 1) (b := log2 q) (by omega)
    linarith
  · by_contra hlt
    have := twoPow_mono (a := log2 q + 1) (b := e) (by omega)
    linarith

theorem unit_of_binade (he : -1022 ≤ e) (hlow : twoPow e ≤ q) (hhigh : q < twoPow (e + 1)) :
    unit q = twoPow (e - 52) := by
  rw [unit_eq, place_eq ((twoPow_pos e).trans_le hlow), log2_eq hlow hhigh, max_eq_left (by omega)]

theorem nearest_twoPow (he : -1074 ≤ e) : nearest (twoPow e) = twoPow e := by
  have hpos := twoPow_pos e
  have hlog : log2 (twoPow e) = e := by
    refine log2_eq le_rfl ?_
    rw [twoPow_add, twoPow_eq 1]
    linarith
  obtain ⟨n, hn⟩ := twoPow_eq_mul_unit (q := twoPow e) (e := e)
    (by rw [place_eq hpos, hlog]; omega)
  apply le_antisymm
  · calc nearest (twoPow e) ≤ n * unit (twoPow e) := nearest_le_mul hpos hn.le
      _ = twoPow e := hn.symm
  · calc twoPow e = n * unit (twoPow e) := hn
      _ ≤ nearest (twoPow e) := mul_le_nearest hpos hn.ge

theorem twoPow_zero : twoPow 0 = 1 := by
  rw [twoPow_eq, zpow_zero]

theorem nearest_zero : nearest 0 = 0 := if_pos rfl

theorem nearest_one : nearest 1 = 1 := by
  rw [← twoPow_zero]
  exact nearest_twoPow (by omega)

theorem nearest_two : nearest 2 = 2 := by
  have htwo : twoPow 1 = 2 := by rw [twoPow_eq, zpow_one]
  rw [← htwo]
  exact nearest_twoPow (by omega)

/-- The last place above a power of two, and what the numbers around the power are in it. -/
theorem twoPow_places (e : Int) : twoPow e = 2 ^ 52 * twoPow (e - 52) ∧
    twoPow (e + 1) = 2 ^ 53 * twoPow (e - 52) ∧ twoPow (e - 53) = 1 / 2 * twoPow (e - 52) := by
  have hsplit : ∀ n : Int, twoPow (n + (e - 52)) = 2 ^ n * twoPow (e - 52) := by
    intro n
    rw [twoPow_add, twoPow_eq n]
  refine ⟨?_, ?_, ?_⟩
  · simpa using hsplit 52
  · have h := hsplit 53
    rwa [show (53 : Int) + (e - 52) = e + 1 by omega] at h
  · have h := hsplit (-1)
    rw [show (-1 : Int) + (e - 52) = e - 53 by omega] at h
    rw [h]
    norm_num

theorem nearest_mul (he : -1022 ≤ e) (hlow : 2 ^ 52 ≤ q) (hhigh : q < 2 ^ 53) :
    nearest (q * twoPow (e - 52)) = roundInt q * twoPow (e - 52) := by
  obtain ⟨hpow, hnext, -⟩ := twoPow_places e
  have hplace := twoPow_pos (e - 52)
  have hunit : unit (q * twoPow (e - 52)) = twoPow (e - 52) := by
    refine unit_of_binade he ?_ ?_
    · rw [hpow]
      exact mul_le_mul_of_nonneg_right hlow hplace.le
    · rw [hnext]
      exact mul_lt_mul_of_pos_right hhigh hplace
  rw [nearest_eq (mul_pos (by linarith) hplace), hunit, mul_div_cancel_right₀ q hplace.ne']

theorem exists_eq_mul_place (q : Rat) (e : Int) : ∃ p, q = p * twoPow (e - 52) :=
  ⟨q / twoPow (e - 52), (div_mul_cancel₀ q (twoPow_pos _).ne').symm⟩

/-- A power of two is even in its last place, so half a place above it is rounded off. -/
theorem nearest_le_twoPow_iff (he : -1022 ≤ e) :
    nearest q ≤ twoPow e ↔ q ≤ twoPow e + twoPow (e - 53) := by
  obtain ⟨hpow, hnext, hhalf⟩ := twoPow_places e
  obtain ⟨p, rfl⟩ := exists_eq_mul_place q e
  have hplace := twoPow_pos (e - 52)
  rw [hpow, hhalf, ← add_mul, mul_le_mul_iff_left₀ hplace]
  constructor
  · intro h
    by_contra hlt
    rw [not_le] at hlt
    rcases lt_or_ge p (2 ^ 53) with hp | hp
    · rw [nearest_mul he (by linarith) hp, mul_le_mul_iff_left₀ hplace] at h
      linarith [abs_le.mp (roundInt_near p)]
    · have hmono := nearest_mono (mul_le_mul_of_nonneg_right hp hplace.le)
      rw [← hnext, nearest_twoPow (by omega), hnext] at hmono
      linarith
  · intro h
    have hround : roundInt (2 ^ 52 + 1 / 2) = 2 ^ 52 := by decide +kernel
    calc nearest (p * twoPow (e - 52))
        ≤ nearest ((2 ^ 52 + 1 / 2) * twoPow (e - 52)) :=
          nearest_mono (mul_le_mul_of_nonneg_right h hplace.le)
      _ = 2 ^ 52 * twoPow (e - 52) := by
          rw [nearest_mul he (by norm_num) (by norm_num), hround]
          norm_cast

/-- What is rounded to more than a power of two is rounded to at least the next place. -/
theorem place_le_nearest (he : -1022 ≤ e) (h : twoPow e < nearest q) :
    twoPow e + twoPow (e - 52) ≤ nearest q := by
  obtain ⟨hpow, hnext, hhalf⟩ := twoPow_places e
  have hplace := twoPow_pos (e - 52)
  have hq : twoPow e + twoPow (e - 53) < q := by
    rw [← not_le, ← nearest_le_twoPow_iff he]
    exact not_le.mpr h
  obtain ⟨p, rfl⟩ := exists_eq_mul_place q e
  rw [hpow, hhalf, ← add_mul, mul_lt_mul_iff_left₀ hplace] at hq
  rw [hpow] at h ⊢
  rcases lt_or_ge p (2 ^ 53) with hp | hp
  · rw [nearest_mul he (by linarith) hp] at h ⊢
    have hround : (2 ^ 52 : Rat) < roundInt p := lt_of_mul_lt_mul_right h hplace.le
    have hround : (2 ^ 52 : Rat) + 1 ≤ roundInt p := by exact_mod_cast hround
    calc 2 ^ 52 * twoPow (e - 52) + twoPow (e - 52)
        = (2 ^ 52 + 1) * twoPow (e - 52) := by rw [add_mul, one_mul]
      _ ≤ roundInt p * twoPow (e - 52) := mul_le_mul_of_nonneg_right hround hplace.le
  · have hmono := nearest_mono (mul_le_mul_of_nonneg_right hp hplace.le)
    rw [← hnext, nearest_twoPow (by omega), hnext] at hmono
    linarith

/-- Below a power of two the places are half as wide, and half of such a place is rounded off. -/
theorem twoPow_le_nearest_iff (he : -1021 ≤ e) :
    twoPow e ≤ nearest q ↔ twoPow e - twoPow (e - 54) ≤ q := by
  obtain ⟨hlower, hpow, hhalf⟩ := twoPow_places (e - 1)
  rw [show e - 1 + 1 = e by omega] at hpow
  rw [show e - 1 - 53 = e - 54 by omega] at hhalf
  obtain ⟨p, rfl⟩ := exists_eq_mul_place q (e - 1)
  have hplace := twoPow_pos (e - 1 - 52)
  rw [hpow, hhalf, ← sub_mul, mul_le_mul_iff_left₀ hplace]
  constructor
  · intro h
    by_contra hlt
    rw [not_le] at hlt
    rcases lt_or_ge p (2 ^ 52) with hp | hp
    · have hmono := nearest_mono (mul_le_mul_of_nonneg_right hp.le hplace.le)
      rw [← hlower, nearest_twoPow (by omega), hlower] at hmono
      linarith
    · rw [nearest_mul (by omega) hp (by linarith), mul_le_mul_iff_left₀ hplace] at h
      linarith [abs_le.mp (roundInt_near p)]
  · intro h
    have hround : roundInt (2 ^ 53 - 1 / 2) = 2 ^ 53 := by decide +kernel
    calc 2 ^ 53 * twoPow (e - 1 - 52)
        = nearest ((2 ^ 53 - 1 / 2) * twoPow (e - 1 - 52)) := by
          rw [nearest_mul (by omega) (by norm_num) (by norm_num), hround]
          norm_cast
      _ ≤ nearest (p * twoPow (e - 1 - 52)) :=
          nearest_mono (mul_le_mul_of_nonneg_right h hplace.le)

end Binades

end VaultSearch.Number
