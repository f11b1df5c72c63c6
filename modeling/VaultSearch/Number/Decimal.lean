import VaultSearch.Number.Binary64
import VaultSearch.Text.Basic

namespace VaultSearch.Number

structure Decimal where
  coefficient : Nat
  exponent : Int
  deriving DecidableEq

namespace Decimal

def value (d : Decimal) : Rat := d.coefficient * tenPow d.exponent

/-- Of the two neighbours of `v` on a decimal grid, those that read back as `v`; the nearer wins,
and of two equally near the even one. -/
def onGrid? (v : Rat) (exponent : Int) : Option Decimal :=
  let scaled := v / tenPow exponent
  let low : Decimal := ⟨scaled.floor.toNat, exponent⟩
  let high : Decimal := ⟨scaled.floor.toNat + 1, exponent⟩
  let readsBack := fun (d : Decimal) => nearest d.value = v
  if readsBack low then
    if readsBack high then
      let near := roundDiv scaled.num.natAbs scaled.den
      some ⟨near, exponent⟩
    else some low
  else if readsBack high then some high else none

def shortestFrom (v : Rat) (top : Int) : Nat → Nat → Decimal
  | 0, digits => ⟨(v / tenPow (top - digits)).floor.toNat, top - digits⟩
  | fuel + 1, digits => (onGrid? v (top + 1 - digits)).getD (shortestFrom v top fuel (digits + 1))

/-- The decimal of fewest digits that reads back as the binary64 number `v`, for `v` above zero;
seventeen digits always do. -/
def shortest (v : Rat) : Decimal := shortestFrom v (log10 v) 17 1

def trimZeros : Nat → Decimal → Decimal
  | 0, d => d
  | fuel + 1, d =>
    if d.coefficient ≠ 0 && d.coefficient % 10 = 0 then trimZeros fuel ⟨d.coefficient / 10, d.exponent + 1⟩
    else d

end Decimal

/-- Exponents from `-4` to `15` are written positionally, with a digit after the point; others
with at least two exponent digits. -/
def positiveText (v : Rat) : Text :=
  let d := (Decimal.shortest v).trimZeros 20
  let digits := Nat.toDigits 10 d.coefficient
  let top : Int := d.exponent + digits.length - 1
  if -4 ≤ top && top < 16 then
    if top < 0 then
      '0' :: '.' :: List.replicate (-1 - top).toNat '0' ++ digits
    else
      let whole := top.toNat + 1
      let padded := digits ++ List.replicate (whole - digits.length) '0'
      let fraction := padded.drop whole
      padded.take whole ++ '.' :: (if fraction.isEmpty then ['0'] else fraction)
  else
    let mantissa := match digits with
      | [] => []
      | [c] => [c]
      | c :: rest => c :: '.' :: rest
    let e := Nat.toDigits 10 top.natAbs
    mantissa ++ 'e' :: (if top < 0 then '-' else '+') :: List.replicate (2 - e.length) '0' ++ e

def Binary64.text : Binary64 → Text
  | nan => "nan".toList
  | infinite false => "inf".toList
  | infinite true => "-inf".toList
  | negZero => "-0.0".toList
  | finite v =>
    if v = 0 then "0.0".toList else if v < 0 then '-' :: positiveText (-v) else positiveText v

def fixedSize (places : Nat) (v : Rat) : Text :=
  let scaled := v * Nat.pow 10 places
  let n := roundDiv scaled.num.natAbs scaled.den
  let digits := Nat.toDigits 10 n
  let padded := List.replicate (places + 1 - digits.length) '0' ++ digits
  let whole := padded.length - places
  if places = 0 then padded else padded.take whole ++ '.' :: padded.drop whole

def fixedRat (places : Nat) (v : Rat) : Text :=
  if v < 0 then '-' :: fixedSize places (-v) else fixedSize places v

def Binary64.fixed (places : Nat) : Binary64 → Text
  | nan => "nan".toList
  | infinite false => "inf".toList
  | infinite true => "-inf".toList
  | negZero => '-' :: fixedSize places 0
  | finite v => fixedRat places v

end VaultSearch.Number
