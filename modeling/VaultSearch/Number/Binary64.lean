import VaultSearch.Number.Rounding

namespace VaultSearch.Number

/-- A binary64 number; a finite one is the rational it stands for. -/
inductive Binary64
  | nan
  | infinite (negative : Bool)
  | negZero
  | finite (value : Rat)
  deriving DecidableEq

namespace Binary64

def ofSigned (negative : Bool) (q : Rat) : Binary64 :=
  let v := nearest q
  if twoPow 1024 ≤ v then .infinite false
  else if v ≤ -twoPow 1024 then .infinite true
  else if v = 0 && negative then .negZero
  else .finite v

def ofRat (q : Rat) : Binary64 := ofSigned (q < 0) q

def ofInt (n : Int) : Binary64 := ofRat n

/-- `mantissa * 10 ^ exponent`; exponents far outside the range of binary64 are not expanded. -/
def ofDecimal (negative : Bool) (mantissa : Nat) (exponent : Int) : Binary64 :=
  let size := (Nat.toDigits 10 mantissa).length + exponent
  if mantissa = 0 || size < -400 then (if negative then .negZero else .finite 0)
  else if 400 < size then .infinite negative
  else ofSigned negative ((if negative then -1 else 1) * (mantissa : Rat) * tenPow exponent)

def value? : Binary64 → Option Rat
  | negZero => some 0
  | finite v => some v
  | _ => none

def le (a b : Binary64) : Bool :=
  match a, b with
  | nan, _ | _, nan => false
  | infinite true, _ | _, infinite false => true
  | infinite false, _ | _, infinite true => false
  | a, b => decide (a.value?.getD 0 ≤ b.value?.getD 0)

def neg : Binary64 → Binary64
  | nan => nan
  | infinite s => infinite !s
  | negZero => finite 0
  | finite v => if v = 0 then negZero else finite (-v)

def add (a b : Binary64) : Binary64 :=
  match a, b with
  | nan, _ | _, nan => nan
  | infinite s, infinite t => if s = t then infinite s else nan
  | infinite s, _ | _, infinite s => infinite s
  | negZero, negZero => negZero
  | a, b => ofRat (a.value?.getD 0 + b.value?.getD 0)

def isNegative : Binary64 → Bool
  | infinite s => s
  | negZero => true
  | finite v => v < 0
  | nan => false

def mul (a b : Binary64) : Binary64 :=
  let negative := a.isNegative != b.isNegative
  match a, b with
  | nan, _ | _, nan => nan
  | infinite _, b => if b.value? = some 0 then nan else infinite negative
  | a, infinite _ => if a.value? = some 0 then nan else infinite negative
  | a, b => ofSigned negative (a.value?.getD 0 * b.value?.getD 0)

end Binary64

end VaultSearch.Number
