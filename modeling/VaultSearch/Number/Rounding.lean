namespace VaultSearch.Number

/-- The whole number nearest to `num / den`; a half goes to the even neighbour. -/
def roundDiv (num den : Nat) : Nat :=
  let q := num / den
  let r := num % den
  if 2 * r < den then q else if den < 2 * r then q + 1 else q + q % 2

def roundInt (q : Rat) : Int :=
  if q < 0 then -(roundDiv q.num.natAbs q.den : Int) else roundDiv q.num.natAbs q.den

def twoPow (e : Int) : Rat := if 0 ≤ e then Nat.pow 2 e.toNat else mkRat 1 (Nat.pow 2 (-e).toNat)

def tenPow (e : Int) : Rat := if 0 ≤ e then Nat.pow 10 e.toNat else mkRat 1 (Nat.pow 10 (-e).toNat)

def abs (q : Rat) : Rat := if q < 0 then -q else q

/-- The exponent of the greatest power of two that is at most `q`, for `q` above zero. -/
def log2 (q : Rat) : Int :=
  let e : Int := q.num.natAbs.log2 - q.den.log2
  if twoPow e ≤ q then e else e - 1

def log10 (q : Rat) : Int :=
  let e : Int := (Nat.toDigits 10 q.num.natAbs).length - (Nat.toDigits 10 q.den).length
  if tenPow e ≤ q then e else e - 1

/-- The last place of a binary64 number of the size of `q`. -/
def unit (q : Rat) : Rat := twoPow (max (log2 (abs q) - 52) (-1074))

/-- The nearest multiple of the last place, as binary64 arithmetic rounds; a tie goes to the even
multiple. Numbers too large for binary64 are left to the caller. -/
def nearest (q : Rat) : Rat := if q = 0 then 0 else roundInt (q / unit q) * unit q

end VaultSearch.Number
