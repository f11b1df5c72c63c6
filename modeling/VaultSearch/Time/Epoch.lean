import VaultSearch.Number.Binary64
import VaultSearch.Time.Moment

namespace VaultSearch.Time

open Number

/-- Days before the first of January 1970. -/
def epochDay : Nat := 719162

def yearAt (day : Int) : Int :=
  400 * day.fdiv 146097 + (yearOfDay (day.fmod 146097).toNat).1

/-- A year as it is shown: a signed number of 32 bits. -/
def shownYear (year : Int) : Int := Int.bmod year 0x100000000

/-- The moment some seconds and microseconds after the start of 1970, in universal time. Seconds
have 64 bits, and years since 1900 have 32. -/
def Moment.ofEpoch (seconds : Int) (micros : Nat) : Except TimeError Moment :=
  if seconds < -0x8000000000000000 || 0x8000000000000000 ≤ seconds then .error .timestamp
  else match Moment.ofMicros? ((epochDay * 86400 + seconds) * secondMicros + micros) with
    | some m => .ok m
    | none =>
      let year := yearAt (epochDay + seconds.fdiv 86400)
      if year - 1900 < -0x80000000 || 0x80000000 ≤ year - 1900 then .error .unrepresentable
      else .error (.year (shownYear year))

/-- The fraction is scaled to microseconds in binary64 and then rounded, a half to the even
neighbour. -/
def Moment.ofEpochFloat (t : Binary64) : Except TimeError Moment :=
  match t with
  | .nan => .error .notANumber
  | .infinite _ => .error .timestamp
  | .negZero => ofEpoch 0 0
  | .finite v =>
    let whole : Int := if v < 0 then v.ceil else v.floor
    let micros := roundInt (nearest ((v - whole) * secondMicros))
    if (secondMicros : Int) ≤ micros then ofEpoch (whole + 1) (micros - secondMicros).toNat
    else if micros < 0 then ofEpoch (whole - 1) (micros + secondMicros).toNat
    else ofEpoch whole micros.toNat

end VaultSearch.Time
