import VaultSearch.Time.Date

namespace VaultSearch.Time

def secondMicros : Nat := 1000000

def minuteMicros : Nat := 60 * secondMicros

def hourMicros : Nat := 60 * minuteMicros

def dayMicros : Nat := 24 * hourMicros

/-- A moment of the years 1 to 9999, in microseconds from their start. -/
structure Moment where
  micros : Nat
  inRange : micros < dayCount * dayMicros
  deriving DecidableEq

namespace Moment

def ofMicros? (n : Int) : Option Moment :=
  if 0 ≤ n then
    if h : n.toNat < dayCount * dayMicros then some ⟨n.toNat, h⟩ else none
  else none

def ofDate (d : Date) : Moment :=
  ⟨d.index * dayMicros, Nat.mul_lt_mul_of_pos_right d.inRange (by decide)⟩

def ofClock (d : Date) (hour minute second micros : Nat) : Except TimeError Moment :=
  if 23 < hour then .error .hour
  else if 59 < minute then .error .minute
  else if 59 < second then .error .second
  else
    let t := hour * hourMicros + minute * minuteMicros + second * secondMicros + micros
    match ofMicros? (d.index * dayMicros + t : Nat) with
    | some m => .ok m
    | none => .error .date

def date (m : Moment) : Date :=
  ⟨m.micros / dayMicros, Nat.div_lt_of_lt_mul (Nat.mul_comm .. ▸ m.inRange)⟩

def clock (m : Moment) : Nat := m.micros % dayMicros

def le (a b : Moment) : Bool := a.micros ≤ b.micros

def lt (a b : Moment) : Bool := a.micros < b.micros

def add (m : Moment) (n : Int) : Except TimeError Moment :=
  match ofMicros? (m.micros + n) with
  | some m => .ok m
  | none => .error .date

def clockText (n : Nat) : Text :=
  pad 2 (n / hourMicros) ++ ':' :: pad 2 (n / minuteMicros % 60) ++ ':' ::
    pad 2 (n / secondMicros % 60) ++
    if n % secondMicros = 0 then [] else '.' :: pad 6 (n % secondMicros)

def text (sep : Char) (m : Moment) : Text := m.date.text ++ sep :: clockText m.clock

end Moment

/-- How far a clock runs ahead of universal time, by less than a day. -/
structure Offset where
  micros : Int
  inRange : -(dayMicros : Int) < micros ∧ micros < dayMicros
  deriving DecidableEq

namespace Offset

def ofMicros? (n : Int) : Option Offset :=
  if h : -(dayMicros : Int) < n ∧ n < dayMicros then some ⟨n, h⟩ else none

def utc : Offset := ⟨0, by decide⟩

def text (o : Offset) : Text :=
  let n := o.micros.natAbs
  let rest := n % minuteMicros
  (if o.micros < 0 then '-' else '+') :: pad 2 (n / hourMicros) ++ ':' :: pad 2 (n / minuteMicros % 60) ++
    if rest = 0 then []
    else ':' :: pad 2 (rest / secondMicros) ++
      if rest % secondMicros = 0 then [] else '.' :: pad 6 (rest % secondMicros)

end Offset

/-- What a clock shows, with the offset of the clock if it is known. -/
structure Stamp where
  shown : Moment
  offset : Option Offset
  deriving DecidableEq

namespace Stamp

def naive (m : Moment) : Stamp := ⟨m, none⟩

/-- The moment in universal time; a clock of unknown offset is taken to show it. -/
def toUtc (s : Stamp) : Except TimeError Moment :=
  match s.offset with
  | none => .ok s.shown
  | some o => if o.micros = 0 then .ok s.shown else s.shown.add (-o.micros)

def text (sep : Char) (s : Stamp) : Text :=
  s.shown.text sep ++ match s.offset with
    | none => []
    | some o => o.text

end Stamp

end VaultSearch.Time
