import VaultSearch.Text.Basic

namespace VaultSearch.Time

inductive TimeError
  | year (year : Int)
  | month
  | day
  | hour
  | minute
  | second
  | date
  | timestamp
  | unrepresentable
  | notANumber
  deriving DecidableEq

def TimeError.message : TimeError → Text
  | year y => "year ".toList ++ .ofInt y ++ " is out of range".toList
  | month => "month must be in 1..12".toList
  | day => "day is out of range for month".toList
  | hour => "hour must be in 0..23".toList
  | minute => "minute must be in 0..59".toList
  | second => "second must be in 0..59".toList
  | date => "date value out of range".toList
  | timestamp => "timestamp out of range for platform time_t".toList
  | unrepresentable => []
  | notANumber => "Invalid value NaN (not a number)".toList

def isLeap (year : Nat) : Bool := year % 4 = 0 && (year % 100 ≠ 0 || year % 400 = 0)

def monthLengths (year : Nat) : List Nat :=
  [31, if isLeap year then 29 else 28, 31, 30, 31, 30, 31, 31, 30, 31, 30, 31]

/-- Days before the first of January, counted from the first of January of year one. -/
def daysBeforeYear (year : Nat) : Nat :=
  let y := year - 1
  365 * y + y / 4 - y / 100 + y / 400

def lastYear : Nat := 9999

def dayCount : Nat := daysBeforeYear (lastYear + 1)

def yearOfDay (n : Nat) : Nat × Nat :=
  let n400 := n % 146097
  let c100 := min (n400 / 36524) 3
  let n100 := n400 - c100 * 36524
  let n4 := n100 % 1461
  let c1 := min (n4 / 365) 3
  (400 * (n / 146097) + 100 * c100 + 4 * (n100 / 1461) + c1 + 1, n4 - c1 * 365)

/-- The month, from `month` on, that holds a day of the year, and the day of the month. -/
def monthOfDay : List Nat → Nat → Nat → Nat × Nat
  | [], month, n => (month, n + 1)
  | len :: rest, month, n => if n < len then (month, n + 1) else monthOfDay rest (month + 1) (n - len)

/-- A day of the years 1 to 9999, by the number of days before it. -/
structure Date where
  index : Nat
  inRange : index < dayCount
  deriving DecidableEq

def pad (width n : Nat) : Text :=
  let digits := Nat.toDigits 10 n
  List.replicate (width - digits.length) '0' ++ digits

namespace Date

def ofCivil (year month day : Nat) : Except TimeError Date :=
  if year < 1 || lastYear < year then .error (.year year)
  else match (monthLengths year)[month - 1]? with
    | none => .error .month
    | some len =>
      if month = 0 then .error .month
      else if day < 1 || len < day then .error .day
      else
        let index := daysBeforeYear year + ((monthLengths year).take (month - 1)).foldl (· + ·) 0 + (day - 1)
        if h : index < dayCount then .ok ⟨index, h⟩ else .error .date

def civil (d : Date) : Nat × Nat × Nat :=
  let (year, n) := yearOfDay d.index
  let (month, day) := monthOfDay (monthLengths year) 1 n
  (year, month, day)

/-- Zero is Monday. -/
def weekday (d : Date) : Nat := d.index % 7

def text (d : Date) : Text :=
  let (year, month, day) := d.civil
  pad 4 year ++ '-' :: pad 2 month ++ '-' :: pad 2 day

/-- The day of a week of a year whose first week is the one with the first Thursday. -/
def ofWeek? (year week day : Nat) : Option Date :=
  match ofCivil year 1 1 with
  | .error _ => none
  | .ok first =>
    let w := first.weekday
    let long := w = 3 || (w = 2 && isLeap year)
    if week < 1 || 53 < week || (week = 53 && !long) || day < 1 || 7 < day then none
    else
      let index := (first.index + (if 3 < w then 7 else 0) + (week - 1) * 7 + (day - 1) : Int) - w
      if 0 ≤ index then
        if h : index.toNat < dayCount then some ⟨index.toNat, h⟩ else none
      else none

end Date

end VaultSearch.Time
