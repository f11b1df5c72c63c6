import VaultSearch.Time.Moment

namespace VaultSearch.Time

open Text

def digit? (c : Char) : Option Nat := if c.isDigit then some (c.val.toNat - 48) else none

def readDigits : Nat → Nat → Text → Option (Nat × Text)
  | 0, v, t => some (v, t)
  | _ + 1, _, [] => none
  | n + 1, v, c :: t => (digit? c).bind fun d => readDigits n (10 * v + d) t

/-- Where the date ends: ten characters with dashes, eight or seven without, and a week date has
one digit more if it names the day. -/
def dateWidth (t : Text) : Nat :=
  if t.length = 7 then 7
  else match t.drop 4 with
    | '-' :: 'W' :: rest =>
      if rest.length < 2 then 0
      else match rest.drop 2 with
        | '-' :: after =>
          match after with
          | [] => 0
          | [_] => 10
          | _ :: d :: _ => if d.isDigit then 8 else 10
        | _ => 8
    | '-' :: _ => 10
    | 'W' :: rest =>
      let pos := 7 + ((rest.drop 2).takeWhile Char.isDigit).length
      if pos < 9 then pos else if pos % 2 = 0 then 7 else 8
    | _ => 8

def readDate (t : Text) : Option Date := do
  let (year, t) ← readDigits 4 0 t
  let (dashed, t) := match t with
    | '-' :: t => (true, t)
    | t => (false, t)
  match t with
  | 'W' :: t =>
    let (week, t) ← readDigits 2 0 t
    match t with
    | [] => Date.ofWeek? year week 1
    | t =>
      let t ← match dashed, t with
        | true, '-' :: t => some t
        | true, _ => none
        | false, t => some t
      let (day, _) ← readDigits 1 0 t
      Date.ofWeek? year week day
  | t =>
    let (month, t) ← readDigits 2 0 t
    let t ← match dashed, t with
      | true, '-' :: t => some t
      | true, _ => none
      | false, t => some t
    let (day, t) ← readDigits 2 0 t
    if t.isEmpty then (Date.ofCivil year month day).toOption else none

/-- Up to six digits of a fraction in microseconds; digits after the sixth are dropped. With
`loose`, what follows them is overlooked. -/
def readFraction (loose : Bool) (t : Text) : Option Nat := do
  let n := min t.length 6
  let (v, rest) ← readDigits n 0 t
  if loose || (rest.dropWhile Char.isDigit).isEmpty then some (v * Nat.pow 10 (6 - n)) else none

/-- Two-digit fields after the ones in `done`, all with colons or all without. With `loose`, one
more character may follow the last field. -/
def readFields (loose : Bool) (colons : Option Bool) : Nat → List Nat → Text → Option (List Nat × Nat)
  | left, done, t =>
    match readDigits 2 0 t with
    | none => none
    | some (v, t) =>
      let done := done ++ [v]
      match t with
      | [] => some (done, 0)
      | [c] => if loose && c.val < 0x80 then some (done, 0) else none
      | c :: u =>
        let colons := colons.getD (c == ':')
        if colons && c == ':' then
          match left with
          | 0 => (readFraction loose u).map (done, ·)
          | left + 1 => readFields loose (some colons) left done u
        else if c == '.' || c == ',' then (readFraction loose u).map (done, ·)
        else if !colons then
          match left with
          | 0 => (readFraction loose (c :: u)).map (done, ·)
          | left + 1 => readFields loose (some colons) left done (c :: u)
        else none

def readClock (loose : Bool) (t : Text) : Option (Nat × Nat × Nat × Nat) :=
  (readFields loose none 2 [] t).map fun (fields, micros) =>
    (fields[0]?.getD 0, fields[1]?.getD 0, fields[2]?.getD 0, micros)

/-- An offset shorter than a second counts as none. -/
def readOffset (negative : Bool) (t : Text) : Option Offset := do
  let (h, m, s, micros) ← readClock false t
  let whole := h * hourMicros + m * minuteMicros + s * secondMicros
  if whole = 0 then some .utc
  else Offset.ofMicros? (if negative then -(whole + micros : Nat) else (whole + micros : Nat))

def isOffsetSign (c : Char) : Bool := c == '+' || c == '-' || c == 'Z'

def readTime (t : Text) : Option ((Nat × Nat × Nat × Nat) × Option Offset) := do
  match t.dropWhile (!isOffsetSign ·) with
  | [] => (readClock false t).map (·, none)
  | sign :: rest =>
    let clock ← readClock true (t.takeWhile (!isOffsetSign ·))
    if sign = 'Z' then if rest.isEmpty then some (clock, some .utc) else none
    else
      let offset ← readOffset (sign = '-') rest
      some (clock, some offset)

/-- A date, then any one character, then a time; the date may stand alone. -/
def Stamp.read? (t : Text) : Option Stamp := do
  if t.length < 7 then none
  else
    let width := dateWidth t
    let date ← readDate (t.take width)
    let ((h, m, s, micros), offset) ← match t.drop width with
      | [] => some ((0, 0, 0, 0), none)
      | _ :: time => readTime time
    let shown ← (Moment.ofClock date h m s micros).toOption
    some ⟨shown, offset⟩

end VaultSearch.Time
