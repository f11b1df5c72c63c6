import VaultSearch.Time.Iso
import VaultSearch.Yaml.Failure

namespace VaultSearch.Yaml

open Text Time Number

/-- What a node is; a node of any other tag has no value. -/
inductive Tag
  | null
  | bool
  | int
  | float
  | binary
  | timestamp
  | omap
  | pairs
  | set
  | str
  | seq
  | map
  | merge
  | value
  | other
  deriving DecidableEq, Repr

def Tag.start : Text := "tag:yaml.org,2002:".toList

def Tag.names : List (Text × Tag) :=
  [("null".toList, null), ("bool".toList, bool), ("int".toList, int), ("float".toList, float),
    ("binary".toList, binary), ("timestamp".toList, timestamp), ("omap".toList, omap),
    ("pairs".toList, pairs), ("set".toList, set), ("str".toList, str), ("seq".toList, seq),
    ("map".toList, map), ("merge".toList, merge), ("value".toList, value)]

def Tag.name (tag : Tag) : Text := ((names.find? (·.2 = tag)).map Prod.fst).getD []

def Tag.ofText (t : Text) : Tag :=
  if startsWith start t then (names.lookup (t.drop start.length)).getD other else other

inductive Zone
  | utc
  | offset (negative : Bool) (hours minutes : Nat)
  deriving DecidableEq, Repr

/-- The fields of a timestamp. The clock has hours, minutes, seconds and the digits of a fraction. -/
structure Fields where
  year : Nat
  month : Nat
  day : Nat
  clock : Option ((Nat × Nat × Nat × Text) × Option Zone) := none

def readShort (t : Text) : Option (Nat × Text) :=
  match readDigits 2 0 t with
  | some r => some r
  | none => readDigits 1 0 t

def expect (c : Char) (t : Text) : Option Text :=
  match t with
  | x :: t => if x = c then some t else none
  | [] => none

def isSpaceOrTab (c : Char) : Bool := c = ' ' || c = '\t'

def readZone (t : Text) : Option (Option Zone) :=
  match t.dropWhile isSpaceOrTab with
  | [] => if t.isEmpty then some none else none
  | ['Z'] => some (some .utc)
  | sign :: t =>
    if sign = '+' || sign = '-' then do
      let (hours, t) ← readShort t
      match t with
      | [] => some (some (.offset (sign = '-') hours 0))
      | t => do
        let (minutes, t) ← readDigits 2 0 (← expect ':' t)
        if t.isEmpty then some (some (.offset (sign = '-') hours minutes)) else none
    else none

def readClockFields (t : Text) : Option ((Nat × Nat × Nat × Text) × Option Zone) := do
  let t ← match t with
    | x :: rest =>
      if x = 'T' || x = 't' then some rest
      else if isSpaceOrTab x then some (rest.dropWhile isSpaceOrTab)
      else none
    | [] => none
  let (hour, t) ← readShort t
  let (minute, t) ← readDigits 2 0 (← expect ':' t)
  let (second, t) ← readDigits 2 0 (← expect ':' t)
  let (fraction, t) := match t with
    | '.' :: t => (t.takeWhile Char.isDigit, t.dropWhile Char.isDigit)
    | t => ([], t)
  let zone ← readZone t
  some ((hour, minute, second, fraction), zone)

def readFields (t : Text) : Option Fields := do
  let (year, t) ← readDigits 4 0 t
  let (month, t) ← readShort (← expect '-' t)
  let (day, t) ← readShort (← expect '-' t)
  match t with
  | [] => some { year := year, month := month, day := day }
  | t => some { year := year, month := month, day := day, clock := some (← readClockFields t) }

/-- A date alone has to be ten characters long. -/
def isTimestamp (t : Text) : Bool :=
  match readFields t with
  | none => false
  | some f => f.clock.isSome || t.length = 10

def truthWords : List (Text × Bool) :=
  [("yes".toList, true), ("no".toList, false), ("true".toList, true), ("false".toList, false),
    ("on".toList, true), ("off".toList, false)]

def capitalize (t : Text) : Text :=
  match t with
  | c :: t => c.toUpper :: t
  | [] => []

def isWordOf (words : List Text) (t : Text) : Bool :=
  words.any fun w => t = w || t = capitalize w || t = w.map Char.toUpper

def dropSign (t : Text) : Text := (readSign t).2

def isDigitOrLow (c : Char) : Bool := c.isDigit || c = '_'

def isExponent (t : Text) : Bool :=
  match t with
  | [] => true
  | e :: sign :: digits =>
    (e = 'e' || e = 'E') && (sign = '+' || sign = '-') && !digits.isEmpty && digits.all Char.isDigit
  | _ => false

/-- What follows the groups of a number to base sixty, each of them below sixty. -/
def afterSixties : Text → Text
  | ':' :: d :: t =>
    if !d.isDigit then ':' :: d :: t
    else match t with
      | [] => []
      | c :: rest => if c.isDigit && d.val < '6'.val then afterSixties rest else afterSixties (c :: rest)
  | t => t

def hasSixties (p : Text → Bool) (t : Text) : Bool :=
  t.head? = some ':' && (let rest := afterSixties t; rest.head? ≠ some ':' && p rest)

def isFloat (t : Text) : Bool :=
  let body := dropSign t
  let whole := body.takeWhile isDigitOrLow
  let rest := body.dropWhile isDigitOrLow
  let fraction := fun (t : Text) => match t with
    | '.' :: t => some (t.dropWhile isDigitOrLow)
    | _ => none
  ((whole.headD ' ').isDigit &&
      ((fraction rest).any isExponent || hasSixties (fun t => (fraction t).any List.isEmpty) rest)) ||
    (t.head? = some '.' && ((t.drop 1).headD ' ').isDigit && (fraction t).any isExponent) ||
    (body.head? = some '.' && isWordOf ["inf".toList] (body.drop 1)) ||
    t = ".nan".toList || t = ".NaN".toList || t = ".NAN".toList

def isInt (t : Text) : Bool :=
  let body := dropSign t
  let all := fun (p : Char → Bool) (t : Text) => !t.isEmpty && t.all p
  match body with
  | '0' :: t =>
    t.isEmpty || all (fun c => c = '_' || ('0' ≤ c && c ≤ '7')) t ||
      match t with
      | 'b' :: t => all (fun c => c = '_' || c = '0' || c = '1') t
      | 'x' :: t => all (fun c => c = '_' || (digitOf? 16 c).isSome) t
      | _ => false
  | c :: t =>
    c.isDigit && (t.all isDigitOrLow || hasSixties List.isEmpty (t.dropWhile isDigitOrLow))
  | [] => false

/-- What a scalar without quotes is, by its looks; a line feed at its end does not count. -/
def Tag.ofPlain (t : Text) : Tag :=
  let w := if t.getLast? = some '\n' then t.dropLast else t
  if t.isEmpty then null
  else if isWordOf (truthWords.map Prod.fst) w then bool
  else if isFloat w then float
  else if isInt w then int
  else if w = "<<".toList then merge
  else if w = ['~'] || isWordOf ["null".toList] w then null
  else if isTimestamp w then timestamp
  else if w = ['='] then value
  else if w = ['!'] || w = ['&'] || w = ['*'] then other
  else str

end VaultSearch.Yaml
