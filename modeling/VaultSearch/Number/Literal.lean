import VaultSearch.Number.Binary64
import VaultSearch.Text.Blank
import VaultSearch.Text.Digit
import VaultSearch.Text.Quoted

namespace VaultSearch.Number

open Text

def digitLimit : Nat := 4300

inductive LiteralError
  | notInteger (base : Nat) (text : Text)
  | notFloat (text : Text)
  | tooLong (digits : Nat)
  | tooLarge
  deriving DecidableEq

def LiteralError.message : LiteralError → Text
  | notInteger base t =>
    "invalid literal for int() with base ".toList ++ .ofNat base ++ ':' :: ' ' :: (quoted t).take 200
  | notFloat t => "could not convert string to float: ".toList ++ quoted t
  | tooLong n =>
    "Exceeds the limit (4300 digits) for integer string conversion: value has ".toList ++ .ofNat n ++
      " digits; use sys.set_int_max_str_digits() to increase the limit".toList
  | tooLarge =>
    "Exceeds the limit (4300 digits) for integer string conversion; ".toList ++
      "use sys.set_int_max_str_digits() to increase the limit".toList

/-- Digits of any script become ASCII digits and blanks above the ASCII block become spaces. -/
def toAscii (c : Char) : Char :=
  if c.val < 0x7F then c
  else if isBlank c then ' '
  else match digitValue? c with
    | some d => Char.ofNat (48 + d)
    | none => '?'

def isAsciiBlank (c : Char) : Bool := c = ' ' || (9 ≤ c.val.toNat && c.val.toNat ≤ 13)

def plain (t : Text) : Text :=
  trimEnd isAsciiBlank (trimStart isAsciiBlank (t.map toAscii))

def readSign : Text → Bool × Text
  | '-' :: t => (true, t)
  | '+' :: t => (false, t)
  | t => (false, t)

def spanDigits : Text → Text × Text
  | [] => ([], [])
  | c :: t =>
    if c.isDigit then
      match t with
      | '_' :: d :: rest =>
        if d.isDigit then
          let (ds, rest) := spanDigits (d :: rest)
          (c :: ds, rest)
        else ([c], t)
      | t =>
        let (ds, rest) := spanDigits t
        (c :: ds, rest)
    else ([], c :: t)

def digitsValue (ds : Text) : Nat := ds.foldl (fun n c => 10 * n + (c.val.toNat - 48)) 0

def readInt (t : Text) : Except LiteralError Int :=
  let (negative, body) := readSign (plain t)
  let (ds, rest) := spanDigits body
  if ds.isEmpty || rest.head? = some '_' then .error (.notInteger 10 t)
  else if digitLimit < ds.length then .error (.tooLong ds.length)
  else if !rest.isEmpty then .error (.notInteger 10 t)
  else .ok (if negative then -(digitsValue ds : Int) else digitsValue ds)

def digitOf? (base : Nat) (c : Char) : Option Nat :=
  let n := c.val.toNat
  let d :=
    if c.isDigit then n - 48
    else if 'a' ≤ c && c ≤ 'f' then n - 87
    else if 'A' ≤ c && c ≤ 'F' then n - 55
    else base
  if d < base then some d else none

def readDigitsIn? (base : Nat) (t : Text) : Option Nat :=
  if t.isEmpty then none
  else t.foldlM (fun n c => (digitOf? base c).map (base * n + ·)) 0

def dropBaseMark (letter : Char) (t : Text) : Text :=
  match t with
  | '0' :: c :: rest => if c.toLower = letter then rest else t
  | t => t

def readIntIn (base : Nat) (letter : Char) (t : Text) : Except LiteralError Int :=
  let (negative, body) := readSign (plain t)
  match readDigitsIn? base (dropBaseMark letter body) with
  | none => .error (.notInteger base t)
  | some n => .ok (if negative then -(n : Int) else n)

def readExponent : Text → Option Int
  | [] => some 0
  | c :: t =>
    if c = 'e' || c = 'E' then
      let (negative, t) := readSign t
      let (ds, rest) := spanDigits t
      if ds.isEmpty || !rest.isEmpty then none
      else some (if negative then -(digitsValue ds : Int) else digitsValue ds)
    else none

def readFraction (negative : Bool) (t : Text) : Option Binary64 :=
  let (whole, rest) := spanDigits t
  let (fraction, rest) := match rest with
    | '.' :: rest => spanDigits rest
    | rest => ([], rest)
  if whole.isEmpty && fraction.isEmpty then none
  else (readExponent rest).map fun e =>
    .ofDecimal negative (digitsValue (whole ++ fraction)) (e - fraction.length)

def readFloat? (t : Text) : Option Binary64 :=
  let (negative, body) := readSign (plain t)
  let w := body.map Char.toLower
  if w = "inf".toList || w = "infinity".toList then some (.infinite negative)
  else if w = "nan".toList then some .nan
  else readFraction negative body

def readFloat (t : Text) : Except LiteralError Binary64 :=
  match readFloat? t with
  | some v => .ok v
  | none => .error (.notFloat t)

def intText (n : Int) : Except LiteralError Text :=
  if n.natAbs < Nat.pow 10 digitLimit then .ok (.ofInt n) else .error .tooLarge

end VaultSearch.Number
