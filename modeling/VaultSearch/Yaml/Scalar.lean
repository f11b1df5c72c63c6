import VaultSearch.Bytes.Base64
import VaultSearch.Text.Case
import VaultSearch.Time.Moment
import VaultSearch.Yaml.Tag

namespace VaultSearch.Yaml

open Text Time Number

/-- A value without parts. A label marks one that several places of a document share. -/
inductive Scalar
  | null
  | bool (b : Bool)
  | int (n : Int)
  | float (label : Option Nat) (x : Binary64)
  | text (t : Text)
  | bytes (b : Bytes)
  | date (label : Option Nat) (d : Date)
  | stamp (label : Option Nat) (s : Stamp)
  deriving DecidableEq

/-- Puts a value under a key; a key that is there keeps its place and its form. -/
def putUnder {κ α : Type} (same : κ → κ → Bool) (k : κ) (v : α) : List (κ × α) → List (κ × α)
  | [] => [(k, v)]
  | (l, w) :: es => if same l k then (l, v) :: es else (l, w) :: putUnder same k v es

namespace Scalar

def number? : Scalar → Option Binary64
  | bool b => some (.finite (if b then 1 else 0))
  | int n => some (.finite n)
  | float _ .nan => none
  | float _ .negZero => some (.finite 0)
  | float _ x => some x
  | _ => none

/-- Two scalars are the same key. Numbers are compared by value, and stamps of known offsets by the
moment they stand for. What is no number is the same as itself only. -/
def sameKey (a b : Scalar) : Bool :=
  match a, b with
  | null, null => true
  | text s, text t => s = t
  | bytes s, bytes t => s = t
  | date _ c, date _ d => c = d
  | stamp _ s, stamp _ t => match s.offset, t.offset with
    | none, none => s.shown = t.shown
    | some o, some p => (s.shown.micros - o.micros : Int) = t.shown.micros - p.micros
    | _, _ => false
  | float l .nan, float m .nan => l = m
  | a, b => match a.number?, b.number? with
    | some x, some y => x = y
    | _, _ => false

def dropLow (t : Text) : Text := t.filter (· != '_')

def isMinus (t : Text) : Bool := t.head? = some '-'

def sumSixties (parts : List Int) : Int := parts.foldl (fun n p => 60 * n + p) 0

/-- A whole number to base two, eight, ten, sixteen or sixty. -/
def readNumber (t : Text) : Except Failure Int := do
  let t := dropLow t
  let body := dropSign t
  if t.isEmpty then .error .noDigits
  else
    let n ← Except.mapError Failure.literal <|
      if body = ['0'] then .ok 0
      else match body with
        | [] => .ok 0
        | '0' :: 'b' :: rest => readIntIn 2 'b' rest
        | '0' :: 'x' :: rest => readIntIn 16 'x' rest
        | '0' :: _ => readIntIn 8 'o' body
        | _ =>
          if body.elem ':' then ((splitOn ':' body).mapM readInt).map sumSixties else readInt body
    if body.isEmpty then .error .noDigits else .ok (if isMinus t then -n else n)

/-- Adds up the parts of a number to base sixty, the last one first. -/
def sumFloats : Nat → Binary64 → List Binary64 → Except Failure Binary64
  | _, sum, [] => .ok sum
  | base, sum, x :: xs =>
    match Binary64.ofInt base with
    | .infinite _ => .error .floatRange
    | b => sumFloats (60 * base) (sum.add (x.mul b)) xs

def readFraction (t : Text) : Except Failure Binary64 := do
  let t := lower (dropLow t)
  let body := dropSign t
  if t.isEmpty then .error .noDigits
  else
    let x ←
      if body = ".inf".toList then .ok (.infinite false)
      else if body = ".nan".toList then .ok .nan
      else if body.elem ':' then do
        let parts ← ((splitOn ':' body).mapM readFloat).mapError .literal
        sumFloats 1 (.finite 0) parts.reverse
      else (readFloat body).mapError .literal
    .ok (if isMinus t then x.neg else x)

/-- Each `.nan` is the same value; what else is no number is a value of its own. -/
def fractionLabel (label : Nat) (t : Text) : Option Nat :=
  if dropSign (lower (dropLow t)) = ".nan".toList then none else some label

def zoneSeconds (negative : Bool) (hours minutes : Nat) : Int :=
  let n := hours * 3600 + minutes * 60
  if negative then -(n : Int) else n

def readOffset : Option Zone → Except Failure (Option Offset)
  | none => .ok none
  | some .utc => .ok (some .utc)
  | some (.offset negative hours minutes) =>
    let n := zoneSeconds negative hours minutes
    match Offset.ofMicros? (n * secondMicros) with
    | some o => .ok (some o)
    | none => .error (.offset n)

def fractionMicros (digits : Text) : Nat :=
  let ds := digits.take 6
  digitsValue ds * Nat.pow 10 (6 - ds.length)

def ofFields (label : Nat) (f : Fields) : Except Failure Scalar :=
  match f.clock with
  | none => ((Date.ofCivil f.year f.month f.day).map (date (some label))).mapError .time
  | some ((hour, minute, second, fraction), zone) => do
    let offset ← readOffset zone
    let shown ← Except.mapError Failure.time do
      let d ← Date.ofCivil f.year f.month f.day
      Moment.ofClock d hour minute second (fractionMicros fraction)
    .ok (stamp (some label) ⟨shown, offset⟩)

def readTimestamp (label : Nat) (t : Text) : Except Failure Scalar :=
  match readFields (if t.getLast? = some '\n' then t.dropLast else t) with
  | none => .error .notTimestamp
  | some f => ofFields label f

def readBytes (t : Text) : Except Failure Scalar :=
  if t.all (·.val < 0x80) then
    match Bytes.decode64? t with
    | some b => .ok (bytes b)
    | none => .error .malformed
  else .error .malformed

def ofText (label : Nat) (tag : Tag) (t : Text) : Except Failure Scalar :=
  match tag with
  | .null => .ok null
  | .bool => match truthWords.lookup (lower t) with
    | some b => .ok (bool b)
    | none => .error (.notTruth (lower t))
  | .int => (readNumber t).map int
  | .float => (readFraction t).map (float (fractionLabel label t))
  | .binary => readBytes t
  | .timestamp => readTimestamp label t
  | .str => .ok (text t)
  | _ => .error .malformed

end Scalar

end VaultSearch.Yaml
