import VaultSearch.Filtering.Basic
import VaultSearch.Number.Literal

namespace VaultSearch.Filtering

open Text Time Note Number

def rangeMark : Text := ['.', '.']

/-- A bound that is not written is open; `none` inside means that it is not understood. -/
def readBound {α : Type} (read : Text → Except FilterError (Option α)) (t : Text) :
    Except FilterError (Option α × Bool) :=
  if t.isEmpty then .ok (none, true) else (read t).map fun v => (v, v.isSome)

def readMoment (t : Text) : Except FilterError (Option Moment) :=
  ((Timestamp.text t).moment?).mapError .time

def readNumber (t : Text) : Except FilterError (Option Int) := .ok (readInt t).toOption

def readDates (t : Text) : Except FilterError DateRange :=
  match cut? rangeMark t with
  | some (before, after) => do
    let (first, ok₁) ← readBound readMoment before
    let (last, ok₂) ← readBound readMoment after
    .ok { first, last, malformed := !(ok₁ && ok₂) }
  | none => do
    match ← readMoment t with
    | none => .ok { lastExcluded := true, malformed := true }
    | some first =>
      let last ← (first.add dayMicros).mapError .time
      .ok { first := some first, last := some last, lastExcluded := true }

def readNumbers (t : Text) : Except FilterError NumberRange :=
  match cut? rangeMark t with
  | some (before, after) => do
    let (low, ok₁) ← readBound readNumber before
    let (high, ok₂) ← readBound readNumber after
    .ok { low, high, malformed := !(ok₁ && ok₂) }
  | none => do
    let n ← readNumber t
    .ok { low := n, high := n, malformed := n.isNone }

def parseDates (strict : Bool) (t : Text) : Except FilterError DateRange := do
  let r ← readDates t
  if strict && r.malformed then .error (.badDates t) else .ok r

def parseNumbers (strict : Bool) (t : Text) : Except FilterError NumberRange := do
  let r ← readNumbers t
  if strict && r.malformed then .error (.badNumbers t) else .ok r

def FilterError.message : FilterError → Text
  | badDates t => "Invalid date range: ".toList ++ quoted t
  | badNumbers t => "Invalid number range: ".toList ++ quoted t
  | time e => e.message

end VaultSearch.Filtering
