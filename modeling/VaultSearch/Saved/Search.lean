import VaultSearch.Search.Page
import VaultSearch.Time.Iso
import VaultSearch.Yaml.Dump
import VaultSearch.Yaml.Load
import VaultSearch.Yaml.Text

namespace VaultSearch.Saved

open Text Yaml Number Time

inductive SavedError
  | yaml (e : Failure)
  | literal (e : LiteralError)
  | countBytes (b : Bytes)
  | countNaN
  | countInfinite
  | pairLength (place length : Nat)
  | wrongType
  | notYaml
  | notList
  | unknownFields (names : List Text)
  /-- Stamps with and without an offset have no order. -/
  | mixedStamps
  deriving DecidableEq

def SavedError.message : SavedError → Text
  | yaml e => e.message
  | literal e => e.message
  | countBytes b =>
    "invalid literal for int() with base 10: ".toList ++ (bytesText b).take 200
  | countNaN => "cannot convert float NaN to integer".toList
  | countInfinite => "cannot convert float infinity to integer".toList
  | pairLength place length =>
    "dictionary update sequence element #".toList ++ .ofNat place ++ " has length ".toList ++
      .ofNat length ++ "; 2 is required".toList
  | wrongType => []
  | notYaml => "Invalid saved search data".toList
  | notList => "Saved search data must be a list of searches".toList
  | unknownFields names => "Cannot update fields: ".toList ++ joinWith [',', ' '] names
  | mixedStamps => []

/-- The data is of the right kind, and one of its values is not one that can be used. -/
def SavedError.isBadValue : SavedError → Bool
  | yaml e => e.isBadValue
  | countInfinite | wrongType | mixedStamps => false
  | _ => true

/-- A named search that can be run again. All but its times and its count are as they were given. -/
structure SavedSearch where
  id : Text
  name : Value
  query : Value
  filters : Value := .map none []
  description : Value := .null
  created : Stamp
  lastUsed : Option Stamp := none
  useCount : Int := 0

namespace SavedSearch

def toValue (s : SavedSearch) : Value :=
  .map none [
    (.text "id".toList, .text s.id),
    (.text "name".toList, s.name),
    (.text "query".toList, s.query),
    (.text "filters".toList, s.filters),
    (.text "description".toList, s.description),
    (.text "created".toList, .text (s.created.text 'T')),
    (.text "last_used".toList, .ofOption (fun u => .text (u.text 'T')) s.lastUsed),
    (.text "use_count".toList, .int s.useCount)]

def relabel (f : Nat → Nat) (s : SavedSearch) : SavedSearch :=
  { s with
    name := s.name.relabel f
    query := s.query.relabel f
    filters := s.filters.relabel f
    description := s.description.relabel f }

end SavedSearch

def items? : Value → Option (List Value)
  | .scalar (.text t) => some (t.map fun c => .text [c])
  | .scalar (.bytes b) => some (b.map fun x => .int x.toNat)
  | .scalar _ => none
  | .list label vs => some (itemsOf label vs)
  | .map _ es => some (es.map fun e => e.1.toValue)
  | .set _ ks => some (ks.map .scalar)
  | .tuple label v w => some ([v, w].map (Value.tuple label v w).part)
  | .again _ _ => none

def pairEntries (place : Nat) (es : Entries) : List Value → Except SavedError Entries
  | [] => .ok es
  | v :: vs =>
    match items? v with
    | none => .error .wrongType
    | some [k, w] =>
      match MapKey.ofValue? k with
      | none => .error .wrongType
      | some k => pairEntries (place + 1) (putUnder MapKey.same k w es) vs
    | some ws => .error (.pairLength place ws.length)

def readFilters (v : Option Value) : Except SavedError Value := do
  match v with
  | none => .ok (.map none [])
  | some v =>
    if !v.isTruthy then .ok (.map none [])
    else match v with
      | .map label es => .ok (.map none (entriesOf label es))
      | v => match items? v with
        | none => .error .wrongType
        | some vs => (pairEntries 0 [] vs).map (.map none)

def readStamp (v : Option Value) : Option Stamp :=
  match v with
  | some (.scalar (.stamp _ s)) => some s
  | some (.scalar (.text t)) => Stamp.read? t
  | _ => none

def asciiText (b : Bytes) : Text := b.map fun x => if x < 0x80 then Char.ofNat x.toNat else '?'

/-- A whole number in any form; a fraction loses its decimals. -/
def readCount (v : Value) : Except SavedError Int :=
  match v with
  | .scalar (.bool b) => .ok b.toInt
  | .scalar (.int n) => .ok n
  | .scalar (.float _ x) => match x with
    | .nan => .error .countNaN
    | .infinite _ => .error .countInfinite
    | .negZero => .ok 0
    | .finite q => .ok (if q < 0 then q.ceil else q.floor)
  | .scalar (.text t) => (readInt t).mapError .literal
  | .scalar (.bytes b) => match readInt (asciiText b) with
    | .error (.notInteger _ _) => .error (.countBytes b)
    | .error e => .error (.literal e)
    | .ok n => .ok n
  | _ => .error .wrongType

def readText (v : Option Value) : Except SavedError Text :=
  match v with
  | none => .ok []
  | some v => v.toText.mapError .literal

def readEntry (now : Moment) (es : Entries) : Except SavedError SavedSearch := do
  let id ← readText (Value.lookup "id".toList es)
  let name ← readText (Value.lookup "name".toList es)
  let query ← readText (Value.lookup "query".toList es)
  let filters ← readFilters (Value.lookup "filters".toList es)
  let count ← readCount ((Value.lookup "use_count".toList es).getD (.int 0))
  .ok {
    id := id
    name := .text name
    query := .text query
    filters := filters
    description := (Value.lookup "description".toList es).getD .null
    created := (readStamp (Value.lookup "created".toList es)).getD (.naive now)
    lastUsed := readStamp (Value.lookup "last_used".toList es)
    useCount := count }

def hasId (es : Entries) : Bool := (Value.lookup "id".toList es).isSome

def readEntries (now : Moment) : List Value → Except SavedError (List SavedSearch)
  | [] => .ok []
  | .map label es :: vs =>
    if hasId es then do
      let s ← readEntry now (entriesOf label es)
      .ok (s :: (← readEntries now vs))
    else readEntries now vs
  | _ :: vs => readEntries now vs

def write (ss : List SavedSearch) : Except SavedError Text :=
  (dump (ss.map SavedSearch.toValue)).mapError .literal

end VaultSearch.Saved
