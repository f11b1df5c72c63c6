import VaultSearch.Saved.Search

namespace VaultSearch.Saved

open Text Yaml Time Search

structure Store where
  file : Option Text := none
  made : Nat := 0

abbrev Outcome (α : Type) := Store × Except SavedError α

def idOf (n : Nat) : Text := "search_".toList ++ hex 12 n

namespace Store

/-- The searches in the file; a file that is no document of a list holds none. -/
def list (s : Store) (now : Moment) : Except SavedError (List SavedSearch) :=
  match s.file with
  | none => .ok []
  | some t => match load t with
    | .error .malformed => .ok []
    | .error e => .error (.yaml e)
    | .ok (.list label vs) => readEntries now (itemsOf label vs)
    | .ok _ => .ok []

def find? (id : Text) (ss : List SavedSearch) : Option SavedSearch := ss.find? (·.id = id)

def get (s : Store) (now : Moment) (id : Text) : Except SavedError (Option SavedSearch) :=
  (s.list now).map (find? id)

/-- Writes the file and answers; what cannot be written leaves the file as it is. -/
def put {α : Type} (s : Store) (ss : List SavedSearch) (answer : α) : Outcome α :=
  match write ss with
  | .error e => (s, .error e)
  | .ok t => ({ s with file := some t }, .ok answer)

def withList {α : Type} (s : Store) (now : Moment) (f : List SavedSearch → Outcome α) : Outcome α :=
  match s.list now with
  | .error e => (s, .error e)
  | .ok ss => f ss

def save (s : Store) (now : Moment) (name query filters description : Value) :
    Outcome SavedSearch :=
  let s := { s with made := s.made + 1 }
  let search : SavedSearch := {
    id := idOf s.made
    name := name
    query := query
    filters := if filters.isTruthy then filters else .map none []
    description := description
    created := .naive now }
  s.withList now fun ss => s.put (ss ++ [search]) search

def change (id : Text) (f : SavedSearch → SavedSearch) : List SavedSearch → List SavedSearch
  | [] => []
  | x :: xs => if x.id = id then f x :: xs else x :: change id f xs

def modify (s : Store) (now : Moment) (id : Text) (f : SavedSearch → SavedSearch) :
    Outcome (Option SavedSearch) :=
  s.withList now fun ss =>
    match find? id ss with
    | none => (s, .ok none)
    | some x => s.put (change id f ss) (some (f x))

def fieldNames : List Text :=
  ["name".toList, "query".toList, "filters".toList, "description".toList]

def setField (x : SavedSearch) (field : Text × Value) : SavedSearch :=
  let (name, v) := field
  if name = "name".toList then { x with name := v }
  else if name = "query".toList then { x with query := v }
  else if name = "filters".toList then { x with filters := v }
  else { x with description := v }

def update (s : Store) (now : Moment) (id : Text) (updates : List (Text × Value)) :
    Outcome (Option SavedSearch) :=
  let unknown := (updates.map Prod.fst).filter (!fieldNames.elem ·)
  if unknown.isEmpty then s.modify now id (updates.foldl setField)
  else (s, .error (.unknownFields (unknown.mergeSort Text.le)))

def delete (s : Store) (now : Moment) (id : Text) : Outcome Bool :=
  s.withList now fun ss =>
    let rest := ss.filter (·.id ≠ id)
    if rest.length = ss.length then (s, .ok false) else s.put rest true

def recordUse (s : Store) (now : Moment) (id : Text) : Outcome (Option SavedSearch) :=
  s.modify now id fun x => { x with useCount := x.useCount + 1, lastUsed := some (.naive now) }

def frequent (s : Store) (now : Moment) (limit : Option Int) :
    Except SavedError (List SavedSearch) :=
  (s.list now).map fun ss => front limit (ss.mergeSort fun a b => b.useCount ≤ a.useCount)

def instant (s : Stamp) : Int := s.shown.micros - (s.offset.map Offset.micros).getD 0

def isAware (x : SavedSearch) : Bool := x.lastUsed.any (·.offset.isSome)

def usedAt (x : SavedSearch) : Int := (x.lastUsed.map instant).getD 0

def recent (s : Store) (now : Moment) (limit : Option Int) : Except SavedError (List SavedSearch) :=
  match s.list now with
  | .error e => .error e
  | .ok ss =>
    let used := ss.filter (·.lastUsed.isSome)
    if used.any isAware && used.any (!isAware ·) then .error .mixedStamps
    else .ok (front limit (used.mergeSort fun a b => usedAt b ≤ usedAt a))

def exported (s : Store) (now : Moment) : Except SavedError Text := do write (← s.list now)

def readIncoming (now : Moment) : Store → List Value → Outcome (List SavedSearch)
  | s, [] => (s, .ok [])
  | s, .map label es :: vs =>
    let es := entriesOf label es
    let s := if hasId es then s else { s with made := s.made + 1 }
    let es := if hasId es then es else es ++ [(.text "id".toList, .text (idOf s.made))]
    match readEntry now es with
    | .error e => (s, .error e)
    | .ok x => match readIncoming now s vs with
      | (s, .error e) => (s, .error e)
      | (s, .ok xs) => (s, .ok (x :: xs))
  | s, _ :: vs => readIncoming now s vs

def untaken (taken : List Text) : List SavedSearch → List SavedSearch
  | [] => []
  | x :: xs => if taken.elem x.id then untaken taken xs else x :: untaken (x.id :: taken) xs

/-- Adds the searches of a text, or puts them in place of all others; answers those added. -/
def importText (s : Store) (now : Moment) (data : Text) (merge : Bool) :
    Outcome (List SavedSearch) :=
  match load data with
  | .error .malformed => (s, .error .notYaml)
  | .error e => (s, .error (.yaml e))
  | .ok v =>
    match v with
    | .list label vs =>
      match s.readIncoming now (itemsOf label vs) with
      | (s, .error e) => (s, .error e)
      | (s, .ok incoming) =>
        match if merge then s.list now else .ok [] with
        | .error e => (s, .error e)
        | .ok current =>
          let added := untaken (current.map (·.id)) incoming
          s.put (current.map (·.relabel (2 * ·)) ++ added.map (·.relabel (2 * · + 1))) added
    | _ => (s, .error .notList)

end Store

end VaultSearch.Saved
