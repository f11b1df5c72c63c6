import VaultSearch.Table

namespace VaultSearch

/-- Where a thread stands that is inside the lock or has asked for it. One that waits is asleep
until it is called, and then looks again whether it may go. -/
inductive Place
  | reading
  | writing
  | readerWaits (generation : Nat) (awake : Bool)
  | writerWaits (awake : Bool)
  deriving DecidableEq, Repr

def Place.call : Place → Place
  | readerWaits g _ => readerWaits g true
  | writerWaits _ => writerWaits true
  | p => p

def Place.isAwake : Place → Bool
  | readerWaits _ awake => awake
  | writerWaits awake => awake
  | _ => false

/-- A lock that many readers share or one writer holds. A writer that waits holds back new readers,
and a writer that leaves admits all readers that wait, before the next writer. -/
structure Lock (Thread : Type) where
  readers : Int := 0
  writer : Bool := false
  writersWaiting : Int := 0
  readersWaiting : Int := 0
  /-- Readers that the last writer let in and that are not inside yet. -/
  admitted : Int := 0
  generation : Nat := 0
  places : Table Thread Place := {}

namespace Lock

variable {Thread : Type} [DecidableEq Thread]

def isBusy (x : Lock Thread) : Bool := x.writer || x.readers ≠ 0 || x.admitted ≠ 0

def callAll (x : Lock Thread) : Lock Thread := { x with places := x.places.mapValues Place.call }

def askRead (x : Lock Thread) (t : Thread) : Lock Thread :=
  if x.writer || x.writersWaiting ≠ 0 then
    { x with
      readersWaiting := x.readersWaiting + 1
      places := x.places.put t (.readerWaits x.generation false) }
  else { x with readers := x.readers + 1, places := x.places.put t .reading }

def askWrite (x : Lock Thread) (t : Thread) : Lock Thread :=
  if x.isBusy then
    { x with
      writersWaiting := x.writersWaiting + 1
      places := x.places.put t (.writerWaits false) }
  else { x with writer := true, places := x.places.put t .writing }

def look (x : Lock Thread) (t : Thread) : Lock Thread :=
  match x.places.get? t with
  | some (.readerWaits g true) =>
    if x.generation = g then { x with places := x.places.put t (.readerWaits g false) }
    else
      { x with
        admitted := x.admitted - 1
        readers := x.readers + 1
        places := x.places.put t .reading }
  | some (.writerWaits true) =>
    if x.isBusy then { x with places := x.places.put t (.writerWaits false) }
    else
      { x with
        writersWaiting := x.writersWaiting - 1
        writer := true
        places := x.places.put t .writing }
  | _ => x

def letIn (x : Lock Thread) : Lock Thread :=
  if x.readersWaiting ≠ 0 then
    { x with
      admitted := x.admitted + x.readersWaiting
      readersWaiting := 0
      generation := x.generation + 1 }
  else x

def release (x : Lock Thread) (t : Thread) : Lock Thread :=
  match x.places.get? t with
  | some .reading =>
    let x := { x with readers := x.readers - 1, places := x.places.erase t }
    if x.readers = 0 then x.callAll else x
  | some .writing =>
    let x := { x with writer := false, places := x.places.erase t }
    x.letIn.callAll
  | _ => x

inductive Action (Thread : Type)
  | askRead (t : Thread)
  | askWrite (t : Thread)
  | look (t : Thread)
  /-- What the thread did inside has ended, by an exception or not. -/
  | release (t : Thread)
  deriving DecidableEq, Repr

/-- Only a thread that is neither inside nor waiting can ask. -/
def step (x : Lock Thread) : Action Thread → Lock Thread
  | .askRead t => if x.places.contains t then x else x.askRead t
  | .askWrite t => if x.places.contains t then x else x.askWrite t
  | .look t => x.look t
  | .release t => x.release t

def settle (x : Lock Thread) : Lock Thread := x.places.keys.foldl look x

def threads (x : Lock Thread) (p : Place → Bool) : List Thread :=
  (x.places.entries.filter fun e => p e.2).map Prod.fst

def reading (x : Lock Thread) : List Thread := x.threads (· == .reading)

def writing (x : Lock Thread) : List Thread := x.threads (· == .writing)

def waitingReaders (x : Lock Thread) : List Thread :=
  x.threads fun
    | .readerWaits _ _ => true
    | _ => false

def waitingWriters (x : Lock Thread) : List Thread :=
  x.threads fun
    | .writerWaits _ => true
    | _ => false

end Lock

end VaultSearch
