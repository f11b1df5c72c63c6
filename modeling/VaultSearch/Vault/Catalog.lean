import VaultSearch.Engine
import VaultSearch.Vault.NoteFile

namespace VaultSearch.Vault

open Note

structure Seen where
  time : Rat
  digest : Text
  deriving DecidableEq

def NoteFile.seen (n : NoteFile) : Seen := ⟨n.time, n.digest⟩

structure Catalog where
  root : Location
  engine : Engine := {}
  seen : Table Text Seen := {}

abbrev Outcome (α : Type) := Catalog × Except Yaml.Failure α

def tolerance : Rat := Number.nearest (mkRat 1 1000)

def sameTime (a b : Rat) : Bool := Number.abs (Number.nearest (a - b)) ≤ tolerance

namespace Catalog

def readAll (d : Disk) (root : Location) :
    Table Text Seen → List NoteFile → Table Text Seen × Except Yaml.Failure (List Document)
  | seen, [] => (seen, .ok [])
  | seen, n :: ns =>
    match readDocument d root n with
    | .error e => (seen, .error e)
    | .ok none => readAll d root seen ns
    | .ok (some doc) =>
      match readAll d root (seen.put n.path n.seen) ns with
      | (seen, .error e) => (seen, .error e)
      | (seen, .ok docs) => (seen, .ok (doc :: docs))

def reindex (c : Catalog) (d : Disk) : Outcome Nat :=
  match readAll d c.root {} (walk d c.root) with
  | (seen, .error e) => ({ c with seen := seen }, .error e)
  | (seen, .ok docs) =>
    let engine := c.engine.rebuild docs
    ({ c with engine := engine, seen := seen }, .ok engine.size)

structure Changes where
  seen : Table Text Seen
  upserts : List Document := []
  added : Nat := 0
  updated : Nat := 0

/-- Looks at a note. One of the same time is passed over, and so is one of the same digest, whose
time is remembered. -/
def lookAt (d : Disk) (root : Location) (x : Changes) (n : NoteFile) : Except Yaml.Failure Changes :=
  let known := x.seen.get? n.path
  if known.any fun k => sameTime n.time k.time then .ok x
  else if known.any fun k => k.digest = n.digest then
    .ok { x with seen := x.seen.put n.path n.seen }
  else
    (readDocument d root n).map fun
      | none => x
      | some doc =>
        { seen := x.seen.put n.path n.seen
          upserts := x.upserts ++ [doc]
          added := if known.isNone then x.added + 1 else x.added
          updated := if known.isSome then x.updated + 1 else x.updated }

/-- Looks at notes one after another; a failure keeps what was seen before it. -/
def lookAll (d : Disk) (root : Location) :
    Changes → List NoteFile → Changes × Option Yaml.Failure
  | x, [] => (x, none)
  | x, n :: ns =>
    match lookAt d root x n with
    | .error e => (x, some e)
    | .ok x => lookAll d root x ns

def sync (c : Catalog) (d : Disk) : Outcome (Nat × Nat × Nat) :=
  let notes := walk d c.root
  match lookAll d c.root { seen := c.seen } notes with
  | (x, some e) => ({ c with seen := x.seen }, .error e)
  | (x, none) =>
    let paths := notes.map NoteFile.path
    let gone := x.seen.keys.filter (!paths.elem ·)
    let (engine, _, deleted) := c.engine.apply x.upserts gone
    ({ c with engine := engine, seen := gone.foldl Table.erase x.seen },
      .ok (x.added, x.updated, deleted))

def load (c : Catalog) (d : Disk) (n : NoteFile) : Outcome Bool :=
  match readDocument d c.root n with
  | .error e => (c, .error e)
  | .ok none => (c, .ok false)
  | .ok (some doc) =>
    ({ c with engine := c.engine.update doc, seen := c.seen.put n.path n.seen }, .ok true)

def forget (c : Catalog) (path : Text) : Catalog :=
  { c with engine := c.engine.remove path, seen := c.seen.erase path }

end Catalog

end VaultSearch.Vault
