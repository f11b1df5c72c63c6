import VaultSearch.Bytes.Utf8
import VaultSearch.Table
import VaultSearch.Text.Path

namespace VaultSearch.Vault

open Text

/-- The names on the way from the top to a place on a disk. -/
abbrev Location := List Text

structure File where
  bytes : Bytes
  /-- Seconds from the start of 1970 to the last change. -/
  changed : Rat
  deriving DecidableEq

inductive Entry
  | file (f : File)
  | folder
  | link (target : Location)
  deriving DecidableEq

/-- What a disk holds, under places that are reached through folders only. -/
structure Disk where
  entries : Table Location Entry := {}

namespace Disk

def linkLimit : Nat := 40

/-- Goes on along a way, where `done` is behind; at a link, `jump` goes on from the top. -/
def advance (d : Disk) (jump : Location → Option Location) (done : Location) :
    Location → Option Location
  | [] => some done
  | name :: rest =>
    match d.entries.get? (done ++ [name]) with
    | some (.link target) => jump (target ++ rest)
    | _ => d.advance jump (done ++ [name]) rest

def follow (d : Disk) : Nat → Location → Location → Option Location
  | 0 => d.advance fun _ => none
  | links + 1 => d.advance (d.follow links [])

def resolve (d : Disk) (p : Location) : Option Location := d.follow linkLimit [] p

def look (d : Disk) (p : Location) : Option Entry :=
  match d.resolve p with
  | none => none
  | some [] => some .folder
  | some q => d.entries.get? q

def read (d : Disk) (p : Location) : Option File :=
  match d.look p with
  | some (.file f) => some f
  | _ => none

/-- The place of the last name once all links before it are followed. -/
def place (d : Disk) (p : Location) : Location :=
  match p.getLast? with
  | none => []
  | some name => (d.resolve p.dropLast).getD p.dropLast ++ [name]

def put (d : Disk) (p : Location) (e : Entry) : Disk := ⟨d.entries.put p e⟩

def above (p : Location) : List Location := (List.range p.length).tail.map p.take

def makeFolders (d : Disk) (ps : List Location) : Disk :=
  ps.foldl (fun d p => if d.entries.contains p then d else d.put p .folder) d

def mkdir (d : Disk) (p : Location) : Disk :=
  let p := (d.resolve p).getD p
  d.makeFolders (above p ++ [p])

def write (d : Disk) (p : Location) (f : File) : Disk :=
  let p := (d.resolve p).getD p
  (d.makeFolders (above p)).put p (.file f)

def link (d : Disk) (p target : Location) : Option Disk :=
  let p := d.place p
  if d.entries.contains p then none else some ((d.makeFolders (above p)).put p (.link target))

def touch (d : Disk) (p : Location) (changed : Rat) : Option Disk :=
  match d.resolve p, d.look p with
  | some q, some (.file f) => some (d.put q (.file { f with changed := changed }))
  | _, some _ => some d
  | _, none => none

def delete (d : Disk) (p : Location) : Option Disk :=
  let p := d.place p
  if d.entries.contains p then some ⟨d.entries.erase p⟩ else none

end Disk

def walkFrom (start : Location) (way : Text) : Location :=
  let p := Path.read way
  p.components.foldl (fun done name => if name = ['.', '.'] then done.dropLast else done ++ [name])
    (if p.root.isEmpty then start else [])

end VaultSearch.Vault
