import VaultSearch.Bytes.Sha256
import VaultSearch.Note.Frontmatter
import VaultSearch.Note.Document
import VaultSearch.Text.Case
import VaultSearch.Vault.Disk

namespace VaultSearch.Vault

open Text Note Number Time

/-- The time of the last change, as far as binary64 can tell. -/
def File.time (f : File) : Rat := nearest f.changed

structure NoteFile where
  names : List Text
  time : Rat
  digest : Text
  deriving DecidableEq

namespace NoteFile

def path (n : NoteFile) : Text := joinWith ['/'] n.names

def folder (n : NoteFile) : Text := joinWith ['/'] n.names.dropLast

def name (n : NoteFile) : Text := n.names.getLastD []

end NoteFile

def noteSuffixes : List Text := [".md".toList, ".markdown".toList]

def isNote (names : List Text) : Bool :=
  noteSuffixes.elem (lower (splitSuffix (names.getLastD [])).2) &&
    names.all fun n => n.head? ≠ some '.'

def namesLe : List Text → List Text → Bool
  | [], _ => true
  | _ :: _, [] => false
  | a :: as, b :: bs => if a = b then namesLe as bs else Text.le a b

def insertNames (a : List Text) : List (List Text) → List (List Text)
  | [] => [a]
  | b :: bs => if namesLe a b then a :: b :: bs else b :: insertNames a bs

/-- The ways from a place to what is below it, in order. Links to folders are not followed. -/
def waysBelow (d : Disk) (root : Location) : List (List Text) :=
  (d.entries.keys.filterMap fun p =>
    if root.isPrefixOf p && root.length < p.length then some (p.drop root.length)
    else none).foldr insertNames []

def walk (d : Disk) (root : Location) : List NoteFile :=
  match d.resolve root with
  | none => []
  | some real =>
    if d.look real = some .folder then
      (waysBelow d real).filterMap fun names =>
        if isNote names then
          (d.read (real ++ names)).map fun f => ⟨names, f.time, Bytes.sha256 f.bytes⟩
        else none
    else []

def isInside (d : Disk) (root p : Location) : Bool :=
  match d.resolve root, d.resolve p with
  | some root, some p => root.isPrefixOf p
  | _, _ => false

/-- The text of a note now; nothing if it is outside the vault, gone, or no text. -/
def readText (d : Disk) (root : Location) (n : NoteFile) : Option Text :=
  let p := root ++ n.names
  if isInside d root p then ((d.read p).bind fun f => Bytes.toText? f.bytes).map Text.unifyBreaks
  else none

/-- The time of the last change: what the note says, or else what the disk says, where the local time
is taken to be universal time. -/
def modifiedAt (m : Metadata) (n : NoteFile) : Except TimeError Timestamp :=
  match m.modified with
  | some (c :: t) => .ok (.text (c :: t))
  | _ => (Moment.ofEpochFloat (.finite n.time)).map fun t => .stamp (.naive t)

def makeDocument (n : NoteFile) (m : Metadata) (body : Text) : Except TimeError Document :=
  (modifiedAt m n).map fun modified => {
    id := n.path
    title := m.title
    content := body
    tags := m.tags
    folder := if m.folder.isEmpty then none else some m.folder
    path := n.path
    created := m.created.map .text
    modified := some modified
    aliases := m.aliases }

def readDocument (d : Disk) (root : Location) (n : NoteFile) :
    Except Yaml.Failure (Option Document) :=
  match readText d root n with
  | none => .ok none
  | some t => match readNote t n.path with
    | .error e => .error e
    | .ok (m, body) => ((makeDocument n m body).map some).mapError .time

end VaultSearch.Vault
