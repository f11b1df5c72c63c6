import VaultSearch.Text.Basic

namespace VaultSearch.Text

/-- A slash-separated path: its leading slashes, and its components without empty and dot ones. -/
structure Path where
  root : Text
  components : List Text
  deriving DecidableEq

namespace Path

def rootOf (t : Text) : Text :=
  match (t.takeWhile (· == '/')).length with
  | 0 => []
  | 2 => ['/', '/']
  | _ => ['/']

def read (t : Text) : Path :=
  ⟨rootOf t, (splitOn '/' t).filter fun w => !w.isEmpty && w != ['.']⟩

def parts (p : Path) : List Text := if p.root.isEmpty then p.components else p.root :: p.components

def text (p : Path) : Text :=
  if p.root.isEmpty && p.components.isEmpty then ['.'] else p.root ++ joinWith ['/'] p.components

def name (p : Path) : Text := p.components.getLastD []

def append (p q : Path) : Path := if q.root.isEmpty then ⟨p.root, p.components ++ q.components⟩ else q

end Path

/-- A file name before and from its last dot; a dot at either end of the name parts nothing. -/
def splitSuffix (name : Text) : Text × Text :=
  let suffix := (name.reverse.takeWhile (· != '.')).reverse
  let stem := name.take (name.length - suffix.length - 1)
  if suffix.length = name.length || suffix.isEmpty || stem.isEmpty then (name, [])
  else (stem, '.' :: suffix)

def topFolder (path : Text) : Text :=
  match (Path.read path).parts with
  | first :: _ :: _ => first
  | _ => []

end VaultSearch.Text
