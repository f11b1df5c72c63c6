import VaultSearch.Yaml.Scalar

namespace VaultSearch.Yaml

inductive MapKey
  | scalar (s : Scalar)
  | pair (label : Option Nat) (first second : Scalar)
  deriving DecidableEq

namespace MapKey

abbrev text (t : Text) : MapKey := .scalar (.text t)

def same : MapKey → MapKey → Bool
  | .scalar a, .scalar b => a.sameKey b
  | .pair _ a c, .pair _ b d => a.sameKey b && c.sameKey d
  | _, _ => false

end MapKey

inductive Shape
  | list
  | map
  | tuple
  deriving DecidableEq

/-- A value that a document stands for. A label marks a collection that several places share;
inside itself, such a collection is only named again. Which member of a set comes first is left
open: they stand as they are written. -/
inductive Value
  | scalar (s : Scalar)
  | list (label : Option Nat) (items : List Value)
  | map (label : Option Nat) (entries : List (MapKey × Value))
  | set (label : Option Nat) (members : List Scalar)
  | tuple (label : Option Nat) (first second : Value)
  | again (shape : Shape) (label : Nat)

abbrev Entries := List (MapKey × Value)

namespace Value

abbrev null : Value := .scalar .null

abbrev bool (b : Bool) : Value := .scalar (.bool b)

abbrev int (n : Int) : Value := .scalar (.int n)

abbrev text (t : Text) : Value := .scalar (.text t)

def ofOption {α : Type} (f : α → Value) : Option α → Value
  | none => null
  | some x => f x

def isNull : Value → Bool
  | .scalar .null => true
  | _ => false

def isTruthy : Value → Bool
  | .scalar .null => false
  | .scalar (.bool b) => b
  | .scalar (.int n) => n ≠ 0
  | .scalar (.float _ x) => x.value? ≠ some 0
  | .scalar (.text t) => !t.isEmpty
  | .scalar (.bytes b) => !b.isEmpty
  | .list _ items => !items.isEmpty
  | .map _ entries => !entries.isEmpty
  | .set _ members => !members.isEmpty
  | _ => true

def lookup (key : Text) (entries : Entries) : Option Value :=
  (entries.find? fun e => e.1.same (.text key)).map Prod.snd

end Value

namespace MapKey

def toValue : MapKey → Value
  | .scalar s => .scalar s
  | .pair label a b => .tuple label (.scalar a) (.scalar b)

def ofValue? : Value → Option MapKey
  | .scalar s => some (.scalar s)
  | .tuple label (.scalar a) (.scalar b) => some (.pair label a b)
  | _ => none

end MapKey

section Relabelling

variable (f : Nat → Nat)

def Scalar.relabel : Scalar → Scalar
  | .float label x => .float (label.map f) x
  | .date label d => .date (label.map f) d
  | .stamp label s => .stamp (label.map f) s
  | s => s

def MapKey.relabel : MapKey → MapKey
  | .scalar s => .scalar (s.relabel f)
  | .pair label a b => .pair (label.map f) (a.relabel f) (b.relabel f)

mutual

def Value.relabel : Value → Value
  | .scalar s => .scalar (s.relabel f)
  | .list label items => .list (label.map f) (relabelItems items)
  | .map label entries => .map (label.map f) (relabelEntries entries)
  | .set label members => .set (label.map f) (members.map (·.relabel f))
  | .tuple label first second => .tuple (label.map f) first.relabel second.relabel
  | .again shape label => .again shape (f label)

def relabelItems : List Value → List Value
  | [] => []
  | v :: vs => v.relabel :: relabelItems vs

def relabelEntries : Entries → Entries
  | [] => []
  | (k, v) :: es => (k.relabel f, v.relabel) :: relabelEntries es

end

end Relabelling

section Parts

mutual

/-- The value where it stands inside the collections with the labels in `path`: if it holds them, it
only names them again. -/
def Value.within (path : List Nat) : Value → Value
  | .scalar s => .scalar s
  | .list label items =>
    match label.filter path.elem with
    | some l => .again .list l
    | none => .list label (itemsWithin path items)
  | .map label entries =>
    match label.filter path.elem with
    | some l => .again .map l
    | none => .map label (entriesWithin path entries)
  | .tuple label first second =>
    match label.filter path.elem with
    | some l => .again .tuple l
    | none => .tuple label (first.within path) (second.within path)
  | .set label members => .set label members
  | .again shape label => .again shape label

def itemsWithin (path : List Nat) : List Value → List Value
  | [] => []
  | v :: vs => v.within path :: itemsWithin path vs

def entriesWithin (path : List Nat) : Entries → Entries
  | [] => []
  | (k, v) :: es => (k, v.within path) :: entriesWithin path es

end

mutual

/-- Puts `whole` where only its label `l` is named. The collections around the place have the labels
in `path`. -/
def Value.resolve (l : Nat) (whole : Value) (path : List Nat) : Value → Value
  | .scalar s => .scalar s
  | .list label items =>
    if label = some l then .list label items
    else .list label (resolveItems l whole (label.toList ++ path) items)
  | .map label entries =>
    if label = some l then .map label entries
    else .map label (resolveEntries l whole (label.toList ++ path) entries)
  | .tuple label first second =>
    if label = some l then .tuple label first second
    else .tuple label (Value.resolve l whole (label.toList ++ path) first)
      (Value.resolve l whole (label.toList ++ path) second)
  | .set label members => .set label members
  | .again shape m => if m = l then whole.within path else .again shape m

def resolveItems (l : Nat) (whole : Value) (path : List Nat) : List Value → List Value
  | [] => []
  | v :: vs => Value.resolve l whole path v :: resolveItems l whole path vs

def resolveEntries (l : Nat) (whole : Value) (path : List Nat) : Entries → Entries
  | [] => []
  | (k, v) :: es => (k, Value.resolve l whole path v) :: resolveEntries l whole path es

end

namespace Value

def label? : Value → Option Nat
  | .list label _ | .map label _ | .tuple label _ _ => label
  | _ => none

/-- What `v` is once it is taken out of `whole`. -/
def part (whole v : Value) : Value :=
  match whole.label? with
  | none => v
  | some l => resolve l whole [] v

end Value

def itemsOf (label : Option Nat) (items : List Value) : List Value :=
  items.map (Value.list label items).part

def entriesOf (label : Option Nat) (entries : Entries) : Entries :=
  entries.map fun (k, v) => (k, (Value.map label entries).part v)

end Parts

end VaultSearch.Yaml
