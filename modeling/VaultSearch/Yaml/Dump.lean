import VaultSearch.Number.Decimal
import VaultSearch.Yaml.Pen
import VaultSearch.Yaml.Value

namespace VaultSearch.Yaml

open Text Number

/-- A fraction in the form that is read back as one: a point before the exponent, and a point in
front of the names of what is no number. -/
def fractionText (x : Binary64) : Text :=
  match x with
  | .nan => ".nan".toList
  | .infinite false => ".inf".toList
  | .infinite true => "-.inf".toList
  | x =>
    let t := x.text
    if t.elem '.' then t
    else match t.span (· != 'e') with
      | (a, []) => a
      | (a, b) => a ++ '.' :: '0' :: b

/-- Base 64 in lines of 76 characters, each with its line feed. -/
def base64Lines : Nat → Bytes → Text
  | 0, _ => []
  | n + 1, b =>
    if b.isEmpty then [] else Bytes.encode64 (b.take 57) ++ '\n' :: base64Lines n (b.drop 57)

def Scalar.script (s : Scalar) : Except LiteralError Script :=
  match s with
  | null => .ok { tag := .null, text := "null".toList }
  | bool b => .ok { tag := .bool, text := if b then "true".toList else "false".toList }
  | int n => (intText n).map fun t => { tag := .int, text := t }
  | float _ x => .ok { tag := .float, text := fractionText x }
  | text t => .ok { tag := .str, text := t }
  | bytes b => .ok { tag := .binary, text := base64Lines b.length b, lines := true }
  | date _ d => .ok { tag := .timestamp, text := d.text }
  | stamp _ t => .ok { tag := .timestamp, text := t.text ' ' }

def Scalar.label? : Scalar → Option Nat
  | date label _ => label
  | stamp label _ => label
  | _ => none

/-- The labels met so far, newest first, and those of them met again, in order. -/
structure Shared where
  met : List Nat := []
  again : List Nat := []

namespace Shared

def meet (s : Shared) (label : Option Nat) : Shared × Bool :=
  match label with
  | none => (s, true)
  | some l =>
    if s.met.elem l then (if s.again.elem l then s else { s with again := s.again ++ [l] }, false)
    else ({ s with met := l :: s.met }, true)

def scalar (s : Shared) (x : Scalar) : Shared := (s.meet x.label?).1

def key (s : Shared) : MapKey → Shared
  | .scalar x => s.scalar x
  | .pair label a b => match s.meet label with
    | (s, true) => (s.scalar a).scalar b
    | (s, false) => s

mutual

def value (s : Shared) : Value → Shared
  | .scalar x => s.scalar x
  | .list label items => match s.meet label with
    | (s, true) => s.items items
    | (s, false) => s
  | .map label es => match s.meet label with
    | (s, true) => s.entries es
    | (s, false) => s
  | .set label ks => match s.meet label with
    | (s, true) => ks.foldl scalar s
    | (s, false) => s
  | .tuple label first second => match s.meet label with
    | (s, true) => (s.value first).value second
    | (s, false) => s
  | .again _ label => (s.meet (some label)).1

def items (s : Shared) : List Value → Shared
  | [] => s
  | v :: vs => (s.value v).items vs

def entries (s : Shared) : Entries → Shared
  | [] => s
  | (k, v) :: es => ((s.key k).value v).entries es

end

def name? (s : Shared) (label : Nat) : Option Text :=
  (s.again.idxOf? label).map fun n => 'i' :: 'd' :: Time.pad 3 (n + 1)

end Shared

structure Place where
  indent : Option Nat := none
  inMapping : Bool := false

structure Writer where
  pen : Pen := {}
  labels : List Nat := []

namespace Writer

def onPen (w : Writer) (f : Pen → Pen) : Writer := { w with pen := f w.pen }

/-- Writes the name that a label goes by, if it has one; `true` if that is all, because what it
names has been written. -/
def announce (names : Shared) (w : Writer) (label : Option Nat) : Writer × Bool :=
  match label with
  | none => (w, false)
  | some l =>
    match names.name? l with
    | none => (w, false)
    | some name =>
      if w.labels.elem l then (w.onPen (·.mark ('*' :: name) false), true)
      else ({ w with labels := l :: w.labels }.onPen (·.mark ('&' :: name) false), false)

def step : Nat := 2

def inside (indent : Option Nat) : Nat :=
  match indent with
  | none => 0
  | some n => n + step

def ofScalar (indent : Option Nat) : Nat := indent.getD 0 + step

def scalar (names : Shared) (w : Writer) (indent : Option Nat) (asKey : Bool) (s : Scalar) :
    Except LiteralError Writer := do
  let x ← s.script
  let x := { x with asKey := asKey }
  match w.announce names s.label? with
  | (w, true) => .ok w
  | (w, false) =>
    .ok (w.onPen fun p =>
      (if x.needsTag then p.mark ('!' :: '!' :: x.tag.name) false else p).scalar (ofScalar indent) x)

def keyLimit : Nat := 128

def isSimpleKey (names : Shared) (w : Writer) (s : Scalar) (x : Script) : Bool :=
  match s.label?.bind names.name? with
  | some name =>
    if (s.label?.any w.labels.elem) then name.length < keyLimit
    else name.length + 2 + x.tag.name.length + x.text.length < keyLimit && !isMultiline x.text
  | none =>
    2 + x.tag.name.length + x.text.length < keyLimit && !x.text.isEmpty && !isMultiline x.text

def key (names : Shared) (w : Writer) (indent : Nat) (s : Scalar) : Except LiteralError Writer := do
  let x ← s.script
  let w := w.onPen (·.indent indent)
  if isSimpleKey names w s x then
    (scalar names w (some indent) true s).map fun w => w.onPen (·.close [':'])
  else do
    let w ← scalar names (w.onPen (·.mark ['?'] true)) (some indent) false s
    .ok (w.onPen fun p => (p.indent indent).mark [':'] true)

/-- A sequence that is the value of a key on the same line is not indented. -/
def sequenceIndent (w : Writer) (at_ : Place) : Nat :=
  if at_.inMapping && !w.pen.fresh then at_.indent.getD 0 else inside at_.indent

def dash (w : Writer) (indent : Nat) : Writer :=
  w.onPen fun p => (p.indent indent).mark ['-'] true

/-- A pair is a sequence of two; as a key it can only be written in front of its colon by a name. -/
def mapKey (names : Shared) (w : Writer) (indent : Nat) : MapKey → Except LiteralError Writer
  | .scalar s => key names w indent s
  | .pair label a b => do
    let w := w.onPen (·.indent indent)
    match w.announce names label with
    | (w, true) => .ok (w.onPen (·.close [':']))
    | (_, false) =>
      let (w, _) := (w.onPen (·.mark ['?'] true)).announce names label
      let inner := w.sequenceIndent ⟨some indent, true⟩
      let w ← scalar names (w.dash inner) (some inner) false a
      let w ← scalar names (w.dash inner) (some inner) false b
      .ok (w.onPen fun p => (p.indent indent).mark [':'] true)

def setMark (w : Writer) : Writer := w.onPen (·.mark "!!set".toList false)

def empty (w : Writer) (t : Text) : Writer := w.onPen (·.mark t false)

def members (names : Shared) (indent : Nat) : Writer → List Scalar → Except LiteralError Writer
  | w, [] => .ok w
  | w, k :: ks => do
    let w ← key names w indent k
    let w ← scalar names w (some indent) false .null
    members names indent w ks

mutual

def value (names : Shared) (w : Writer) (at_ : Place) : Value → Except LiteralError Writer
  | .scalar s => scalar names w at_.indent false s
  | .list label items => match w.announce names label with
    | (w, true) => .ok w
    | (w, false) =>
      if items.isEmpty then .ok (w.empty ['[', ']']) else writeItems names (w.sequenceIndent at_) w items
  | .map label es => match w.announce names label with
    | (w, true) => .ok w
    | (w, false) =>
      if es.isEmpty then .ok (w.empty ['\x7b', '\x7d']) else entries names (inside at_.indent) w es
  | .set label ks => match w.announce names label with
    | (w, true) => .ok w
    | (w, false) =>
      if ks.isEmpty then .ok (w.setMark.empty ['\x7b', '\x7d'])
      else members names (inside at_.indent) w.setMark ks
  | .tuple label first second => match w.announce names label with
    | (w, true) => .ok w
    | (w, false) => do
      let indent := w.sequenceIndent at_
      let w ← value names (w.dash indent) ⟨some indent, false⟩ first
      value names (w.dash indent) ⟨some indent, false⟩ second
  | .again _ label => .ok (w.announce names (some label)).1

def writeItems (names : Shared) (indent : Nat) (w : Writer) : List Value → Except LiteralError Writer
  | [] => .ok w
  | v :: vs => do
    let w ← value names (w.dash indent) ⟨some indent, false⟩ v
    writeItems names indent w vs

def entries (names : Shared) (indent : Nat) (w : Writer) : Entries → Except LiteralError Writer
  | [] => .ok w
  | (k, v) :: es => do
    let w ← mapKey names w indent k
    let w ← value names w ⟨some indent, true⟩ v
    entries names indent w es

end

end Writer

def dump (vs : List Value) : Except LiteralError Text :=
  let whole := Value.list none vs
  (Writer.value (Shared.value {} whole) {} {} whole).map fun w => (w.pen.indent 0).written.reverse

end VaultSearch.Yaml
