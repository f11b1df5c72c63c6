import VaultSearch.Text.Quoted
import VaultSearch.Yaml.Quoted
import VaultSearch.Yaml.Style

namespace VaultSearch.Yaml

open Text

/-- What has been written, last character first, and where the next character goes. -/
structure Pen where
  written : Text := []
  column : Nat := 0
  /-- A blank is not needed here. -/
  spaced : Bool := true
  /-- The line holds nothing but indentation and dashes so far. -/
  fresh : Bool := true

namespace Pen

def width : Nat := 80

def put (p : Pen) (t : Text) : Pen :=
  { p with written := t.reverse ++ p.written, column := p.column + t.length }

def breakLine (p : Pen) (b : Char) : Pen := ⟨b :: p.written, 0, true, true⟩

def indent (p : Pen) (n : Nat) : Pen :=
  let p :=
    if !p.fresh || n < p.column || (p.column = n && !p.spaced) then p.breakLine '\n' else p
  if p.column < n then { p.put (List.replicate (n - p.column) ' ') with spaced := true } else p

def mark (p : Pen) (t : Text) (inLine : Bool) : Pen :=
  { p.put (if p.spaced then t else ' ' :: t) with spaced := false, fresh := p.fresh && inLine }

def close (p : Pen) (t : Text) : Pen := { p.put t with spaced := false, fresh := false }

inductive Run
  | spaces
  | breaks
  | other
  deriving DecidableEq

def Run.of (c : Char) : Run := if c = ' ' then spaces else if isFoldBreak c then breaks else other

def runs : Text → List (Run × Text)
  | [] => []
  | c :: t =>
    match runs t with
    | [] => [(.of c, [c])]
    | (r, w) :: rest => if r = .of c then (r, c :: w) :: rest else (.of c, [c]) :: (r, w) :: rest

/-- Lines are broken at single spaces only, and only where `split` allows it. -/
def breaksAt (p : Pen) (split : Bool) (spaces : Text) : Bool :=
  spaces.length = 1 && width < p.column && split

def plainRuns (indent : Nat) (split : Bool) : Pen → List (Run × Text) → Pen
  | p, [] => p
  | p, (r, w) :: rest =>
    let p :=
      if r = .spaces && p.breaksAt split w then { p.indent indent with spaced := false, fresh := false }
      else p.put w
    plainRuns indent split p rest

def plain (p : Pen) (indent : Nat) (split : Bool) (t : Text) : Pen :=
  if t.isEmpty then p
  else
    let p := if p.spaced then p else p.put [' ']
    plainRuns indent split { p with spaced := false, fresh := false } (runs t)

/-- Line breaks as they are; a line feed in front needs another, for the one that reading folds. -/
def foldedBreaks (p : Pen) (indent : Nat) (w : Text) : Pen :=
  let p := if w.head? = some '\n' then p.breakLine '\n' else p
  (w.foldl breakLine p).indent indent

def doubledQuotes (w : Text) : Text := w.flatMap fun c => if c = '\'' then [c, c] else [c]

def singleRuns (indent : Nat) (split first : Bool) : Pen → List (Run × Text) → Pen
  | p, [] => p
  | p, (r, w) :: rest =>
    let p := match r with
      | .spaces =>
        if p.breaksAt split w && !first && !rest.isEmpty then p.indent indent else p.put w
      | .breaks => p.foldedBreaks indent w
      | .other => p.put (doubledQuotes w)
    singleRuns indent split false p rest

def single (p : Pen) (indent : Nat) (split : Bool) (t : Text) : Pen :=
  (singleRuns indent split true (p.mark ['\''] false) (runs t)).close ['\'']

def isDirect (c : Char) : Bool :=
  let n := c.val.toNat
  (0x20 ≤ n && n ≤ 0x7E && c ≠ '"' && c ≠ '\\') ||
    (0xA0 ≤ n && n ≤ 0xFFFD && c ≠ '\u2028' && c ≠ '\u2029' && c ≠ byteOrderMark)

def escapeLetter? (c : Char) : Option Char :=
  if c = '/' || c = ' ' then none
  else ((escapes.filter (·.1 ≠ '\t')).find? (·.2 = c)).map Prod.fst

def upperHex (width n : Nat) : Text := (hex width n).map Char.toUpper

def escaped (c : Char) : Text :=
  let n := c.val.toNat
  match escapeLetter? c with
  | some x => ['\\', x]
  | none =>
    if n ≤ 0xFF then '\\' :: 'x' :: upperHex 2 n
    else if n ≤ 0xFFFF then '\\' :: 'u' :: upperHex 4 n
    else '\\' :: 'U' :: upperHex 8 n

/-- Writes on, where `held` are characters before `t` that have not been written yet. A line is
broken by a backslash, and so is a blank that would start the next line. -/
def doubleFrom (indent : Nat) (split first : Bool) (held : Text) : Pen → Text → Pen
  | p, [] => p.put held
  | p, c :: t =>
    let direct := isDirect c
    let p := if direct then p else (p.put held).put (escaped c)
    let held := if direct then held else []
    let column : Int := if direct then p.column + held.length else p.column - 1
    let p' := { (p.put (held ++ ['\\'])).indent indent with spaced := false, fresh := false }
    if !first && !t.isEmpty && (c = ' ' || held.isEmpty) && width < column && split then
      if direct then
        doubleFrom indent split false [c] (if c = ' ' then p'.put ['\\'] else p') t
      else
        doubleFrom indent split false [] (if t.head? = some ' ' then p'.put ['\\'] else p') t
    else doubleFrom indent split false (if direct then held ++ [c] else []) p t

def double (p : Pen) (indent : Nat) (split : Bool) (t : Text) : Pen :=
  (doubleFrom indent split true [] (p.mark ['"'] false) t).close ['"']

def literal (p : Pen) (indent : Nat) (t : Text) : Pen :=
  let lines := (lines t).filter (!·.isEmpty)
  lines.foldl (fun p w => ((p.indent indent).put w).breakLine '\n')
    ((p.mark ['|'] false).breakLine '\n')

def scalar (p : Pen) (indent : Nat) (x : Script) : Pen :=
  match x.style with
  | .plain => p.plain indent (!x.asKey) x.text
  | .single => p.single indent (!x.asKey) x.text
  | .double => p.double indent (!x.asKey) x.text
  | .literal => p.literal indent x.text

end Pen

end VaultSearch.Yaml
