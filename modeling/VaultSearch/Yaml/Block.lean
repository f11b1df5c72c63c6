import VaultSearch.Yaml.Failure
import VaultSearch.Yaml.Cursor

namespace VaultSearch.Yaml

open Text

inductive Chomping
  | strip
  | clip
  | keep
  deriving DecidableEq, Repr

def chomping? (c : Char) : Option Chomping :=
  if c = '+' then some .keep else if c = '-' then some .strip else none

def readIndent (c : Cursor) : Except Failure (Option Nat × Cursor) :=
  if c.peek.isDigit then
    if c.peek = '0' then .error .malformed else .ok (some (c.peek.val.toNat - 48), c.next)
  else .ok (none, c)

def restOfLine (c : Cursor) : Except Failure Cursor :=
  let c := c.skipWhile (· == ' ')
  let c := if c.peek = '#' then c.skipWhile (!endsLine ·) else c
  if endsLine c.peek then .ok c.takeBreak.2 else .error .malformed

def blockHeader (c : Cursor) : Except Failure (Chomping × Option Nat × Cursor) := do
  let (chomping, indent, c) ← match chomping? c.peek with
    | some k => do
      let (indent, c) ← readIndent c.next
      .ok (k, indent, c)
    | none => do
      let (indent, c) ← readIndent c
      match indent, chomping? c.peek with
      | some i, some k => .ok (k, some i, c.next)
      | indent, _ => .ok (.clip, indent, c)
  if endsWord c.peek then (restOfLine c).map fun c => (chomping, indent, c) else .error .malformed

/-- Blank lines, their breaks, and the widest indentation among them. -/
def blankLines : Nat → Text → Nat → Cursor → Text × Nat × Cursor
  | 0, breaks, widest, c => (breaks, widest, c)
  | n + 1, breaks, widest, c =>
    if c.peek = ' ' then blankLines n breaks (max widest c.next.column) c.next
    else if isBreak c.peek then
      let (b, c) := c.takeBreak
      blankLines n (breaks ++ b) widest c
    else (breaks, widest, c)

def skipIndent (indent : Nat) : Nat → Cursor → Cursor
  | 0, c => c
  | n + 1, c => if c.column < indent && c.peek = ' ' then skipIndent indent n c.next else c

def emptyLines (indent : Nat) : Nat → Text → Cursor → Text × Cursor
  | 0, breaks, c => (breaks, c)
  | n + 1, breaks, c =>
    let c := skipIndent indent indent c
    if isBreak c.peek then
      let (b, c) := c.takeBreak
      emptyLines indent n (breaks ++ b) c
    else (breaks, c)

/-- A line has been read, and `breaks` and `last` are the line breaks since. -/
structure BlockText where
  done : Text
  last : Text
  breaks : Text

def isBlankChar (c : Char) : Bool := c = ' ' || c = '\t'

/-- The lines of one indentation. In a folded scalar one break between two lines that start with no
blank is a space, and more of them lose one. -/
def blockLines (folded : Bool) (indent : Nat) : Nat → BlockText → Cursor → BlockText × Cursor
  | 0, b, c => (b, c)
  | n + 1, b, c =>
    if c.column = indent && !c.rest.isEmpty then
      let blank := isBlankChar c.peek
      let (line, c) := c.span (!endsLine ·)
      let (last, c) := c.takeBreak
      let (breaks, c) := emptyLines indent (c.rest.length + 1) [] c
      let done := b.done ++ b.breaks ++ line
      if c.column = indent && !c.rest.isEmpty then
        let joint :=
          if folded && last = ['\n'] && !blank && !isBlankChar c.peek then
            if breaks.isEmpty then [' '] else []
          else last
        blockLines folded indent n ⟨done ++ joint, last, breaks⟩ c
      else (⟨done, last, breaks⟩, c)
    else (b, c)

def readBlock (folded : Bool) (outer : Int) (c : Cursor) : Except Failure (Text × Cursor) :=
  (blockHeader c.next).map fun (chomping, given, c) =>
    let least := (max (outer + 1) 1).toNat
    let fuel := c.rest.length + 1
    let (indent, breaks, c) := match given with
      | none =>
        let (breaks, widest, c) := blankLines fuel [] 0 c
        (max least widest, breaks, c)
      | some i =>
        let indent := least + i - 1
        let (breaks, c) := emptyLines indent fuel [] c
        (indent, breaks, c)
    let (b, c) := blockLines folded indent fuel ⟨[], [], breaks⟩ c
    let last := if chomping = .strip then [] else b.last
    (b.done ++ last ++ (if chomping = .keep then b.breaks else []), c)

end VaultSearch.Yaml
