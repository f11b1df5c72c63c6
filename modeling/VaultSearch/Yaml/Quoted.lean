import VaultSearch.Yaml.Failure
import VaultSearch.Yaml.Plain

namespace VaultSearch.Yaml

open Text Number

def escapes : List (Char × Char) :=
  [('0', '\x00'), ('a', '\x07'), ('b', '\x08'), ('t', '\t'), ('\t', '\t'), ('n', '\n'), ('v', '\x0b'),
    ('f', '\x0c'), ('r', '\r'), ('e', '\x1b'), (' ', ' '), ('"', '"'), ('\\', '\\'), ('/', '/'),
    ('N', '\u0085'), ('_', '\u00a0'), ('L', '\u2028'), ('P', '\u2029')]

def escapeWidth? (c : Char) : Option Nat :=
  if c = 'x' then some 2 else if c = 'u' then some 4 else if c = 'U' then some 8 else none

def readHex? (width : Nat) (t : Text) : Option Nat :=
  if t.length < width then none else readDigitsIn? 16 (t.take width)

def lowHalf? (t : Text) : Option Nat :=
  match t with
  | '\\' :: 'u' :: t => (readHex? 4 t).filter fun n => 0xDC00 ≤ n && n < 0xE000
  | _ => none

def replacement : Char := '\uFFFD'

/-- The character of a code, where `t` follows it, and how much of `t` belongs to it. A half of a
character that stands alone is replaced. -/
def characterOf (code : Nat) (t : Text) : Except Failure (Char × Nat) :=
  if 0x80000000 ≤ code then .error .codeWidth
  else if 0x110000 ≤ code then .error .codePoint
  else if 0xD800 ≤ code && code < 0xDC00 then
    match lowHalf? t with
    | some low => .ok (Char.ofNat (0x10000 + (code - 0xD800) * 0x400 + (low - 0xDC00)), 6)
    | none => .ok (replacement, 0)
  else if 0xDC00 ≤ code && code < 0xE000 then .ok (replacement, 0)
  else .ok (Char.ofNat code, 0)

def quotedBreaks : Nat → Text → Cursor → Except Failure (Text × Cursor)
  | 0, breaks, c => .ok (breaks, c)
  | n + 1, breaks, c =>
    if c.atSeparator then .error .malformed
    else
      let c := c.skipWhile fun x => x == ' ' || x == '\t'
      if isBreak c.peek then
        let (b, c) := c.takeBreak
        quotedBreaks n (breaks ++ b) c
      else .ok (breaks, c)

def readEscape (c : Cursor) : Except Failure (Text × Cursor) :=
  match escapes.lookup c.peek with
  | some x => .ok ([x], c.next)
  | none => match escapeWidth? c.peek with
    | some width =>
      let c := c.next
      match readHex? width c.rest with
      | none => .error .malformed
      | some code =>
        let c := c.skip width
        (characterOf code c.rest).map fun (x, n) => ([x], c.skip n)
    | none =>
      if isBreak c.peek then
        let (_, c) := c.takeBreak
        quotedBreaks (c.rest.length + 1) [] c
      else .error .malformed

def quotedPart (double : Bool) : Nat → Text → Cursor → Except Failure (Text × Cursor)
  | 0, done, c => .ok (done, c)
  | n + 1, done, c =>
    match c.rest with
    | [] => .ok (done, c)
    | x :: t =>
      if !double && x = '\'' && t.head? = some '\'' then quotedPart double n (done ++ [x]) (c.skip 2)
      else if double && x = '\\' then
        match readEscape c.next with
        | .error e => .error e
        | .ok (w, c) => quotedPart double n (done ++ w) c
      else if isGap x || x = (if double then '"' else '\'') then .ok (done, c)
      else quotedPart double n (done ++ [x]) c.next

def quotedGap (c : Cursor) : Except Failure (Text × Cursor) :=
  let (blanks, c) := c.span fun x => x == ' ' || x == '\t'
  if c.rest.isEmpty then .error .malformed
  else if isBreak c.peek then
    let (b, c) := c.takeBreak
    (quotedBreaks (c.rest.length + 1) [] c).map fun (breaks, c) => (foldBreaks b breaks, c)
  else .ok (blanks, c)

def quotedFrom (double : Bool) : Nat → Text → Cursor → Except Failure (Text × Cursor)
  | 0, _, _ => .error .malformed
  | n + 1, done, c => do
    let (done, c) ← quotedPart double (c.rest.length + 1) done c
    if c.peek = (if double then '"' else '\'') then .ok (done, c.next)
    else
      let (gap, c) ← quotedGap c
      quotedFrom double n (done ++ gap) c

def readQuoted (double : Bool) (c : Cursor) : Except Failure (Text × Cursor) :=
  quotedFrom double (c.rest.length + 1) [] c.next

end VaultSearch.Yaml
