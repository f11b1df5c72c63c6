import VaultSearch.Bytes.Utf8
import VaultSearch.Yaml.Block

namespace VaultSearch.Yaml

open Text Number

def isNameChar (c : Char) : Bool := c.isAlphanum || c = '-' || c = '_'

def uriMarks : Text := "-;/?:@&=+$,_.!~*'()[]".toList

def isUriChar (c : Char) : Bool := c.isAlphanum || uriMarks.elem c

def uriBytes : Nat → Bytes → Cursor → Except Failure (Bytes × Cursor)
  | 0, bs, c => .ok (bs, c)
  | n + 1, bs, c =>
    if c.peek = '%' then
      match readDigitsIn? 16 [c.peekAt 1, c.peekAt 2] with
      | some b => uriBytes n (bs ++ [UInt8.ofNat b]) (c.skip 3)
      | none => .error .malformed
    else .ok (bs, c)

def uriFrom : Nat → Text → Cursor → Except Failure (Text × Cursor)
  | 0, done, c => .ok (done, c)
  | n + 1, done, c =>
    if isUriChar c.peek then uriFrom n (done ++ [c.peek]) c.next
    else if c.peek = '%' then
      match uriBytes (c.rest.length + 1) [] c with
      | .error e => .error e
      | .ok (bs, c) => match Bytes.toText? bs with
        | none => .error .malformed
        | some t => uriFrom n (done ++ t) c
    else .ok (done, c)

def readUri (c : Cursor) : Except Failure (Text × Cursor) := do
  let (t, after) ← uriFrom (c.rest.length + 1) [] c
  if after.index = c.index then .error .malformed else .ok (t, after)

def readHandle (c : Cursor) : Except Failure (Text × Cursor) :=
  if c.peek ≠ '!' then .error .malformed
  else if c.peekAt 1 = ' ' then .ok (['!'], c.next)
  else
    let (name, after) := c.next.span isNameChar
    if after.peek = '!' then .ok ('!' :: name ++ ['!'], after.next) else .error .malformed

/-- The tag of a node: a short name for a start of tags, if there is one, and the rest. -/
structure TagName where
  handle : Option Text
  suffix : Text
  deriving DecidableEq, Repr

def readTag (c : Cursor) : Except Failure (TagName × Cursor) := do
  let (tag, c) ←
    if c.peekAt 1 = '<' then do
      let (uri, c) ← readUri (c.skip 2)
      if c.peek = '>' then .ok (⟨none, uri⟩, c.next) else .error .malformed
    else if isGap (c.peekAt 1) then .ok (⟨none, ['!']⟩, c.next)
    else do
      let word := c.next.rest.takeWhile (!endsWord ·)
      let (handle, c) ← if word.elem '!' then readHandle c else .ok (['!'], c.next)
      let (uri, c) ← readUri c
      .ok (⟨some handle, uri⟩, c)
  if endsWord c.peek then .ok (tag, c) else .error .malformed

def anchorEnds : Text := "?:,]\x7d%@`".toList

def readAnchor (c : Cursor) : Except Failure (Text × Cursor) :=
  let (name, c) := c.next.span isNameChar
  if !name.isEmpty && (isGap c.peek || anchorEnds.elem c.peek) then .ok (name, c)
  else .error .malformed

inductive Directive
  | version (major : Nat)
  | handle (handle start : Text)
  | other
  deriving DecidableEq, Repr

def readVersionPart (c : Cursor) : Except Failure (Nat × Cursor) :=
  let (digits, c) := c.span Char.isDigit
  if digits.isEmpty then .error .malformed
  else match readInt digits with
    | .ok n => .ok (n.toNat, c)
    | .error e => .error (.literal e)

def readVersion (c : Cursor) : Except Failure (Directive × Cursor) := do
  let (major, c) ← readVersionPart (c.skipWhile (· == ' '))
  if c.peek ≠ '.' then .error .malformed
  else
    let (_, c) ← readVersionPart c.next
    if endsWord c.peek then .ok (.version major, c) else .error .malformed

def readHandleStart (c : Cursor) : Except Failure (Directive × Cursor) := do
  let (handle, c) ← readHandle (c.skipWhile (· == ' '))
  if c.peek ≠ ' ' then .error .malformed
  else
    let (start, c) ← readUri (c.skipWhile (· == ' '))
    if endsWord c.peek then .ok (.handle handle start, c) else .error .malformed

def readDirective (c : Cursor) : Except Failure (Directive × Cursor) := do
  let (name, c) := c.next.span isNameChar
  if name.isEmpty || !endsWord c.peek then .error .malformed
  else
    let (d, c) ←
      if name = "YAML".toList then readVersion c
      else if name = "TAG".toList then readHandleStart c
      else .ok (.other, c.skipWhile (!endsLine ·))
    let c ← restOfLine c
    .ok (d, c)

end VaultSearch.Yaml
