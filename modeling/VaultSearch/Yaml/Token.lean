import VaultSearch.Text.Printable
import VaultSearch.Yaml.Property
import VaultSearch.Yaml.Quoted

namespace VaultSearch.Yaml

open Text

inductive Token
  | directive (d : Directive)
  | documentStart
  | documentEnd
  | streamEnd
  | blockSequence
  | blockMapping
  | blockEnd
  | flowSequence
  | flowSequenceEnd
  | flowMapping
  | flowMappingEnd
  | blockEntry
  | flowEntry
  | key
  | value
  | alias (name : Text)
  | anchor (name : Text)
  | tag (t : TagName)
  /-- A scalar is plain if it has no quotes and is no block. -/
  | scalar (plain : Bool) (t : Text)
  deriving DecidableEq, Repr

/-- A token that turns out to be a key if a colon follows it on its line. A required one has to. -/
structure PossibleKey where
  level : Nat
  place : Nat
  required : Bool
  index : Nat
  line : Nat
  column : Nat

structure Scanner where
  cursor : Cursor
  tokens : Array Token := #[]
  level : Nat := 0
  indent : Int := -1
  outer : List Int := []
  keyAllowed : Bool := true
  keys : List PossibleKey := []

namespace Scanner

def peek (s : Scanner) : Char := s.cursor.peek

def push (s : Scanner) (t : Token) : Scanner := { s with tokens := s.tokens.push t }

def take (s : Scanner) (n : Nat) (t : Token) : Scanner :=
  { s with cursor := s.cursor.skip n, tokens := s.tokens.push t }

def maxKeyLength : Nat := 1024

def isStale (c : Cursor) (k : PossibleKey) : Bool :=
  k.line ≠ c.line || maxKeyLength < c.index - k.index

def dropKeys (s : Scanner) (drop : PossibleKey → Bool) : Except Failure Scanner :=
  if s.keys.any fun k => drop k && k.required then .error .malformed
  else .ok { s with keys := s.keys.filter (!drop ·) }

def dropStale (s : Scanner) : Except Failure Scanner := s.dropKeys (isStale s.cursor)

def dropKey (s : Scanner) : Except Failure Scanner := s.dropKeys (·.level = s.level)

def saveKey (s : Scanner) : Except Failure Scanner :=
  if s.keyAllowed then do
    let s ← s.dropKey
    let c := s.cursor
    let required := s.level = 0 && s.indent = c.column
    .ok { s with keys := ⟨s.level, s.tokens.size, required, c.index, c.line, c.column⟩ :: s.keys }
  else .ok s

def closeBlocks (column : Int) : Int → List Int → Array Token → Int × List Int × Array Token
  | indent, [], ts => (indent, [], ts)
  | indent, i :: outer, ts =>
    if column < indent then closeBlocks column i outer (ts.push .blockEnd)
    else (indent, i :: outer, ts)

def unwind (s : Scanner) (column : Int) : Scanner :=
  if s.level = 0 then
    let (indent, outer, tokens) := closeBlocks column s.indent s.outer s.tokens
    { s with indent := indent, outer := outer, tokens := tokens }
  else s

def openBlock (s : Scanner) (column place : Nat) (t : Token) : Scanner :=
  if s.level = 0 && s.indent < column then
    { s with
      indent := column
      outer := s.indent :: s.outer
      tokens := s.tokens.insertIdxIfInBounds place t }
  else s

def skipGapFrom (flow : Bool) : Nat → Bool → Cursor → Bool × Cursor
  | 0, allowed, c => (allowed, c)
  | n + 1, allowed, c =>
    let c := c.skipWhile (· == ' ')
    let c := if c.peek = '#' then c.skipWhile (!endsLine ·) else c
    if isBreak c.peek then skipGapFrom flow n (allowed || !flow) c.takeBreak.2 else (allowed, c)

/-- Moves on to the next token. A new line in a block allows keys again. -/
def skipGap (s : Scanner) : Scanner :=
  let c := if s.cursor.index = 0 && s.peek = byteOrderMark then s.cursor.next else s.cursor
  let (allowed, c) := skipGapFrom (s.level ≠ 0) (c.rest.length + 1) s.keyAllowed c
  { s with cursor := c, keyAllowed := allowed }

def leave (s : Scanner) : Except Failure Scanner :=
  (s.unwind (-1)).dropKey.map fun s => { s with keyAllowed := false }

def takeDirective (s : Scanner) : Except Failure Scanner := do
  let s ← s.leave
  let (d, c) ← readDirective s.cursor
  .ok { s with cursor := c, tokens := s.tokens.push (.directive d) }

def takeMark (s : Scanner) (t : Token) : Except Failure Scanner := s.leave.map (take · 3 t)

def openFlow (s : Scanner) (t : Token) : Except Failure Scanner :=
  s.saveKey.map fun s => take { s with level := s.level + 1, keyAllowed := true } 1 t

def closeFlow (s : Scanner) (t : Token) : Except Failure Scanner :=
  if s.level = 0 then .error .malformed
  else s.dropKey.map fun s => take { s with level := s.level - 1, keyAllowed := false } 1 t

def takeFlowEntry (s : Scanner) : Except Failure Scanner :=
  s.dropKey.map fun s => take { s with keyAllowed := true } 1 .flowEntry

def takeBlockEntry (s : Scanner) : Except Failure Scanner :=
  if s.level = 0 && !s.keyAllowed then .error .malformed
  else
    (s.openBlock s.cursor.column s.tokens.size .blockSequence).dropKey.map fun s =>
      take { s with keyAllowed := true } 1 .blockEntry

def takeKey (s : Scanner) : Except Failure Scanner :=
  if s.level = 0 && !s.keyAllowed then .error .malformed
  else
    (s.openBlock s.cursor.column s.tokens.size .blockMapping).dropKey.map fun s =>
      take { s with keyAllowed := s.level = 0 } 1 .key

/-- A colon makes a key of the token that may be one, or else follows a key marked as such. -/
def takeValue (s : Scanner) : Except Failure Scanner :=
  match s.keys.find? (·.level = s.level) with
  | some k =>
    let s := { s with
      keys := s.keys.filter (·.level ≠ s.level)
      tokens := s.tokens.insertIdxIfInBounds k.place .key
      keyAllowed := false }
    .ok ((s.openBlock k.column k.place .blockMapping).take 1 .value)
  | none =>
    if s.level = 0 && !s.keyAllowed then .error .malformed
    else
      let s := s.openBlock s.cursor.column s.tokens.size .blockMapping
      (dropKey { s with keyAllowed := s.level = 0 }).map (take · 1 .value)

def takeKeyLike (s : Scanner) (read : Cursor → Except Failure (Token × Cursor)) :
    Except Failure Scanner := do
  let s ← s.saveKey
  let (t, c) ← read s.cursor
  .ok { s with cursor := c, tokens := s.tokens.push t, keyAllowed := false }

def takePlain (s : Scanner) : Except Failure Scanner :=
  s.saveKey.map fun s =>
    let (t, broke, c) := readPlain (s.level ≠ 0) (s.indent + 1) s.cursor
    { s with cursor := c, tokens := s.tokens.push (.scalar true t), keyAllowed := broke }

def takeBlock (s : Scanner) (folded : Bool) : Except Failure Scanner := do
  let s ← s.dropKey
  let (t, c) ← readBlock folded s.indent s.cursor
  .ok { s with cursor := c, tokens := s.tokens.push (.scalar false t), keyAllowed := true }

def indicators : Text := "-?:,[]\x7b\x7d#&*!|>'\"%@`".toList

def startsPlain (s : Scanner) : Bool :=
  let x := s.peek
  !(isGap x || indicators.elem x) ||
    (!isGap (s.cursor.peekAt 1) && (x = '-' || (s.level = 0 && (x = '?' || x = ':'))))

/-- Reads the next token, where `s` stands at one and the text has not ended. -/
def takeToken (s : Scanner) : Except Failure Scanner :=
  let c := s.cursor
  let x := s.peek
  let gapAfter := isGap (c.peekAt 1)
  let block := s.level = 0
  if x = '%' && c.column = 0 then s.takeDirective
  else if c.column = 0 && c.atMark '-' then s.takeMark .documentStart
  else if c.column = 0 && c.atMark '.' then s.takeMark .documentEnd
  else if x = '[' then s.openFlow .flowSequence
  else if x = '\x7b' then s.openFlow .flowMapping
  else if x = ']' then s.closeFlow .flowSequenceEnd
  else if x = '\x7d' then s.closeFlow .flowMappingEnd
  else if x = ',' then s.takeFlowEntry
  else if x = '-' && gapAfter then s.takeBlockEntry
  else if x = '?' && (gapAfter || !block) then s.takeKey
  else if x = ':' && (gapAfter || !block) then s.takeValue
  else if x = '*' then s.takeKeyLike fun c => (readAnchor c).map fun (t, c) => (.alias t, c)
  else if x = '&' then s.takeKeyLike fun c => (readAnchor c).map fun (t, c) => (.anchor t, c)
  else if x = '!' then s.takeKeyLike fun c => (readTag c).map fun (t, c) => (.tag t, c)
  else if x = '|' && block then s.takeBlock false
  else if x = '>' && block then s.takeBlock true
  else if x = '\'' then
    s.takeKeyLike fun c => (readQuoted false c).map fun (t, c) => (.scalar false t, c)
  else if x = '"' then
    s.takeKeyLike fun c => (readQuoted true c).map fun (t, c) => (.scalar false t, c)
  else if s.startsPlain then s.takePlain
  else .error .malformed

def step (s : Scanner) : Except Failure (Scanner ⊕ Array Token) := do
  let s ← s.skipGap.dropStale
  let s := s.unwind s.cursor.column
  if s.cursor.rest.isEmpty then
    (s.leave).map fun s => .inr (s.tokens.push .streamEnd)
  else s.takeToken.map .inl

end Scanner

structure Tokens where
  list : List Token
  failure : Failure := .malformed

/-- What can be seen of the tokens when the next one fails: one that may still become a key hides
itself and all that follow it. -/
def Scanner.visible (s : Scanner) (e : Failure) : Tokens :=
  let keys := s.keys.filter (!isStale s.cursor ·)
  let size := keys.foldl (fun n k => min n k.place) s.tokens.size
  ⟨(s.tokens.extract 0 size).toList, e⟩

def Scanner.run : Nat → Scanner → Tokens
  | 0, s => s.visible .malformed
  | n + 1, s =>
    match s.step with
    | .error e => s.visible e
    | .ok (.inl s) => s.run n
    | .ok (.inr ts) => ⟨ts.toList, .malformed⟩

def isAllowed (c : Char) : Bool :=
  let n := c.val.toNat
  c = '\t' || c = '\n' || c = '\r' || (0x20 ≤ n && n ≤ 0x7E) || n = 0x85 ||
    (0xA0 ≤ n && n ≤ 0xD7FF) || (0xE000 ≤ n && n ≤ 0xFFFD) || 0x10000 ≤ n

def Tokens.ofText (t : Text) : Tokens :=
  if t.all isAllowed then (Scanner.mk ⟨t, 0, 0, 0⟩ #[] 0 (-1) [] true []).run (t.length + 1)
  else ⟨[], .malformed⟩

end VaultSearch.Yaml
