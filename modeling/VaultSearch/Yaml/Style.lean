import VaultSearch.Yaml.Property
import VaultSearch.Yaml.Tag

namespace VaultSearch.Yaml

open Text

inductive Style
  | plain
  | single
  | double
  | literal
  deriving DecidableEq, Repr

def isFoldBreak (c : Char) : Bool := c = '\n' || c = '\u0085' || c = '\u2028' || c = '\u2029'

def isWritable (c : Char) : Bool :=
  let n := c.val.toNat
  c = '\n' || (0x20 ≤ n && n ≤ 0x7E) || n = 0x85 || (0xA0 ≤ n && n ≤ 0xFFFD && c ≠ byteOrderMark) ||
    (0x10000 ≤ n && n < 0x10FFFF)

def leadingIndicators : Text := "#,[]\x7b\x7d&*!|>'\"%@`".toList

def gapFollows (t : Text) : Bool := isGap (t.headD endMark)

def startsIndicator : Text → Bool
  | [] => false
  | c :: t => leadingIndicators.elem c || ((c = '?' || c = ':' || c = '-') && gapFollows t)

/-- A colon or a comment that ends a scalar in a block; `gap` tells what stood before. -/
def holdsIndicator (gap : Bool) : Text → Bool
  | [] => false
  | c :: t => (c = ':' && gapFollows t) || (c = '#' && gap) || holdsIndicator (isGap c) t

def startsLikeMark (t : Text) : Bool := startsWith "---".toList t || startsWith "...".toList t

def isMultiline (t : Text) : Bool := t.any isFoldBreak

def hasPair (p q : Char → Bool) : Text → Bool
  | c :: d :: t => (p c && q d) || hasPair p q (d :: t)
  | _ => false

def spaceThenBreak (t : Text) : Bool := hasPair (· = ' ') isFoldBreak t

def breakThenSpace (t : Text) : Bool := hasPair isFoldBreak (· = ' ') t

def allowsLiteral (t : Text) : Bool :=
  !t.isEmpty && t.all isWritable && !spaceThenBreak t && t.getLast? ≠ some ' '

def allowsSingle (t : Text) : Bool :=
  t.all isWritable && !spaceThenBreak t && !breakThenSpace t

def allowsPlain (t : Text) : Bool :=
  match t with
  | [] => true
  | c :: rest =>
    t.all isWritable && !isMultiline t && c ≠ ' ' && t.getLast? ≠ some ' ' && !startsLikeMark t &&
      !startsIndicator t && !holdsIndicator (isGap c) rest

/-- What is known of a scalar that is to be written: its tag, its text, whether it stands as a key,
and whether it is better written as lines. -/
structure Script where
  tag : Tag
  text : Text
  asKey : Bool := false
  lines : Bool := false

namespace Script

def isPlain (x : Script) : Bool := Tag.ofPlain x.text = x.tag

def style (x : Script) : Style :=
  if !x.lines && x.isPlain && !(x.asKey && (x.text.isEmpty || isMultiline x.text)) &&
      allowsPlain x.text then .plain
  else if x.lines && !x.asKey && allowsLiteral x.text then .literal
  else if !x.lines && allowsSingle x.text && !(x.asKey && isMultiline x.text) then .single
  else .double

def needsTag (x : Script) : Bool := x.style ≠ .plain && x.tag ≠ .str

end Script

end VaultSearch.Yaml
