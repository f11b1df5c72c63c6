import VaultSearch.Yaml.Cursor

namespace VaultSearch.Yaml

open Text

def flowIndicators : Text := ",[]\x7b\x7d".toList

/-- How many characters a scalar without quotes takes before a gap or an indicator. -/
def plainLength (flow : Bool) : Text → Nat
  | [] => 0
  | x :: t =>
    let next := t.headD endMark
    if isGap x || (x = ':' && (isGap next || (flow && flowIndicators.elem next))) ||
        (flow && (x = '?' || flowIndicators.elem x)) then 0
    else plainLength flow t + 1

/-- The line breaks in blank lines from here on; nothing if a document separator follows one. -/
def plainBreaks : Nat → Text → Cursor → Option Text × Cursor
  | 0, breaks, c => (some breaks, c)
  | n + 1, breaks, c =>
    if c.peek = ' ' then plainBreaks n breaks c.next
    else if isBreak c.peek then
      let (b, c) := c.takeBreak
      if c.atSeparator then (none, c) else plainBreaks n (breaks ++ b) c
    else (some breaks, c)

def foldBreaks (first rest : Text) : Text :=
  (if first ≠ ['\n'] then first else if rest.isEmpty then [' '] else []) ++ rest

def plainGap (c : Cursor) : Option Text × Bool × Cursor :=
  let (spaces, c) := c.span (· == ' ')
  if isBreak c.peek then
    let (b, c) := c.takeBreak
    if c.atSeparator then (none, true, c)
    else
      let (breaks, c) := plainBreaks c.rest.length [] c
      (breaks.map (foldBreaks b), true, c)
  else (if spaces.isEmpty then none else some spaces, false, c)

/-- Reads on after `done` and the gap after it; lines of a scalar are indented by `indent`. The flag
tells that a line was broken after the last part. -/
def plainFrom (flow : Bool) (indent : Int) : Nat → Text → Text → Bool → Cursor → Text × Bool × Cursor
  | 0, done, _, broke, c => (done, broke, c)
  | n + 1, done, gap, broke, c =>
    let length := plainLength flow c.rest
    if c.peek = '#' || length = 0 then (done, broke, c)
    else
      let done := done ++ gap ++ c.rest.take length
      match plainGap (c.skip length) with
      | (none, broke, c) => (done, broke, c)
      | (some gap, broke, c) =>
        if c.peek = '#' || (!flow && c.column < indent) then (done, broke, c)
        else plainFrom flow indent n done gap broke c

def readPlain (flow : Bool) (indent : Int) (c : Cursor) : Text × Bool × Cursor :=
  plainFrom flow indent (c.rest.length + 1) [] [] false c

end VaultSearch.Yaml
