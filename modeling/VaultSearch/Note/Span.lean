import VaultSearch.Text.Case

namespace VaultSearch.Note

open Text

def contextWidth : Nat := 20

/-- A match inside one line; lines are numbered from one. -/
structure Span where
  text : Text
  start : Nat
  stop : Nat
  line : Nat
  context : Text
  deriving DecidableEq

def Span.ofLine (number : Nat) (line : Text) (start stop : Nat) : Span where
  text := slice line start stop
  start := start
  stop := stop
  line := number
  context :=
    let from_ := start - contextWidth
    let shown := slice line from_ (min line.length (stop + contextWidth))
    if from_ = 0 then shown else '.' :: '.' :: '.' :: shown

/-- Where `needle` occurs in a text that starts at `offset`, each time `width` characters after
the last place or later. -/
def occurrences (needle : Text) (width offset : Nat) (t : Text) : List Nat :=
  match t with
  | [] => []
  | c :: u =>
    match find? needle (c :: u) with
    | none => []
    | some i =>
      (offset + i) ::
        occurrences needle width (offset + i + max 1 width) ((c :: u).drop (i + max 1 width))
  termination_by t.length
  decreasing_by
    simp only [List.length_drop, List.length_cons]
    omega

def lineSpans (needle : Text) (number : Nat) (line : Text) : List Span :=
  (occurrences (lower needle) needle.length 0 (lower line)).map fun i =>
    .ofLine number line i (i + needle.length)

def findSpans (content needle : Text) : List Span :=
  if needle.isEmpty then []
  else ((lines content).zipIdx 1).flatMap fun (line, number) => lineSpans needle number line

end VaultSearch.Note
