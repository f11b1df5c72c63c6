import VaultSearch.Fuzzy.Distance
import VaultSearch.Note.Span
import VaultSearch.Number.Binary64
import VaultSearch.Text.Blank
import VaultSearch.Text.Word

namespace VaultSearch.Fuzzy

open Text Number Note

/-- One less the edit distance as a fraction of the longer length, in lower case. -/
def similarity (a b : Text) : Rat :=
  let longer := max a.length b.length
  if longer = 0 then 1
  else nearest (1 - nearest (mkRat (distance (lower a) (lower b)) longer))

def reaches (threshold : Binary64) (score : Rat) : Bool := threshold.le (.finite score)

def isMatch (threshold : Binary64) (text query : Text) : Bool :=
  let t := lower text
  let q := lower query
  contains q t || (words t).any fun w => reaches threshold (similarity w q)

structure Match where
  text : Text
  start : Nat
  stop : Nat
  score : Rat
  deriving DecidableEq

def wordRuns (offset : Nat) (t : Text) : List (Nat × Text) :=
  match t with
  | [] => []
  | c :: u =>
    if isWordChar c then
      let w := c :: u.takeWhile isWordChar
      (offset, w) :: wordRuns (offset + w.length) (u.dropWhile isWordChar)
    else wordRuns (offset + 1) u
  termination_by t.length
  decreasing_by
    · have := (List.dropWhile_sublist (l := u) isWordChar).length_le
      simp only [List.length_cons]
      omega
    · simp

def similarWords (threshold : Binary64) (text query : Text) : List Match :=
  (wordRuns 0 text).filterMap fun (start, w) =>
    let score := similarity w (lower query)
    if reaches threshold score then some ⟨w, start, start + w.length, score⟩ else none

def findMatches (threshold : Binary64) (text query : Text) : List Match :=
  (similarWords threshold text query).mergeSort fun a b => decide (b.score ≤ a.score)

def byStart (ms : List Match) : List Match := ms.mergeSort fun a b => decide (a.start ≤ b.start)

def spans (threshold : Binary64) (content query : Text) : List Span :=
  ((lines content).zipIdx 1).flatMap fun (line, number) =>
    (byStart (findMatches threshold line query)).map fun m => .ofLine number line m.start m.stop

def wrap (opening closing : Text) (t : Text) (m : Match) : Text :=
  t.take m.start ++ opening ++ slice t m.start m.stop ++ closing ++ t.drop m.stop

def highlight (threshold : Binary64) (opening closing : Text) (text query : Text) : Text :=
  (byStart (findMatches threshold text query)).reverse.foldl (wrap opening closing) text

end VaultSearch.Fuzzy
