import VaultSearch.Text.Basic

namespace VaultSearch.Fuzzy

def rowAfter (x : Char) : Text → List Nat → Nat → List Nat
  | y :: ys, diagonal :: above :: rest, left =>
    let n := min (above + 1) (min (left + 1) (if x = y then diagonal else diagonal + 1))
    n :: rowAfter x ys (above :: rest) n
  | _, _, _ => []

def nextRow (x : Char) (b : Text) (row : List Nat) : List Nat :=
  let first := row.headD 0 + 1
  first :: rowAfter x b row first

/-- The least number of insertions, deletions and substitutions that turn `a` into `b`. -/
def distance (a b : Text) : Nat :=
  (a.foldl (fun row x => nextRow x b row) (List.range (b.length + 1))).getLastD 0

end VaultSearch.Fuzzy
