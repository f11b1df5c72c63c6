namespace VaultSearch.Text

/-- A set of code points, as a search tree over disjoint closed intervals. -/
inductive CodeSet
  | empty
  | node (left : CodeSet) (lo hi : Nat) (right : CodeSet)

namespace CodeSet

def contains : CodeSet → Nat → Bool
  | empty, _ => false
  | node left lo hi right, n =>
    if n < lo then left.contains n else if n ≤ hi then true else right.contains n

def build : Nat → List (Nat × Nat) → CodeSet × List (Nat × Nat)
  | 0, xs => (empty, xs)
  | depth + 1, xs =>
    match build depth xs with
    | (left, []) => (left, [])
    | (left, (lo, hi) :: rest) =>
      let (right, rest) := build depth rest
      (node left lo hi right, rest)

def ofIntervals (xs : List (Nat × Nat)) : CodeSet := (build (xs.length.log2 + 1) xs).1

end CodeSet

/-- A run of code points `lo, lo + stride, …, hi` that all move by `shift`. -/
structure Shift where
  lo : Nat
  hi : Nat
  stride : Nat
  shift : Int

inductive CodeMap
  | empty
  | node (left : CodeMap) (run : Shift) (right : CodeMap)

namespace CodeMap

def find? : CodeMap → Nat → Option Shift
  | empty, _ => none
  | node left run right, n =>
    if n < run.lo then left.find? n else if n ≤ run.hi then some run else right.find? n

def apply (m : CodeMap) (n : Nat) : Nat :=
  match m.find? n with
  | none => n
  | some run => if (n - run.lo) % run.stride = 0 then (n + run.shift).toNat else n

def build : Nat → List Shift → CodeMap × List Shift
  | 0, xs => (empty, xs)
  | depth + 1, xs =>
    match build depth xs with
    | (left, []) => (left, [])
    | (left, run :: rest) =>
      let (right, rest) := build depth rest
      (node left run right, rest)

def ofRuns (xs : List Shift) : CodeMap := (build (xs.length.log2 + 1) xs).1

end CodeMap

end VaultSearch.Text
