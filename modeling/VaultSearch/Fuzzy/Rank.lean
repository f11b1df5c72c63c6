import VaultSearch.Fuzzy.Match
import VaultSearch.Note.Document
import VaultSearch.Number.Decimal

namespace VaultSearch.Fuzzy

open Text Number Note

def defaultThreshold : Binary64 := .ofDecimal false 7 (-1)

def rankThreshold : Binary64 := .ofDecimal false 8 (-1)

def earlyBonus (first : Nat) : Rat :=
  let bonus := nearest (20 - nearest (mkRat first 10))
  if bonus < 0 then 0 else bonus

/-- How relevant a document is to a query. Every step is rounded as binary64 arithmetic does. -/
def score (query : Text) (d : Document) : Rat :=
  let q := lower query
  let title := lower d.title
  let content := lower d.content
  let inTitle : Rat := if contains q title then 100 else 0
  let s := nearest (inTitle + nearest (similarity title q * 50))
  let s := if q.isEmpty then s else nearest (s + (10 * (occurrences q q.length 0 content).length : Nat))
  let s := nearest (s + (5 * (similarWords rankThreshold d.content query).length : Nat))
  match if q.isEmpty then none else find? q content with
  | none => s
  | some first => nearest (s + earlyBonus first)

def rank (query : Text) (ds : List Document) : List (Document × Rat) :=
  (ds.map fun d => (d, score query d)).mergeSort fun a b => decide (b.2 ≤ a.2)

end VaultSearch.Fuzzy
