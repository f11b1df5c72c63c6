namespace VaultSearch.Search

/-- One page of a list. No limit and a limit of zero leave all; a negative limit leaves nothing,
and a negative offset counts as zero. -/
def paginate {α : Type} (limit : Option Int) (offset : Int) (xs : List α) : List α :=
  let rest := xs.drop offset.toNat
  match limit with
  | none => rest
  | some n => if n = 0 then rest else rest.take n.toNat

def front {α : Type} (limit : Option Int) (xs : List α) : List α :=
  match limit with
  | none => xs
  | some n => xs.take (if n < 0 then xs.length - n.natAbs else n.toNat)

end VaultSearch.Search
