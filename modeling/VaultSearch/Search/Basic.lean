import VaultSearch.Filtering.Inline
import VaultSearch.Filtering.Match
import VaultSearch.Fuzzy.Rank
import VaultSearch.Search.Page

namespace VaultSearch.Search

open Note Number Filtering

inductive Mode
  | exact
  | boolean
  | fuzzy
  deriving DecidableEq, Repr

def Mode.name : Mode → Text
  | exact => "exact".toList
  | boolean => "boolean".toList
  | fuzzy => "fuzzy".toList

structure Result where
  id : Text
  title : Text
  score : Rat := 0
  spans : List Span := []
  mode : Option Mode := none
  deriving DecidableEq

structure Options where
  query : Text := []
  filters : Filters := {}
  fuzzy : Bool := false
  threshold : Binary64 := Fuzzy.defaultThreshold
  boolean : Bool := false
  limit : Option Int := none
  offset : Int := 0
  strict : Bool := false

def Options.mode (o : Options) : Mode :=
  if o.boolean then .boolean else if o.fuzzy then .fuzzy else .exact

end VaultSearch.Search
