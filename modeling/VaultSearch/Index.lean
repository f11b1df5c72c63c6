import VaultSearch.Note.Terms
import VaultSearch.Table

namespace VaultSearch

open Note

structure Index where
  buckets : Table Text (List Text) := {}
  termsOf : Table Text (List Text) := {}

namespace Index

def size (x : Index) : Nat := x.termsOf.size

def contains (x : Index) (id : Text) : Bool := x.termsOf.contains id

def insertTerm (id : Text) (buckets : Table Text (List Text)) (term : Text) : Table Text (List Text) :=
  let ids := (buckets.get? term).getD []
  buckets.put term (if ids.elem id then ids else ids ++ [id])

def eraseTerm (id : Text) (buckets : Table Text (List Text)) (term : Text) : Table Text (List Text) :=
  match buckets.get? term with
  | none => buckets
  | some ids =>
    let ids := ids.filter (· ≠ id)
    if ids.isEmpty then buckets.erase term else buckets.put term ids

def remove (x : Index) (id : Text) : Index :=
  match x.termsOf.get? id with
  | none => x
  | some terms => ⟨terms.foldl (eraseTerm id) x.buckets, x.termsOf.erase id⟩

def add (x : Index) (d : Document) : Index :=
  let x := if x.contains d.id then x.remove d.id else x
  ⟨d.terms.foldl (insertTerm d.id) x.buckets, x.termsOf.put d.id d.terms⟩

def update (x : Index) (d : Document) : Index := (x.remove d.id).add d

def clear (_ : Index) : Index := {}

def lookup (x : Index) (term : Text) : List Text := (x.buckets.get? term).getD []

def documentIds (x : Index) : List Text := x.termsOf.keys

def terms (x : Index) : List Text := x.buckets.keys

def termsFor (x : Index) (id : Text) : List Text := (x.termsOf.get? id).getD []

def narrow (x : Index) (found : Option (List Text)) : List Text → List Text
  | [] => found.getD x.documentIds
  | term :: rest =>
    match x.buckets.get? term with
    | none => []
    | some bucket =>
      let found := match found with
        | none => bucket
        | some ids => ids.filter bucket.elem
      if found.isEmpty then [] else x.narrow (some found) rest

def candidates (x : Index) (terms : List Text) : List Text := x.narrow none terms

def countLe (a b : Text × Nat) : Bool := b.2 < a.2 || (a.2 = b.2 && Text.le a.1 b.1)

/-- The terms that start with `mark`, without it, and their numbers of documents; the most
frequent first, then by name. -/
def termCounts (x : Index) (mark : Text) : List (Text × Nat) :=
  (x.buckets.entries.filterMap fun (term, ids) =>
    if Text.startsWith mark term then some (term.drop mark.length, ids.length) else none).mergeSort
      countLe

end Index

end VaultSearch
