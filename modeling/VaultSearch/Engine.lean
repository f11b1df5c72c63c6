import VaultSearch.Index
import VaultSearch.Search.Pipeline
import VaultSearch.Search.Suggest

namespace VaultSearch

open Note Search Filtering

structure Engine where
  threshold : Number.Binary64 := Fuzzy.defaultThreshold
  strict : Bool := false
  index : Index := {}
  documents : Table Text Document := {}

namespace Engine

def size (e : Engine) : Nat := e.documents.size

def contains (e : Engine) (id : Text) : Bool := e.documents.contains id

def get? (e : Engine) (id : Text) : Option Document := e.documents.get? id

def toList (e : Engine) : List Document := e.documents.values

def remove (e : Engine) (id : Text) : Engine :=
  if e.contains id then { e with index := e.index.remove id, documents := e.documents.erase id }
  else e

def add (e : Engine) (d : Document) : Engine :=
  let e := e.remove d.id
  { e with index := e.index.add d, documents := e.documents.put d.id d }

def update (e : Engine) (d : Document) : Engine := (e.remove d.id).add d

def removeAll (e : Engine) (ids : List Text) : Engine × Nat :=
  ids.foldl (fun (e, n) id => (e.remove id, if e.contains id then n + 1 else n)) (e, 0)

def apply (e : Engine) (upserts : List Document) (removals : List Text) : Engine × Nat × Nat :=
  let (e, removed) := (upserts.foldl add e).removeAll removals
  (e, upserts.length, removed)

def clear (e : Engine) : Engine := { e with index := e.index.clear, documents := {} }

def rebuild (e : Engine) (ds : List Document) : Engine := ds.foldl add e.clear

def requiredTerms (f : Filters) : List Text :=
  (f.tags.getD []).map (fun t => tagMark ++ Text.lower t) ++
    match f.folder with
    | some (c :: t) => [folderMark ++ Text.lower (c :: t)]
    | _ => []

def under (e : Engine) (required : List Text) : List Document :=
  if required.isEmpty then e.toList
  else
    let ids := e.index.candidates required
    (e.documents.entries.filter fun (id, _) => ids.elem id).map Prod.snd

def candidates (e : Engine) (f : Filters) : List Document := e.under (requiredTerms f)

structure Request where
  query : Text := []
  filters : Filters := {}
  fuzzy : Bool := false
  threshold : Option Number.Binary64 := none
  boolean : Bool := false
  limit : Option Int := none
  offset : Int := 0

/-- The engine has a threshold for requests without one, and decides itself what is strict. -/
def options (e : Engine) (r : Request) : Options where
  query := r.query
  filters := r.filters
  fuzzy := r.fuzzy
  threshold := r.threshold.getD e.threshold
  boolean := r.boolean
  limit := r.limit
  offset := r.offset
  strict := e.strict

def find (e : Engine) (o : Options) : Except FilterError (List Result) :=
  match resolve o with
  | .error err => .error err
  | .ok (text, filters) => run (e.candidates filters) text filters o

def search (e : Engine) (r : Request) : Except FilterError (List Result) := e.find (e.options r)

def Request.smart (r : Request) : Request :=
  { r with boolean := Query.hasOperator r.query, fuzzy := false }

def smartSearch (e : Engine) (r : Request) : Except FilterError (List Result) := e.search r.smart

def suggestions (e : Engine) (query : Text) (limit : Int) : List Text :=
  Search.suggestions e.toList query limit

def tags (e : Engine) : List (Text × Nat) := e.index.termCounts tagMark

def folders (e : Engine) : List (Text × Nat) := e.index.termCounts folderMark

end Engine

end VaultSearch
