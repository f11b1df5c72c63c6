import VaultSearch.Note.Terms

namespace VaultSearch.Search

open Text Note

def collectUpTo (room : Nat) (passes : List Text → Text → Bool) : List Text → List Text → List Text
  | found, [] => found
  | found, x :: xs =>
    if room ≤ found.length then found
    else collectUpTo room passes (if passes found x then found ++ [x] else found) xs

def allTags (ds : List Document) : List Text :=
  ((ds.flatMap (·.tags)).eraseDups).mergeSort Text.le

def suggestions (ds : List Document) (query : Text) (limit : Int) : List Text :=
  let q := lower query
  let room := limit.toNat
  let titles := collectUpTo room
    (fun found title => contains q (lower title) && !found.elem title) []
    (ds.map Document.displayTitle)
  let tags := ((allTags ds).filter fun tag => contains q (lower tag)).map (tagMark ++ ·)
  (titles ++ tags).take room

/-- The bounds of a built query; a last date alone is left out. -/
def dateText (first last : Text) : List Text :=
  if first.isEmpty then []
  else ["modified:".toList ++ first ++ if last.isEmpty then [] else '.' :: '.' :: last]

def buildQuery (operator : Text) (terms phrases tags : List Text) (first last : Text) : Text :=
  joinWith [' '] <|
    (if terms.isEmpty then [] else [joinWith (' ' :: operator ++ [' ']) terms]) ++
      phrases.map (fun p => '"' :: p ++ ['"']) ++
      (if tags.isEmpty then [] else [tagMark ++ joinWith [','] tags]) ++
      dateText first last

end VaultSearch.Search
