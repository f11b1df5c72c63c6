import VaultSearch.Search.Basic

namespace VaultSearch.Search

open Text Note

def inNeedle (c : Char) : Bool := !isBlank c && c != '"'

/-- The words of a query and its quoted phrases; a quote that is not closed is passed over. -/
def needleParts (t : Text) : List Text :=
  match t with
  | [] => []
  | c :: u =>
    if c = '"' then
      match u.dropWhile (· != '"') with
      | [] => needleParts u
      | _ :: _ => u.takeWhile (· != '"') :: needleParts ((u.dropWhile (· != '"')).drop 1)
    else if isBlank c then needleParts u
    else (c :: u.takeWhile inNeedle) :: needleParts (u.dropWhile inNeedle)
  termination_by t.length
  decreasing_by
    · simp
    · have := (List.dropWhile_sublist (l := u) (· != '"')).length_le
      simp only [List.length_drop, List.length_cons]
      omega
    · simp
    · have := (List.dropWhile_sublist (l := u) inNeedle).length_le
      simp only [List.length_cons]
      omega

/-- What a query asks for word by word, each once; a query without words asks for itself. -/
def needles (query : Text) : List Text :=
  let ns := (((needleParts query).map trim).filter (!·.isEmpty)).eraseDups
  if ns.isEmpty then [query] else ns

def hasNeedles (ns : List Text) (d : Document) : Bool :=
  ns.all fun n => contains n (lower d.title) || contains n (lower d.content)

def titleHas (d : Document) (n : Text) : Bool := contains n (lower d.title)

def exactScore (ns : List Text) (d : Document) : Nat :=
  (ns.map fun n => (if titleHas d n then 10 else 0) + 2 * (findSpans d.content n).length).foldl
    (· + ·) 0

def exactResult (ns : List Text) (d : Document) : Result where
  id := d.id
  title := d.displayTitle
  score := exactScore ns d
  spans := ns.flatMap (findSpans d.content)
  mode := some .exact

def exactResults (query : Text) (ds : List Document) : List Result :=
  let ns := (needles query).map lower
  let found := ds.filter (hasNeedles ns)
  let inTitle := fun d => ns.all (titleHas d)
  (found.filter inTitle ++ found.filter (!inTitle ·)).map (exactResult ns)

end VaultSearch.Search
