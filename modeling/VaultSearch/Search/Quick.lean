import VaultSearch.Engine

namespace VaultSearch.Search

open Text Note

/-- What one quick query part reads on with: a run without blanks and quotes, or a closed quotation
of either kind. Answers how much it takes. -/
def pieceLength : Text → Nat
  | [] => 0
  | c :: t =>
    if c = '"' || c = '\'' then
      match t.dropWhile (· != c) with
      | [] => 0
      | _ :: _ => (t.takeWhile (· != c)).length + 2
    else if isBlank c then 0
    else (t.takeWhile fun c => !(isBlank c || c == '"' || c == '\'')).length + 1

def partLength (t : Text) : Nat :=
  if _h : pieceLength t = 0 ∨ t = [] then 0
  else pieceLength t + partLength (t.drop (pieceLength t))
  termination_by t.length
  decreasing_by
    have : t.length ≠ 0 := by simp_all
    simp only [List.length_drop]
    omega

/-- The parts of a quick query; what is in no part is passed over. -/
def quickParts (t : Text) : List Text :=
  match t with
  | [] => []
  | c :: u =>
    let n := partLength (c :: u)
    if n = 0 then quickParts u else (c :: u).take n :: quickParts ((c :: u).drop n)
  termination_by t.length
  decreasing_by
    · simp
    · simp only [List.length_drop, List.length_cons]
      omega

structure QuickQuery where
  terms : List Text := []
  phrases : List Text := []
  tags : List Text := []
  folders : List Text := []

def isQuotation (t : Text) : Bool :=
  2 ≤ t.length && t.head? = t.getLast? && (t.head? = some '"' || t.head? = some '\'')

def QuickQuery.addPart (q : QuickQuery) (part : Text) : QuickQuery :=
  if startsWith tagMark part then { q with tags := q.tags ++ [lower (part.drop tagMark.length)] }
  else if startsWith folderMark part then
    { q with folders := q.folders ++ [lower (part.drop folderMark.length)] }
  else if isQuotation part then { q with phrases := q.phrases ++ [lower (part.drop 1).dropLast] }
  else { q with terms := q.terms ++ (tokens part).mergeSort Text.le }

def QuickQuery.read (tags folders : List Text) (query : Text) : QuickQuery :=
  (quickParts query).foldl addPart { tags := tags.map lower, folders := folders.map lower }

def QuickQuery.required (q : QuickQuery) : List Text :=
  q.terms ++ q.tags.map (tagMark ++ ·) ++ q.folders.map (folderMark ++ ·)

def wantedScore (d : Document) (inTitle each : Nat) (wanted : Text) : Nat :=
  (if contains wanted (lower d.title) then inTitle else 0) +
    each * (findSpans d.content wanted).length

def QuickQuery.score (q : QuickQuery) (d : Document) : Nat :=
  let folder := lower (d.folder.getD [])
  (q.terms.map (wantedScore d 10 2)).foldl (· + ·) 0 +
    (q.phrases.map (wantedScore d 20 5)).foldl (· + ·) 0 +
    15 * (q.tags.filter fun tag => d.tags.any fun t => contains tag (lower t)).length +
    if folder.isEmpty then 0 else 10 * (q.folders.filter (contains · folder)).length

def QuickQuery.result (q : QuickQuery) (id : Text) (d : Document) : Result where
  id := id
  title := d.displayTitle
  score := q.score d
  spans := (q.terms ++ q.phrases).flatMap (findSpans d.content)

def quickLimit : Int := 50

/-- Ranks the documents that the index has under every term asked for; those that score nothing are
left out. -/
def quick (e : Engine) (query : Text) (limit : Option Int) (tags folders : List Text) : List Result :=
  if (trim query).isEmpty then []
  else
    let q := QuickQuery.read tags folders query
    let ids := e.index.candidates q.required
    let found := e.documents.entries.filterMap fun (id, d) =>
      if ids.elem id && 0 < q.score d then some (q.result id d) else none
    front limit (found.mergeSort fun a b => decide (b.score ≤ a.score))

end VaultSearch.Search
