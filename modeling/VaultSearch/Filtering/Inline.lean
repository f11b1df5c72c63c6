import VaultSearch.Filtering.Range

namespace VaultSearch.Filtering

open Text

inductive Key
  | excludedTag
  | tag
  | created
  | modified
  | words
  | hasLinks
  | hasBacklinks
  | folder
  deriving DecidableEq, Repr

namespace Key

def text : Key → Text
  | excludedTag => "-tag:".toList
  | tag => "tag:".toList
  | created => "created:".toList
  | modified => "modified:".toList
  | words => "words:".toList
  | hasLinks => "haslinks:".toList
  | hasBacklinks => "hasbacklinks:".toList
  | folder => "folder:".toList

def trueText : Text := "true".toList

def falseText : Text := "false".toList

def accepts (k : Key) (value : Text) : Bool :=
  match k with
  | hasLinks | hasBacklinks => value = trueText || value = falseText
  | _ => !value.isEmpty

def value? (k : Key) (t : Text) : Option Text :=
  if startsWith k.text t then
    let v := (t.drop k.text.length).takeWhile (!isBlank ·)
    if k.accepts v then some v else none
  else none

end Key

/-- The values of all filters of one key, and the query with each of them replaced by a space. A
filter starts where a word does. -/
def consume (k : Key) (atStart : Bool) (t : Text) : List Text × Text :=
  match t with
  | [] => ([], [])
  | c :: u =>
    match if atStart then k.value? (c :: u) else none with
    | some v =>
      let (vs, rest) := consume k false (u.dropWhile (!isBlank ·))
      (v :: vs, ' ' :: rest)
    | none =>
      let (vs, rest) := consume k (isBlank c) u
      (vs, c :: rest)
  termination_by t.length
  decreasing_by
    · have := (List.dropWhile_sublist (l := u) (!isBlank ·)).length_le
      simp only [List.length_cons]
      omega
    · simp

def splitTags (value : Text) : List Text := (splitOn ',' value).filter (!·.isEmpty)

def tagList (values : List Text) : Option (List Text) :=
  if values.isEmpty then none else some (values.flatMap splitTags)

def truth (values : List Text) : Option Bool := values.getLast?.map (· == Key.trueText)

def readLast {α : Type} (read : Text → Except FilterError α) (values : List Text) :
    Except FilterError (Option α) :=
  match values.getLast? with
  | none => .ok none
  | some v => (read v).map some

def parse (strict : Bool) (query : Text) : Except FilterError (Text × Filters) := do
  let (excluded, t) := consume .excludedTag true query
  let (tags, t) := consume .tag true t
  let (created, t) := consume .created true t
  let createdRange ← readLast (parseDates strict) created
  let (modified, t) := consume .modified true t
  let modifiedRange ← readLast (parseDates strict) modified
  let (counts, t) := consume .words true t
  let countRange ← readLast (parseNumbers strict) counts
  let (links, t) := consume .hasLinks true t
  let (backlinks, t) := consume .hasBacklinks true t
  let (folders, t) := consume .folder true t
  .ok (joinWith [' '] (Text.words t),
    { created := createdRange
      modified := modifiedRange
      tags := tagList tags
      excludedTags := tagList excluded
      wordCount := countRange
      hasLinks := truth links
      hasBacklinks := truth backlinks
      folder := folders.getLast? })

def keyNames : List Text :=
  ["tag:".toList, "created:".toList, "modified:".toList, "words:".toList, "folder:".toList,
    "haslinks:".toList, "hasbacklinks:".toList]

def startsWithKey (w : Text) : Bool :=
  let w := match w with
    | '-' :: w => w
    | w => w
  keyNames.any (startsWith · w)

def hasInline (query : Text) : Bool := (Text.words query).any startsWithKey

end VaultSearch.Filtering
