import VaultSearch.Text.Path
import VaultSearch.Text.Word
import VaultSearch.Yaml.Load
import VaultSearch.Yaml.Text

namespace VaultSearch.Note

open Text Yaml

def fence : Text := "---".toList

/-- What stands between the fence that a note starts with and the next one, and what follows. -/
def splitFrontmatter (t : Text) : Option (Text × Text) :=
  if startsWith fence t then cut? fence (t.drop fence.length) else none

def bodyAfter (t : Text) : Text := trimStart (· == '\n') t

def stripFrontmatter (t : Text) : Text :=
  match splitFrontmatter t with
  | some (_, rest) => bodyAfter rest
  | none => t

structure Metadata where
  title : Text := []
  tags : List Text := []
  aliases : List Text := []
  created : Option Text := none
  modified : Option Text := none
  folder : Text := []
  raw : Option Entries := none

def readText (v : Value) : Except Failure Text := v.toText.mapError .literal

def nonempty (ts : List Text) : List Text := (ts.map trim).filter (!·.isEmpty)

def readList (v : Option Value) : Except Failure (List Text) :=
  match v with
  | some (.list label items) => ((itemsOf label items).mapM readText).map nonempty
  | some (.scalar (.text t)) => .ok (nonempty (splitOn ',' t))
  | _ => .ok []

def readOptional (v : Option Value) : Except Failure (Option Text) :=
  match v with
  | none => .ok none
  | some v => if v.isNull then .ok none else (readText v).map some

/-- The date of the last change goes by two names; the first wins even if it is null. -/
def lastChange (es : Entries) : Option Value :=
  Value.lookup "modified".toList es <|> Value.lookup "updated".toList es

def ofEntries (es : Entries) : Except Failure Metadata := do
  let title ← readOptional (Value.lookup "title".toList es)
  let tags ← readList (Value.lookup "tags".toList es)
  let aliases ← readList (Value.lookup "aliases".toList es)
  let created ← readOptional (Value.lookup "created".toList es)
  let modified ← readOptional (lastChange es)
  .ok {
    title := trim (title.getD [])
    tags := tags.map (trimStart (· == '#'))
    aliases := aliases
    created := created
    modified := modified
    raw := some es }

def closesHeading (rest : Text) : Bool :=
  ((trimStart isBlank rest).dropWhile (· == '#')).all isBlank

/-- The least part of a line, of at least one character, that is followed by its close only. -/
def headingText : Text → Text
  | [] => []
  | c :: t => if closesHeading t then [c] else c :: headingText t

def headingAfter? (t : Text) : Option Text :=
  let blanks := t.takeWhile isBlank
  match t.dropWhile isBlank with
  | [] => if (blanks.drop 1).any (· != '\n') then some [] else none
  | c :: rest =>
    if blanks.isEmpty then none
    else some (trim (headingText (c :: rest.takeWhile (· != '\n'))))

def heading? (lineStarts : Bool) : Text → Option Text
  | [] => none
  | c :: t =>
    match if lineStarts && c = '#' then headingAfter? t else none with
    | some title => some title
    | none => heading? (c = '\n') t

def isTagChar (c : Char) : Bool := isWordChar c || c = '/' || c = '-'

/-- The tags in running text: a number sign that is not part of a word or an address, a letter, and
what may follow it. -/
def inlineTags (before : Char) : Text → List Text
  | [] => []
  | c :: t =>
    let free := !(isWordChar before || before = '#' || before = '/' || before = '&')
    if c = '#' && free && (t.headD ' ').isAlpha then t.takeWhile isTagChar :: inlineTags c t
    else inlineTags c t

def addTags (tags more : List Text) : List Text :=
  more.foldl (fun ts t => if ts.elem t then ts else ts ++ [t]) tags

def folderOf (path : Text) : Text := joinWith ['/'] (Path.read path).parts.dropLast

def stem (path : Text) : Text := (splitSuffix (Path.read path).name).1

def Metadata.infer (m : Metadata) (body path : Text) : Metadata :=
  { m with
    title := if m.title.isEmpty then (heading? true body).getD (stem path) else m.title
    tags := addTags m.tags (inlineTags ' ' body)
    folder := folderOf path }

/-- The metadata of the frontmatter and the body after it. Frontmatter that is no mapping is part of
the body. -/
def readFrontmatter (t : Text) : Except Failure (Metadata × Text) :=
  match splitFrontmatter t with
  | none => .ok ({}, t)
  | some (head, rest) =>
    match load head with
    | .error .malformed => .ok ({}, t)
    | .error e => .error e
    | .ok (.map label es) => (ofEntries (entriesOf label es)).map fun m => (m, bodyAfter rest)
    | .ok _ => .ok ({}, t)

def readNote (t path : Text) : Except Failure (Metadata × Text) :=
  (readFrontmatter t).map fun (m, body) => (m.infer body path, body)

end VaultSearch.Note
