import VaultSearch.Engine
import VaultSearch.Saved.Search

namespace VaultSearch.Saved

open Text Note Number Filtering Search Yaml

/-- What a saved search asks of documents. The values are as they were read, of any kind. -/
structure Criteria where
  tags : Value := .null
  excludedTags : Value := .null
  folder : Value := .null
  fileType : Value := .null
  hasLinks : Value := .null
  hasBacklinks : Value := .null

inductive RunError
  | saved (e : SavedError)
  | filter (e : FilterError)
  | notCollection
  /-- A tag, a folder or a file type that has no lower case. -/
  | notText
  /-- A file type of bytes, where names are texts. -/
  | bytesForText

namespace Criteria

def names : List Text :=
  ["tags".toList, "exclude_tags".toList, "folder".toList, "file_type".toList, "has_links".toList,
    "has_backlinks".toList]

def ofEntries (es : Entries) : Criteria :=
  let value := fun (name : String) => (Value.lookup name.toList es).getD .null
  { tags := value "tags"
    excludedTags := value "exclude_tags"
    folder := value "folder"
    fileType := value "file_type"
    hasLinks := value "has_links"
    hasBacklinks := value "has_backlinks" }

/-- Nothing inside is a value that is not set; nothing outside is one of another kind. -/
def text? : Value → Option (Option Text)
  | .scalar .null => some none
  | .scalar (.text t) => some (some t)
  | _ => none

def allTexts? : List Value → Option (List Text)
  | [] => some []
  | .scalar (.text t) :: vs => (allTexts? vs).map (t :: ·)
  | _ => none

def texts? : Value → Option (Option (List Text))
  | .scalar .null => some none
  | .list _ vs => (allTexts? vs).map some
  | _ => none

def bool? : Value → Option (Option Bool)
  | .scalar .null => some none
  | .scalar (.bool b) => some (some b)
  | _ => none

def filters? (c : Criteria) : Option Filters := do
  let tags ← texts? c.tags
  let excludedTags ← texts? c.excludedTags
  let folder ← text? c.folder
  let fileType ← text? c.fileType
  let hasLinks ← bool? c.hasLinks
  let hasBacklinks ← bool? c.hasBacklinks
  some (Filters.dropEmpty { tags, excludedTags, folder, fileType, hasLinks, hasBacklinks })

structure Mixed where
  inline : Filters
  tags : List Value
  excludedTags : List Value
  folder : Value
  fileType : Value
  hasLinks : Value
  hasBacklinks : Value

def members (v : Value) : Except RunError (List Value) :=
  if v.isTruthy then
    match items? v with
    | none => .error .notCollection
    | some vs => .ok vs
  else .ok []

def orElse (v : Value) (t : Option Text) : Value := if v.isTruthy then v else .ofOption .text t

def orElseTexts (vs : List Value) (ts : Option (List Text)) : List Value :=
  if vs.isEmpty then (ts.getD []).map .text else vs

def orElseBool (v : Value) (b : Option Bool) : Value := if v.isNull then .ofOption .bool b else v

/-- A text in lower case. Bytes have a lower case too, which is nothing here as no text is it. -/
def lowered : Value → Except RunError (Option Text)
  | .scalar (.text t) => .ok (some (lower t))
  | .scalar (.bytes _) => .ok none
  | _ => .error .notText

/-- A number is compared with one for yes and zero for no; any other value is neither. -/
def agrees (v : Value) (b : Bool) : Bool :=
  match v with
  | .scalar .null => true
  | .scalar (.bool c) => b == c
  | .scalar (.int n) => n = b.toInt
  | .scalar (.float _ x) => x.value? = some b.toInt
  | _ => false

namespace Mixed

def allLowered : List Value → Except RunError (List (Option Text))
  | [] => .ok []
  | v :: vs => do
    let t ← Criteria.lowered v
    .ok (t :: (← allLowered vs))

def folderLowered (m : Mixed) : Except RunError (List (Option Text)) :=
  if m.folder.isTruthy then (Criteria.lowered m.folder).map ([·]) else .ok []

def candidates (e : Engine) (m : Mixed) : Except RunError (List Document) := do
  let tags ← allLowered m.tags
  let folder ← m.folderLowered
  if (tags ++ folder).any Option.isNone then .ok []
  else .ok (e.under ((tags.filterMap id).map (tagMark ++ ·) ++
    (folder.filterMap id).map (folderMark ++ ·)))

def carries (d : Document) (t : Option Text) : Bool := t.any (Filtering.lowered d.tags).elem

def folderAdmits (m : Mixed) (d : Document) : Except RunError Bool :=
  m.folderLowered.map (·.all fun t => some (lower d.effectiveFolder) = t)

def fileTypeAdmits (m : Mixed) (d : Document) : Except RunError Bool :=
  if m.fileType.isTruthy then
    match Criteria.lowered m.fileType with
    | .error e => .error e
    | .ok none => .error .bytesForText
    | .ok (some t) => .ok (endsWith t (fileName d))
  else .ok true

def datesCheck (r : Option DateRange) (t : Option Timestamp) : Except RunError Bool :=
  (datesAdmit r t).mapError fun e => .filter (.time e)

def checks (m : Mixed) : List (Document → Except RunError Bool) :=
  [fun d => datesCheck m.inline.created d.created,
    fun d => datesCheck m.inline.modified d.modified,
    fun d => (allLowered m.tags).map (·.all (carries d)),
    fun d => (allLowered m.excludedTags).map (!·.any (carries d)),
    fun d => .ok (m.inline.wordCount.all (·.admits (words d))),
    fun d => .ok (agrees m.hasLinks (0 < links d)),
    fun d => .ok (agrees m.hasBacklinks (0 < backlinks d)),
    m.folderAdmits,
    m.fileTypeAdmits]

def passes (d : Document) : List (Document → Except RunError Bool) → Except RunError Bool
  | [] => .ok true
  | check :: rest =>
    match check d with
    | .ok true => passes d rest
    | r => r

def search (e : Engine) (m : Mixed) (text : Text) (o : Options) :
    Except RunError (List Result) := do
  let ds ← m.candidates e
  let ds ← keep (passes · m.checks) ds
  (run ds text {} o).mapError .filter

end Mixed

def mixedSearch (e : Engine) (c : Criteria) (o : Options) : Except RunError (List Result) := do
  let tags ← members c.tags
  let excludedTags ← members c.excludedTags
  let (text, inline) ← (Filtering.parse o.strict o.query).mapError .filter
  let m : Mixed := {
    inline
    tags := orElseTexts tags inline.tags
    excludedTags := orElseTexts excludedTags inline.excludedTags
    folder := orElse c.folder inline.folder
    fileType := orElse c.fileType inline.fileType
    hasLinks := orElseBool c.hasLinks inline.hasLinks
    hasBacklinks := orElseBool c.hasBacklinks inline.hasBacklinks }
  m.search e text o

def search (e : Engine) (c : Criteria) (r : Engine.Request) : Except RunError (List Result) :=
  match c.filters? with
  | some f => (e.smartSearch { r with filters := f }).mapError .filter
  | none => c.mixedSearch e (e.options r.smart)

end Criteria

def SavedSearch.criteria (x : SavedSearch) : Criteria :=
  match x.filters with
  | .map label es => .ofEntries (entriesOf label es)
  | _ => {}

def SavedSearch.queryText (x : SavedSearch) : Text :=
  match x.query with
  | .scalar (.text t) => t
  | _ => []

def SavedSearch.run (x : SavedSearch) (e : Engine) (limit : Option Int) (offset : Int) :
    Except RunError (List Result) :=
  x.criteria.search e {
    query := x.queryText
    limit := limit
    offset := offset }

end VaultSearch.Saved
