import VaultSearch.Filtering.Describe
import VaultSearch.Saved.Criteria
import VaultSearch.Saved.Store
import VaultSearch.Search.Quick
import VaultSearch.Vault.Keeper

namespace VaultSearch

open Text Note Time Filtering Search Yaml Saved

inductive Tool
  | deleteSavedSearch
  | explainQuery
  | exportSavedSearches
  | importSavedSearches
  | indexStatus
  | listFolders
  | listSavedSearches
  | listTags
  | quickSearch
  | runSavedSearch
  | saveSearch
  | search
  | searchSuggestions
  | smartSearch
  | syncNotes
  deriving DecidableEq, Repr

namespace Tool

def name : Tool → Text
  | deleteSavedSearch => "delete_saved_search".toList
  | explainQuery => "explain_query".toList
  | exportSavedSearches => "export_saved_searches".toList
  | importSavedSearches => "import_saved_searches".toList
  | indexStatus => "index_status".toList
  | listFolders => "list_folders".toList
  | listSavedSearches => "list_saved_searches".toList
  | listTags => "list_tags".toList
  | quickSearch => "quick_search".toList
  | runSavedSearch => "run_saved_search".toList
  | saveSearch => "save_search".toList
  | search => "search".toList
  | searchSuggestions => "search_suggestions".toList
  | smartSearch => "smart_search".toList
  | syncNotes => "sync_notes".toList

def all : List Tool :=
  [deleteSavedSearch, explainQuery, exportSavedSearches, importSavedSearches, indexStatus,
    listFolders, listSavedSearches, listTags, quickSearch, runSavedSearch, saveSearch, search,
    searchSuggestions, smartSearch, syncNotes]

def needsVault (t : Tool) : Bool := t = indexStatus || t = syncNotes

def ofName? (t : Text) : Option Tool := all.find? (·.name = t)

end Tool

inductive Source
  | documents (e : Engine)
  | vault (k : Vault.Keeper)

def Source.engine : Source → Engine
  | documents e => e
  | vault k => k.engine

inductive Reply (α : Type)
  | answer (a : α)
  | refusal (why : Text)

def Reply.ofSearch {α : Type} : Except FilterError α → Except TimeError (Reply α)
  | .ok a => .ok (answer a)
  | .error (.time e) => .error e
  | .error e => .ok (refusal e.message)

structure Explanation where
  meaning : Text
  residual : Text
  filters : List Text

inductive Order
  | created
  | frequent
  | recent
  deriving DecidableEq, Repr

def Order.ofName (t : Text) : Order :=
  if t = "frequent".toList then frequent else if t = "recent".toList then recent else created

structure IndexSize where
  documents : Nat
  tags : Nat
  folders : Nat

structure Server where
  source : Source
  saved : Store := {}
  defaultLimit : Int := 50

namespace Server

inductive StartError
  | note (e : Failure)
  | interval (n : Int)

def StartError.message : StartError → Text
  | note e => e.message
  | interval n => intervalFault n

def ofConfig (c : Config) (d : Vault.Disk) : Except StartError Server :=
  let catalog : Vault.Catalog := {
    root := Vault.walkFrom [] c.root.text
    engine := { threshold := c.threshold, strict := c.strict } }
  match catalog.reindex d with
  | (_, .error e) => .error (.note e)
  | (catalog, .ok _) =>
    match Vault.Keeper.make catalog c.syncInterval with
    | .error _ => .error (.interval c.syncInterval)
    | .ok k => .ok { source := .vault k, defaultLimit := c.defaultLimit }

def engine (s : Server) : Engine := s.source.engine

def tools (s : Server) : List Tool :=
  match s.source with
  | .documents _ => Tool.all.filter (!·.needsVault)
  | .vault _ => Tool.all

def limitOf (s : Server) (limit : Option Int) : Option Int := some (limit.getD s.defaultLimit)

def request (s : Server) (query : Text) (limit : Option Int) (offset : Int) : Engine.Request where
  query := query
  limit := s.limitOf limit
  offset := offset

def search (s : Server) (r : Engine.Request) :
    Except DescribeError (Reply (List Result × List Text)) :=
  let r := { r with filters := r.filters.dropEmpty }
  let found := do
    let (_, filters) ← resolve (s.engine.options r)
    let rs ← s.engine.search r
    .ok (rs, filters)
  match Reply.ofSearch found with
  | .error e => .error (.time e)
  | .ok (.refusal why) => .ok (.refusal why)
  | .ok (.answer (rs, filters)) => filters.describe.map fun lines => .answer (rs, lines)

def smartSearch (s : Server) (query : Text) (limit : Option Int) (offset : Int) :
    Except TimeError (Reply (List Result)) :=
  Reply.ofSearch (s.engine.smartSearch (s.request query limit offset))

def quickSearch (s : Server) (query : Text) (limit : Option Int) : List Result :=
  quick s.engine query (s.limitOf limit) [] []

def explainQuery (s : Server) (query : Text) : Except DescribeError (Reply Explanation) :=
  match Reply.ofSearch (Filtering.parse s.engine.strict query) with
  | .error e => .error (.time e)
  | .ok (.refusal why) => .ok (.refusal why)
  | .ok (.answer (residual, filters)) =>
    filters.describe.map fun lines => .answer ⟨Query.explain residual, residual, lines⟩

def saveSearch (s : Server) (now : Moment) (name query description : Value)
    (criteria : List (Text × Value)) : Server × Except SavedError SavedSearch :=
  let filters := (criteria.filter (!·.2.isNull)).map fun (name, v) => (.text name, v)
  let (saved, r) := s.saved.save now name query (.map none filters) description
  ({ s with saved := saved }, r)

/-- Saved searches in an order; a limit of zero is none. -/
def listSaved (s : Server) (now : Moment) (order : Order) (limit : Option Int) :
    Except SavedError (List SavedSearch) :=
  let limit := limit.filter (· ≠ 0)
  match order with
  | .created => (s.saved.list now).map (front limit)
  | .frequent => s.saved.frequent now limit
  | .recent => s.saved.recent now limit

def unknownSearch (id : Text) : Text := "Saved search not found: ".toList ++ id

def runSaved (s : Server) (now : Moment) (id : Text) (limit : Option Int) (offset : Int) :
    Server × Except RunError (Reply (List Result)) :=
  let (saved, used) := s.saved.recordUse now id
  let reply := match used with
    | .error e => .error (.saved e)
    | .ok none => .ok (.refusal (unknownSearch id))
    | .ok (some x) => match x.run s.engine (s.limitOf limit) offset with
      | .ok rs => .ok (.answer rs)
      | .error (.filter e) => (Reply.ofSearch (.error e)).mapError fun e => .filter (.time e)
      | .error e => .error e
  ({ s with saved := saved }, reply)

def deleteSaved (s : Server) (now : Moment) (id : Text) : Server × Except SavedError Bool :=
  let (saved, r) := s.saved.delete now id
  ({ s with saved := saved }, r)

def exportSaved (s : Server) (now : Moment) : Except SavedError (Text × Nat) := do
  let data ← s.saved.exported now
  .ok (data, (← s.saved.list now).length)

def importSaved (s : Server) (now : Moment) (data : Text) (merge : Bool) :
    Server × Except SavedError (Reply (List SavedSearch)) :=
  let (saved, r) := s.saved.importText now data merge
  let reply := match r with
    | .ok xs => .ok (.answer xs)
    | .error e => if e.isBadValue then .ok (.refusal e.message) else .error e
  ({ s with saved := saved }, reply)

def syncNotes (s : Server) (d : Vault.Disk) (now : Moment) (full : Bool) :
    Server × Option Vault.Report :=
  match s.source with
  | .documents _ => (s, none)
  | .vault k =>
    let (k, r) := k.syncNow d now full
    ({ s with source := .vault k }, some r)

def indexSize (s : Server) : IndexSize :=
  ⟨s.engine.size, s.engine.tags.length, s.engine.folders.length⟩

end Server

end VaultSearch
