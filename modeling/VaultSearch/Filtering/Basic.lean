import VaultSearch.Note.Document

namespace VaultSearch.Filtering

open Time Number

/-- Either bound may be open. The last moment belongs to the range unless it is excluded. -/
structure DateRange where
  first : Option Moment := none
  last : Option Moment := none
  lastExcluded : Bool := false
  malformed : Bool := false
  deriving DecidableEq

structure NumberRange where
  low : Option Int := none
  high : Option Int := none
  malformed : Bool := false
  deriving DecidableEq

structure Filters where
  created : Option DateRange := none
  modified : Option DateRange := none
  tags : Option (List Text) := none
  excludedTags : Option (List Text) := none
  wordCount : Option NumberRange := none
  hasLinks : Option Bool := none
  hasBacklinks : Option Bool := none
  folder : Option Text := none
  fileType : Option Text := none
  deriving DecidableEq

namespace Filters

def isEmpty (f : Filters) : Bool := f = {}

def merged (f explicit : Filters) : Filters where
  created := explicit.created <|> f.created
  modified := explicit.modified <|> f.modified
  tags := explicit.tags <|> f.tags
  excludedTags := explicit.excludedTags <|> f.excludedTags
  wordCount := explicit.wordCount <|> f.wordCount
  hasLinks := explicit.hasLinks <|> f.hasLinks
  hasBacklinks := explicit.hasBacklinks <|> f.hasBacklinks
  folder := explicit.folder <|> f.folder
  fileType := explicit.fileType <|> f.fileType

def dropEmpty (f : Filters) : Filters :=
  { f with
    tags := f.tags.filter (!·.isEmpty)
    excludedTags := f.excludedTags.filter (!·.isEmpty)
    folder := f.folder.filter (!·.isEmpty)
    fileType := f.fileType.filter (!·.isEmpty) }

theorem merged_empty (f : Filters) : f.merged {} = f := by
  simp [merged]

end Filters

inductive FilterError
  | badDates (value : Text)
  | badNumbers (value : Text)
  | time (e : TimeError)
  deriving DecidableEq

end VaultSearch.Filtering
