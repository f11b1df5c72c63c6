import VaultSearch.Note.Document
import VaultSearch.Text.Case
import VaultSearch.Text.Word

namespace VaultSearch.Note

open Text

def tagMark : Text := "tag:".toList

def folderMark : Text := "folder:".toList

def minTermLength : Nat := 3

def cleaned (t : Text) : Text :=
  t.map fun c => if isWordChar c || isBlank c || c == '-' then c else ' '

def tokens (t : Text) : List Text :=
  ((words (cleaned (lower t))).filter (minTermLength ≤ ·.length)).eraseDups

def tagTerms (tag : Text) : List Text := [tagMark ++ lower tag, lower tag]

def folderTerms (folder : Text) : List Text :=
  if folder.isEmpty then [] else (folderMark ++ lower folder) :: tokens folder

def Document.terms (d : Document) : List Text :=
  (tokens d.title ++ tokens d.content ++ d.aliases.flatMap tokens ++ d.tags.flatMap tagTerms ++
    folderTerms d.effectiveFolder).eraseDups

end VaultSearch.Note
