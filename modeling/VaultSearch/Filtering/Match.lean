import VaultSearch.Filtering.Basic
import VaultSearch.Text.Case

namespace VaultSearch.Filtering

open Text Time Note

/-- A document without a usable timestamp is in no range, and nothing is in a malformed one. -/
def DateRange.admits (r : DateRange) (t : Option Timestamp) : Except TimeError Bool :=
  if r.malformed then .ok false
  else match t with
    | none => .ok false
    | some t => t.moment?.map fun
      | none => false
      | some m =>
        !r.first.any (m.lt ·) &&
          !r.last.any fun last => if r.lastExcluded then last.le m else last.lt m

def NumberRange.admits (r : NumberRange) (n : Int) : Bool :=
  !r.malformed && r.low.all (· ≤ n) && r.high.all (n ≤ ·)

def datesAdmit (r : Option DateRange) (t : Option Timestamp) : Except TimeError Bool :=
  match r with
  | none => .ok true
  | some r => r.admits t

def lowered (tags : List Text) : List Text := tags.map lower

def words (d : Document) : Int := d.wordCount.getD (countWords d.content)

def links (d : Document) : Int := d.linkCount.getD (countLinks d.content)

def backlinks (d : Document) : Int := d.backlinkCount.getD 0

def tagsAdmit (tags : List Text) (d : Document) : Bool :=
  (lowered tags).all (lowered d.tags).elem

def excludedAdmit (tags : List Text) (d : Document) : Bool :=
  !(lowered tags).any (lowered d.tags).elem

def folderAdmits (folder : Text) (d : Document) : Bool :=
  folder.isEmpty || lower d.effectiveFolder = lower folder

def fileName (d : Document) : Text := lower (if d.path.isEmpty then d.id else d.path)

def fileTypeAdmits (fileType : Text) (d : Document) : Bool :=
  fileType.isEmpty || endsWith (lower fileType) (fileName d)

def Filters.admitsShape (f : Filters) (d : Document) : Bool :=
  f.tags.all (tagsAdmit · d) && f.excludedTags.all (excludedAdmit · d) &&
    f.wordCount.all (·.admits (words d)) && f.hasLinks.all (· == decide (0 < links d)) &&
    f.hasBacklinks.all (· == decide (0 < backlinks d)) && f.folder.all (folderAdmits · d) &&
    f.fileType.all (fileTypeAdmits · d)

def Filters.admits (f : Filters) (d : Document) : Except TimeError Bool :=
  match datesAdmit f.created d.created with
  | .error e => .error e
  | .ok false => .ok false
  | .ok true =>
    match datesAdmit f.modified d.modified with
    | .error e => .error e
    | .ok false => .ok false
    | .ok true => .ok (f.admitsShape d)

def keep {α ε : Type} (p : α → Except ε Bool) : List α → Except ε (List α)
  | [] => .ok []
  | x :: xs =>
    match p x with
    | .error e => .error e
    | .ok b => (keep p xs).map fun ys => if b then x :: ys else ys

def Filters.apply (f : Filters) (ds : List Document) : Except TimeError (List Document) :=
  if f.isEmpty then .ok ds else keep f.admits ds

end VaultSearch.Filtering
