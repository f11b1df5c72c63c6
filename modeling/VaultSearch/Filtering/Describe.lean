import VaultSearch.Filtering.Range

namespace VaultSearch.Filtering

open Text Time Number

inductive DescribeError
  | time (e : TimeError)
  | literal (e : LiteralError)
  deriving DecidableEq

def DescribeError.message : DescribeError → Text
  | time e => e.message
  | literal e => e.message

def DateRange.describe (r : DateRange) : Except TimeError Text :=
  if r.malformed then .ok "invalid range".toList
  else do
    let oneDay ← match r.first with
      | none => .ok false
      | some first => (first.add dayMicros).map fun next => r.last = some next
    .ok <| match r.first, r.last with
      | some first, last =>
        if oneDay && r.lastExcluded then "on ".toList ++ first.date.text
        else match last with
          | some last => first.date.text ++ " to ".toList ++ last.date.text
          | none => "after ".toList ++ first.date.text
      | none, some last => "before ".toList ++ last.date.text
      | none, none => "any time".toList

def NumberRange.describe (r : NumberRange) : Except LiteralError (List Text) :=
  if r.malformed then .ok ["Words: invalid range".toList]
  else match r.low, r.high with
    | some low, some high => do
      if low = high then
        let n ← intText low
        .ok ["Exactly ".toList ++ n ++ " words".toList]
      else
        let a ← intText low
        let b ← intText high
        .ok [a ++ '-' :: b ++ " words".toList]
    | some low, none => do
      let n ← intText low
      .ok ["At least ".toList ++ n ++ " words".toList]
    | none, some high => do
      let n ← intText high
      .ok ["At most ".toList ++ n ++ " words".toList]
    | none, none => .ok []

def describeList (label : Text) (tags : Option (List Text)) : List Text :=
  match tags with
  | some (t :: ts) => [label ++ joinWith [',', ' '] (t :: ts)]
  | _ => []

def describeText (label : Text) (value : Option Text) : List Text :=
  match value with
  | some (c :: t) => [label ++ c :: t]
  | _ => []

def describeDates (label : Text) (r : Option DateRange) : Except DescribeError (List Text) :=
  match r with
  | none => .ok []
  | some r => (r.describe.map fun t => [label ++ t]).mapError .time

def describeFlag (yes no : Text) (flag : Option Bool) : List Text :=
  match flag with
  | none => []
  | some b => [if b then yes else no]

def Filters.describe (f : Filters) : Except DescribeError (List Text) := do
  let created ← describeDates "Created: ".toList f.created
  let modified ← describeDates "Modified: ".toList f.modified
  let counts ← match f.wordCount with
    | none => .ok []
    | some r => r.describe.mapError .literal
  .ok (describeList "Tagged: ".toList f.tags ++ describeList "Not tagged: ".toList f.excludedTags ++
    created ++ modified ++ counts ++
    describeFlag "Has links".toList "No links".toList f.hasLinks ++
    describeFlag "Has backlinks".toList "No backlinks".toList f.hasBacklinks ++
    describeText "Folder: ".toList f.folder ++ describeText "File type: ".toList f.fileType)

end VaultSearch.Filtering
