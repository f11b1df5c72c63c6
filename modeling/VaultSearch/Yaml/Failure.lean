import VaultSearch.Number.Literal
import VaultSearch.Time.Date

namespace VaultSearch.Yaml

open Text Number Time

/-- Why a text stands for no value. Only the first is a fault of the document; with any other the
document can be read, and one of its scalars has no value. -/
inductive Failure
  | malformed
  | codePoint
  | codeWidth
  | literal (e : LiteralError)
  | notTruth (t : Text)
  | noDigits
  | notTimestamp
  | timestampOfMapping
  | time (e : TimeError)
  | offset (seconds : Int)
  | floatRange
  deriving DecidableEq

/-- A scalar is of a known kind, and its text is not one that the kind can have. -/
def Failure.isBadValue : Failure → Bool
  | codePoint | literal _ | time _ | offset _ => true
  | _ => false

def spanText (seconds : Int) : Text :=
  let days := seconds.fdiv 86400
  let rest := seconds.fmod 86400
  let fields := (if days = 0 then [] else ["days=".toList ++ Text.ofInt days]) ++
    (if rest = 0 then [] else ["seconds=".toList ++ Text.ofInt rest])
  "datetime.timedelta(".toList ++
    (if fields.isEmpty then ['0'] else joinWith [',', ' '] fields) ++ [')']

def Failure.message : Failure → Text
  | malformed => []
  | codePoint => "chr() arg not in range(0x110000)".toList
  | codeWidth => "Python int too large to convert to C int".toList
  | literal e => e.message
  | notTruth t => quoted t
  | noDigits => "string index out of range".toList
  | notTimestamp => "'NoneType' object has no attribute 'groupdict'".toList
  | timestampOfMapping => "expected string or bytes-like object, got 'list'".toList
  | time e => e.message
  | offset s =>
    "offset must be a timedelta strictly between -timedelta(hours=24) and ".toList ++
      "timedelta(hours=24), not ".toList ++ spanText s ++ ['.']
  | floatRange => "int too large to convert to float".toList

end VaultSearch.Yaml
