import VaultSearch.Query.Token
import VaultSearch.Text.Word

namespace VaultSearch.Query

open Text

def unquote : Text → Text
  | [] => []
  | c :: t =>
    if c = '"' then ' ' :: unquote ((t.dropWhile (· != '"')).drop 1) else c :: unquote t
  termination_by t => t.length
  decreasing_by
    all_goals simp only [List.length_cons, List.length_drop]
    · have := (List.dropWhile_sublist (l := t) (· != '"')).length_le
      omega
    · omega

def gluesWord (c : Char) : Bool := isWordChar c || c == '"'

def startsOperator (t : Text) : Bool :=
  [andWord, orWord, notWord].any fun w =>
    startsWith w t && !(t.drop w.length).head?.any gluesWord

def bareOperatorAfter (before : Option Char) : Text → Bool
  | [] => false
  | c :: t => (!before.any gluesWord && startsOperator (c :: t)) || bareOperatorAfter (some c) t

def hasOperator (q : Text) : Bool := bareOperatorAfter none (unquote q)

end VaultSearch.Query
