import VaultSearch.Text.Case

namespace VaultSearch.Query

open Text

inductive Expr
  | term (value : Text)
  | phrase (value : Text)
  | not (e : Expr)
  | and (left right : Expr)
  | or (left right : Expr)
  deriving DecidableEq, Repr

namespace Expr

def holds (e : Expr) (lowered : Text) : Bool :=
  match e with
  | .term v | .phrase v => contains (lower v) lowered
  | .not e => !e.holds lowered
  | .and l r => l.holds lowered && r.holds lowered
  | .or l r => l.holds lowered || r.holds lowered

def eval (e : Option Expr) (t : Text) : Bool :=
  match e with
  | none => false
  | some e => e.holds (lower t)

/-- Adds the values that stand under an even number of negations, each once. -/
def collect (e : Expr) (negated : Bool) (found : List Text) : List Text :=
  match e with
  | .term v | .phrase v => if !negated && !found.elem v then found ++ [v] else found
  | .not e => e.collect (!negated) found
  | .and l r | .or l r => r.collect negated (l.collect negated found)

def positiveTerms : Option Expr → List Text
  | none => []
  | some e => e.collect false []

def explain : Expr → Text
  | .term v => "contains \"".toList ++ v ++ ['"']
  | .phrase v => "contains exact phrase \"".toList ++ v ++ ['"']
  | .not e => "does NOT (".toList ++ e.explain ++ [')']
  | .and l r => '(' :: l.explain ++ ") AND (".toList ++ r.explain ++ [')']
  | .or l r => '(' :: l.explain ++ ") OR (".toList ++ r.explain ++ [')']

end Expr

end VaultSearch.Query
