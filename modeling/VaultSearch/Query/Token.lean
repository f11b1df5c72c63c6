import VaultSearch.Text.Blank
import VaultSearch.Text.Quoted

namespace VaultSearch.Query

open Text

inductive TokenKind
  | term
  | phrase
  | operator
  | lparen
  | rparen
  deriving DecidableEq, Repr

def TokenKind.name : TokenKind → Text
  | term => "TERM".toList
  | phrase => "PHRASE".toList
  | operator => "OPERATOR".toList
  | lparen => "LPAREN".toList
  | rparen => "RPAREN".toList

structure Token where
  kind : TokenKind
  value : Text
  deriving DecidableEq, Repr

def andWord : Text := "AND".toList

def orWord : Text := "OR".toList

def notWord : Text := "NOT".toList

def operatorWord? (w : Text) : Option Text :=
  let u := w.map Char.toUpper
  if u = andWord || u = orWord || u = notWord then some u else none

def inWord (c : Char) : Bool := !(isBlank c || c == '(' || c == ')' || c == '"' || c == '\'')

namespace Token

def ofWord (w : Text) : Token :=
  match operatorWord? w with
  | some u => ⟨.operator, u⟩
  | none => ⟨.term, w⟩

/-- A phrase runs to the next double quote, or to the end. An apostrophe only parts words. -/
def scan : Text → List Token
  | [] => []
  | c :: t =>
    if isBlank c then scan t
    else if c = '"' then ⟨.phrase, t.takeWhile (· != '"')⟩ :: scan ((t.dropWhile (· != '"')).drop 1)
    else if c = '(' then ⟨.lparen, ['(']⟩ :: scan t
    else if c = ')' then ⟨.rparen, [')']⟩ :: scan t
    else if c = '\'' then scan t
    else ofWord (c :: t.takeWhile inWord) :: scan (t.dropWhile inWord)
  termination_by t => t.length
  decreasing_by
    all_goals simp only [List.length_cons, List.length_drop]
    all_goals first
      | omega
      | have := (List.dropWhile_sublist (l := t) (· != '"')).length_le; omega
      | have := (List.dropWhile_sublist (l := t) inWord).length_le; omega

def text (k : Token) : Text :=
  match k.kind with
  | .phrase => '"' :: k.value ++ ['"']
  | _ => k.value

def render (ks : List Token) : Text := joinWith [' '] (ks.map text)

def shown (k : Token) : Text :=
  "SearchToken(kind=<TokenKind.".toList ++ k.kind.name ++ ": '".toList ++ k.kind.name ++
    "'>, value=".toList ++ quoted k.value ++ [')']

end Token

end VaultSearch.Query
