import VaultSearch.Query.Expr
import VaultSearch.Query.Token

namespace VaultSearch.Query

open Text

inductive ParseError
  | unexpected (token : Token)
  | trailing (token : Token)
  | aroundOr
  | aroundAnd
  | afterNot
  | emptyGroup
  | unclosedGroup
  deriving DecidableEq, Repr

def ParseError.message : ParseError → Text
  | unexpected k => "Unexpected token ".toList ++ k.shown
  | trailing k => "Unexpected trailing token ".toList ++ k.shown
  | aroundOr => "Expected expression around OR".toList
  | aroundAnd => "Expected expression around AND".toList
  | afterNot => "Expected expression after NOT".toList
  | emptyGroup => "Expected expression inside parentheses".toList
  | unclosedGroup => "Expected closing parenthesis".toList

abbrev Reading (ks : List Token) := Option Expr × { rest : List Token // rest.length ≤ ks.length }

def Reading.weaken {ks ls : List Token} (h : ls.length ≤ ks.length) (r : Reading ls) : Reading ks :=
  (r.1, ⟨r.2.1, Nat.le_trans r.2.2 h⟩)

def opAnd : Token := ⟨.operator, andWord⟩

def opOr : Token := ⟨.operator, orWord⟩

def opNot : Token := ⟨.operator, notWord⟩

mutual

def readOr (ks : List Token) : Except ParseError (Reading ks) :=
  match readAnd ks with
  | .error e => .error e
  | .ok (left, ⟨rest, h⟩) => (readOrs left rest).map (.weaken h)
  termination_by 6 * ks.length + 5

def readOrs (left : Option Expr) (ks : List Token) : Except ParseError (Reading ks) :=
  match ks with
  | [] => .ok (left, ⟨[], Nat.le_refl _⟩)
  | k :: ks =>
    if k = opOr then
      match readAnd ks with
      | .error e => .error e
      | .ok (right, ⟨rest, h⟩) =>
        match left, right with
        | some l, some r => (readOrs (some (.or l r)) rest).map (.weaken (Nat.le_succ_of_le h))
        | _, _ => .error .aroundOr
    else .ok (left, ⟨k :: ks, Nat.le_refl _⟩)
  termination_by 6 * ks.length + 4

def readAnd (ks : List Token) : Except ParseError (Reading ks) :=
  match readNot ks with
  | .error e => .error e
  | .ok (left, ⟨rest, h⟩) => (readAnds left rest).map (.weaken h)
  termination_by 6 * ks.length + 3

def readAnds (left : Option Expr) (ks : List Token) : Except ParseError (Reading ks) :=
  match ks with
  | [] => .ok (left, ⟨[], Nat.le_refl _⟩)
  | k :: ks =>
    if k = opAnd then
      match readNot ks with
      | .error e => .error e
      | .ok (right, ⟨rest, h⟩) =>
        match left, right with
        | some l, some r => (readAnds (some (.and l r)) rest).map (.weaken (Nat.le_succ_of_le h))
        | _, _ => .error .aroundAnd
    else .ok (left, ⟨k :: ks, Nat.le_refl _⟩)
  termination_by 6 * ks.length + 2

def readNot (ks : List Token) : Except ParseError (Reading ks) :=
  match ks with
  | [] => readOperand []
  | k :: ks =>
    if k = opNot then
      match readOperand ks with
      | .error e => .error e
      | .ok (some e, ⟨rest, h⟩) => .ok (some (.not e), ⟨rest, Nat.le_succ_of_le h⟩)
      | .ok (none, _) => .error .afterNot
    else readOperand (k :: ks)
  termination_by 6 * ks.length + 1

def readOperand (ks : List Token) : Except ParseError (Reading ks) :=
  match ks with
  | [] => .ok (none, ⟨[], Nat.le_refl _⟩)
  | k :: ks =>
    match k.kind with
    | .lparen =>
      match readOr ks with
      | .error e => .error e
      | .ok (none, _) => .error .emptyGroup
      | .ok (some e, ⟨rest, h⟩) =>
        match rest, h with
        | [], _ => .error .unclosedGroup
        | c :: rest, h =>
          if c.kind = .rparen then
            .ok (some e, ⟨rest, Nat.le_succ_of_le (Nat.le_of_succ_le h)⟩)
          else .error .unclosedGroup
    | .phrase => .ok (some (.phrase k.value), ⟨ks, Nat.le_succ _⟩)
    | .term => .ok (some (.term k.value), ⟨ks, Nat.le_succ _⟩)
    | _ => .ok (none, ⟨k :: ks, Nat.le_refl _⟩)
  termination_by 6 * ks.length + 0

end

def parse (ks : List Token) : Except ParseError (Option Expr) :=
  match ks with
  | [] => .ok none
  | k :: ks =>
    match readOr (k :: ks) with
    | .error e => .error e
    | .ok (none, _) => .error (.unexpected k)
    | .ok (some e, ⟨[], _⟩) => .ok (some e)
    | .ok (some _, ⟨k :: _, _⟩) => .error (.trailing k)

def compile (q : Text) : Except ParseError (Option Expr) := parse (Token.scan q)

def holdsIn (q t : Text) : Bool :=
  match compile q with
  | .ok e => Expr.eval e t
  | .error _ => contains (lower q) (lower t)

def explain (q : Text) : Text :=
  match compile q with
  | .ok none => []
  | .ok (some e) => e.explain
  | .error _ => "contains \"".toList ++ q ++ ['"']

end VaultSearch.Query
