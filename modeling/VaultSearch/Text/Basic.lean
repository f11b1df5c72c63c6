namespace VaultSearch

/-- A text is its sequence of code points, so that every offset counts code points. -/
abbrev Text := List Char

namespace Text

/-- The pieces between the characters that satisfy `p`; there is one more piece than separators. -/
def pieces (p : Char → Bool) : Text → List Text
  | [] => [[]]
  | c :: t =>
    if p c then [] :: pieces p t
    else match pieces p t with
      | [] => [[c]]
      | w :: ws => (c :: w) :: ws

def splitOn (c : Char) (t : Text) : List Text := pieces (· == c) t

def lines (t : Text) : List Text := splitOn '\n' t

def joinWith (sep : Text) : List Text → Text
  | [] => []
  | [w] => w
  | w :: v :: ws => w ++ sep ++ joinWith sep (v :: ws)

def startsWith (needle t : Text) : Bool := needle.isPrefixOf t

def endsWith (needle t : Text) : Bool := needle.isSuffixOf t

def find? (needle : Text) : Text → Option Nat
  | [] => if needle.isEmpty then some 0 else none
  | c :: t => if startsWith needle (c :: t) then some 0 else (find? needle t).map (· + 1)

def contains (needle t : Text) : Bool := (find? needle t).isSome

def cut? (needle t : Text) : Option (Text × Text) :=
  (find? needle t).map fun i => (t.take i, t.drop (i + needle.length))

def slice (t : Text) (start stop : Nat) : Text := (t.take stop).drop start

theorem joinWith_cons_cons (sep w v : Text) (ws : List Text) :
    joinWith sep (w :: v :: ws) = w ++ sep ++ joinWith sep (v :: ws) := rfl

theorem pieces_ne_nil (p : Char → Bool) (t : Text) : pieces p t ≠ [] := by
  induction t with
  | nil => simp [pieces]
  | cons c t ih =>
    unfold pieces
    split
    · simp
    · split <;> simp

end Text

def Text.le (a b : Text) : Bool :=
  match a, b with
  | [], _ => true
  | _ :: _, [] => false
  | c :: a, d :: b => if c = d then Text.le a b else c.val < d.val

def Text.ofNat (n : Nat) : Text := (Nat.repr n).toList

def Text.ofInt (n : Int) : Text := if n < 0 then '-' :: Text.ofNat n.natAbs else Text.ofNat n.natAbs

end VaultSearch
