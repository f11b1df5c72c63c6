import VaultSearch.Text.Basic

namespace VaultSearch.Text

def isBlank (c : Char) : Bool :=
  let n := c.val.toNat
  (9 ≤ n && n ≤ 13) || (28 ≤ n && n ≤ 32) || n == 0x85 || n == 0xA0 || n == 0x1680 ||
    (0x2000 ≤ n && n ≤ 0x200A) || n == 0x2028 || n == 0x2029 || n == 0x202F || n == 0x205F ||
    n == 0x3000

def words (t : Text) : List Text := (pieces isBlank t).filter (!·.isEmpty)

def trimStart (p : Char → Bool) (t : Text) : Text := t.dropWhile p

def trimEnd (p : Char → Bool) (t : Text) : Text := (t.reverse.dropWhile p).reverse

def trim (t : Text) : Text := trimEnd isBlank (trimStart isBlank t)

theorem mem_words {t w : Text} (h : w ∈ words t) : w ≠ [] := by
  have := (List.mem_filter.1 h).2
  intro hw
  simp [hw] at this

end VaultSearch.Text
