import VaultSearch.Bytes.Utf8

namespace VaultSearch.Bytes

def alphabet : Text := "ABCDEFGHIJKLMNOPQRSTUVWXYZabcdefghijklmnopqrstuvwxyz0123456789+/".toList

def digit (n : Nat) : Char := (alphabet[n % 64]?).getD 'A'

def encode64 : Bytes → Text
  | [] => []
  | [a] =>
    let n := a.toNat * 16
    [digit (n / 64), digit n, '=', '=']
  | [a, b] =>
    let n := (a.toNat * 256 + b.toNat) * 4
    [digit (n / 0x1000), digit (n / 64), digit n, '=']
  | a :: b :: c :: t =>
    let n := (a.toNat * 256 + b.toNat) * 256 + c.toNat
    digit (n / 0x40000) :: digit (n / 0x1000) :: digit (n / 64) :: digit n :: encode64 t

/-- Reads on after `held`, the bits of the `count` characters since the last whole three bytes, and
`pads` equals signs since the last character. Characters of no meaning are passed over. -/
def decodeFrom (count held pads : Nat) : Text → Option Bytes
  | [] => if count = 0 then some [] else none
  | c :: t =>
    if c = '=' then
      if 2 ≤ count then
        if 4 ≤ count + pads + 1 then some [] else decodeFrom count held (pads + 1) t
      else decodeFrom count held pads t
    else match alphabet.idxOf? c with
      | none => decodeFrom count held pads t
      | some d =>
        match count with
        | 0 => decodeFrom 1 d 0 t
        | 1 => (decodeFrom 2 (d % 16) 0 t).map (UInt8.ofNat (held * 4 + d / 16) :: ·)
        | 2 => (decodeFrom 3 (d % 4) 0 t).map (UInt8.ofNat (held * 16 + d / 4) :: ·)
        | _ => (decodeFrom 0 0 0 t).map (UInt8.ofNat (held * 64 + d) :: ·)

def decode64? (t : Text) : Option Bytes := decodeFrom 0 0 0 t

end VaultSearch.Bytes
