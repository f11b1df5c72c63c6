import VaultSearch.Text.Basic

namespace VaultSearch

abbrev Bytes := List UInt8

namespace Bytes

def encodeChar (c : Char) : Bytes :=
  let n := c.val.toNat
  let tail := fun k => UInt8.ofNat (0x80 + n / Nat.pow 64 k % 64)
  if n < 0x80 then [UInt8.ofNat n]
  else if n < 0x800 then [UInt8.ofNat (0xC0 + n / 64), tail 0]
  else if n < 0x10000 then [UInt8.ofNat (0xE0 + n / 0x1000), tail 1, tail 0]
  else [UInt8.ofNat (0xF0 + n / 0x40000), tail 2, tail 1, tail 0]

def ofText (t : Text) : Bytes := t.flatMap encodeChar

def tailBits? (b : UInt8) : Option Nat :=
  let n := b.toNat
  if 0x80 ≤ n && n < 0xC0 then some (n - 0x80) else none

def char? (least n : Nat) : Option Char :=
  if h : n.isValidChar then if least ≤ n then some (Char.ofNatAux n h) else none else none

def toText? : Bytes → Option Text
  | [] => some []
  | a :: t =>
    let n := a.toNat
    if n < 0x80 then (toText? t).map (Char.ofNat n :: ·)
    else match t with
      | [] => none
      | b :: t =>
        (tailBits? b).bind fun x =>
          if n < 0xC0 then none
          else if n < 0xE0 then
            (char? 0x80 ((n - 0xC0) * 64 + x)).bind fun c => (toText? t).map (c :: ·)
          else match t with
            | [] => none
            | b :: t =>
              (tailBits? b).bind fun y =>
                if n < 0xF0 then
                  (char? 0x800 (((n - 0xE0) * 64 + x) * 64 + y)).bind fun c =>
                    (toText? t).map (c :: ·)
                else match t with
                  | [] => none
                  | b :: t =>
                    (tailBits? b).bind fun z =>
                      if n < 0xF8 then
                        (char? 0x10000 ((((n - 0xF0) * 64 + x) * 64 + y) * 64 + z)).bind fun c =>
                          (toText? t).map (c :: ·)
                      else none

end Bytes

def Text.unifyBreaks : Text → Text
  | [] => []
  | '\r' :: '\n' :: t => '\n' :: unifyBreaks t
  | '\r' :: t => '\n' :: unifyBreaks t
  | c :: t => c :: unifyBreaks t

end VaultSearch
