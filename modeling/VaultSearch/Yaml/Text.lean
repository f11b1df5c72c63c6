import VaultSearch.Number.Decimal
import VaultSearch.Yaml.Value

namespace VaultSearch.Yaml

open Text Number Time

def bracketed (first last : Text) (items : List Text) : Text :=
  first ++ joinWith [',', ' '] items ++ last

def numbers (ns : List Nat) : Text := joinWith [',', ' '] (ns.map Text.ofNat)

def byteText (quote : Char) (b : UInt8) : Text :=
  let c := Char.ofNat b.toNat
  if c = quote || c = '\\' then ['\\', c]
  else if c = '\t' then ['\\', 't']
  else if c = '\n' then ['\\', 'n']
  else if c = '\r' then ['\\', 'r']
  else if b < 0x20 || 0x7F ≤ b then '\\' :: 'x' :: hex 2 b.toNat
  else [c]

def bytesText (b : Bytes) : Text :=
  let quote := if b.elem 39 && !b.elem 34 then '"' else '\''
  'b' :: quote :: b.flatMap (byteText quote) ++ [quote]

def dateText (d : Date) : Text :=
  let (year, month, day) := d.civil
  "datetime.date(".toList ++ numbers [year, month, day] ++ [')']

def offsetText (o : Offset) : Text :=
  if o.micros = 0 then "datetime.timezone.utc".toList
  else "datetime.timezone(".toList ++ spanText (o.micros.tdiv secondMicros) ++ [')']

def stampText (s : Stamp) : Text :=
  let (year, month, day) := s.shown.date.civil
  let n := s.shown.clock
  let second := n / secondMicros % 60
  let micros := n % secondMicros
  "datetime.datetime(".toList ++
    numbers ([year, month, day, n / hourMicros, n / minuteMicros % 60] ++
      if micros ≠ 0 then [second, micros] else if second ≠ 0 then [second] else []) ++
    (match s.offset with
      | none => []
      | some o => ", tzinfo=".toList ++ offsetText o) ++ [')']

def truthText (b : Bool) : Text := if b then "True".toList else "False".toList

def Scalar.shown : Scalar → Except LiteralError Text
  | .null => .ok "None".toList
  | .bool b => .ok (truthText b)
  | .int n => intText n
  | .float _ x => .ok x.text
  | .text t => .ok (quoted t)
  | .bytes b => .ok (bytesText b)
  | .date _ d => .ok (dateText d)
  | .stamp _ s => .ok (stampText s)

def Scalar.toText : Scalar → Except LiteralError Text
  | .text t => .ok t
  | .date _ d => .ok d.text
  | .stamp _ s => .ok (s.text ' ')
  | s => s.shown

def MapKey.shown : MapKey → Except LiteralError Text
  | .scalar s => s.shown
  | .pair _ a b => do
    let s ← a.shown
    let t ← b.shown
    .ok (bracketed ['('] [')'] [s, t])

def Shape.ellipsis : Shape → Text
  | list => "[...]".toList
  | map => "\x7b...\x7d".toList
  | tuple => "(...)".toList

mutual

def Value.shown : Value → Except LiteralError Text
  | .scalar s => s.shown
  | .list _ items => (shownItems items).map (bracketed ['['] [']'])
  | .map _ entries => (shownEntries entries).map (bracketed ['\x7b'] ['\x7d'])
  | .set _ [] => .ok "set()".toList
  | .set _ (k :: ks) => ((k :: ks).mapM Scalar.shown).map (bracketed ['\x7b'] ['\x7d'])
  | .tuple _ first second => do
    let s ← first.shown
    let t ← second.shown
    .ok (bracketed ['('] [')'] [s, t])
  | .again shape _ => .ok shape.ellipsis

def shownItems : List Value → Except LiteralError (List Text)
  | [] => .ok []
  | v :: vs => do
    let t ← v.shown
    .ok (t :: (← shownItems vs))

def shownEntries : Entries → Except LiteralError (List Text)
  | [] => .ok []
  | (k, v) :: es => do
    let s ← k.shown
    let t ← v.shown
    .ok ((s ++ ':' :: ' ' :: t) :: (← shownEntries es))

end

/-- The text of a value; one that is a text stands for itself. -/
def Value.toText : Value → Except LiteralError Text
  | .scalar s => s.toText
  | v => v.shown

end VaultSearch.Yaml
