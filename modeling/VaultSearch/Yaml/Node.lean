import VaultSearch.Yaml.Tag
import VaultSearch.Yaml.Token

namespace VaultSearch.Yaml

open Text

/-- Nodes are named by their place in the graph that holds them. -/
abbrev NodeId := Nat

inductive Content
  | scalar (t : Text)
  | sequence (items : List NodeId)
  | mapping (pairs : List (NodeId × NodeId))
  deriving DecidableEq, Repr

structure Node where
  tag : Tag
  content : Content
  deriving DecidableEq, Repr

/-- The nodes of a document; one that an alias names again is there once. -/
abbrev Graph := Array Node

structure Reader where
  tokens : List Token
  failure : Failure
  graph : Graph := #[]
  anchors : List (Text × NodeId) := []
  handles : List (Text × Text) := []

namespace Reader

def peek (r : Reader) : Except Failure Token :=
  match r.tokens with
  | [] => .error r.failure
  | t :: _ => .ok t

def pop (r : Reader) : Reader := { r with tokens := r.tokens.tail }

/-- Adds a node, under an anchor if there is one; an anchor names one node only. -/
def add (r : Reader) (anchor : Option Text) (n : Node) : Except Failure (NodeId × Reader) :=
  let id := r.graph.size
  let r := { r with graph := r.graph.push n }
  match anchor with
  | none => .ok (id, r)
  | some a =>
    if (r.anchors.lookup a).isSome then .error .malformed
    else .ok (id, { r with anchors := (a, id) :: r.anchors })

def fill (r : Reader) (id : NodeId) (tag : Tag) (c : Content) : Reader :=
  { r with graph := r.graph.setIfInBounds id ⟨tag, c⟩ }

def addEmpty (r : Reader) : Except Failure (NodeId × Reader) := r.add none ⟨.null, .scalar []⟩

def properties (r : Reader) : Except Failure (Option Text × Option TagName × Reader) := do
  match ← r.peek with
  | .anchor a =>
    let r := r.pop
    match ← r.peek with
    | .tag t => .ok (some a, some t, r.pop)
    | _ => .ok (some a, none, r)
  | .tag t =>
    let r := r.pop
    match ← r.peek with
    | .anchor a => .ok (some a, some t, r.pop)
    | _ => .ok (none, some t, r)
  | _ => .ok (none, none, r)

def fullTag (r : Reader) : Option TagName → Except Failure (Option Text)
  | none => .ok none
  | some ⟨none, suffix⟩ => .ok (some suffix)
  | some ⟨some handle, suffix⟩ => match r.handles.lookup handle with
    | some start => .ok (some (start ++ suffix))
    | none => .error .malformed

def tagOr (default : Tag) (tag : Option Text) : Tag :=
  match tag with
  | none => default
  | some t => if t = ['!'] then default else .ofText t

def scalarTag (plain : Bool) (t : Text) (tag : Option Text) : Tag :=
  if tag.isNone && !plain then .str else tagOr (.ofPlain t) tag

/-- Nothing stands where a node could. -/
inductive Slot
  | sequence
  | indentless
  | mapping
  | flowSequence
  | flowMapping
  deriving DecidableEq, Repr

def Slot.endsAt (s : Slot) (t : Token) : Bool :=
  match s with
  | sequence => t = .blockEntry || t = .blockEnd
  | indentless => t = .blockEntry || t = .key || t = .value || t = .blockEnd
  | mapping => t = .key || t = .value || t = .blockEnd
  | flowSequence => t = .value || t = .flowEntry || t = .flowSequenceEnd
  | flowMapping => t = .value || t = .flowEntry || t = .flowMappingEnd

def Slot.isBlock (s : Slot) : Bool := s = sequence || s = indentless || s = mapping

def passComma (first : Bool) (r : Reader) : Except Failure Reader := do
  if first then .ok r
  else match ← r.peek with
    | .flowEntry => .ok r.pop
    | _ => .error .malformed

mutual

/-- Reads a node. Block collections are allowed in blocks only, and a sequence that is not indented
only in a mapping. -/
def readNode : Nat → Bool → Bool → Reader → Except Failure (NodeId × Reader)
  | 0, _, _, _ => .error .malformed
  | n + 1, block, indentless, r => do
    match ← r.peek with
    | .alias a => match r.anchors.lookup a with
      | some id => .ok (id, r.pop)
      | none => .error .malformed
    | _ =>
      let (anchor, name, r) ← r.properties
      let tag ← r.fullTag name
      match ← r.peek with
      | .scalar plain t => r.pop.add anchor ⟨scalarTag plain t tag, .scalar t⟩
      | .flowSequence =>
        let (id, r) ← r.pop.add anchor ⟨.seq, .sequence []⟩
        let (items, r) ← readFlowItems n true r
        .ok (id, r.fill id (tagOr .seq tag) (.sequence items))
      | .flowMapping =>
        let (id, r) ← r.pop.add anchor ⟨.map, .mapping []⟩
        let (pairs, r) ← readFlowPairs n true r
        .ok (id, r.fill id (tagOr .map tag) (.mapping pairs))
      | t =>
        if indentless && t = .blockEntry then do
          let (id, r) ← r.add anchor ⟨.seq, .sequence []⟩
          let (items, r) ← readEntries n .indentless r
          .ok (id, r.fill id (tagOr .seq tag) (.sequence items))
        else if block && t = .blockSequence then do
          let (id, r) ← r.pop.add anchor ⟨.seq, .sequence []⟩
          let (items, r) ← readEntries n .sequence r
          .ok (id, r.fill id (tagOr .seq tag) (.sequence items))
        else if block && t = .blockMapping then do
          let (id, r) ← r.pop.add anchor ⟨.map, .mapping []⟩
          let (pairs, r) ← readPairs n r
          .ok (id, r.fill id (tagOr .map tag) (.mapping pairs))
        else if anchor.isSome || tag.isSome then r.add anchor ⟨tagOr .null tag, .scalar []⟩
        else .error .malformed

def readSlot : Nat → Slot → Reader → Except Failure (NodeId × Reader)
  | 0, _, _ => .error .malformed
  | n + 1, slot, r => do
    if slot.endsAt (← r.peek) then r.addEmpty else readNode n slot.isBlock (slot = .mapping) r

def readValue : Nat → Slot → Reader → Except Failure (NodeId × Reader)
  | 0, _, _ => .error .malformed
  | n + 1, slot, r => do
    match ← r.peek with
    | .value => readSlot n slot r.pop
    | _ => r.addEmpty

def readEntries : Nat → Slot → Reader → Except Failure (List NodeId × Reader)
  | 0, _, _ => .error .malformed
  | n + 1, slot, r => do
    match ← r.peek with
    | .blockEntry =>
      let (id, r) ← readSlot n slot r.pop
      let (ids, r) ← readEntries n slot r
      .ok (id :: ids, r)
    | .blockEnd => .ok ([], if slot = .indentless then r else r.pop)
    | _ => if slot = .indentless then .ok ([], r) else .error .malformed

def readPairs : Nat → Reader → Except Failure (List (NodeId × NodeId) × Reader)
  | 0, _ => .error .malformed
  | n + 1, r => do
    match ← r.peek with
    | .key =>
      let (k, r) ← readSlot n .mapping r.pop
      let (v, r) ← readValue n .mapping r
      let (pairs, r) ← readPairs n r
      .ok ((k, v) :: pairs, r)
    | .blockEnd => .ok ([], r.pop)
    | _ => .error .malformed

def readFlowItems : Nat → Bool → Reader → Except Failure (List NodeId × Reader)
  | 0, _, _ => .error .malformed
  | n + 1, first, r => do
    match ← r.peek with
    | .flowSequenceEnd => .ok ([], r.pop)
    | _ =>
      let r ← r.passComma first
      match ← r.peek with
      | .flowSequenceEnd => .ok ([], r.pop)
      | .key =>
        let (k, r) ← readSlot n .flowSequence r.pop
        let (v, r) ← readValue n .flowSequence r
        let (id, r) ← r.add none ⟨.map, .mapping [(k, v)]⟩
        let (ids, r) ← readFlowItems n false r
        .ok (id :: ids, r)
      | _ =>
        let (id, r) ← readNode n false false r
        let (ids, r) ← readFlowItems n false r
        .ok (id :: ids, r)

def readFlowPairs : Nat → Bool → Reader → Except Failure (List (NodeId × NodeId) × Reader)
  | 0, _, _ => .error .malformed
  | n + 1, first, r => do
    match ← r.peek with
    | .flowMappingEnd => .ok ([], r.pop)
    | _ =>
      let r ← r.passComma first
      match ← r.peek with
      | .flowMappingEnd => .ok ([], r.pop)
      | .key =>
        let (k, r) ← readSlot n .flowMapping r.pop
        let (v, r) ← readValue n .flowMapping r
        let (pairs, r) ← readFlowPairs n false r
        .ok ((k, v) :: pairs, r)
      | _ =>
        let (k, r) ← readNode n false false r
        let (v, r) ← r.addEmpty
        let (pairs, r) ← readFlowPairs n false r
        .ok ((k, v) :: pairs, r)

end

def defaultHandles : List (Text × Text) := [(['!'], ['!']), (['!', '!'], Tag.start)]

/-- The directives in front of a document. There is one version at most, and it is of the first
kind; a handle is declared once. -/
def readDirectives (versioned : Bool) : List Token → Reader → Except Failure Reader
  | .directive d :: ts, r =>
    let r := r.pop
    match d with
    | .version major =>
      if versioned || major ≠ 1 then .error .malformed else readDirectives true ts r
    | .handle handle start =>
      if (r.handles.lookup handle).isSome then .error .malformed
      else readDirectives versioned ts { r with handles := (handle, start) :: r.handles }
    | .other => readDirectives versioned ts r
  | _, r => .ok { r with handles := r.handles ++ defaultHandles }

def finish : List Token → Failure → Except Failure Unit
  | [], e => .error e
  | .documentEnd :: ts, e => finish ts e
  | .directive _ :: ts, e =>
    if ts.all (fun | .directive _ => true | _ => false) then .error e else .error .malformed
  | .streamEnd :: _, _ => .ok ()
  | _, _ => .error .malformed

def readDocument (r : Reader) : Except Failure (Option (Graph × NodeId)) := do
  let fuel := 3 * r.tokens.length + 3
  let (id, r) ← match ← r.peek with
    | .streamEnd => return none
    | .directive _ | .documentStart => do
      let r ← readDirectives false r.tokens r
      match ← r.peek with
      | .documentStart =>
        let r := r.pop
        match ← r.peek with
        | .directive _ | .documentStart | .documentEnd | .streamEnd => r.addEmpty
        | _ => readNode fuel true false r
      | _ => .error .malformed
    | _ => readNode fuel true false { r with handles := defaultHandles }
  finish r.tokens r.failure
  return some (r.graph, id)

end Reader

def Graph.ofText (t : Text) : Except Failure (Option (Graph × NodeId)) :=
  let tokens := Tokens.ofText t
  Reader.readDocument ⟨tokens.list, tokens.failure, #[], [], []⟩

end VaultSearch.Yaml
