import VaultSearch.Proofs.Except
import VaultSearch.Yaml.Node

namespace VaultSearch.Yaml.Reader

def Structural (f e : Failure) : Prop := e = .malformed ∨ e = f

/-- Reading fails only where the document is malformed or its tokens end, and what is left ends
with the same failure. -/
abbrev Reads {α : Type} (f : Failure) (x : Except Failure (α × Reader)) : Prop :=
  Meets (Structural f) (fun a => a.2.failure = f) x

variable {f : Failure} {r : Reader}

theorem peek_meets (hr : r.failure = f) : Meets (Structural f) (fun _ => True) r.peek := by
  rw [peek]
  split
  · exact .inr hr
  · trivial

theorem add_reads (hr : r.failure = f) (anchor : Option Text) (n : Node) :
    Reads f (r.add anchor n) := by
  cases anchor with
  | none => exact hr
  | some a =>
      rw [add]
      split
      · exact .inl rfl
      · exact hr

theorem properties_meets (hr : r.failure = f) :
    Meets (Structural f) (fun a => a.2.2.failure = f) r.properties := by
  refine (peek_meets hr).bind fun t _ => ?_
  split
  · refine (peek_meets (r := r.pop) hr).bind fun t _ => ?_
    split <;> exact hr
  · refine (peek_meets (r := r.pop) hr).bind fun t _ => ?_
    split <;> exact hr
  · exact hr

theorem fullTag_meets (r : Reader) (name : Option TagName) :
    Meets (Structural f) (fun _ => True) (r.fullTag name) := by
  rw [fullTag.eq_def]
  split
  · trivial
  · trivial
  · split
    · trivial
    · exact .inl rfl

theorem passComma_meets (hr : r.failure = f) (first : Bool) :
    Meets (Structural f) (fun s => s.failure = f) (r.passComma first) := by
  cases first with
  | true => exact hr
  | false =>
      refine (peek_meets hr).bind fun t _ => ?_
      split
      · exact hr
      · exact .inl rfl

structure AllRead (f : Failure) (n : Nat) : Prop where
  node : ∀ {r : Reader} (block indentless : Bool), r.failure = f →
    Reads f (readNode n block indentless r)
  slot : ∀ {r : Reader} (s : Slot), r.failure = f → Reads f (readSlot n s r)
  value : ∀ {r : Reader} (s : Slot), r.failure = f → Reads f (readValue n s r)
  entries : ∀ {r : Reader} (s : Slot), r.failure = f → Reads f (readEntries n s r)
  pairs : ∀ {r : Reader}, r.failure = f → Reads f (readPairs n r)
  flowItems : ∀ {r : Reader} (first : Bool), r.failure = f → Reads f (readFlowItems n first r)
  flowPairs : ∀ {r : Reader} (first : Bool), r.failure = f → Reads f (readFlowPairs n first r)

namespace AllRead

variable {n : Nat} (h : AllRead f n) (hr : r.failure = f)

include h hr

theorem readNode_succ (block indentless : Bool) : Reads f (readNode (n + 1) block indentless r) := by
  rw [readNode]
  refine (peek_meets hr).bind fun t _ => ?_
  split
  · split
    · exact hr
    · exact .inl rfl
  · refine (properties_meets hr).bind fun a hr => ?_
    obtain ⟨anchor, name, r⟩ := a
    refine (fullTag_meets r name).bind fun tag _ => ?_
    refine (peek_meets hr).bind fun t _ => ?_
    split
    · exact add_reads (r := r.pop) hr _ _
    · refine (add_reads (r := r.pop) hr _ _).bind fun a hr => ?_
      exact (h.flowItems true hr).bind fun b hr => hr
    · refine (add_reads (r := r.pop) hr _ _).bind fun a hr => ?_
      exact (h.flowPairs true hr).bind fun b hr => hr
    · split
      · refine (add_reads hr _ _).bind fun a hr => ?_
        exact (h.entries _ hr).bind fun b hr => hr
      · split
        · refine (add_reads (r := r.pop) hr _ _).bind fun a hr => ?_
          exact (h.entries _ hr).bind fun b hr => hr
        · split
          · refine (add_reads (r := r.pop) hr _ _).bind fun a hr => ?_
            exact (h.pairs hr).bind fun b hr => hr
          · split
            · exact add_reads hr _ _
            · exact .inl rfl

theorem readSlot_succ (s : Slot) : Reads f (readSlot (n + 1) s r) := by
  rw [readSlot]
  refine (peek_meets hr).bind fun t _ => ?_
  split
  · exact add_reads hr _ _
  · exact h.node _ _ hr

theorem readValue_succ (s : Slot) : Reads f (readValue (n + 1) s r) := by
  rw [readValue]
  refine (peek_meets hr).bind fun t _ => ?_
  split
  · exact h.slot s hr
  · exact add_reads hr _ _

theorem readEntries_succ (s : Slot) : Reads f (readEntries (n + 1) s r) := by
  rw [readEntries]
  refine (peek_meets hr).bind fun t _ => ?_
  split
  · refine (h.slot (r := r.pop) s hr).bind fun a hr => ?_
    exact (h.entries s hr).bind fun b hr => hr
  · split <;> exact hr
  · split
    · exact hr
    · exact .inl rfl

theorem readPairs_succ : Reads f (readPairs (n + 1) r) := by
  rw [readPairs]
  refine (peek_meets hr).bind fun t _ => ?_
  split
  · refine (h.slot (r := r.pop) _ hr).bind fun a hr => ?_
    refine (h.value _ hr).bind fun b hr => ?_
    exact (h.pairs hr).bind fun c hr => hr
  · exact hr
  · exact .inl rfl

theorem readFlowItems_succ (first : Bool) : Reads f (readFlowItems (n + 1) first r) := by
  rw [readFlowItems]
  refine (peek_meets hr).bind fun t _ => ?_
  split
  · exact hr
  · refine (passComma_meets hr first).bind fun r hr => ?_
    refine (peek_meets hr).bind fun t _ => ?_
    split
    · exact hr
    · refine (h.slot (r := r.pop) _ hr).bind fun a hr => ?_
      refine (h.value _ hr).bind fun b hr => ?_
      refine (add_reads hr _ _).bind fun c hr => ?_
      exact (h.flowItems false hr).bind fun d hr => hr
    · refine (h.node _ _ hr).bind fun a hr => ?_
      exact (h.flowItems false hr).bind fun b hr => hr

theorem readFlowPairs_succ (first : Bool) : Reads f (readFlowPairs (n + 1) first r) := by
  rw [readFlowPairs]
  refine (peek_meets hr).bind fun t _ => ?_
  split
  · exact hr
  · refine (passComma_meets hr first).bind fun r hr => ?_
    refine (peek_meets hr).bind fun t _ => ?_
    split
    · exact hr
    · refine (h.slot (r := r.pop) _ hr).bind fun a hr => ?_
      refine (h.value _ hr).bind fun b hr => ?_
      exact (h.flowPairs false hr).bind fun c hr => hr
    · refine (h.node _ _ hr).bind fun a hr => ?_
      refine (add_reads hr _ _).bind fun b hr => ?_
      exact (h.flowPairs false hr).bind fun c hr => hr

end AllRead

theorem allRead (f : Failure) (n : Nat) : AllRead f n := by
  induction n with
  | zero => constructor <;> intros <;> exact .inl rfl
  | succ n ih =>
      exact ⟨fun b i hr => ih.readNode_succ hr b i, fun s hr => ih.readSlot_succ hr s,
        fun s hr => ih.readValue_succ hr s, fun s hr => ih.readEntries_succ hr s,
        fun hr => ih.readPairs_succ hr, fun first hr => ih.readFlowItems_succ hr first,
        fun first hr => ih.readFlowPairs_succ hr first⟩

theorem readDirectives_meets (versioned : Bool) (ts : List Token) (hr : r.failure = f) :
    Meets (Structural f) (fun s => s.failure = f) (readDirectives versioned ts r) := by
  induction ts generalizing versioned r with
  | nil => exact hr
  | cons t ts ih =>
      cases t with
      | directive d =>
          cases d with
          | version major =>
              rw [readDirectives]
              split
              · exact .inl rfl
              · exact ih true hr
          | handle handle start =>
              rw [readDirectives]
              split
              · exact .inl rfl
              · exact ih versioned hr
          | other => exact ih versioned hr
      | _ => exact hr

theorem finish_meets (ts : List Token) : Meets (Structural f) (fun _ => True) (finish ts f) := by
  induction ts with
  | nil => exact .inr rfl
  | cons t ts ih =>
      cases t with
      | documentEnd => exact ih
      | directive d =>
          rw [finish]
          split
          · exact .inr rfl
          · exact .inl rfl
      | streamEnd => trivial
      | _ => exact .inl rfl

theorem readDocument_meets (hr : r.failure = f) :
    Meets (Structural f) (fun _ => True) r.readDocument := by
  have node {s : Reader} (hs : s.failure = f) (fuel : Nat) :
      Reads f (readNode fuel true false s) := (allRead f fuel).node _ _ hs
  have close {id : NodeId} {s : Reader} (hs : s.failure = f) :
      Meets (Structural f) (fun _ => True)
        (do finish s.tokens s.failure; return some (s.graph, id)) := by
    rw [hs]
    exact (finish_meets s.tokens).bind fun _ _ => trivial
  refine (peek_meets hr).bind fun t _ => ?_
  split
  case h_1 => trivial
  case h_2 | h_3 =>
    refine (readDirectives_meets false r.tokens hr).bind fun s hs => ?_
    refine (peek_meets hs).bind fun t _ => ?_
    split
    · refine (peek_meets (r := s.pop) hs).bind fun t _ => ?_
      split
      case h_5 => exact (node (s := s.pop) hs _).bind fun a ha => close ha
      all_goals exact (add_reads (r := s.pop) hs _ _).bind fun a ha => close ha
    · exact .inl rfl
  case h_4 =>
    have hdefault : { r with handles := defaultHandles }.failure = f := hr
    exact (node hdefault _).bind fun a ha => close ha

end VaultSearch.Yaml.Reader

namespace VaultSearch.Yaml

theorem Graph.ofText_meets (t : Text) :
    Meets (Reader.Structural (Tokens.ofText t).failure) (fun _ => True) (Graph.ofText t) :=
  Reader.readDocument_meets rfl

end VaultSearch.Yaml
