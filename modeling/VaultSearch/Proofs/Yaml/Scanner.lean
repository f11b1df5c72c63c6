import VaultSearch.Proofs.Except
import VaultSearch.Yaml.Token

namespace VaultSearch.Yaml

open Number

inductive Scanned : Failure → Prop
  | malformed : Scanned .malformed
  | codePoint : Scanned .codePoint
  | codeWidth : Scanned .codeWidth
  | version (err : LiteralError) : Scanned (.literal err)

abbrev Scans {α : Type} (x : Except Failure α) : Prop := Meets Scanned (fun _ => True) x

namespace Scans

variable {α β : Type} {x y : Except Failure α}

theorem ok (a : α) : Scans (.ok a) := trivial

theorem malformed : Scans (.error .malformed : Except Failure α) := Scanned.malformed

theorem bind {f : α → Except Failure β} (hx : Scans x) (hf : ∀ a, Scans (f a)) :
    Scans (x >>= f) :=
  Meets.bind hx fun a _ => hf a

theorem map (hx : Scans x) (f : α → β) : Scans (x.map f) := Meets.map hx fun _ _ => trivial

theorem ite {p : Prop} [Decidable p] (hx : Scans x) (hy : Scans y) :
    Scans (if p then x else y) := Meets.ite hx hy

end Scans

section Quoted

theorem characterOf_scans (code : Nat) (t : Text) : Scans (characterOf code t) := by
  rw [characterOf]
  refine Scans.ite .codeWidth (Scans.ite .codePoint (Scans.ite ?_ (Scans.ite (.ok _) (.ok _))))
  split <;> exact Scans.ok _

theorem quotedBreaks_scans (n : Nat) (breaks : Text) (c : Cursor) :
    Scans (quotedBreaks n breaks c) := by
  induction n generalizing breaks c with
  | zero => exact .ok _
  | succ n ih =>
      rw [quotedBreaks]
      apply Scans.malformed.ite
      exact (ih _ _).ite (.ok _)

theorem readEscape_scans (c : Cursor) : Scans (readEscape c) := by
  rw [readEscape]
  split
  · exact .ok _
  · split
    · dsimp only
      split
      · exact .malformed
      · exact (characterOf_scans _ _).map _
    · exact (quotedBreaks_scans _ _ _).ite .malformed

theorem quotedPart_scans (double : Bool) (n : Nat) (done : Text) (c : Cursor) :
    Scans (quotedPart double n done c) := by
  induction n generalizing done c with
  | zero => exact .ok _
  | succ n ih =>
      rw [quotedPart]
      split
      · exact .ok _
      · refine (ih _ _).ite (Scans.ite ?_ ((Scans.ok _).ite (ih _ _)))
        have hescape := readEscape_scans c.next
        split
        · rename_i err herr
          exact hescape.of_error herr
        · exact ih _ _

theorem quotedGap_scans (c : Cursor) : Scans (quotedGap c) := by
  rw [quotedGap]
  apply Scans.malformed.ite
  exact ((quotedBreaks_scans _ _ _).map _).ite (.ok _)

theorem quotedFrom_scans (double : Bool) (n : Nat) (done : Text) (c : Cursor) :
    Scans (quotedFrom double n done c) := by
  induction n generalizing done c with
  | zero => exact .malformed
  | succ n ih =>
      rw [quotedFrom]
      refine (quotedPart_scans double _ done c).bind fun ⟨done, c⟩ => ?_
      apply (Scans.ok _).ite
      exact (quotedGap_scans c).bind fun ⟨gap, c⟩ => ih _ _

theorem readQuoted_scans (double : Bool) (c : Cursor) : Scans (readQuoted double c) :=
  quotedFrom_scans double _ _ _

end Quoted

section Properties

theorem uriBytes_scans (n : Nat) (bs : Bytes) (c : Cursor) : Scans (uriBytes n bs c) := by
  induction n generalizing bs c with
  | zero => exact .ok _
  | succ n ih =>
      rw [uriBytes]
      refine Scans.ite ?_ (.ok _)
      split
      · exact ih _ _
      · exact .malformed

theorem uriFrom_scans (n : Nat) (done : Text) (c : Cursor) : Scans (uriFrom n done c) := by
  induction n generalizing done c with
  | zero => exact .ok _
  | succ n ih =>
      rw [uriFrom]
      refine (ih _ _).ite (Scans.ite ?_ (.ok _))
      have hbytes := uriBytes_scans (c.rest.length + 1) [] c
      split
      · rename_i err herr
        exact hbytes.of_error herr
      · split
        · exact .malformed
        · exact ih _ _

theorem readUri_scans (c : Cursor) : Scans (readUri c) :=
  (uriFrom_scans _ _ c).bind fun _ => Scans.malformed.ite (.ok _)

theorem readHandle_scans (c : Cursor) : Scans (readHandle c) := by
  rw [readHandle]
  apply Scans.malformed.ite
  apply (Scans.ok _).ite
  exact (Scans.ok _).ite .malformed

theorem readTag_scans (c : Cursor) : Scans (readTag c) := by
  have close (tag : TagName) (c : Cursor) : Scans
      (if endsWord c.peek then .ok (tag, c) else .error .malformed : Except Failure _) :=
    (Scans.ok _).ite .malformed
  rw [readTag]
  split
  · refine (readUri_scans _).bind fun ⟨uri, c⟩ => ?_
    dsimp only
    split
    · exact close _ _
    · exact .malformed
  · split
    · exact close _ _
    · dsimp only
      split
      · refine (readHandle_scans _).bind fun ⟨handle, c⟩ => ?_
        exact (readUri_scans _).bind fun _ => close _ _
      · exact (readUri_scans _).bind fun _ => close _ _

theorem readAnchor_scans (c : Cursor) : Scans (readAnchor c) := (Scans.ok _).ite .malformed

theorem readVersionPart_scans (c : Cursor) : Scans (readVersionPart c) := by
  rw [readVersionPart]
  apply Scans.malformed.ite
  split
  · exact .ok _
  · exact Scanned.version _

theorem readVersion_scans (c : Cursor) : Scans (readVersion c) := by
  refine (readVersionPart_scans _).bind fun major => Scans.malformed.ite ?_
  exact (readVersionPart_scans _).bind fun minor => (Scans.ok _).ite .malformed

theorem readHandleStart_scans (c : Cursor) : Scans (readHandleStart c) := by
  refine (readHandle_scans _).bind fun handle => Scans.malformed.ite ?_
  exact (readUri_scans _).bind fun start => (Scans.ok _).ite .malformed

theorem restOfLine_scans (c : Cursor) : Scans (restOfLine c) := (Scans.ok _).ite .malformed

theorem readDirective_scans (c : Cursor) : Scans (readDirective c) := by
  have line (d : Directive) (c : Cursor) :
      Scans (do let c ← restOfLine c; .ok (d, c) : Except Failure _) :=
    (restOfLine_scans c).bind fun _ => .ok _
  rw [readDirective]
  dsimp only
  split
  · exact .malformed
  · split
    · exact (readVersion_scans _).bind fun _ => line _ _
    · split
      · exact (readHandleStart_scans _).bind fun _ => line _ _
      · exact (Scans.ok _).bind fun _ => line _ _

end Properties

section Blocks

theorem readIndent_scans (c : Cursor) : Scans (readIndent c) :=
  (Scans.malformed.ite (.ok _)).ite (.ok _)

theorem blockHeader_scans (c : Cursor) : Scans (blockHeader c) := by
  have close (k : Chomping) (indent : Option Nat) (c : Cursor) : Scans
      (if endsWord c.peek then (restOfLine c).map fun c => (k, indent, c) else .error .malformed) :=
    ((restOfLine_scans c).map _).ite .malformed
  rw [blockHeader]
  dsimp only
  split
  · exact (readIndent_scans _).bind fun _ => close _ _ _
  · refine (readIndent_scans c).bind fun ⟨indent, c⟩ => ?_
    dsimp only
    split <;> exact close _ _ _

theorem readBlock_scans (folded : Bool) (outer : Int) (c : Cursor) :
    Scans (readBlock folded outer c) :=
  (blockHeader_scans c.next).map _

end Blocks

namespace Scanner

theorem dropKeys_scans (s : Scanner) (drop : PossibleKey → Bool) : Scans (s.dropKeys drop) :=
  Scans.malformed.ite (.ok _)

theorem dropKey_scans (s : Scanner) : Scans s.dropKey := s.dropKeys_scans _

theorem saveKey_scans (s : Scanner) : Scans s.saveKey :=
  Scans.ite (s.dropKey_scans.bind fun _ => .ok _) (.ok _)

theorem leave_scans (s : Scanner) : Scans s.leave := ((s.unwind (-1)).dropKey_scans).map _

theorem takeDirective_scans (s : Scanner) : Scans s.takeDirective :=
  s.leave_scans.bind fun _ => (readDirective_scans _).bind fun _ => .ok _

theorem takeValue_scans (s : Scanner) : Scans s.takeValue := by
  rw [takeValue]
  split
  · exact .ok _
  · exact Scans.malformed.ite ((dropKey_scans _).map _)

theorem takeKeyLike_scans (s : Scanner) {read : Cursor → Except Failure (Token × Cursor)}
    (hread : ∀ c, Scans (read c)) : Scans (s.takeKeyLike read) :=
  s.saveKey_scans.bind fun _ => (hread _).bind fun _ => .ok _

theorem takeBlock_scans (s : Scanner) (folded : Bool) : Scans (s.takeBlock folded) :=
  s.dropKey_scans.bind fun _ => (readBlock_scans _ _ _).bind fun _ => .ok _

theorem takeToken_scans (s : Scanner) : Scans s.takeToken := by
  rw [takeToken]
  apply s.takeDirective_scans.ite
  apply (s.leave_scans.map _).ite
  apply (s.leave_scans.map _).ite
  apply (s.saveKey_scans.map _).ite
  apply (s.saveKey_scans.map _).ite
  apply (Scans.malformed.ite (s.dropKey_scans.map _)).ite
  apply (Scans.malformed.ite (s.dropKey_scans.map _)).ite
  apply (s.dropKey_scans.map _).ite
  apply (Scans.malformed.ite ((dropKey_scans _).map _)).ite
  apply (Scans.malformed.ite ((dropKey_scans _).map _)).ite
  apply s.takeValue_scans.ite
  apply (s.takeKeyLike_scans fun c => (readAnchor_scans c).map _).ite
  apply (s.takeKeyLike_scans fun c => (readAnchor_scans c).map _).ite
  apply (s.takeKeyLike_scans fun c => (readTag_scans c).map _).ite
  apply (s.takeBlock_scans false).ite
  apply (s.takeBlock_scans true).ite
  apply (s.takeKeyLike_scans fun c => (readQuoted_scans false c).map _).ite
  apply (s.takeKeyLike_scans fun c => (readQuoted_scans true c).map _).ite
  exact (s.saveKey_scans.map _).ite .malformed

theorem step_scans (s : Scanner) : Scans s.step := by
  rw [step]
  refine (s.skipGap.dropKeys_scans _).bind fun s => ?_
  dsimp only
  split
  · exact (leave_scans _).map _
  · exact (takeToken_scans _).map _

section Run

-- Lean runs into the depths of a step when it unfolds `run` by itself.
attribute [local irreducible] step

theorem run_succ (n : Nat) (s : Scanner) : s.run (n + 1) = match s.step with
    | .error err => s.visible err
    | .ok (.inl s) => s.run n
    | .ok (.inr ts) => ⟨ts.toList, .malformed⟩ := rfl

end Run

theorem visible_failure (s : Scanner) (err : Failure) : (s.visible err).failure = err := rfl

theorem run_failure (n : Nat) (s : Scanner) : Scanned (s.run n).failure := by
  induction n generalizing s with
  | zero =>
      have hzero : s.run 0 = s.visible .malformed := rfl
      rw [hzero, visible_failure]
      exact .malformed
  | succ n ih =>
      rw [run_succ]
      have hstep := s.step_scans
      cases h : s.step with
      | error err =>
          rw [h] at hstep
          exact hstep
      | ok after =>
          cases after with
          | inl s => exact ih s
          | inr ts => exact .malformed

end Scanner

theorem Tokens.ofText_failure (t : Text) : Scanned (Tokens.ofText t).failure := by
  rw [Tokens.ofText]
  split
  · exact Scanner.run_failure _ _
  · exact .malformed

end VaultSearch.Yaml
