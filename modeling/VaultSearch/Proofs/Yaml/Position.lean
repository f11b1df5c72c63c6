import VaultSearch.Proofs.Yaml.Progress
import VaultSearch.Yaml.Load

namespace VaultSearch.Yaml

section Apply

variable {α α' β β' ε : Type} {f : α → β}

/-- A function of a choice is the choice of what it makes of either case. -/
theorem ite_eq_apply {p : Prop} [Decidable p] {x y : α} {x' y' : β} (hx : x' = f x)
    (hy : y' = f y) : (if p then x' else y') = f (if p then x else y) := by
  split
  · exact hx
  · exact hy

theorem bind_eq_map {x : Except ε α} {g : α → α'} {h : β → β'} {k : α → Except ε β}
    {k' : α' → Except ε β'} (hk : ∀ a, k' (g a) = (k a).map h) :
    (x.map g >>= k') = (x >>= k).map h := by
  cases x with
  | error err => rfl
  | ok a => exact hk a

theorem map_eq_map {x : Except ε α} {g : α → α'} {h : β → β'} {k : α → β} {k' : α' → β'}
    (hk : ∀ a, k' (g a) = h (k a)) : (x.map g).map k' = (x.map k).map h := by
  cases x with
  | error err => rfl
  | ok a => exact congrArg Except.ok (hk a)

end Apply

namespace Cursor

def shift (i l : Nat) (c : Cursor) : Cursor := { c with index := c.index + i, line := c.line + l }

def shiftSnd {α : Type} (i l : Nat) (a : α × Cursor) : α × Cursor := (a.1, a.2.shift i l)

variable {α : Type} (i l : Nat) (c : Cursor)

@[simp] theorem shiftSnd_fst (a : α × Cursor) : (shiftSnd i l a).1 = a.1 := rfl

@[simp] theorem shiftSnd_snd (a : α × Cursor) : (shiftSnd i l a).2 = a.2.shift i l := rfl

@[simp] theorem rest_shift : (c.shift i l).rest = c.rest := rfl

@[simp] theorem peek_shift : (c.shift i l).peek = c.peek := rfl

@[simp] theorem peekAt_shift (n : Nat) : (c.shift i l).peekAt n = c.peekAt n := rfl

@[simp] theorem next_shift : (c.shift i l).next = c.next.shift i l := by
  rw [next, next, rest_shift]
  cases c.rest with
  | nil => rfl
  | cons x t =>
      dsimp only
      split <;> simp [shift, Nat.add_right_comm]

@[simp] theorem skip_shift (n : Nat) : (c.shift i l).skip n = (c.skip n).shift i l := by
  induction n generalizing c with
  | zero => rfl
  | succ n ih => rw [skip, skip, next_shift, ih]

@[simp] theorem span_shift (p : Char → Bool) :
    (c.shift i l).span p = shiftSnd i l (c.span p) := by
  rw [span, span, rest_shift, skip_shift]
  rfl

@[simp] theorem skipWhile_shift (p : Char → Bool) :
    (c.shift i l).skipWhile p = (c.skipWhile p).shift i l := by
  rw [skipWhile, skipWhile, span_shift]
  rfl

@[simp] theorem takeBreak_shift : (c.shift i l).takeBreak = shiftSnd i l c.takeBreak := by
  rw [takeBreak, takeBreak, rest_shift, skip_shift, next_shift]
  split
  · rfl
  · split
    · rfl
    · split <;> rfl
  · rfl

@[simp] theorem pastComment_shift : (c.shift i l).pastComment = c.pastComment.shift i l := by
  simp only [pastComment, skipWhile_shift, peek_shift]
  split <;> rfl

end Cursor

open Cursor

section Plain

variable (i l : Nat) (c : Cursor)

theorem plainBreaks_shift (n : Nat) (breaks : Text) :
    plainBreaks n breaks (c.shift i l) = shiftSnd i l (plainBreaks n breaks c) := by
  induction n generalizing breaks c with
  | zero => rfl
  | succ n ih =>
      rw [plainBreaks, plainBreaks, next_shift, takeBreak_shift]
      dsimp only
      refine ite_eq_apply (ih _ _) (ite_eq_apply ?_ rfl)
      exact ite_eq_apply rfl (ih _ _)

theorem plainGap_shift :
    plainGap (c.shift i l) = Prod.map id (shiftSnd i l) (plainGap c) := by
  rw [plainGap, plainGap, span_shift]
  dsimp only [shiftSnd]
  rw [takeBreak_shift]
  dsimp only [shiftSnd]
  refine ite_eq_apply (ite_eq_apply rfl ?_) rfl
  rw [plainBreaks_shift]
  rfl

theorem plainFrom_shift (flow : Bool) (indent : Int) (n : Nat) (done gap : Text) (broke : Bool) :
    plainFrom flow indent n done gap broke (c.shift i l) =
      Prod.map id (shiftSnd i l) (plainFrom flow indent n done gap broke c) := by
  induction n generalizing done gap broke c with
  | zero => rfl
  | succ n ih =>
      rw [plainFrom, plainFrom, rest_shift, skip_shift, plainGap_shift]
      refine ite_eq_apply rfl ?_
      obtain ⟨found, broke, d⟩ := plainGap (c.skip (plainLength flow c.rest))
      cases found with
      | none => rfl
      | some gap => exact ite_eq_apply rfl (ih _ _ _ _)

theorem readPlain_shift (flow : Bool) (indent : Int) :
    readPlain flow indent (c.shift i l) = Prod.map id (shiftSnd i l) (readPlain flow indent c) :=
  plainFrom_shift i l c flow indent _ _ _ _

end Plain

section Quoted

variable (i l : Nat) (c : Cursor)

theorem quotedBreaks_shift (n : Nat) (breaks : Text) :
    quotedBreaks n breaks (c.shift i l) = (quotedBreaks n breaks c).map (shiftSnd i l) := by
  induction n generalizing breaks c with
  | zero => rfl
  | succ n ih =>
      simp only [quotedBreaks, skipWhile_shift, takeBreak_shift, shiftSnd]
      exact ite_eq_apply rfl (ite_eq_apply (ih _ _) rfl)

theorem readEscape_shift : readEscape (c.shift i l) = (readEscape c).map (shiftSnd i l) := by
  rw [readEscape, readEscape, peek_shift, next_shift, takeBreak_shift]
  dsimp only [shiftSnd, rest_shift]
  split
  · rfl
  · split
    · rw [skip_shift]
      dsimp only [rest_shift]
      split
      · rfl
      · rename_i width _ _ code _
        cases characterOf code (c.next.skip width).rest with
        | error err => rfl
        | ok a =>
            simp only [Except.map, skip_shift]
            rfl
    · exact ite_eq_apply (quotedBreaks_shift i l _ _ _) rfl

theorem quotedPart_shift (double : Bool) (n : Nat) (done : Text) :
    quotedPart double n done (c.shift i l) = (quotedPart double n done c).map (shiftSnd i l) := by
  induction n generalizing done c with
  | zero => rfl
  | succ n ih =>
      rw [quotedPart, quotedPart, rest_shift, next_shift, skip_shift, readEscape_shift]
      split
      · rfl
      · refine ite_eq_apply (ih _ _) (ite_eq_apply ?_ (ite_eq_apply rfl (ih _ _)))
        cases readEscape c.next with
        | error err => rfl
        | ok a => exact ih _ _

theorem quotedGap_shift : quotedGap (c.shift i l) = (quotedGap c).map (shiftSnd i l) := by
  rw [quotedGap, quotedGap, span_shift]
  dsimp only [shiftSnd]
  rw [takeBreak_shift]
  dsimp only [shiftSnd, rest_shift]
  rw [quotedBreaks_shift]
  exact ite_eq_apply rfl (ite_eq_apply (map_eq_map fun _ => rfl) rfl)

theorem quotedFrom_shift (double : Bool) (n : Nat) (done : Text) :
    quotedFrom double n done (c.shift i l) = (quotedFrom double n done c).map (shiftSnd i l) := by
  induction n generalizing done c with
  | zero => rfl
  | succ n ih =>
      rw [quotedFrom, quotedFrom, rest_shift, quotedPart_shift]
      refine bind_eq_map fun a => ?_
      dsimp only [shiftSnd]
      rw [next_shift, quotedGap_shift]
      exact ite_eq_apply rfl (bind_eq_map fun b => ih _ _)

theorem readQuoted_shift (double : Bool) :
    readQuoted double (c.shift i l) = (readQuoted double c).map (shiftSnd i l) := by
  rw [readQuoted, readQuoted, next_shift]
  exact quotedFrom_shift i l _ double _ _

end Quoted

section Properties

variable (i l : Nat) (c : Cursor)

theorem uriBytes_shift (n : Nat) (bs : Bytes) :
    uriBytes n bs (c.shift i l) = (uriBytes n bs c).map (shiftSnd i l) := by
  induction n generalizing bs c with
  | zero => rfl
  | succ n ih =>
      rw [uriBytes, uriBytes, skip_shift, peekAt_shift, peekAt_shift]
      refine ite_eq_apply ?_ rfl
      split
      · exact ih _ _
      · rfl

theorem uriFrom_shift (n : Nat) (done : Text) :
    uriFrom n done (c.shift i l) = (uriFrom n done c).map (shiftSnd i l) := by
  induction n generalizing done c with
  | zero => rfl
  | succ n ih =>
      rw [uriFrom, uriFrom, next_shift, rest_shift, uriBytes_shift]
      refine ite_eq_apply (ih _ _) (ite_eq_apply ?_ rfl)
      cases uriBytes (c.rest.length + 1) [] c with
      | error err => rfl
      | ok a =>
          dsimp only [Except.map, shiftSnd]
          split
          · rfl
          · exact ih _ _

theorem readUri_shift : readUri (c.shift i l) = (readUri c).map (shiftSnd i l) := by
  rw [readUri, readUri, rest_shift, uriFrom_shift]
  refine bind_eq_map fun a => ?_
  have hindex : (a.2.shift i l).index = (c.shift i l).index ↔ a.2.index = c.index :=
    Nat.add_right_cancel_iff
  simp only [shiftSnd_fst, shiftSnd_snd, hindex]
  exact ite_eq_apply rfl rfl

theorem readHandle_shift : readHandle (c.shift i l) = (readHandle c).map (shiftSnd i l) := by
  simp only [readHandle, next_shift, span_shift, shiftSnd]
  exact ite_eq_apply rfl (ite_eq_apply rfl (ite_eq_apply rfl rfl))

theorem readAnchor_shift : readAnchor (c.shift i l) = (readAnchor c).map (shiftSnd i l) := by
  simp only [readAnchor, next_shift, span_shift, shiftSnd]
  exact ite_eq_apply rfl rfl

theorem readTag_shift : readTag (c.shift i l) = (readTag c).map (shiftSnd i l) := by
  have close (tag : TagName) (c : Cursor) :
      (if endsWord (c.shift i l).peek then .ok (tag, c.shift i l) else .error .malformed :
        Except Failure _) =
      (if endsWord c.peek then .ok (tag, c) else .error .malformed :
        Except Failure _).map (shiftSnd i l) :=
    ite_eq_apply rfl rfl
  rw [readTag, readTag, peekAt_shift, skip_shift, readUri_shift, next_shift, rest_shift,
    readHandle_shift]
  split
  · refine bind_eq_map fun a => ?_
    dsimp only [shiftSnd]
    rw [next_shift]
    exact ite_eq_apply (close _ _) rfl
  · split
    · exact close _ _
    · dsimp only
      split
      · refine bind_eq_map fun a => ?_
        dsimp only [shiftSnd]
        rw [readUri_shift]
        exact bind_eq_map fun _ => close _ _
      · change (readUri (c.next.shift i l) >>= _) = Except.map _ (readUri c.next >>= _)
        rw [readUri_shift]
        exact bind_eq_map fun _ => close _ _

theorem readVersionPart_shift :
    readVersionPart (c.shift i l) = (readVersionPart c).map (shiftSnd i l) := by
  simp only [readVersionPart, span_shift, shiftSnd]
  refine ite_eq_apply rfl ?_
  split <;> rfl

theorem readVersion_shift : readVersion (c.shift i l) = (readVersion c).map (shiftSnd i l) := by
  rw [readVersion, readVersion, skipWhile_shift, readVersionPart_shift]
  refine bind_eq_map fun a => ite_eq_apply rfl ?_
  dsimp only
  rw [next_shift, readVersionPart_shift]
  exact bind_eq_map fun _ => ite_eq_apply rfl rfl

theorem readHandleStart_shift :
    readHandleStart (c.shift i l) = (readHandleStart c).map (shiftSnd i l) := by
  rw [readHandleStart, readHandleStart, skipWhile_shift, readHandle_shift]
  refine bind_eq_map fun a => ite_eq_apply rfl ?_
  dsimp only
  rw [skipWhile_shift, readUri_shift]
  exact bind_eq_map fun _ => ite_eq_apply rfl rfl

theorem restOfLine_shift : restOfLine (c.shift i l) = (restOfLine c).map (shift i l) := by
  rw [restOfLine_eq, restOfLine_eq, pastComment_shift, takeBreak_shift]
  exact ite_eq_apply rfl rfl

theorem readDirective_shift :
    readDirective (c.shift i l) = (readDirective c).map (shiftSnd i l) := by
  have line (x : Except Failure (Directive × Cursor)) :
      (do let a ← x.map (shiftSnd i l); let c ← restOfLine a.2; .ok (a.1, c)) =
        (do let a ← x; let c ← restOfLine a.2; .ok (a.1, c)).map (shiftSnd i l) := by
    refine bind_eq_map fun a => ?_
    dsimp only [shiftSnd]
    rw [restOfLine_shift]
    exact bind_eq_map fun _ => rfl
  simp only [readDirective, next_shift, span_shift, shiftSnd]
  refine ite_eq_apply rfl ?_
  rw [readVersion_shift, readHandleStart_shift, skipWhile_shift]
  split
  · exact line _
  · split
    · exact line _
    · exact line (.ok (.other, (c.next.span isNameChar).2.skipWhile (!endsLine ·)))

end Properties

section Blocks

variable (i l : Nat) (c : Cursor)

theorem readIndent_shift : readIndent (c.shift i l) = (readIndent c).map (shiftSnd i l) := by
  rw [readIndent, readIndent, next_shift]
  exact ite_eq_apply (ite_eq_apply rfl rfl) rfl

theorem blockHeader_shift :
    blockHeader (c.shift i l) = (blockHeader c).map (Prod.map id (shiftSnd i l)) := by
  have close (k : Chomping) (indent : Option Nat) (c : Cursor) :
      (if endsWord (c.shift i l).peek then (restOfLine (c.shift i l)).map fun c => (k, indent, c)
        else .error .malformed : Except Failure _) =
      (if endsWord c.peek then (restOfLine c).map fun c => (k, indent, c)
        else .error .malformed : Except Failure _).map (Prod.map id (shiftSnd i l)) := by
    rw [restOfLine_shift]
    exact ite_eq_apply (map_eq_map fun _ => rfl) rfl
  rw [blockHeader, blockHeader, peek_shift, next_shift, readIndent_shift, readIndent_shift]
  split
  · exact bind_eq_map fun _ => close _ _ _
  · refine bind_eq_map fun a => ?_
    dsimp only [shiftSnd, peek_shift]
    rw [next_shift]
    split
    · exact close _ _ _
    · exact close _ _ _

theorem blankLines_shift (n : Nat) (breaks : Text) (widest : Nat) :
    blankLines n breaks widest (c.shift i l) =
      Prod.map id (shiftSnd i l) (blankLines n breaks widest c) := by
  induction n generalizing breaks widest c with
  | zero => rfl
  | succ n ih =>
      simp only [blankLines, next_shift, takeBreak_shift, shiftSnd]
      exact ite_eq_apply (ih _ _ _) (ite_eq_apply (ih _ _ _) rfl)

theorem skipIndent_shift (indent n : Nat) :
    skipIndent indent n (c.shift i l) = (skipIndent indent n c).shift i l := by
  induction n generalizing c with
  | zero => rfl
  | succ n ih =>
      rw [skipIndent, skipIndent, next_shift]
      exact ite_eq_apply (ih _) rfl

theorem emptyLines_shift (indent n : Nat) (breaks : Text) :
    emptyLines indent n breaks (c.shift i l) = shiftSnd i l (emptyLines indent n breaks c) := by
  induction n generalizing breaks c with
  | zero => rfl
  | succ n ih =>
      simp only [emptyLines, skipIndent_shift, takeBreak_shift, shiftSnd]
      exact ite_eq_apply (ih _ _) rfl

theorem blockLines_shift (folded : Bool) (indent n : Nat) (b : BlockText) :
    blockLines folded indent n b (c.shift i l) = shiftSnd i l (blockLines folded indent n b c) := by
  induction n generalizing b c with
  | zero => rfl
  | succ n ih =>
      simp only [blockLines, span_shift, takeBreak_shift, emptyLines_shift, shiftSnd_fst,
        shiftSnd_snd, rest_shift]
      exact ite_eq_apply (ite_eq_apply (ih _ _) rfl) rfl

theorem readBlock_shift (folded : Bool) (outer : Int) :
    readBlock folded outer (c.shift i l) = (readBlock folded outer c).map (shiftSnd i l) := by
  rw [readBlock, readBlock, next_shift, blockHeader_shift]
  refine map_eq_map fun a => ?_
  obtain ⟨chomping, given, c⟩ := a
  cases given with
  | none =>
      simp only [Prod.map, id, shiftSnd, rest_shift, blankLines_shift, blockLines_shift]
  | some n =>
      simp only [Prod.map, id, shiftSnd, rest_shift, emptyLines_shift, blockLines_shift]

end Blocks

namespace PossibleKey

def shift (i l : Nat) (k : PossibleKey) : PossibleKey :=
  { k with index := k.index + i, line := k.line + l }

end PossibleKey

namespace Scanner

def shift (i l : Nat) (s : Scanner) : Scanner :=
  { s with cursor := s.cursor.shift i l, keys := s.keys.map (·.shift i l) }

variable (i l : Nat) (s : Scanner)

theorem isStale_shift (c : Cursor) (k : PossibleKey) :
    isStale (c.shift i l) (k.shift i l) = isStale c k := by
  simp [isStale, Cursor.shift, PossibleKey.shift, Nat.add_sub_add_right]

theorem dropKeys_shift {drop drop' : PossibleKey → Bool}
    (h : ∀ k, drop' (k.shift i l) = drop k) :
    (s.shift i l).dropKeys drop' = (s.dropKeys drop).map (shift i l) := by
  have hany : (s.keys.map (·.shift i l)).any (fun k => drop' k && k.required) =
      s.keys.any fun k => drop k && k.required := by
    rw [List.any_map]
    exact congrArg s.keys.any (funext fun k => by rw [Function.comp_apply, h]; rfl)
  have hfilter : (s.keys.map (·.shift i l)).filter (!drop' ·) =
      (s.keys.filter (!drop ·)).map (·.shift i l) := by
    rw [List.filter_map]
    have hcomp : (!drop' ·) ∘ (PossibleKey.shift i l) = (!drop ·) :=
      funext fun k => congrArg (!·) (h k)
    rw [hcomp]
  rw [dropKeys, dropKeys]
  simp only [shift, hany, hfilter]
  exact ite_eq_apply rfl rfl

theorem dropStale_shift : (s.shift i l).dropStale = s.dropStale.map (shift i l) :=
  dropKeys_shift i l s (isStale_shift i l s.cursor)

theorem dropKey_shift {i l : Nat} {s s' : Scanner} (h : s' = s.shift i l) :
    s'.dropKey = s.dropKey.map (shift i l) := by
  rw [h]
  exact dropKeys_shift i l s fun _ => rfl

theorem saveKey_shift : (s.shift i l).saveKey = s.saveKey.map (shift i l) := by
  rw [saveKey, saveKey, dropKey_shift rfl]
  exact ite_eq_apply (bind_eq_map fun _ => rfl) rfl

theorem unwind_shift (column : Int) : (s.shift i l).unwind column = (s.unwind column).shift i l := by
  rw [unwind, unwind]
  exact ite_eq_apply rfl rfl

theorem openBlock_shift {i l : Nat} {s s' : Scanner} (h : s' = s.shift i l) (column place : Nat)
    (t : Token) : s'.openBlock column place t = (s.openBlock column place t).shift i l := by
  rw [h]
  exact ite_eq_apply rfl rfl

theorem take_shift {i l : Nat} {s s' : Scanner} (h : s' = s.shift i l) (n : Nat) (t : Token) :
    s'.take n t = (s.take n t).shift i l := by
  rw [h]
  simp [take, shift]

theorem leave_shift : (s.shift i l).leave = s.leave.map (shift i l) := by
  rw [leave, leave, unwind_shift, dropKey_shift rfl]
  exact map_eq_map fun _ => rfl

theorem takeDirective_shift : (s.shift i l).takeDirective = s.takeDirective.map (shift i l) := by
  rw [takeDirective, takeDirective, leave_shift]
  refine bind_eq_map fun s => ?_
  simp only [shift, readDirective_shift]
  exact bind_eq_map fun _ => rfl

theorem takeMark_shift (t : Token) : (s.shift i l).takeMark t = (s.takeMark t).map (shift i l) := by
  rw [takeMark, takeMark, leave_shift]
  exact map_eq_map fun s => take_shift (by rfl) 3 t

theorem openFlow_shift (t : Token) : (s.shift i l).openFlow t = (s.openFlow t).map (shift i l) := by
  rw [openFlow, openFlow, saveKey_shift]
  exact map_eq_map fun s => take_shift (by rfl) 1 t

theorem closeFlow_shift (t : Token) :
    (s.shift i l).closeFlow t = (s.closeFlow t).map (shift i l) := by
  rw [closeFlow, closeFlow, dropKey_shift rfl]
  exact ite_eq_apply rfl (map_eq_map fun s => take_shift (by rfl) 1 t)

theorem takeFlowEntry_shift : (s.shift i l).takeFlowEntry = s.takeFlowEntry.map (shift i l) := by
  rw [takeFlowEntry, takeFlowEntry, dropKey_shift rfl]
  exact map_eq_map fun s => take_shift (by rfl) 1 _

theorem takeBlockEntry_shift :
    (s.shift i l).takeBlockEntry = s.takeBlockEntry.map (shift i l) := by
  rw [takeBlockEntry, takeBlockEntry, openBlock_shift rfl, dropKey_shift rfl]
  exact ite_eq_apply rfl (map_eq_map fun s => take_shift (by rfl) 1 _)

theorem takeKey_shift : (s.shift i l).takeKey = s.takeKey.map (shift i l) := by
  rw [takeKey, takeKey, openBlock_shift rfl, dropKey_shift rfl]
  exact ite_eq_apply rfl (map_eq_map fun s => take_shift (by rfl) 1 _)

theorem takeValue_shift : (s.shift i l).takeValue = s.takeValue.map (shift i l) := by
  have hfind : (s.shift i l).keys.find? (·.level = (s.shift i l).level) =
      (s.keys.find? (·.level = s.level)).map (·.shift i l) := by
    rw [shift, List.find?_map]
    rfl
  have hfilter : (s.shift i l).keys.filter (·.level ≠ (s.shift i l).level) =
      (s.keys.filter (·.level ≠ s.level)).map (·.shift i l) := by
    rw [shift, List.filter_map]
    rfl
  have unkeyed (u : Scanner) :
      (dropKey { u.shift i l with keyAllowed := (u.shift i l).level = 0 }).map (take · 1 .value) =
        ((dropKey { u with keyAllowed := u.level = 0 }).map (take · 1 .value)).map (shift i l) := by
    have hdrop : dropKey { u.shift i l with keyAllowed := (u.shift i l).level = 0 } =
        (dropKey { u with keyAllowed := u.level = 0 }).map (shift i l) := dropKey_shift rfl
    rw [hdrop]
    exact map_eq_map fun _ => take_shift (by rfl) 1 .value
  rw [takeValue, takeValue, hfind, hfilter]
  cases s.keys.find? (·.level = s.level) with
  | none =>
      refine ite_eq_apply rfl ?_
      rw [openBlock_shift rfl]
      exact unkeyed _
  | some k =>
      refine congrArg Except.ok (take_shift ?_ 1 .value)
      exact openBlock_shift (by rfl) _ _ _

theorem takeKeyLike_shift {α : Type} {read : Cursor → Except Failure (α × Cursor)}
    (h : ∀ c, read (c.shift i l) = (read c).map (shiftSnd i l)) (f : α → Token) :
    (s.shift i l).takeKeyLike (fun c => (read c).map fun a => (f a.1, a.2)) =
      (s.takeKeyLike fun c => (read c).map fun a => (f a.1, a.2)).map (shift i l) := by
  have hread : ∀ c : Cursor, (read (c.shift i l)).map (fun a => (f a.1, a.2)) =
      ((read c).map fun a => (f a.1, a.2)).map (shiftSnd i l) := by
    intro c
    rw [h]
    exact map_eq_map fun _ => rfl
  rw [takeKeyLike, takeKeyLike, saveKey_shift]
  refine bind_eq_map fun s => ?_
  simp only [shift, hread]
  exact bind_eq_map fun _ => rfl

theorem takePlain_shift : (s.shift i l).takePlain = s.takePlain.map (shift i l) := by
  rw [takePlain, takePlain, saveKey_shift]
  refine map_eq_map fun s => ?_
  simp only [shift, readPlain_shift]
  rfl

theorem takeBlock_shift (folded : Bool) :
    (s.shift i l).takeBlock folded = (s.takeBlock folded).map (shift i l) := by
  rw [takeBlock, takeBlock, dropKey_shift rfl]
  refine bind_eq_map fun s => ?_
  simp only [shift, readBlock_shift]
  exact bind_eq_map fun _ => rfl

theorem takeToken_shift : (s.shift i l).takeToken = s.takeToken.map (shift i l) := by
  rw [takeToken, takeToken]
  refine ite_eq_apply (takeDirective_shift i l s) ?_
  refine ite_eq_apply (takeMark_shift i l s _) ?_
  refine ite_eq_apply (takeMark_shift i l s _) ?_
  refine ite_eq_apply (openFlow_shift i l s _) ?_
  refine ite_eq_apply (openFlow_shift i l s _) ?_
  refine ite_eq_apply (closeFlow_shift i l s _) ?_
  refine ite_eq_apply (closeFlow_shift i l s _) ?_
  refine ite_eq_apply (takeFlowEntry_shift i l s) ?_
  refine ite_eq_apply (takeBlockEntry_shift i l s) ?_
  refine ite_eq_apply (takeKey_shift i l s) ?_
  refine ite_eq_apply (takeValue_shift i l s) ?_
  refine ite_eq_apply (takeKeyLike_shift i l s (readAnchor_shift i l) .alias) ?_
  refine ite_eq_apply (takeKeyLike_shift i l s (readAnchor_shift i l) .anchor) ?_
  refine ite_eq_apply (takeKeyLike_shift i l s (readTag_shift i l) .tag) ?_
  refine ite_eq_apply (takeBlock_shift i l s false) ?_
  refine ite_eq_apply (takeBlock_shift i l s true) ?_
  refine ite_eq_apply (takeKeyLike_shift i l s (readQuoted_shift i l · false) (.scalar false)) ?_
  refine ite_eq_apply (takeKeyLike_shift i l s (readQuoted_shift i l · true) (.scalar false)) ?_
  exact ite_eq_apply (takePlain_shift i l s) rfl

theorem skipGapFrom_shift (c : Cursor) (flow : Bool) (n : Nat) (allowed : Bool) :
    skipGapFrom flow n allowed (c.shift i l) = shiftSnd i l (skipGapFrom flow n allowed c) := by
  induction n generalizing allowed c with
  | zero => rfl
  | succ n ih =>
      rw [skipGapFrom_succ, skipGapFrom_succ, pastComment_shift, takeBreak_shift]
      exact ite_eq_apply (ih _ _) rfl

/-- The gap in front of a cursor is the same from any place, as long as no byte order mark counts
there. -/
theorem skipGap_shift {s' : Scanner} (h : s' = s.shift i l)
    (hmark : s.pastMark = s.cursor) (hmark' : s'.pastMark = s'.cursor) :
    s'.skipGap = s.skipGap.shift i l := by
  have hgap : s'.gap = shiftSnd i l s.gap := by
    rw [gap, gap, hmark, hmark', h]
    exact skipGapFrom_shift i l _ _ _ _
  rw [skipGap_eq, skipGap_eq, hgap, h]
  generalize s.gap = found
  rfl

theorem stepFrom_shift : (s.shift i l).stepFrom = s.stepFrom.map (Sum.map (shift i l) id) := by
  rw [stepFrom, stepFrom, dropStale_shift]
  refine bind_eq_map fun s => ?_
  dsimp only
  rw [unwind_shift, leave_shift, takeToken_shift]
  exact ite_eq_apply (map_eq_map fun _ => rfl) (map_eq_map fun _ => rfl)

theorem visible_shift (e : Failure) : (s.shift i l).visible e = s.visible e := by
  have hfresh : ((s.keys.map (·.shift i l)).filter (!isStale (s.cursor.shift i l) ·)) =
      (s.keys.filter (!isStale s.cursor ·)).map (·.shift i l) := by
    have hcomp : (!isStale (s.cursor.shift i l) ·) ∘ (PossibleKey.shift i l) =
        (!isStale s.cursor ·) :=
      funext fun k => congrArg (!·) (isStale_shift i l s.cursor k)
    rw [List.filter_map, hcomp]
  simp only [visible, shift, hfresh, List.foldl_map]
  rfl

/-- Past the first character a run goes on the same, wherever it is. -/
theorem run_shift (n : Nat) (hindex : 0 < s.cursor.index) : (s.shift i l).run n = s.run n := by
  induction n generalizing s with
  | zero => exact visible_shift i l s .malformed
  | succ n ih =>
      have hgap : (s.shift i l).skipGap = s.skipGap.shift i l := by
        apply skipGap_shift i l s rfl
        · exact if_neg (by simp; omega)
        · exact if_neg (by simp [shift, Cursor.shift]; omega)
      have hstep : (s.shift i l).step = s.step.map (Sum.map (shift i l) id) := by
        rw [step_eq, step_eq, hgap, stepFrom_shift]
      rw [run_succ, run_succ, hstep]
      cases h : s.step with
      | error err => exact visible_shift i l s err
      | ok after =>
          cases after with
          | inl t =>
              exact ih t (Nat.lt_of_le_of_lt (Nat.zero_le _) (step_passes h).2)
          | inr ts => rfl

end Scanner

def Scanner.start (t : Text) : Scanner := ⟨⟨t, 0, 0, 0⟩, #[], 0, -1, [], true, []⟩

section Newline

variable {t : Text} (h : t.head? ≠ some byteOrderMark)

include h

theorem Scanner.skipGap_newline : (start ('\n' :: t)).skipGap = (start t).skipGap.shift 1 1 := by
  have hmark : (start t).pastMark = (start t).cursor := by
    apply if_neg
    cases t with
    | nil => decide
    | cons x t => simpa [start, peek, Cursor.peek] using h
  have hpast : (start ('\n' :: t)).cursor.pastComment = (start ('\n' :: t)).cursor := by
    simp [start, Cursor.pastComment, skipWhile, span, Cursor.skip, Cursor.peek]
  have hgap : (start ('\n' :: t)).gap = shiftSnd 1 1 (start t).gap := by
    rw [gap, gap, hmark, ← skipGapFrom_shift]
    have hnone : (start ('\n' :: t)).pastMark = (start ('\n' :: t)).cursor := rfl
    rw [hnone, skipGapFrom_succ, hpast]
    exact if_pos rfl
  rw [skipGap_eq, skipGap_eq, hgap]
  generalize (start t).gap = found
  rfl

theorem Tokens.ofText_newline : Tokens.ofText ('\n' :: t) = Tokens.ofText t := by
  have hallowed : ('\n' :: t).all isAllowed = t.all isAllowed := by
    rw [List.all_cons, show isAllowed '\n' = true from by decide, Bool.true_and]
  have hstep : (Scanner.start ('\n' :: t)).step =
      (Scanner.start t).step.map (Sum.map (Scanner.shift 1 1) id) := by
    rw [Scanner.step_eq, Scanner.step_eq, Scanner.skipGap_newline h, Scanner.stepFrom_shift]
  have hrun : (Scanner.start ('\n' :: t)).run (t.length + 1 + 1) =
      (Scanner.start t).run (t.length + 1) := by
    rw [Scanner.run_succ, Scanner.run_succ, hstep]
    cases hs : (Scanner.start t).step with
    | error err => rfl
    | ok after =>
        cases after with
        | inr ts => rfl
        | inl s =>
            obtain ⟨hlength, hindex⟩ := Scanner.step_passes hs
            have hpos : 0 < s.cursor.index := Nat.lt_of_le_of_lt (Nat.zero_le _) hindex
            change (s.shift 1 1).run (t.length + 1) = s.run t.length
            rw [Scanner.run_shift 1 1 s _ hpos]
            exact Scanner.run_of_length_lt (Nat.lt_succ_of_lt hlength) hlength
  rw [ofText, ofText, hallowed]
  split
  · exact hrun
  · rfl

/-- A line feed in front of a text makes no difference, unless the text starts with a byte order mark:
that is passed over at the very start only. -/
theorem load_newline : load ('\n' :: t) = load t := by
  rw [load, load, Graph.ofText, Graph.ofText, Tokens.ofText_newline h]

end Newline

end VaultSearch.Yaml
