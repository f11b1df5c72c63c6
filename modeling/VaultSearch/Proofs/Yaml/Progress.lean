import VaultSearch.Proofs.Yaml.Scanner

namespace VaultSearch.Yaml

namespace Cursor

theorem rest_next (c : Cursor) : c.next.rest = c.rest.tail := by
  rw [next]
  split
  · rename_i h
    rw [h]
    rfl
  · rename_i h
    rw [h]
    split <;> rfl

theorem index_next (c : Cursor) (h : c.rest ≠ []) : c.next.index = c.index + 1 := by
  rw [next]
  split
  · rename_i hnil
    exact absurd hnil h
  · split <;> rfl

theorem skip_skip (c : Cursor) (m n : Nat) : (c.skip m).skip n = c.skip (m + n) := by
  induction m generalizing c with
  | zero => rw [Nat.zero_add, skip]
  | succ m ih => rw [Nat.succ_add, skip, skip, ih]

theorem rest_skip (c : Cursor) (n : Nat) : (c.skip n).rest = c.rest.drop n := by
  induction n generalizing c with
  | zero => rfl
  | succ n ih => rw [skip, ih, rest_next, List.drop_tail]

theorem index_skip (c : Cursor) (n : Nat) : c.index ≤ (c.skip n).index := by
  induction n generalizing c with
  | zero => exact Nat.le_refl _
  | succ n ih =>
      refine Nat.le_trans ?_ (ih c.next)
      rw [next]
      split
      · exact Nat.le_refl _
      · split <;> exact Nat.le_succ _

/-- A cursor has come from another by passing characters only. -/
def Onward (o c : Cursor) : Prop := ∃ n, c = o.skip n

namespace Onward

variable {o c d : Cursor}

theorem refl (o : Cursor) : o.Onward o := ⟨0, rfl⟩

theorem trans (h : o.Onward c) (h' : c.Onward d) : o.Onward d := by
  obtain ⟨m, rfl⟩ := h
  obtain ⟨n, rfl⟩ := h'
  exact ⟨m + n, skip_skip o m n⟩

theorem skip (h : o.Onward c) (n : Nat) : o.Onward (c.skip n) := h.trans ⟨n, rfl⟩

theorem next (h : o.Onward c) : o.Onward c.next := h.skip 1

theorem span (h : o.Onward c) (p : Char → Bool) : o.Onward (c.span p).2 := h.skip _

theorem skipWhile (h : o.Onward c) (p : Char → Bool) : o.Onward (c.skipWhile p) := h.skip _

theorem takeBreak (h : o.Onward c) : o.Onward c.takeBreak.2 := by
  rw [Cursor.takeBreak]
  split
  · exact h.skip 2
  · split
    · exact h.next
    · split
      · exact h.next
      · exact h
  · exact h

theorem length_le (h : o.Onward c) : c.rest.length ≤ o.rest.length := by
  obtain ⟨n, rfl⟩ := h
  rw [rest_skip, List.length_drop]
  exact Nat.sub_le _ _

theorem index_le (h : o.Onward c) : o.index ≤ c.index := by
  obtain ⟨n, rfl⟩ := h
  exact index_skip o n

/-- Once a character has been passed, the text that is left is shorter for good. -/
theorem of_next (hrest : o.rest ≠ []) (h : o.next.Onward c) :
    c.rest.length < o.rest.length ∧ o.index < c.index := by
  have hlength := h.length_le
  have hindex := h.index_le
  have hpos := List.length_pos_iff.mpr hrest
  rw [rest_next, List.length_tail] at hlength
  rw [index_next o hrest] at hindex
  omega

end Onward

end Cursor

abbrev Moves {α : Type} (o : Cursor) (x : Except Failure (α × Cursor)) : Prop :=
  Meets (fun _ => True) (fun a => o.Onward a.2) x

section Plain

variable {o c : Cursor}

theorem plainBreaks_onward (h : o.Onward c) (n : Nat) (breaks : Text) :
    o.Onward (plainBreaks n breaks c).2 := by
  induction n generalizing breaks c with
  | zero => exact h
  | succ n ih =>
      rw [plainBreaks]
      split
      · exact ih h.next _
      · split
        · dsimp only
          split
          · exact h.takeBreak
          · exact ih h.takeBreak _
        · exact h

theorem plainGap_onward (h : o.Onward c) : o.Onward (plainGap c).2.2 := by
  have hspan := h.span (· == ' ')
  rw [plainGap]
  dsimp only
  split
  · split
    · exact hspan.takeBreak
    · exact plainBreaks_onward hspan.takeBreak _ _
  · exact hspan

theorem plainFrom_onward (flow : Bool) (indent : Int) (n : Nat) (done gap : Text) (broke : Bool)
    (h : o.Onward c) : o.Onward (plainFrom flow indent n done gap broke c).2.2 := by
  induction n generalizing done gap broke c with
  | zero => exact h
  | succ n ih =>
      rw [plainFrom]
      dsimp only
      split
      · exact h
      · have hgap := plainGap_onward (h.skip (plainLength flow c.rest))
        split
        · rename_i hnone
          rwa [hnone] at hgap
        · rename_i hsome
          rw [hsome] at hgap
          split
          · exact hgap
          · exact ih _ _ _ hgap

/-- A scalar that starts where the cursor stands takes a character at least. -/
theorem readPlain_passes {flow : Bool} (hmark : c.peek ≠ '#') (hlength : plainLength flow c.rest ≠ 0)
    (indent : Int) : c.next.Onward (readPlain flow indent c).2.2 := by
  have hskip : c.next.Onward (c.skip (plainLength flow c.rest)) := by
    obtain ⟨k, hk⟩ := Nat.exists_eq_succ_of_ne_zero hlength
    rw [hk]
    exact ⟨k, rfl⟩
  have hgap := plainGap_onward hskip
  rw [readPlain, plainFrom]
  dsimp only
  rw [if_neg (by simp [hmark, hlength])]
  split
  · rename_i hnone
    rwa [hnone] at hgap
  · rename_i hsome
    rw [hsome] at hgap
    split
    · exact hgap
    · exact plainFrom_onward flow indent _ _ _ _ hgap

end Plain

section Quoted

variable {o c : Cursor}

theorem quotedBreaks_moves (n : Nat) (breaks : Text) (h : o.Onward c) :
    Moves o (quotedBreaks n breaks c) := by
  induction n generalizing breaks c with
  | zero => exact h
  | succ n ih =>
      rw [quotedBreaks]
      split
      · trivial
      · dsimp only
        split
        · exact ih _ (h.skipWhile _).takeBreak
        · exact h.skipWhile _

theorem readEscape_moves (h : o.Onward c) : Moves o (readEscape c) := by
  rw [readEscape]
  split
  · exact h.next
  · split
    · dsimp only
      split
      · trivial
      · rename_i width _ _ code _
        cases characterOf code (c.next.skip width).rest with
        | error err => trivial
        | ok a => exact (h.next.skip width).skip a.2
    · split
      · exact quotedBreaks_moves _ _ h.takeBreak
      · trivial

theorem quotedPart_moves (double : Bool) (n : Nat) (done : Text) (h : o.Onward c) :
    Moves o (quotedPart double n done c) := by
  induction n generalizing done c with
  | zero => exact h
  | succ n ih =>
      rw [quotedPart]
      split
      · exact h
      · split
        · exact ih _ (h.skip 2)
        · split
          · have hescape := readEscape_moves h.next
            split
            · trivial
            · rename_i hread
              rw [hread] at hescape
              exact ih _ hescape
          · exact Meets.ite h (ih _ h.next)

theorem quotedGap_moves (h : o.Onward c) : Moves o (quotedGap c) := by
  have hspan := h.span fun x => x == ' ' || x == '\t'
  rw [quotedGap]
  dsimp only
  split
  · trivial
  · split
    · exact (quotedBreaks_moves _ _ hspan.takeBreak).map fun _ ha => ha
    · exact hspan

theorem quotedFrom_moves (double : Bool) (n : Nat) (done : Text) (h : o.Onward c) :
    Moves o (quotedFrom double n done c) := by
  induction n generalizing done c with
  | zero => trivial
  | succ n ih =>
      rw [quotedFrom]
      refine (quotedPart_moves double _ done h).bind fun a ha => Meets.ite ha.next ?_
      exact (quotedGap_moves ha).bind fun b hb => ih _ hb

theorem readQuoted_moves (double : Bool) (h : o.Onward c.next) : Moves o (readQuoted double c) :=
  quotedFrom_moves double _ _ h

end Quoted

def Cursor.pastComment (c : Cursor) : Cursor :=
  let c := c.skipWhile (· == ' ')
  if c.peek = '#' then c.skipWhile (!endsLine ·) else c

theorem Cursor.Onward.pastComment {o c : Cursor} (h : o.Onward c) : o.Onward c.pastComment := by
  rw [Cursor.pastComment]
  split
  · exact (h.skipWhile _).skipWhile _
  · exact h.skipWhile _

theorem restOfLine_eq (c : Cursor) : restOfLine c =
    if endsLine c.pastComment.peek then .ok c.pastComment.takeBreak.2 else .error .malformed :=
  rfl

theorem Scanner.skipGapFrom_succ (flow : Bool) (n : Nat) (allowed : Bool) (c : Cursor) :
    skipGapFrom flow (n + 1) allowed c =
      if isBreak c.pastComment.peek then
        skipGapFrom flow n (allowed || !flow) c.pastComment.takeBreak.2
      else (allowed, c.pastComment) :=
  rfl

section Properties

variable {o c : Cursor}

theorem uriBytes_moves (n : Nat) (bs : Bytes) (h : o.Onward c) : Moves o (uriBytes n bs c) := by
  induction n generalizing bs c with
  | zero => exact h
  | succ n ih =>
      rw [uriBytes]
      split
      · split
        · exact ih _ (h.skip 3)
        · trivial
      · exact h

theorem uriFrom_moves (n : Nat) (done : Text) (h : o.Onward c) : Moves o (uriFrom n done c) := by
  induction n generalizing done c with
  | zero => exact h
  | succ n ih =>
      rw [uriFrom]
      split
      · exact ih _ h.next
      · split
        · have hbytes := uriBytes_moves (c.rest.length + 1) [] h
          split
          · trivial
          · rename_i hread
            rw [hread] at hbytes
            split
            · trivial
            · exact ih _ hbytes
        · exact h

theorem readUri_moves (h : o.Onward c) : Moves o (readUri c) := by
  refine (uriFrom_moves _ _ h).bind fun a ha => ?_
  dsimp only
  split
  · trivial
  · exact ha

theorem readHandle_moves (h : o.Onward c.next) : Moves o (readHandle c) := by
  rw [readHandle]
  split
  · trivial
  · split
    · exact h
    · dsimp only
      split
      · exact (h.span _).next
      · trivial

theorem readAnchor_moves (h : o.Onward c.next) : Moves o (readAnchor c) := by
  rw [readAnchor]
  dsimp only
  split
  · exact h.span _
  · trivial

theorem readTag_moves (h : o.Onward c.next) : Moves o (readTag c) := by
  have close (tag : TagName) {c : Cursor} (h : o.Onward c) : Moves o
      (if endsWord c.peek then .ok (tag, c) else .error .malformed : Except Failure _) :=
    Meets.ite h trivial
  rw [readTag]
  split
  · refine (readUri_moves h.next).bind fun a ha => ?_
    dsimp only
    split
    · exact close _ ha.next
    · trivial
  · split
    · exact close _ h
    · dsimp only
      split
      · refine (readHandle_moves h).bind fun a ha => ?_
        exact (readUri_moves ha).bind fun b hb => close _ hb
      · exact (readUri_moves h).bind fun b hb => close _ hb

theorem readVersionPart_moves (h : o.Onward c) : Moves o (readVersionPart c) := by
  rw [readVersionPart]
  dsimp only
  split
  · trivial
  · split
    · exact h.span _
    · trivial

theorem readVersion_moves (h : o.Onward c) : Moves o (readVersion c) := by
  refine (readVersionPart_moves (h.skipWhile _)).bind fun a ha => Meets.ite trivial ?_
  exact (readVersionPart_moves ha.next).bind fun b hb => Meets.ite hb trivial

theorem readHandleStart_moves (h : o.Onward c) : Moves o (readHandleStart c) := by
  refine (readHandle_moves (h.skipWhile _).next).bind fun a ha => Meets.ite trivial ?_
  exact (readUri_moves (ha.skipWhile _)).bind fun b hb => Meets.ite hb trivial

theorem restOfLine_meets (h : o.Onward c) :
    Meets (fun _ => True) (fun c => o.Onward c) (restOfLine c) := by
  rw [restOfLine_eq]
  exact Meets.ite h.pastComment.takeBreak trivial

theorem readDirective_moves (h : o.Onward c.next) : Moves o (readDirective c) := by
  have line {x : Except Failure (Directive × Cursor)} (hx : Moves o x) :
      Moves o (do let a ← x; let c ← restOfLine a.2; .ok (a.1, c)) :=
    hx.bind fun _ ha => (restOfLine_meets ha).bind fun _ hc => hc
  have hname := h.span isNameChar
  have hother : Moves o (.ok (.other, (c.next.span isNameChar).2.skipWhile (!endsLine ·)) :
      Except Failure (Directive × Cursor)) := hname.skipWhile _
  rw [readDirective]
  dsimp only
  split
  · trivial
  · split
    · exact line (readVersion_moves hname)
    · split
      · exact line (readHandleStart_moves hname)
      · -- The reading gets a name, or else unification would run it.
        generalize (Except.ok (_, Cursor.skipWhile _ _) : Except Failure (Directive × Cursor)) = x
          at hother ⊢
        exact line hother

end Properties

section Blocks

variable {o c : Cursor}

theorem readIndent_moves (h : o.Onward c) : Moves o (readIndent c) :=
  Meets.ite (Meets.ite trivial h.next) h

theorem blockHeader_meets (h : o.Onward c) :
    Meets (fun _ => True) (fun a => o.Onward a.2.2) (blockHeader c) := by
  have close (k : Chomping) (indent : Option Nat) {c : Cursor} (h : o.Onward c) :
      Meets (fun _ => True) (fun a => o.Onward a.2.2)
        (if endsWord c.peek then (restOfLine c).map fun c => (k, indent, c)
          else .error .malformed : Except Failure _) :=
    Meets.ite ((restOfLine_meets h).map fun _ hc => hc) trivial
  rw [blockHeader]
  dsimp only
  split
  · exact (readIndent_moves h.next).bind fun _ ha => close _ _ ha
  · refine (readIndent_moves h).bind fun a ha => ?_
    split
    · exact close _ _ ha.next
    · exact close _ _ ha

theorem blankLines_onward (n : Nat) (breaks : Text) (widest : Nat) (h : o.Onward c) :
    o.Onward (blankLines n breaks widest c).2.2 := by
  induction n generalizing breaks widest c with
  | zero => exact h
  | succ n ih =>
      rw [blankLines]
      split
      · exact ih _ _ h.next
      · split
        · exact ih _ _ h.takeBreak
        · exact h

theorem skipIndent_onward (indent n : Nat) (h : o.Onward c) :
    o.Onward (skipIndent indent n c) := by
  induction n generalizing c with
  | zero => exact h
  | succ n ih =>
      rw [skipIndent]
      split
      · exact ih h.next
      · exact h

theorem emptyLines_onward (indent n : Nat) (breaks : Text) (h : o.Onward c) :
    o.Onward (emptyLines indent n breaks c).2 := by
  induction n generalizing breaks c with
  | zero => exact h
  | succ n ih =>
      have hskip := skipIndent_onward indent indent h
      rw [emptyLines]
      dsimp only
      split
      · exact ih _ hskip.takeBreak
      · exact hskip

theorem blockLines_onward (folded : Bool) (indent n : Nat) (b : BlockText) (h : o.Onward c) :
    o.Onward (blockLines folded indent n b c).2 := by
  induction n generalizing b c with
  | zero => exact h
  | succ n ih =>
      rw [blockLines]
      split
      · have hline := emptyLines_onward indent ((c.span (!endsLine ·)).2.takeBreak.2.rest.length + 1)
          [] (h.span (!endsLine ·)).takeBreak
        dsimp only
        split
        · exact ih _ hline
        · exact hline
      · exact h

theorem readBlock_moves (folded : Bool) (outer : Int) (h : o.Onward c.next) :
    Moves o (readBlock folded outer c) := by
  refine (blockHeader_meets h).map fun a ha => blockLines_onward _ _ _ _ ?_
  obtain ⟨chomping, given, c⟩ := a
  cases given with
  | none => exact blankLines_onward _ _ _ ha
  | some i => exact emptyLines_onward _ _ _ ha

end Blocks

namespace Scanner

variable {s t : Scanner}

def Rekeyed (s t : Scanner) : Prop := ∃ keys, t = { s with keys := keys }

theorem dropKeys_rekeyed (s : Scanner) (drop : PossibleKey → Bool) :
    Meets (fun _ => True) (Rekeyed s) (s.dropKeys drop) :=
  Meets.ite trivial ⟨_, rfl⟩

theorem saveKey_rekeyed (s : Scanner) : Meets (fun _ => True) (Rekeyed s) s.saveKey := by
  refine Meets.ite ?_ ⟨_, rfl⟩
  refine (dropKeys_rekeyed s _).bind fun t ht => ?_
  obtain ⟨keys, rfl⟩ := ht
  exact ⟨_, rfl⟩

theorem cursor_unwind (s : Scanner) (column : Int) : (s.unwind column).cursor = s.cursor := by
  rw [unwind]
  split <;> rfl

theorem cursor_openBlock (s : Scanner) (column place : Nat) (t : Token) :
    (s.openBlock column place t).cursor = s.cursor := by
  rw [openBlock]
  split <;> rfl

/-- Where a result leads, the character at the cursor has been passed. -/
abbrev Passes (c : Cursor) (x : Except Failure Scanner) : Prop :=
  Meets (fun _ => True) (fun t => c.next.Onward t.cursor) x

theorem dropKey_meets (s : Scanner) :
    Meets (fun _ => True) (fun t => t.cursor = s.cursor) s.dropKey := by
  refine (dropKeys_rekeyed s _).imp fun t ht => ?_
  obtain ⟨keys, rfl⟩ := ht
  rfl

theorem leave_meets (s : Scanner) :
    Meets (fun _ => True) (fun t => t.cursor = s.cursor) s.leave :=
  (dropKey_meets _).map fun _ ht => ht.trans (cursor_unwind s _)

theorem take_onward {c : Cursor} (h : s.cursor = c) (n : Nat) (t : Token) :
    c.next.Onward (s.take (n + 1) t).cursor := h ▸ ⟨n, rfl⟩

theorem startsPlain_iff : s.startsPlain = true ↔
    (isGap s.peek = false ∧ s.peek ∉ indicators) ∨
      isGap (s.cursor.peekAt 1) = false ∧
        (s.peek = '-' ∨ s.level = 0 ∧ (s.peek = '?' ∨ s.peek = ':')) := by
  simp [startsPlain]

theorem startsPlain_passes (h : s.startsPlain = true) :
    s.cursor.peek ≠ '#' ∧ plainLength (s.level ≠ 0) s.cursor.rest ≠ 0 := by
  rw [startsPlain_iff] at h
  cases hrest : s.cursor.rest with
  | nil =>
      have hpeek : s.peek = endMark := by rw [peek, Cursor.peek, hrest, List.headD_nil]
      rw [hpeek] at h
      rcases h with ⟨hgap, -⟩ | ⟨-, hdash | ⟨-, hquery | hcolon⟩⟩
      · cases hgap
      · exact absurd hdash (by decide)
      · exact absurd hquery (by decide)
      · exact absurd hcolon (by decide)
  | cons x t =>
      have hpeek : s.peek = x := by rw [peek, Cursor.peek, hrest, List.headD_cons]
      have hpeekAt : s.cursor.peekAt 1 = t.headD endMark := by rw [Cursor.peekAt, hrest]; rfl
      have hsub : flowIndicators ⊆ indicators := by decide
      rw [hpeek, hpeekAt] at h
      rw [← peek, hpeek, plainLength]
      rcases h with ⟨hgap, hno⟩ | ⟨hnext, rfl | ⟨hlevel, rfl | rfl⟩⟩
      · have hne : ∀ c ∈ indicators, x ≠ c := fun c hc he => hno (he ▸ hc)
        have hflow : x ∉ flowIndicators := fun hx => hno (hsub hx)
        simp [hgap, hflow, hne '#' (by decide), hne ':' (by decide), hne '?' (by decide)]
      · have hdash : isGap '-' = false ∧ '-' ∉ flowIndicators := by decide
        simp [hdash]
      · have hquery : isGap '?' = false := by decide
        simp [hlevel, hquery]
      · have hcolon : isGap ':' = false := by decide
        rw [List.headD_eq_head?_getD] at hnext
        simp [hlevel, hcolon, hnext]

theorem takePlain_passes (h : s.startsPlain = true) : Passes s.cursor s.takePlain := by
  obtain ⟨hmark, hlength⟩ := startsPlain_passes h
  refine (saveKey_rekeyed s).map fun t ht => ?_
  obtain ⟨keys, rfl⟩ := ht
  exact readPlain_passes hmark hlength _

theorem takeKeyLike_passes {α : Type} {read : Cursor → Except Failure (α × Cursor)}
    (hread : ∀ c, Moves c.next (read c)) (f : α → Token) :
    Passes s.cursor (s.takeKeyLike fun c => (read c).map fun a => (f a.1, a.2)) := by
  refine (saveKey_rekeyed s).bind fun t ht => ?_
  obtain ⟨keys, rfl⟩ := ht
  have hmoves : Moves s.cursor.next ((read s.cursor).map fun a => (f a.1, a.2)) :=
    (hread s.cursor).map fun _ ha => ha
  exact hmoves.bind fun _ ha => ha

theorem takeBlock_passes (s : Scanner) (folded : Bool) : Passes s.cursor (s.takeBlock folded) := by
  refine (dropKey_meets s).bind fun t ht => ?_
  refine (readBlock_moves folded _ (.refl _)).bind fun a ha => ?_
  rwa [ht] at ha

theorem takeDirective_passes (s : Scanner) : Passes s.cursor s.takeDirective := by
  refine (leave_meets s).bind fun t ht => ?_
  refine (readDirective_moves (.refl _)).bind fun a ha => ?_
  rwa [ht] at ha

theorem takeMark_passes (s : Scanner) (t : Token) : Passes s.cursor (s.takeMark t) :=
  (leave_meets s).map fun _ h => take_onward h 2 t

theorem openFlow_passes (s : Scanner) (t : Token) : Passes s.cursor (s.openFlow t) := by
  refine (saveKey_rekeyed s).map fun u hu => ?_
  obtain ⟨keys, rfl⟩ := hu
  exact take_onward rfl 0 t

theorem closeFlow_passes (s : Scanner) (t : Token) : Passes s.cursor (s.closeFlow t) :=
  Meets.ite trivial ((dropKey_meets s).map fun _ h => take_onward h 0 t)

theorem takeFlowEntry_passes (s : Scanner) : Passes s.cursor s.takeFlowEntry :=
  (dropKey_meets s).map fun _ h => take_onward h 0 .flowEntry

theorem takeBlockEntry_passes (s : Scanner) : Passes s.cursor s.takeBlockEntry :=
  Meets.ite trivial <| (dropKey_meets _).map fun _ h =>
    take_onward (h.trans (cursor_openBlock s _ _ _)) 0 .blockEntry

theorem takeKey_passes (s : Scanner) : Passes s.cursor s.takeKey :=
  Meets.ite trivial <| (dropKey_meets _).map fun _ h =>
    take_onward (h.trans (cursor_openBlock s _ _ _)) 0 .key

theorem takeValue_passes (s : Scanner) : Passes s.cursor s.takeValue := by
  rw [takeValue]
  split
  · exact take_onward (cursor_openBlock _ _ _ _) 0 _
  · refine Meets.ite trivial ((dropKey_meets _).map fun _ h => ?_)
    exact take_onward (h.trans (cursor_openBlock s _ _ _)) 0 _

theorem takeToken_passes (s : Scanner) : Passes s.cursor s.takeToken := by
  rw [takeToken]
  refine Meets.ite s.takeDirective_passes ?_
  refine Meets.ite (s.takeMark_passes _) ?_
  refine Meets.ite (s.takeMark_passes _) ?_
  refine Meets.ite (s.openFlow_passes _) ?_
  refine Meets.ite (s.openFlow_passes _) ?_
  refine Meets.ite (s.closeFlow_passes _) ?_
  refine Meets.ite (s.closeFlow_passes _) ?_
  refine Meets.ite s.takeFlowEntry_passes ?_
  refine Meets.ite s.takeBlockEntry_passes ?_
  refine Meets.ite s.takeKey_passes ?_
  refine Meets.ite s.takeValue_passes ?_
  refine Meets.ite (takeKeyLike_passes (fun _ => readAnchor_moves (.refl _)) .alias) ?_
  refine Meets.ite (takeKeyLike_passes (fun _ => readAnchor_moves (.refl _)) .anchor) ?_
  refine Meets.ite (takeKeyLike_passes (fun _ => readTag_moves (.refl _)) .tag) ?_
  refine Meets.ite (s.takeBlock_passes false) ?_
  refine Meets.ite (s.takeBlock_passes true) ?_
  refine Meets.ite (takeKeyLike_passes (fun _ => readQuoted_moves _ (.refl _)) (.scalar false)) ?_
  refine Meets.ite (takeKeyLike_passes (fun _ => readQuoted_moves _ (.refl _)) (.scalar false)) ?_
  split
  · rename_i h
    exact takePlain_passes h
  · trivial

theorem skipGapFrom_onward {o c : Cursor} (flow : Bool) (n : Nat) (allowed : Bool)
    (h : o.Onward c) : o.Onward (skipGapFrom flow n allowed c).2 := by
  induction n generalizing allowed c with
  | zero => exact h
  | succ n ih =>
      rw [skipGapFrom_succ]
      split
      · exact ih _ h.pastComment.takeBreak
      · exact h.pastComment

def pastMark (s : Scanner) : Cursor :=
  if s.cursor.index = 0 && s.peek = byteOrderMark then s.cursor.next else s.cursor

def gap (s : Scanner) : Bool × Cursor :=
  skipGapFrom (s.level ≠ 0) (s.pastMark.rest.length + 1) s.keyAllowed s.pastMark

theorem skipGap_eq (s : Scanner) :
    s.skipGap = { s with cursor := s.gap.2, keyAllowed := s.gap.1 } := by
  rw [skipGap, gap, pastMark]

theorem skipGap_onward (s : Scanner) : s.cursor.Onward s.skipGap.cursor := by
  have hmark : s.cursor.Onward s.pastMark := by
    rw [pastMark]
    split
    · exact (Cursor.Onward.refl _).next
    · exact .refl _
  rw [skipGap_eq]
  exact skipGapFrom_onward _ _ _ hmark

def stepFrom (s : Scanner) : Except Failure (Scanner ⊕ Array Token) := do
  let s ← s.dropStale
  let s := s.unwind s.cursor.column
  if s.cursor.rest.isEmpty then
    (s.leave).map fun s => .inr (s.tokens.push .streamEnd)
  else s.takeToken.map .inl

theorem step_eq (s : Scanner) : s.step = s.skipGap.stepFrom := rfl

theorem stepFrom_cases (h : s.stepFrom = .ok (.inl t)) :
    ∃ u : Scanner, u.cursor = s.cursor ∧ s.cursor.rest ≠ [] ∧ u.takeToken = .ok t := by
  obtain ⟨v, hv, h⟩ := bind_eq_ok_iff.mp h
  have hmeets : Meets (fun _ => True) (Rekeyed s) s.dropStale := dropKeys_rekeyed s _
  rw [hv] at hmeets
  obtain ⟨keys, rfl⟩ := hmeets
  have hcursor := cursor_unwind { s with keys := keys } s.cursor.column
  refine ⟨_, hcursor, ?_⟩
  dsimp only at h
  split at h
  · obtain ⟨w, -, hw⟩ := map_eq_ok_iff.mp h
    cases hw
  · rename_i hrest
    obtain ⟨w, hw, hwt⟩ := map_eq_ok_iff.mp h
    cases hwt
    rw [hcursor, List.isEmpty_iff] at hrest
    exact ⟨hrest, hw⟩

/-- A step passes a character, unless it ends the tokens. -/
theorem step_passes (h : s.step = .ok (.inl t)) :
    t.cursor.rest.length < s.cursor.rest.length ∧ s.cursor.index < t.cursor.index := by
  have hgap := s.skipGap_onward
  rw [step_eq] at h
  obtain ⟨u, hcursor, hrest, htake⟩ := stepFrom_cases h
  have hpasses := u.takeToken_passes
  rw [htake] at hpasses
  rw [← hcursor] at hgap hrest
  obtain ⟨hlength, hindex⟩ := Cursor.Onward.of_next hrest hpasses
  exact ⟨Nat.lt_of_lt_of_le hlength hgap.length_le, Nat.lt_of_le_of_lt hgap.index_le hindex⟩

/-- A run has enough fuel as soon as it has more than there are characters. -/
theorem run_of_length_lt {m n : Nat} (hm : s.cursor.rest.length < m)
    (hn : s.cursor.rest.length < n) : s.run m = s.run n := by
  induction m generalizing n s with
  | zero => exact absurd hm (Nat.not_lt_zero _)
  | succ m ih =>
      obtain ⟨k, rfl⟩ := Nat.exists_eq_succ_of_ne_zero (Nat.ne_zero_of_lt hn)
      rw [Nat.succ_eq_add_one, run_succ, run_succ]
      cases h : s.step with
      | error err => rfl
      | ok after =>
          cases after with
          | inl t =>
              have hlt := (step_passes h).1
              exact ih (by omega) (by omega)
          | inr ts => rfl

end Scanner

end VaultSearch.Yaml
