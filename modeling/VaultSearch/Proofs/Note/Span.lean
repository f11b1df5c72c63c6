import VaultSearch.Note.Span
import VaultSearch.Proofs.Text.Steady

namespace VaultSearch.Text

variable {needle t : Text} {i j : Nat}

theorem prefix_of_find? (h : find? needle t = some i) : needle <+: t.drop i := by
  induction t generalizing i with
  | nil =>
      rw [find?] at h
      split at h
      · rename_i hempty
        rw [List.isEmpty_iff.mp hempty]
        exact List.nil_prefix
      · cases h
  | cons c t ih =>
      rw [find?] at h
      split at h
      · rename_i hstart
        cases h
        exact startsWith_iff_prefix.mp hstart
      · obtain ⟨j, hj, rfl⟩ := Option.map_eq_some_iff.mp h
        exact ih hj

theorem find?_at_start (h : needle <+: t) : find? needle t = some 0 := by
  cases t with
  | nil => rw [find?, List.prefix_nil.mp h, List.isEmpty_nil, if_pos rfl]
  | cons c t => rw [find?, startsWith_iff_prefix.mpr h, if_pos rfl]

/-- The place that is found is the first. -/
theorem le_of_find? (h : find? needle t = some i) (hj : needle <+: t.drop j) : i ≤ j := by
  induction t generalizing i j with
  | nil =>
      rw [find?] at h
      split at h
      · cases h
        exact Nat.zero_le j
      · cases h
  | cons c t ih =>
      rw [find?] at h
      split at h
      · cases h
        exact Nat.zero_le j
      · rename_i hstart
        obtain ⟨k, hk, rfl⟩ := Option.map_eq_some_iff.mp h
        cases j with
        | zero =>
            rw [List.drop_zero, ← startsWith_iff_prefix] at hj
            exact absurd hj hstart
        | succ j => exact Nat.succ_le_succ (ih hk hj)

theorem find?_eq_none_iff : find? needle t = none ↔ ¬needle <:+: t := by
  rw [← contains_iff_infix, contains, Option.isSome_iff_ne_none, Decidable.not_not]

theorem cut?_of_find? {s : Text} (h : find? needle (s ++ (needle ++ t)) = some s.length) :
    cut? needle (s ++ (needle ++ t)) = some (s, t) := by
  have hlength : s.length + needle.length = (s ++ needle).length := List.length_append.symm
  rw [cut?, h, Option.map_some, List.take_left, hlength, ← List.append_assoc, List.drop_left]

end VaultSearch.Text

namespace VaultSearch.Note

open Text

variable {content needle line : Text} {number i : Nat} {x y : Span}

section Occurrences

variable {width offset : Nat} {t : Text}

theorem occurrences_of_find? (h : find? needle t = some i) (ht : t ≠ []) :
    occurrences needle width offset t = (offset + i) ::
      occurrences needle width (offset + i + max 1 width) (t.drop (i + max 1 width)) := by
  cases t with
  | nil => exact absurd rfl ht
  | cons c t => rw [occurrences, h]

theorem mem_occurrences (h : i ∈ occurrences needle width offset t) :
    offset ≤ i ∧ needle <+: t.drop (i - offset) := by
  induction offset, t using occurrences.induct needle width generalizing i with
  | case1 => simp [occurrences] at h
  | case2 offset c t hfind => simp [occurrences, hfind] at h
  | case3 offset c t j hfind ih =>
      rw [occurrences_of_find? hfind (List.cons_ne_nil c t)] at h
      rcases List.mem_cons.mp h with rfl | h
      · rw [Nat.add_sub_cancel_left]
        exact ⟨Nat.le_add_right _ _, prefix_of_find? hfind⟩
      · obtain ⟨hle, hprefix⟩ := ih h
        rw [List.drop_drop] at hprefix
        have hplace : j + max 1 width + (i - (offset + j + max 1 width)) = i - offset := by omega
        rw [hplace] at hprefix
        exact ⟨by omega, hprefix⟩

theorem pairwise_occurrences (needle : Text) (width offset : Nat) (t : Text) :
    (occurrences needle width offset t).Pairwise fun i j => i + width ≤ j := by
  induction offset, t using occurrences.induct needle width with
  | case1 =>
      rw [occurrences]
      exact .nil
  | case2 offset c t hfind =>
      rw [occurrences, hfind]
      exact .nil
  | case3 offset c t j hfind ih =>
      rw [occurrences_of_find? hfind (List.cons_ne_nil c t)]
      refine .cons (fun k hk => ?_) ih
      have hle := (mem_occurrences hk).1
      omega

/-- A single character is met wherever it stands. -/
theorem mem_occurrences_singleton {c : Char} (h : [c] <+: t.drop i) (offset : Nat) :
    offset + i ∈ occurrences [c] 1 offset t := by
  induction offset, t using occurrences.induct [c] 1 generalizing i with
  | case1 =>
      rw [List.drop_nil] at h
      cases List.prefix_nil.mp h
  | case2 offset d t hfind =>
      have hpart := h.isInfix.trans (List.drop_suffix i (d :: t)).isInfix
      exact absurd hpart (find?_eq_none_iff.mp hfind)
  | case3 offset d t j hfind ih =>
      rw [occurrences_of_find? hfind (List.cons_ne_nil d t), List.mem_cons]
      rcases Nat.eq_or_lt_of_le (le_of_find? hfind h) with rfl | hlt
      · exact .inl rfl
      · right
        have hplace : j + max 1 1 + (i - j - 1) = i := by omega
        have hrest : [c] <+: ((d :: t).drop (j + max 1 1)).drop (i - j - 1) := by
          rwa [List.drop_drop, hplace]
        have hmem := ih hrest
        have hsum : offset + j + max 1 1 + (i - j - 1) = offset + i := by omega
        rwa [hsum] at hmem

end Occurrences

section Lines

theorem mem_lineSpans : x ∈ lineSpans needle number line ↔
    ∃ i ∈ occurrences (lower needle) needle.length 0 (lower line),
      x = .ofLine number line i (i + needle.length) := by
  rw [lineSpans, List.mem_map]
  exact exists_congr fun i => and_congr_right fun _ => eq_comm

def IsLine (content : Text) (number : Nat) (line : Text) : Prop :=
  1 ≤ number ∧ (lines content)[number - 1]? = some line

theorem mem_findSpans (hne : needle ≠ []) : x ∈ findSpans content needle ↔
    ∃ line, IsLine content x.line line ∧ x ∈ lineSpans needle x.line line := by
  rw [findSpans, if_neg (by simpa using hne), List.mem_flatMap]
  constructor
  · rintro ⟨⟨line, number⟩, hline, hx⟩
    have hnumber : IsLine content number line := List.mk_mem_zipIdx_iff_le_and_getElem?_sub.mp hline
    obtain ⟨i, hi, rfl⟩ := mem_lineSpans.mp hx
    exact ⟨line, hnumber, hx⟩
  · rintro ⟨line, hnumber, hx⟩
    exact ⟨(line, x.line), List.mk_mem_zipIdx_iff_le_and_getElem?_sub.mpr hnumber, hx⟩

theorem line_of_mem_lineSpans (h : x ∈ lineSpans needle number line) : x.line = number := by
  obtain ⟨i, hi, rfl⟩ := mem_lineSpans.mp h
  rfl

def Before (x y : Span) : Prop := x.line < y.line ∨ x.line = y.line ∧ x.stop ≤ y.start

theorem pairwise_lineSpans (needle : Text) (number : Nat) (line : Text) :
    (lineSpans needle number line).Pairwise Before := by
  rw [lineSpans, List.pairwise_map]
  exact (pairwise_occurrences _ _ _ _).imp fun hle => .inr ⟨rfl, hle⟩

theorem pairwise_findSpans (hne : needle ≠ []) : (findSpans content needle).Pairwise Before := by
  rw [findSpans, if_neg (by simpa using hne), List.pairwise_flatMap]
  constructor
  · exact fun a _ => pairwise_lineSpans needle a.2 a.1
  · have hnumbers : ((lines content).zipIdx 1).Pairwise fun a b => a.2 < b.2 := by
      rw [← List.pairwise_map (f := Prod.snd), List.zipIdx_map_snd]
      exact List.pairwise_lt_range' 1
    refine hnumbers.imp fun {a b} hlt x hx y hy => .inl ?_
    obtain ⟨i, -, rfl⟩ := mem_lineSpans.mp hx
    obtain ⟨j, -, rfl⟩ := mem_lineSpans.mp hy
    exact hlt

/-- The span is cut out of the line where the lower case of the line has that of the needle. -/
structure CutFrom (needle line : Text) (x : Span) : Prop where
  text : x.text = slice line x.start x.stop
  stop : x.stop = x.start + needle.length
  hit : lower needle <+: (lower line).drop x.start

theorem cutFrom_of_mem (h : x ∈ lineSpans needle number line) : CutFrom needle line x := by
  obtain ⟨i, hi, rfl⟩ := mem_lineSpans.mp h
  exact ⟨rfl, rfl, (mem_occurrences hi).2⟩

structure PointsAt (needle line : Text) (x : Span) : Prop where
  start : x.start < x.stop
  stop : x.stop ≤ line.length
  text : x.text = slice line x.start x.stop
  same : lower x.text = lower needle

def PointsInto (content needle : Text) (x : Span) : Prop :=
  ∃ line, IsLine content x.line line ∧ PointsAt needle line x

end Lines

section Found

theorem exists_mem_lineSpans (hne : needle ≠ []) (h : lower needle <:+: lower line) (number : Nat) :
    ∃ x, x ∈ lineSpans needle number line := by
  cases hfind : find? (lower needle) (lower line) with
  | none => exact absurd h (find?_eq_none_iff.mp hfind)
  | some i =>
      have hline : lower line ≠ [] := by
        rintro hnil
        rw [hnil] at h
        exact lower_ne_nil hne (List.infix_nil.mp h)
      refine ⟨_, mem_lineSpans.mpr ⟨0 + i, ?_, rfl⟩⟩
      rw [occurrences_of_find? hfind hline]
      exact List.mem_cons_self

/-- Whatever the content has in lower case, and does not run over a line break, is found. -/
theorem exists_mem_findSpans (hne : needle ≠ []) (hbreak : '\n' ∉ needle)
    (h : lower needle <:+: lower content) : ∃ x, x ∈ findSpans content needle := by
  have hblank : ∀ c, (c == '\n') = true → isBlank c = true := by
    intro c hc
    rw [eq_of_beq hc]
    decide
  have hneedle : ∀ c ∈ lower needle, (c == '\n') = false := by
    intro c hc
    rw [beq_eq_false_iff_ne]
    rintro rfl
    exact hbreak (mem_of_mem_lower (by decide) hc)
  obtain ⟨low, hlow, hhit⟩ := infix_piece hneedle h
  rw [pieces_lower hblank] at hlow
  obtain ⟨line, hline, rfl⟩ := List.mem_map.mp hlow
  obtain ⟨i, hi⟩ := List.getElem?_of_mem hline
  obtain ⟨x, hx⟩ := exists_mem_lineSpans hne hhit (i + 1)
  have hnumber := line_of_mem_lineSpans hx
  refine ⟨x, (mem_findSpans hne).mpr ⟨line, ?_, by rwa [hnumber]⟩⟩
  rw [hnumber]
  exact ⟨Nat.le_add_left 1 i, hi⟩

end Found

section Steady

theorem CutFrom.stop_le (h : CutFrom needle line x) (hne : needle ≠ []) (hneedle : dottedI ∉ needle)
    (hline : dottedI ∉ line) : x.stop ≤ line.length := by
  have hlength := h.hit.length_le
  rw [List.length_drop, length_lower_of_notMem hneedle, length_lower_of_notMem hline] at hlength
  have hpos := List.length_pos_iff.mpr hne
  rw [h.stop]
  omega

theorem CutFrom.slice_lower (h : CutFrom needle line x) (hneedle : dottedI ∉ needle) :
    slice (lower line) x.start x.stop = lower needle := by
  have htake := List.prefix_iff_eq_take.mp h.hit
  rw [length_lower_of_notMem hneedle] at htake
  rw [htake, slice, List.drop_take, h.stop, Nat.add_sub_cancel_left]

/-- Where no character grows, a span can only be wrong by a sigma that is final in the line and not
in the span, or the other way round. -/
theorem CutFrom.pointsAt_iff (h : CutFrom needle line x) (hne : needle ≠ [])
    (hneedle : dottedI ∉ needle) (hline : dottedI ∉ line) :
    PointsAt needle line x ↔ lower x.text = slice (lower line) x.start x.stop := by
  rw [h.slice_lower hneedle]
  have hpos := List.length_pos_iff.mpr hne
  have hstart : x.start < x.stop := by
    rw [h.stop]
    omega
  constructor
  · exact fun hpoints => hpoints.same
  · exact fun hsame => ⟨hstart, h.stop_le hne hneedle hline, h.text, hsame⟩

theorem CutFrom.pointsAt (h : CutFrom needle line x) (hne : needle ≠ []) (hsteady : Steady line) :
    PointsAt needle line x := by
  -- What has a dotted capital I is nowhere in a steady line, and a steady line has none either.
  have hneedle : dottedI ∉ needle := by
    intro hmem
    have hline := h.hit.isInfix.trans (List.drop_suffix _ _).isInfix
    exact hsteady.undotted ((infix_lower_of_mem hmem).trans hline)
  have hline : dottedI ∉ line := fun hmem => hsteady.undotted (infix_lower_of_mem hmem)
  rw [h.pointsAt_iff hne hneedle hline, h.text]
  exact hsteady.sigmas.lower_slice hline x.start x.stop

end Steady

section Unsteady

def finalSigma : Char := Char.ofNat 0x3C2

def smallSigma : Char := Char.ofNat 0x3C3

theorem lower_finalSigma : lower [finalSigma] = [finalSigma] :=
  lower_of_isLow (List.forall_mem_singleton.mpr isLow_special.2.1)

theorem lower_sigma : lower [sigma] = [smallSigma] := by
  rw [lower, lowerAfter_cons, lowerHere_sigma]
  rfl

def Misleads (number : Nat) (line : Text) : Prop :=
  ∃ needle, needle ≠ [] ∧ ∃ x ∈ lineSpans needle number line, ¬PointsAt needle line x

/-- A needle that the lower case of a line starts with is found at its start. -/
theorem mem_lineSpans_of_prefix (hne : lower needle ≠ []) (h : lower needle <+: lower line) :
    .ofLine number line 0 needle.length ∈ lineSpans needle number line := by
  have hline : lower line ≠ [] := fun hnil => hne (List.prefix_nil.mp (hnil ▸ h))
  refine mem_lineSpans.mpr ⟨0, ?_, by rw [Nat.zero_add]⟩
  rw [occurrences_of_find? (find?_at_start h) hline]
  exact List.mem_cons_self

theorem misleads_of_dottedI (number : Nat) (h : dottedI ∈ line) : Misleads number line := by
  have hlonger := length_lower_lt_of_mem h
  have hne : lower line ≠ [] := List.length_pos_iff.mp (by omega)
  have hlow : lower (lower line) = lower line := lower_of_infix (List.infix_refl _)
  refine ⟨lower line, hne, .ofLine number line 0 (lower line).length, ?_, fun hpoints => ?_⟩
  · apply mem_lineSpans_of_prefix <;> rw [hlow]
    · exact hne
  · exact absurd hpoints.stop (Nat.not_le_of_lt hlonger)

theorem misleads_of_infix (number : Nat) (hdot : dottedI ∉ line)
    (h : lower [dottedI] <:+: lower line) : Misleads number line := by
  cases hfind : find? (lower [dottedI]) (lower line) with
  | none => exact absurd h (find?_eq_none_iff.mp hfind)
  | some i =>
      have hline : lower line ≠ [] := by
        intro hnil
        rw [hnil, lower_dottedI, List.infix_nil] at h
        cases h
      refine ⟨[dottedI], List.cons_ne_nil _ _, .ofLine number line i (i + 1), ?_, fun hpoints => ?_⟩
      · refine mem_lineSpans.mpr ⟨i, ?_, rfl⟩
        rw [occurrences_of_find? hfind hline, Nat.zero_add]
        exact List.mem_cons_self
      · -- A character of the line does not become two.
        have hsame : lower (slice line i (i + 1)) = lower [dottedI] := hpoints.same
        have hpart : slice line i (i + 1) ⊆ line :=
          List.Subset.trans (List.drop_subset _ _) (List.take_subset _ _)
        have hlength := congrArg List.length hsame
        rw [length_lower_of_notMem fun hmem => hdot (hpart hmem), lower_dottedI, slice,
          List.length_drop, List.length_take] at hlength
        simp only [List.length_cons, List.length_nil] at hlength
        omega

theorem misleads_of_sigma (number : Nat) (hdot : dottedI ∉ line) (h : ¬SigmasLead line) :
    Misleads number line := by
  simp only [SigmasLead, not_forall, Bool.not_eq_false] at h
  obtain ⟨left, right, rfl, hcased⟩ := h
  have hleft : dottedI ∉ left := fun hmem => hdot (List.mem_append_left _ hmem)
  obtain ⟨front, rest, hlength, hlower⟩ := lower_append_sigma hleft right
  rw [lowerHere_sigma, hcased, Bool.true_and] at hlower
  cases hright : meetsCased right with
  | false =>
      -- The sigma is final in the line, but not by itself.
      have hplace : [finalSigma] <+: (lower (left ++ sigma :: right)).drop left.length := by
        rw [hlower, hright, ← hlength, List.append_assoc, List.drop_left]
        exact List.prefix_append _ _
      refine ⟨[finalSigma], List.cons_ne_nil _ _,
        .ofLine number (left ++ sigma :: right) left.length (left.length + 1), ?_,
        fun hpoints => ?_⟩
      · refine mem_lineSpans.mpr ⟨left.length, ?_, rfl⟩
        rw [lower_finalSigma]
        have hmem := mem_occurrences_singleton hplace 0
        rwa [Nat.zero_add] at hmem
      · have hsame := hpoints.same
        have htext : slice (left ++ sigma :: right) left.length (left.length + 1) = [sigma] := by
          simp [slice, List.drop_take]
        rw [hpoints.text, Span.ofLine, htext, lower_sigma, lower_finalSigma] at hsame
        exact absurd hsame (by decide)
  | true =>
      -- The sigma is not final in the line, but it is where the text ends with it.
      have hprefix : front ++ [smallSigma] <+: lower (left ++ sigma :: right) := by
        rw [hlower, hright]
        exact List.prefix_append _ _
      have hlow : lower (front ++ [smallSigma]) = front ++ [smallSigma] :=
        lower_of_infix hprefix.isInfix
      have hcount : (front ++ [smallSigma]).length = left.length + 1 := by
        rw [List.length_append, hlength, List.length_singleton]
      refine ⟨front ++ [smallSigma], by simp,
        .ofLine number (left ++ sigma :: right) 0 (left.length + 1), ?_, fun hpoints => ?_⟩
      · rw [← hcount]
        apply mem_lineSpans_of_prefix <;> rw [hlow]
        · simp
        · exact hprefix
      · have hsame := hpoints.same
        have htext : slice (left ++ sigma :: right) 0 (left.length + 1) = left ++ [sigma] := by
          simp [slice, List.take_append]
        obtain ⟨front', rest', hlength', hlower'⟩ := lower_append_sigma hleft []
        rw [hpoints.text, Span.ofLine, htext, hlower', hlow, lowerHere_sigma, hcased,
          List.append_assoc] at hsame
        have hlast := (List.append_inj hsame (hlength'.trans hlength.symm)).2
        exact absurd (List.cons.inj hlast).1 (by decide)

theorem misleads_of_not_steady (number : Nat) (h : ¬Steady line) : Misleads number line := by
  by_cases hdot : dottedI ∈ line
  · exact misleads_of_dottedI number hdot
  · by_cases hmark : lower [dottedI] <:+: lower line
    · exact misleads_of_infix number hdot hmark
    · exact misleads_of_sigma number hdot fun hsigmas => h ⟨hmark, hsigmas⟩

end Unsteady

theorem pointsInto_iff_steady (content : Text) :
    (∀ needle, needle ≠ [] → ∀ x ∈ findSpans content needle, PointsInto content needle x) ↔
      ∀ line ∈ lines content, Steady line := by
  constructor
  · intro hall line hmem
    by_contra hunsteady
    obtain ⟨i, hi⟩ := List.getElem?_of_mem hmem
    have hline : IsLine content (i + 1) line := ⟨Nat.le_add_left 1 i, hi⟩
    obtain ⟨needle, hne, x, hx, hwrong⟩ := misleads_of_not_steady (i + 1) hunsteady
    have hnumber := line_of_mem_lineSpans hx
    have hspan : x ∈ findSpans content needle :=
      (mem_findSpans hne).mpr ⟨line, by rwa [hnumber], by rwa [hnumber]⟩
    obtain ⟨line', hline', hpoints⟩ := hall needle hne x hspan
    rw [hnumber] at hline'
    cases hline.2.symm.trans hline'.2
    exact hwrong hpoints
  · intro hall needle hne x hx
    obtain ⟨line, hline, hx⟩ := (mem_findSpans hne).mp hx
    have hsteady := hall line (List.mem_of_getElem? hline.2)
    exact ⟨line, hline, (cutFrom_of_mem hx).pointsAt hne hsteady⟩

/-- Spans are in order, do not overlap, and are cut out of their lines where the lower case of the
line has that of the needle. All spans of all needles point at them if and only if every line is
steady. -/
theorem findSpans_point (content : Text) :
    (∀ needle, needle ≠ [] → (findSpans content needle).Pairwise Before ∧
      ∀ x ∈ findSpans content needle, ∃ line, IsLine content x.line line ∧
        CutFrom needle line x ∧
        (dottedI ∉ needle → dottedI ∉ line → x.stop ≤ line.length ∧
          (PointsAt needle line x ↔ lower x.text = slice (lower line) x.start x.stop))) ∧
    ((∀ needle, needle ≠ [] → ∀ x ∈ findSpans content needle, PointsInto content needle x) ↔
      ∀ line ∈ lines content, Steady line) := by
  refine ⟨fun needle hne => ⟨pairwise_findSpans hne, fun x hx => ?_⟩, pointsInto_iff_steady content⟩
  obtain ⟨line, hline, hx⟩ := (mem_findSpans hne).mp hx
  have hcut := cutFrom_of_mem hx
  refine ⟨line, hline, hcut, fun hneedle hdot => ?_⟩
  exact ⟨hcut.stop_le hne hneedle hdot, hcut.pointsAt_iff hne hneedle hdot⟩

/-- A dotted capital I moves the spans behind it; a final sigma is found where by itself there is
none. -/
theorem spans_miss_the_needle :
    (∃ x ∈ findSpans [dottedI, 'a'] ['a'], ¬PointsInto [dottedI, 'a'] ['a'] x) ∧
      ∃ x ∈ findSpans ['A', sigma] [finalSigma], ¬PointsInto ['A', sigma] [finalSigma] x := by
  constructor
  · refine ⟨⟨[], 2, 3, 1, [dottedI, 'a']⟩, by decide +kernel, ?_⟩
    rintro ⟨line, ⟨-, hline⟩, hpoints⟩
    cases hline
    exact absurd hpoints.stop (by decide)
  · refine ⟨⟨[sigma], 1, 2, 1, ['A', sigma]⟩, by decide +kernel, ?_⟩
    rintro ⟨line, -, hpoints⟩
    exact absurd hpoints.same (by decide +kernel)

end VaultSearch.Note
