import VaultSearch.Proofs.Fuzzy.Admission
import VaultSearch.Proofs.Note.Span

namespace VaultSearch

open Text Number Note

namespace Fuzzy

variable {threshold : Binary64} {query t : Text}

section Runs

theorem wordRuns_pairwise (offset : Nat) (t : Text) :
    (wordRuns offset t).Pairwise fun a b => a.1 < b.1 := by
  induction t using runs_induction (p := (!isWordChar ·)) generalizing offset with
  | nil => simp [wordRuns_nil]
  | skip c t hc ih =>
      rw [wordRuns_skip (by simpa using hc)]
      exact ih _
  | run w t hne hw ht ih =>
      rw [wordRuns_append hne (by simpa using hw) (by simpa using ht)]
      refine .cons (fun b hb => ?_) (ih _)
      obtain ⟨left, -, -, hstart⟩ := mem_wordRuns hb
      have hpos := List.length_pos_iff.mpr hne
      dsimp only
      omega

theorem wordRuns_shift (n offset : Nat) (t : Text) :
    wordRuns (n + offset) t = (wordRuns offset t).map fun r => (n + r.1, r.2) := by
  induction t using runs_induction (p := (!isWordChar ·)) generalizing offset with
  | nil => simp [wordRuns_nil]
  | skip c t hc ih =>
      rw [wordRuns_skip (by simpa using hc), wordRuns_skip (by simpa using hc), Nat.add_assoc, ih]
  | run w t hne hw ht ih =>
      rw [wordRuns_append hne (by simpa using hw) (by simpa using ht),
        wordRuns_append hne (by simpa using hw) (by simpa using ht), List.map_cons, Nat.add_assoc, ih]

/-- No run goes over a character that is in no word. -/
theorem wordRuns_append_sep {c : Char} (hc : isWordChar c = false) (offset : Nat) (s t : Text) :
    wordRuns offset (s ++ c :: t) = wordRuns offset s ++ wordRuns (offset + (s.length + 1)) t := by
  induction s using runs_induction (p := (!isWordChar ·)) generalizing offset with
  | nil => rw [List.nil_append, wordRuns_skip hc, wordRuns_nil]; rfl
  | skip d s hd ih =>
      rw [List.cons_append, wordRuns_skip (by simpa using hd), wordRuns_skip (by simpa using hd), ih,
        List.length_cons, show offset + 1 + (s.length + 1) = offset + (s.length + 1 + 1) by omega]
  | run w s hne hw hs ih =>
      have hrest : ∀ d ∈ (s ++ c :: t).head?, isWordChar d = false := by
        cases s with
        | nil => simpa using hc
        | cons d s => simpa using hs
      rw [List.append_assoc, wordRuns_append hne (by simpa using hw) hrest,
        wordRuns_append hne (by simpa using hw) (by simpa using hs), ih, List.cons_append,
        List.length_append,
        show offset + w.length + (s.length + 1) = offset + (w.length + s.length + 1) by omega]

end Runs

section Similar

def matchAt (query : Text) (start : Nat) (w : Text) : Match :=
  ⟨w, start, start + w.length, similarity w (lower query)⟩

def similarRun (threshold : Binary64) (query : Text) (run : Nat × Text) : Option Match :=
  if reaches threshold (similarity run.2 (lower query)) then some (matchAt query run.1 run.2) else none

def similarFrom (threshold : Binary64) (query : Text) (offset : Nat) (t : Text) : List Match :=
  (wordRuns offset t).filterMap (similarRun threshold query)

theorem similarWords_eq (threshold : Binary64) (t query : Text) :
    similarWords threshold t query = similarFrom threshold query 0 t := rfl

theorem start_of_similarRun {run : Nat × Text} {m : Match}
    (h : similarRun threshold query run = some m) : m.start = run.1 := by
  rw [similarRun] at h
  split at h
  · cases h
    rfl
  · cases h

def Match.shift (n : Nat) (m : Match) : Match := { m with start := n + m.start, stop := n + m.stop }

theorem similarRun_shift (n : Nat) (run : Nat × Text) :
    similarRun threshold query (n + run.1, run.2) =
      (similarRun threshold query run).map (Match.shift n) := by
  rw [similarRun, similarRun]
  split
  · simp [matchAt, Match.shift, Nat.add_assoc]
  · rfl

theorem similarFrom_shift (n : Nat) (t : Text) :
    similarFrom threshold query n t = (similarWords threshold t query).map (Match.shift n) := by
  have hrun : (similarRun threshold query ∘ fun r => (n + r.1, r.2)) =
      fun r => (similarRun threshold query r).map (Match.shift n) :=
    funext fun r => similarRun_shift n r
  rw [← Nat.add_zero n, similarFrom, wordRuns_shift, List.filterMap_map, hrun, similarWords_eq,
    similarFrom, List.map_filterMap, Nat.add_zero]

theorem similarWords_append_sep {c : Char} (hc : isWordChar c = false) (s t : Text) :
    similarWords threshold (s ++ c :: t) query = similarWords threshold s query ++
      (similarWords threshold t query).map (Match.shift (s.length + 1)) := by
  rw [← similarFrom_shift, similarWords_eq, similarFrom, wordRuns_append_sep hc,
    List.filterMap_append, Nat.zero_add]
  rfl

theorem pairwise_similarWords (threshold : Binary64) (t query : Text) :
    (similarWords threshold t query).Pairwise fun a b => a.start < b.start := by
  rw [similarWords_eq, similarFrom]
  refine (wordRuns_pairwise 0 t).filterMap _ fun r r' hlt m hm m' hm' => ?_
  rw [start_of_similarRun hm, start_of_similarRun hm']
  exact hlt

/-- Sorting by place undoes sorting by score. -/
theorem byStart_findMatches (threshold : Binary64) (t query : Text) :
    byStart (findMatches threshold t query) = similarWords threshold t query := by
  have hperm : (byStart (findMatches threshold t query)).Perm (similarWords threshold t query) :=
    (List.mergeSort_perm _ _).trans (List.mergeSort_perm _ _)
  have hordered := pairwise_similarWords threshold t query
  have hsorted : (byStart (findMatches threshold t query)).Pairwise fun a b => a.start ≤ b.start := by
    have htrans : ∀ a b c : Match, decide (a.start ≤ b.start) = true →
        decide (b.start ≤ c.start) = true → decide (a.start ≤ c.start) = true := by
      simp only [decide_eq_true_eq]
      exact fun a b c hab hbc => Nat.le_trans hab hbc
    have htotal : ∀ a b : Match,
        (decide (a.start ≤ b.start) || decide (b.start ≤ a.start)) = true := by
      simp only [Bool.or_eq_true, decide_eq_true_eq]
      exact fun a b => Nat.le_total a.start b.start
    have h := List.pairwise_mergeSort htrans htotal (findMatches threshold t query)
    simpa only [byStart, decide_eq_true_eq] using h
  have hdistinct : ((similarWords threshold t query).map Match.start).Nodup :=
    (List.pairwise_map.mpr hordered).imp fun hlt => Nat.ne_of_lt hlt
  refine hperm.eq_of_pairwise (fun a b ha hb hab hba => ?_) hsorted (hordered.imp Nat.le_of_lt)
  exact List.inj_on_of_nodup_map hdistinct (hperm.mem_iff.mp ha) hb (Nat.le_antisymm hab hba)

end Similar

section Lines

def withBreaks (ls : List Text) : Text := ls.flatMap (· ++ ['\n'])

def lineStart (content : Text) (number : Nat) : Nat :=
  (withBreaks ((lines content).take (number - 1))).length

/-- The span, which is placed in its line, and the match, which is placed in the whole content, are
the same stretch of it. -/
structure SameStretch (content : Text) (s : Span) (m : Match) : Prop where
  text : s.text = m.text
  start : m.start = lineStart content s.line + s.start
  stop : m.stop = lineStart content s.line + s.stop
  line : s.line = (content.take m.start).count '\n' + 1
  cut : ∃ line, IsLine content s.line line ∧ s.text = slice line s.start s.stop

theorem lines_cons {w : Text} (hw : '\n' ∉ w) (t : Text) : lines (w ++ '\n' :: t) = w :: lines t := by
  refine pieces_append_cons (fun c hc => ?_) rfl t
  rw [beq_eq_false_iff_ne]
  rintro rfl
  exact hw hc

theorem lines_withBreaks {ls : List Text} (hls : ∀ w ∈ ls, '\n' ∉ w) (t : Text) :
    lines (withBreaks ls ++ t) = ls ++ lines t := by
  induction ls with
  | nil => rfl
  | cons w ls ih =>
      obtain ⟨hw, hls⟩ := List.forall_mem_cons.mp hls
      rw [withBreaks, List.flatMap_cons, ← withBreaks, List.append_assoc, List.append_assoc,
        List.singleton_append, lines_cons hw, ih hls, List.cons_append]

theorem count_withBreaks {ls : List Text} (hls : ∀ w ∈ ls, '\n' ∉ w) :
    (withBreaks ls).count '\n' = ls.length := by
  induction ls with
  | nil => rfl
  | cons w ls ih =>
      obtain ⟨hw, hls⟩ := List.forall_mem_cons.mp hls
      rw [withBreaks, List.flatMap_cons, ← withBreaks, List.count_append, ih hls, List.count_append,
        List.count_eq_zero.mpr hw, List.count_singleton_self, List.length_cons]
      omega

variable {ls : List Text} {w u : Text} {m : Match}

theorem stretch_of_mem (h : m ∈ similarWords threshold w query) :
    m.start ≤ w.length ∧ slice w m.start m.stop = m.text := by
  have hfound := found_of_mem (List.mem_mergeSort.mpr h)
  obtain ⟨left, right, hsplit, hstart⟩ := mem_wordRuns hfound.run
  have hlength := congrArg List.length hsplit
  simp only [List.length_append] at hlength
  exact ⟨by omega, hfound.cut⟩

/-- What is found in one line, seen from the whole content. -/
theorem sameStretch_of_mem (hls : ∀ v ∈ ls, '\n' ∉ v) (hw : '\n' ∉ w)
    (hline : (lines (w ++ u)).head? = some w) (h : m ∈ similarWords threshold w query) :
    SameStretch (withBreaks ls ++ (w ++ u)) (.ofLine (ls.length + 1) w m.start m.stop)
      (m.shift (withBreaks ls).length) := by
  obtain ⟨hstart, hcut⟩ := stretch_of_mem h
  have hlines := lines_withBreaks hls (w ++ u)
  have hbefore : lineStart (withBreaks ls ++ (w ++ u)) (ls.length + 1) = (withBreaks ls).length := by
    rw [lineStart, hlines, Nat.add_sub_cancel, List.take_left]
  have hnumber : IsLine (withBreaks ls ++ (w ++ u)) (ls.length + 1) w := by
    refine ⟨Nat.le_add_left 1 _, ?_⟩
    rw [hlines, Nat.add_sub_cancel, List.getElem?_append_right (Nat.le_refl _), Nat.sub_self,
      ← List.head?_eq_getElem?, hline]
  have hnone : '\n' ∉ w.take m.start := fun hmem => hw (List.mem_of_mem_take hmem)
  refine ⟨hcut, ?_, ?_, ?_, ⟨w, hnumber, rfl⟩⟩
  · exact congrArg (· + m.start) hbefore.symm
  · exact congrArg (· + m.stop) hbefore.symm
  · change ls.length + 1 = _
    rw [Match.shift, List.take_length_add_append, List.take_append_of_le_length hstart,
      List.count_append, count_withBreaks hls, List.count_eq_zero.mpr hnone, Nat.add_zero]

def lineMatches (threshold : Binary64) (query : Text) (line : Text × Nat) : List Span :=
  (similarWords threshold line.1 query).map fun m => .ofLine line.2 line.1 m.start m.stop

theorem spans_eq (threshold : Binary64) (content query : Text) :
    spans threshold content query =
      ((lines content).zipIdx 1).flatMap (lineMatches threshold query) := by
  rw [spans]
  refine List.flatMap_congr ?_
  rintro ⟨line, number⟩ -
  dsimp only
  rw [byStart_findMatches, lineMatches]

theorem sameStretch_line (threshold : Binary64) (query : Text) (hls : ∀ v ∈ ls, '\n' ∉ v)
    (hw : '\n' ∉ w) (hline : (lines (w ++ u)).head? = some w) :
    List.Forall₂ (SameStretch (withBreaks ls ++ (w ++ u)))
      (lineMatches threshold query (w, ls.length + 1))
      ((similarWords threshold w query).map (Match.shift (withBreaks ls).length)) := by
  rw [lineMatches, List.forall₂_map_left_iff, List.forall₂_map_right_iff, List.forall₂_same]
  exact fun m hm => sameStretch_of_mem hls hw hline hm

/-- The lines that are still to come after `ls`, one by one. -/
theorem sameStretch_lines (threshold : Binary64) (query : Text) (hls : ∀ v ∈ ls, '\n' ∉ v)
    (t : Text) :
    List.Forall₂ (SameStretch (withBreaks ls ++ t))
      (((lines t).zipIdx (ls.length + 1)).flatMap (lineMatches threshold query))
      ((similarWords threshold t query).map (Match.shift (withBreaks ls).length)) := by
  induction t using pieces_induction (p := (· == '\n')) generalizing ls with
  | last w hfree =>
      have hw : '\n' ∉ w := fun hmem => by simpa using hfree _ hmem
      have hlast : lines w = [w] := pieces_of_forall hfree
      have hall := sameStretch_line threshold query (u := []) hls hw
        (by rw [List.append_nil, hlast]; rfl)
      rw [List.append_nil] at hall
      rw [hlast, List.zipIdx_singleton, List.flatMap_singleton]
      exact hall
  | next w c t hfree hc ih =>
      have hw : '\n' ∉ w := fun hmem => by simpa using hfree _ hmem
      obtain rfl : c = '\n' := by simpa using hc
      have hthis := sameStretch_line threshold query (u := '\n' :: t) hls hw
        (by rw [lines_cons hw]; rfl)
      have hmore : ∀ v ∈ ls ++ [w], '\n' ∉ v :=
        List.forall_mem_append.mpr ⟨hls, List.forall_mem_singleton.mpr hw⟩
      have hlater := ih hmore
      have hbreaks : withBreaks (ls ++ [w]) = withBreaks ls ++ (w ++ ['\n']) := by simp [withBreaks]
      have hshift : Match.shift (withBreaks ls).length ∘ Match.shift (w.length + 1) =
          Match.shift (withBreaks (ls ++ [w])).length := by
        funext m
        simp [hbreaks, Match.shift, Nat.add_assoc]
      rw [List.length_append, List.length_singleton] at hlater
      rw [hbreaks, List.append_assoc, List.append_assoc, List.singleton_append, ← hbreaks] at hlater
      rw [lines_cons hw, List.zipIdx_cons, List.flatMap_cons,
        similarWords_append_sep (by decide), List.map_append, List.map_map, hshift]
      exact List.rel_append hthis hlater

end Lines

/-- The spans line by line are the matches in the whole content, in order of their places. -/
theorem spans_same_matches (threshold : Binary64) (content query : Text) :
    (byStart (findMatches threshold content query)).Perm (findMatches threshold content query) ∧
      ((byStart (findMatches threshold content query)).Pairwise fun a b => a.start < b.start) ∧
      List.Forall₂ (SameStretch content) (spans threshold content query)
        (byStart (findMatches threshold content query)) := by
  refine ⟨List.mergeSort_perm _ _, ?_, ?_⟩
  · rw [byStart_findMatches]
    exact pairwise_similarWords threshold content query
  have hnone : ∀ v ∈ ([] : List Text), '\n' ∉ v := by simp
  have hall := sameStretch_lines threshold query hnone content
  have hunmoved : Match.shift (withBreaks []).length = id := by
    funext m
    simp [Match.shift, withBreaks]
  rw [hunmoved, List.map_id] at hall
  rw [spans_eq, byStart_findMatches]
  exact hall

end Fuzzy

end VaultSearch
