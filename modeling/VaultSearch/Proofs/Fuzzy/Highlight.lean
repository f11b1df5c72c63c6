import VaultSearch.Proofs.Fuzzy.Lines

namespace VaultSearch

open Text Number Note

namespace Fuzzy

section Marking

def IsSimilar (threshold : Binary64) (query w : Text) : Prop :=
  reaches threshold (similarity w (lower query)) = true

/-- A run of word characters that is not cut short by what follows it. -/
structure IsRun (w t : Text) : Prop where
  ne_nil : w ≠ []
  word : ∀ c ∈ w, isWordChar c = true
  ends : ∀ c ∈ t.head?, isWordChar c = false

/-- The second text is the first with markers around some of its words. Since a run goes on as far
as it can, no run follows another one, so that none starts in the middle of a word either. -/
inductive Marked (similar : Text → Prop) (opening closing : Text) : Text → Text → Prop
  | nil : Marked similar opening closing [] []
  | other {c : Char} {t u : Text} (hc : isWordChar c = false)
      (rest : Marked similar opening closing t u) : Marked similar opening closing (c :: t) (c :: u)
  | wrapped {w t u : Text} (hw : IsRun w t) (hs : similar w)
      (rest : Marked similar opening closing t u) :
      Marked similar opening closing (w ++ t) (opening ++ w ++ closing ++ u)
  | bare {w t u : Text} (hw : IsRun w t) (hs : ¬similar w)
      (rest : Marked similar opening closing t u) : Marked similar opening closing (w ++ t) (w ++ u)

theorem exists_marked (similar : Text → Prop) (opening closing t : Text) :
    ∃ u, Marked similar opening closing t u := by
  induction t using runs_induction (p := (!isWordChar ·)) with
  | nil => exact ⟨[], .nil⟩
  | skip c t hc ih =>
      obtain ⟨u, hu⟩ := ih
      exact ⟨c :: u, .other (by simpa using hc) hu⟩
  | run w t hne hw ht ih =>
      obtain ⟨u, hu⟩ := ih
      have hrun : IsRun w t := ⟨hne, by simpa using hw, by simpa using ht⟩
      by_cases hs : similar w
      · exact ⟨_, .wrapped hrun hs hu⟩
      · exact ⟨_, .bare hrun hs hu⟩

end Marking

section Splicing

variable {threshold : Binary64} {opening closing query w t u : Text}

/-- Takes the markers around a word out again, where no word before it has any. -/
def unwrap (opening closing t : Text) (m : Match) : Text :=
  t.take m.start ++ slice t (m.start + opening.length) (m.stop + opening.length) ++
    t.drop (m.stop + opening.length + closing.length)

theorem similarFrom_nil (offset : Nat) : similarFrom threshold query offset [] = [] := by
  rw [similarFrom, wordRuns_nil, List.filterMap_nil]

theorem similarFrom_skip {c : Char} (hc : isWordChar c = false) (offset : Nat) (t : Text) :
    similarFrom threshold query offset (c :: t) = similarFrom threshold query (offset + 1) t := by
  rw [similarFrom, wordRuns_skip hc, similarFrom]

theorem similarFrom_wrapped (hw : IsRun w t) (hs : IsSimilar threshold query w) (offset : Nat) :
    similarFrom threshold query offset (w ++ t) =
      matchAt query offset w :: similarFrom threshold query (offset + w.length) t := by
  have hrun : similarRun threshold query (offset, w) = some (matchAt query offset w) := if_pos hs
  rw [similarFrom, wordRuns_append hw.ne_nil hw.word hw.ends, List.filterMap_cons_some hrun,
    similarFrom]

theorem similarFrom_bare (hw : IsRun w t) (hs : ¬IsSimilar threshold query w) (offset : Nat) :
    similarFrom threshold query offset (w ++ t) =
      similarFrom threshold query (offset + w.length) t := by
  have hrun : similarRun threshold query (offset, w) = none := if_neg hs
  rw [similarFrom, wordRuns_append hw.ne_nil hw.word hw.ends, List.filterMap_cons_none hrun,
    similarFrom]

theorem wrap_append (opening closing query front w u : Text) :
    wrap opening closing (front ++ w ++ u) (matchAt query front.length w) =
      front ++ (opening ++ w ++ closing ++ u) := by
  have htake : (front ++ w ++ u).take front.length = front := by
    rw [List.append_assoc, List.take_left]
  have hdrop : (front ++ w ++ u).drop (front.length + w.length) = u := by
    rw [← List.length_append, List.drop_left]
  simp only [wrap, matchAt, htake, hdrop, slice_append]
  simp only [List.append_assoc]

theorem unwrap_append (opening closing query front w u : Text) :
    unwrap opening closing (front ++ (opening ++ w ++ closing ++ u)) (matchAt query front.length w) =
      front ++ w ++ u := by
  have htake : (front ++ (opening ++ w ++ closing ++ u)).take front.length = front := List.take_left
  have hword : slice (front ++ (opening ++ w ++ closing ++ u)) (front.length + opening.length)
      (front.length + w.length + opening.length) = w := by
    have hcut := slice_append (front ++ opening) w (closing ++ u)
    simp only [List.length_append, List.append_assoc] at hcut ⊢
    rwa [Nat.add_right_comm]
  have hdrop : (front ++ (opening ++ w ++ closing ++ u)).drop
      (front.length + w.length + opening.length + closing.length) = u := by
    have hlength : front.length + w.length + opening.length + closing.length =
        (front ++ opening ++ w ++ closing).length := by
      simp only [List.length_append]
      omega
    rw [hlength, ← List.append_assoc, ← List.append_assoc, ← List.append_assoc, List.drop_left]
  simp only [unwrap, matchAt, htake, hword, hdrop]

/-- Wrapping from the last word to the first leaves what stands before a word as it is, so that the
places of the words stay right. -/
theorem Marked.foldr_wrap (h : Marked (IsSimilar threshold query) opening closing t u) (front : Text) :
    (similarFrom threshold query front.length t).foldr (fun m s => wrap opening closing s m)
      (front ++ t) = front ++ u := by
  induction h generalizing front with
  | nil => rw [similarFrom_nil, List.foldr_nil]
  | @other c t u hc rest ih =>
      have hrest := ih (front ++ [c])
      rw [List.length_append, List.length_singleton, List.append_assoc, List.append_assoc] at hrest
      rw [similarFrom_skip hc]
      exact hrest
  | @wrapped w t u hw hs rest ih =>
      have hrest := ih (front ++ w)
      rw [List.length_append, List.append_assoc] at hrest
      rw [similarFrom_wrapped hw hs, List.foldr_cons, hrest, wrap_append]
  | @bare w t u hw hs rest ih =>
      have hrest := ih (front ++ w)
      rw [List.length_append, List.append_assoc, List.append_assoc] at hrest
      rw [similarFrom_bare hw hs, hrest]

/-- Unwrapping goes from the first word to the last, so that the words before a word are where they
are in the text without markers. -/
theorem Marked.foldl_unwrap (h : Marked (IsSimilar threshold query) opening closing t u)
    (front : Text) :
    (similarFrom threshold query front.length t).foldl (unwrap opening closing) (front ++ u) =
      front ++ t := by
  induction h generalizing front with
  | nil => rw [similarFrom_nil, List.foldl_nil]
  | @other c t u hc rest ih =>
      have hrest := ih (front ++ [c])
      rw [List.length_append, List.length_singleton, List.append_assoc, List.append_assoc] at hrest
      rw [similarFrom_skip hc]
      exact hrest
  | @wrapped w t u hw hs rest ih =>
      have hrest := ih (front ++ w)
      rw [List.length_append, List.append_assoc front w t] at hrest
      rw [similarFrom_wrapped hw hs, List.foldl_cons, unwrap_append, hrest]
  | @bare w t u hw hs rest ih =>
      have hrest := ih (front ++ w)
      rw [List.length_append, List.append_assoc, List.append_assoc] at hrest
      rw [similarFrom_bare hw hs, hrest]

end Splicing

theorem highlight_eq (threshold : Binary64) (opening closing t query : Text) :
    highlight threshold opening closing t query =
      (similarFrom threshold query 0 t).foldr (fun m s => wrap opening closing s m) t := by
  rw [highlight, byStart_findMatches, List.foldl_reverse, similarWords_eq]

/-- Highlighting wraps every word that is similar enough to the query, as a whole and once, and
changes nothing else; so the text is what is left without the markers. -/
theorem highlight_marks (threshold : Binary64) (opening closing t query : Text) :
    (∀ u, u = highlight threshold opening closing t query ↔
        Marked (IsSimilar threshold query) opening closing t u) ∧
      (byStart (findMatches threshold t query)).foldl (unwrap opening closing)
        (highlight threshold opening closing t query) = t := by
  obtain ⟨v, hv⟩ := exists_marked (IsSimilar threshold query) opening closing t
  have hunique : ∀ u, Marked (IsSimilar threshold query) opening closing t u →
      highlight threshold opening closing t query = u := fun u hu =>
    (highlight_eq threshold opening closing t query).trans (hu.foldr_wrap [])
  refine ⟨fun u => ⟨?_, fun hu => (hunique u hu).symm⟩, ?_⟩
  · rintro rfl
    rw [hunique v hv]
    exact hv
  · rw [hunique v hv, byStart_findMatches, similarWords_eq]
    exact hv.foldl_unwrap []

end Fuzzy

end VaultSearch
