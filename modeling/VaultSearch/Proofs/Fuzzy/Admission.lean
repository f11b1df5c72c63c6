import VaultSearch.Fuzzy.Rank
import VaultSearch.Proofs.Number.Rounding
import VaultSearch.Proofs.Text.Steady
import VaultSearch.Proofs.Text.Words
import VaultSearch.Search.Pipeline

namespace VaultSearch

open Text Number Note

namespace Text

theorem words_lower (t : Text) : words (lower t) = (words t).map lower := by
  rw [words, pieces_lower fun _ hc => hc, List.filter_map]
  refine congrArg (List.map lower) (List.filter_congr fun w _ => ?_)
  cases w with
  | nil => rfl
  | cons c w => simp [lower_ne_nil (List.cons_ne_nil c w)]

theorem slice_append (left w right : Text) :
    slice (left ++ w ++ right) left.length (left.length + w.length) = w := by
  rw [slice, ← List.length_append, List.take_left', List.drop_left']
  · rfl
  · rfl

end Text

namespace Fuzzy

section Runs

variable {t w : Text} {i offset : Nat}

theorem wordRuns_nil : wordRuns offset [] = [] := by rw [wordRuns.eq_def]

theorem wordRuns_append (hne : w ≠ []) (hw : ∀ c ∈ w, isWordChar c = true)
    (ht : ∀ c ∈ t.head?, isWordChar c = false) :
    wordRuns offset (w ++ t) = (offset, w) :: wordRuns (offset + w.length) t := by
  cases w with
  | nil => exact absurd rfl hne
  | cons c w =>
      obtain ⟨hc, hw⟩ := List.forall_mem_cons.mp hw
      rw [List.cons_append, wordRuns.eq_def]
      simp only [hc, if_true, takeWhile_append_run hw ht, dropWhile_append_run hw ht]

theorem wordRuns_skip {c : Char} (h : isWordChar c = false) :
    wordRuns offset (c :: t) = wordRuns (offset + 1) t := by
  rw [wordRuns.eq_def]
  simp [h]

/-- A run of word characters stands where it says that it does. -/
theorem mem_wordRuns (h : (i, w) ∈ wordRuns offset t) :
    ∃ left right, t = left ++ w ++ right ∧ i = offset + left.length := by
  induction t using runs_induction (p := (!isWordChar ·)) generalizing offset with
  | nil => simp [wordRuns_nil] at h
  | skip c t hc ih =>
      rw [wordRuns_skip (by simpa using hc)] at h
      obtain ⟨left, right, rfl, rfl⟩ := ih h
      exact ⟨c :: left, right, rfl, by simp only [List.length_cons]; omega⟩
  | run v t hne hv ht ih =>
      rw [wordRuns_append hne (by simpa using hv) (by simpa using ht), List.mem_cons] at h
      rcases h with h | h
      · cases h
        exact ⟨[], t, rfl, rfl⟩
      · obtain ⟨left, right, rfl, rfl⟩ := ih h
        exact ⟨v ++ left, right, by simp, by simp only [List.length_append]; omega⟩

/-- Where only blanks part the words, the runs of word characters are the words. -/
theorem snd_wordRuns (h : ∀ c ∈ t, isBlank c = true ∨ isWordChar c = true) (offset : Nat) :
    (wordRuns offset t).map Prod.snd = words t := by
  induction t using words_induction generalizing offset with
  | nil => rw [wordRuns_nil]; rfl
  | blank c t hc ih =>
      rw [wordRuns_skip (isWordChar_blank hc), words_of_isBlank hc]
      exact ih (fun d hd => h d (List.mem_cons_of_mem c hd)) _
  | word w t hne hw ht ih =>
      have hword : ∀ c ∈ w, isWordChar c = true := fun c hc =>
        (h c (List.mem_append_left t hc)).resolve_left (by simp [hw c hc])
      have hrest := ih (fun c hc => h c (List.mem_append_right w hc)) (offset + w.length)
      rw [wordRuns_append hne hword fun c hc => isWordChar_blank (ht c hc), List.map_cons, hrest,
        words_append hne hw ht]

end Runs

section Similarity

theorem reaches_mono {threshold : Binary64} {a b : Rat} (h : a ≤ b)
    (ha : reaches threshold a = true) : reaches threshold b = true := by
  cases threshold with
  | nan => exact ha
  | infinite negative => cases negative <;> exact ha
  | negZero => exact decide_eq_true ((of_decide_eq_true ha).trans h)
  | finite v => exact decide_eq_true ((of_decide_eq_true ha).trans h)

/-- A word is no less similar once it is in lower case: it can only get longer, and the number of
edits is counted in lower case anyway. -/
theorem similarity_lower (w q : Text) : similarity w q ≤ similarity (lower w) q := by
  have hlength : w.length ≤ (lower w).length := by
    rw [length_lower]
    exact Nat.le_add_right _ _
  have hsame : lower (lower w) = lower w := lower_of_infix List.infix_rfl
  rw [similarity, similarity, hsame]
  split
  · rename_i hzero
    have hempty : w = [] := List.length_eq_zero_iff.mp (by omega)
    subst hempty
    rw [show lower [] = [] from rfl, if_pos hzero]
  · rename_i hpos
    rw [if_neg (by omega)]
    refine nearest_mono (sub_le_sub_left (nearest_mono ?_) 1)
    rw [Rat.mkRat_eq_div, Rat.mkRat_eq_div]
    refine div_le_div_of_nonneg_left (by positivity) ?_ ?_
    · exact_mod_cast Nat.pos_of_ne_zero hpos
    · exact_mod_cast max_le_max_right q.length hlength

end Similarity

section Matching

variable {threshold : Binary64} {text query w : Text}

theorem isMatch_of_word (hw : w ∈ words text)
    (h : reaches threshold (similarity w (lower query)) = true) :
    isMatch threshold text query = true := by
  rw [isMatch, words_lower, List.any_map, Bool.or_eq_true, List.any_eq_true]
  exact .inr ⟨w, hw, reaches_mono (similarity_lower w _) h⟩

structure Found (threshold : Binary64) (text query : Text) (m : Match) : Prop where
  cut : slice text m.start m.stop = m.text
  similar : reaches threshold (similarity m.text (lower query)) = true
  run : (m.start, m.text) ∈ wordRuns 0 text

theorem found_of_mem {m : Match} (h : m ∈ findMatches threshold text query) :
    Found threshold text query m := by
  rw [findMatches, List.mem_mergeSort] at h
  obtain ⟨⟨i, w⟩, hrun, hm⟩ := List.mem_filterMap.mp h
  simp only at hm
  split at hm
  · rename_i hreaches
    cases hm
    refine ⟨?_, hreaches, hrun⟩
    obtain ⟨left, right, rfl, rfl⟩ := mem_wordRuns hrun
    rw [Nat.zero_add]
    exact slice_append left w right
  · cases hm

theorem mem_spans {content : Text} {s : Span} (h : s ∈ spans threshold content query) :
    ∃ line m, Found threshold line query m ∧ s.text = m.text := by
  obtain ⟨⟨line, number⟩, -, h⟩ := List.mem_flatMap.mp h
  obtain ⟨m, hm, rfl⟩ := List.mem_map.mp h
  have hfound := found_of_mem (List.mem_mergeSort.mp hm)
  exact ⟨line, m, hfound, hfound.cut⟩

theorem mem_fuzzyResults {ds : List Document} {d : Document} (hd : d ∈ ds)
    (h : isMatch threshold d.content query = true) :
    ∃ r ∈ Search.fuzzyResults threshold query ds, r.id = d.id := by
  have hhit : Search.fuzzyHit threshold query d = true := Bool.or_eq_true_iff.mpr (.inr h)
  have hrank : (d, score query d) ∈ rank query (ds.filter (Search.fuzzyHit threshold query)) := by
    rw [rank, List.mem_mergeSort]
    exact List.mem_map_of_mem (List.mem_filter.mpr ⟨hd, hhit⟩)
  exact ⟨_, List.mem_map_of_mem hrank, rfl⟩

end Matching

/-- A word that is reported as similar to the query makes the text match if it stands between blanks,
as each word does in a text without punctuation. So a fuzzy search finds every document in which such
a word is marked. -/
theorem isMatch_of_found (threshold : Binary64) (query : Text) :
    (∀ text, ∀ m ∈ findMatches threshold text query, m.text ∈ words text →
        isMatch threshold text query = true) ∧
      (∀ text : Text, (∀ c ∈ text, isBlank c = true ∨ isWordChar c = true) →
        findMatches threshold text query ≠ [] → isMatch threshold text query = true) ∧
      ∀ (ds : List Document), ∀ d ∈ ds, ∀ s ∈ spans threshold d.content query,
        s.text ∈ words d.content →
        ∃ r ∈ Search.fuzzyResults threshold query ds, r.id = d.id := by
  refine ⟨fun text m hm halone => ?_, fun text hplain hne => ?_, fun ds d hd s hs halone => ?_⟩
  · exact isMatch_of_word halone (found_of_mem hm).similar
  · obtain ⟨m, hm⟩ := List.exists_mem_of_ne_nil _ hne
    have hfound := found_of_mem hm
    refine isMatch_of_word ?_ hfound.similar
    rw [← snd_wordRuns hplain 0]
    exact List.mem_map_of_mem hfound.run
  · obtain ⟨line, m, hfound, htext⟩ := mem_spans hs
    exact mem_fuzzyResults hd (isMatch_of_word halone (htext ▸ hfound.similar))

def receive : Text := "receive".toList

def alone : Document := { id := ['a'], content := "Please, RECIEVE (then) reply".toList }

def plain : Text := "Please\nRECIEVE then".toList

theorem isMatch_of_found_alone :
    isMatch defaultThreshold alone.content receive = true ∧
      isMatch defaultThreshold plain receive = true ∧
      ∃ r ∈ Search.fuzzyResults defaultThreshold receive [alone], r.id = ['a'] := by
  obtain ⟨hword, htext, hdocument⟩ := isMatch_of_found defaultThreshold receive
  have hfound : ∃ m ∈ findMatches defaultThreshold alone.content receive,
      m.text ∈ words alone.content := by
    decide +kernel
  have hspan : ∃ s ∈ spans defaultThreshold alone.content receive,
      s.text ∈ words alone.content := by
    decide +kernel
  have hplain : plain.all (fun c => isBlank c || isWordChar c) = true := by decide +kernel
  obtain ⟨m, hm, halone⟩ := hfound
  obtain ⟨s, hs, hspanAlone⟩ := hspan
  exact ⟨hword _ m hm halone, htext plain (by simpa using hplain) (by decide +kernel),
    hdocument [alone] alone (List.mem_singleton_self _) s hs hspanAlone⟩

def attached : Document := { id := ['a'], content := "Please recieve, then reply".toList }

/-- The comma is no part of the word that is marked, but it is of the word that is compared. -/
theorem comma_hides_word :
    (findMatches defaultThreshold attached.content receive).map Match.text = ["recieve".toList] ∧
      isMatch defaultThreshold attached.content receive = false ∧
      (spans defaultThreshold attached.content receive).map Span.text = ["recieve".toList] ∧
      Search.fuzzyResults defaultThreshold receive [attached] = [] := by
  decide +kernel

end Fuzzy

end VaultSearch
