import VaultSearch.Proofs.Search.Conjunction
import VaultSearch.Proofs.Search.Exact

namespace VaultSearch.Text

section Blanks

variable {t : Text}

/-- A text that agrees up to case with words that are joined by spaces has as many words, and
itself no blanks but single spaces between them. -/
theorem spaced_of_lower_eq {ws : List Text} (hne : ws ≠ [])
    (hws : ∀ w ∈ ws, w ≠ [] ∧ ∀ c ∈ w, isBlank c = false)
    (h : lower t = lower (joinWith [' '] ws)) :
    joinWith [' '] (words t) = t ∧ (words t).length = ws.length := by
  have hpieces : (pieces isBlank t).map lower = ws.map lower := by
    have hsame := congrArg (pieces isBlank) h
    rwa [pieces_lower (fun _ hc => hc), pieces_lower (fun _ hc => hc),
      pieces_joinWith (by decide) hne fun w hw => (hws w hw).2] at hsame
  have hfull : ∀ w ∈ pieces isBlank t, w ≠ [] := by
    rintro w hw rfl
    obtain ⟨v, hv, hlow⟩ := List.mem_map.mp (hpieces ▸ List.mem_map_of_mem (f := lower) hw)
    exact lower_ne_nil (hws v hv).1 hlow
  have hwords : words t = pieces isBlank t :=
    List.filter_eq_self.mpr fun w hw => by simpa using hfull w hw
  have hspaces : ∀ c ∈ t, isBlank c = true → c = ' ' := by
    intro c hc hblank
    rw [← mem_lower_iff hblank, h, mem_lower_iff hblank] at hc
    rcases mem_joinWith hc with hsep | ⟨w, hw, hcw⟩
    · exact List.mem_singleton.mp hsep
    · rw [(hws w hw).2 c hcw] at hblank
      cases hblank
  rw [hwords]
  refine ⟨joinWith_pieces hspaces, ?_⟩
  simpa using congrArg List.length hpieces

end Blanks

end VaultSearch.Text

namespace VaultSearch.Search

open Text Note Filtering

section Quotes

variable {p : Text}

/-- In the words of a phrase in quotes, the quotes belong to the first word and to the last. -/
theorem words_inQuotes (hne : p ≠ []) (htrim : trim p = p) :
    (Text.words p = [p] ∧ Text.words (inQuotes p) = [inQuotes p]) ∨
      ∃ first inner last, Text.words p = first :: (inner ++ [last]) ∧
        Text.words (inQuotes p) = ('"' :: first) :: (inner ++ [last ++ ['"']]) := by
  have hquote : isBlank '"' = false := by decide
  have hopened : ∀ w : Text, (∀ c ∈ w, isBlank c = false) → ∀ c ∈ '"' :: w, isBlank c = false :=
    fun w hw => List.forall_mem_cons.mpr ⟨hquote, hw⟩
  have hclosed : ∀ w : Text, (∀ c ∈ w, isBlank c = false) → ∀ c ∈ w ++ ['"'], isBlank c = false :=
    fun w hw c hc => (List.mem_append.mp hc).elim (hw c) fun hc => List.mem_singleton.mp hc ▸ hquote
  have hfirst := head?_trim p
  have hlast := getLast?_trim p
  rw [htrim] at hfirst hlast
  rcases split_first p with hp | ⟨first, b, t, rfl, hw, hb⟩
  · left
    exact ⟨words_of_forall hne hp, words_of_forall (List.cons_ne_nil _ _) (hopened _ (hclosed _ hp))⟩
  · right
    have hwne : first ≠ [] := by
      rintro rfl
      rw [hfirst b rfl] at hb
      cases hb
    have htne : t ≠ [] := by
      rintro rfl
      rw [hlast b (by simp)] at hb
      cases hb
    have hwhole : inQuotes (first ++ b :: t) = ('"' :: first) ++ b :: (t ++ ['"']) := by
      simp [inQuotes]
    rw [hwhole, words_append_blank hb, words_append_blank hb, words_of_forall hwne hw,
      words_of_forall (List.cons_ne_nil _ _) (hopened _ hw)]
    rcases split_last t with ht | ⟨s, e, last, rfl, hv, he⟩
    · refine ⟨first, [], t, ?_, ?_⟩
      · rw [words_of_forall htne ht]
        rfl
      · rw [words_of_forall (by simp) (hclosed _ ht)]
        rfl
    · have hvne : last ≠ [] := by
        rintro rfl
        have hend : (first ++ b :: (s ++ [e])).getLast? = some e := by
          rw [← List.cons_append, ← List.append_assoc, List.getLast?_concat]
        rw [hlast e hend] at he
        cases he
      refine ⟨first, Text.words s, last, ?_, ?_⟩
      · rw [words_append_blank he, words_of_forall hvne hv]
        rfl
      · have hend : (s ++ e :: last) ++ ['"'] = s ++ e :: (last ++ ['"']) := by simp
        rw [hend, words_append_blank he, words_of_forall (by simp) (hclosed _ hv)]
        rfl

theorem joinWith_inQuotes (first last : Text) (inner : List Text) :
    joinWith [' '] (('"' :: first) :: (inner ++ [last ++ ['"']])) =
      inQuotes (joinWith [' '] (first :: (inner ++ [last]))) := by
  rw [joinWith_cons_char, ← List.cons_append, joinWith_concat_append]
  rfl

theorem joinWith_words_inQuotes (hne : p ≠ []) (htrim : trim p = p) :
    joinWith [' '] (Text.words (inQuotes p)) = inQuotes (joinWith [' '] (Text.words p)) := by
  rcases words_inQuotes hne htrim with ⟨hp, hq⟩ | ⟨first, inner, last, hp, hq⟩
  · rw [hp, hq]
    rfl
  · rw [hp, hq, joinWith_inQuotes]

/-- No key starts with a quote. -/
theorem isFilter_quote (w : Text) : isFilter ('"' :: w) = false := by
  rw [isFilter, List.any_eq_false]
  intro k _
  cases hv : k.valueOf? ('"' :: w) with
  | none => simp
  | some v =>
      obtain ⟨htext, -⟩ := Key.valueOf?_eq_some_iff.mp hv
      cases k <;> cases htext

theorem inNeedle_of_mem_words (hquote : '"' ∉ p) {w : Text} (hw : w ∈ Text.words p) :
    w ≠ [] ∧ ∀ c ∈ w, inNeedle c = true := by
  refine ⟨mem_words hw, fun c hc => ?_⟩
  have hcq : c ≠ '"' := by
    rintro rfl
    exact hquote ((infix_of_mem_words hw).subset hc)
  simp [inNeedle, isBlank_of_mem_words hw c hc, hcq]

section Words

variable {ws : List Text} (hws : ∀ w ∈ ws, w ≠ [] ∧ ∀ c ∈ w, inNeedle c = true)

include hws

theorem quote_notMem_joinWith : '"' ∉ joinWith [' '] ws := by
  intro hmem
  rcases mem_joinWith hmem with hsep | ⟨w, hw, hmem⟩
  · simp at hsep
  · simpa [inNeedle] using (hws w hw).2 _ hmem

/-- Behind a quote that is not closed, words are sought one by one. -/
theorem needles_unclosed (hne : ws ≠ []) : needles ('"' :: joinWith [' '] ws) = ws.eraseDups := by
  have hparts : trimmedParts ('"' :: joinWith [' '] ws) = ws := by
    rw [trimmedParts, needleParts_unclosed (quote_notMem_joinWith hws), ← trimmedParts,
      trimmedParts_joinWith hws]
  rw [needles_eq_eraseDups (by rwa [hparts]), hparts]

theorem needles_closed (hne : ws ≠ []) :
    needles (inQuotes (joinWith [' '] ws)) = [joinWith [' '] ws] := by
  have hblank : ∀ w ∈ ws, w ≠ [] ∧ ∀ c ∈ w, isBlank c = false := fun w hw =>
    ⟨(hws w hw).1, fun c hc => not_isBlank_of_inNeedle ((hws w hw).2 c hc)⟩
  exact needles_inQuotes (joinWith_ne_nil [' '] hne fun w hw => (hws w hw).1)
    (quote_notMem_joinWith hws) (trim_joinWith [' '] hblank)

end Words

theorem filter_quote (w : Text) (ws : List Text) :
    (('"' :: w) :: ws).filter (!isFilter ·) = ('"' :: w) :: ws.filter (!isFilter ·) :=
  List.filter_cons_of_pos (by rw [isFilter_quote]; rfl)

/-- Not all of a phrase in quotes is taken for filters, since its first word is none. -/
theorem joinWith_freeWords_inQuotes_ne_nil (hne : p ≠ []) (htrim : trim p = p) :
    joinWith [' '] (freeWords (inQuotes p)) ≠ [] := by
  have hfirst : ∃ w ws, Text.words (inQuotes p) = ('"' :: w) :: ws := by
    rcases words_inQuotes hne htrim with ⟨-, hq⟩ | ⟨first, inner, last, -, hq⟩
    · exact ⟨_, _, hq⟩
    · exact ⟨_, _, hq⟩
  obtain ⟨w, ws, hq⟩ := hfirst
  rw [freeWords, hq, filter_quote, joinWith_cons_char]
  exact List.cons_ne_nil _ _

end Quotes

section Literal

variable {p : Text} {o : Options} {rest : Text} {inline : Filters}

def mentions (p : Text) (d : Document) : Bool :=
  contains (lower p) (lower d.title) || contains (lower p) (lower d.content)

theorem foundIds_search (hmode : o.mode = .exact)
    (hparse : Filtering.parse o.strict o.query = .ok (rest, inline)) (hne : rest ≠ [])
    (hlimit : o.limit = none ∨ o.limit = some 0) (hoffset : o.offset ≤ 0) (ds : List Document) :
    (search ds o).map foundIds =
      (((inline.merged o.filters).apply ds).mapError .time).map fun passed =>
        (((passed.filter (hasNeedles ((needles rest).map lower))).map (·.id) : List Text) :
          Multiset Text) := by
  rw [search_exact hmode hparse hne]
  cases (inline.merged o.filters).apply ds with
  | error err => rfl
  | ok passed =>
      simp only [Except.mapError, Except.map, foundIds_paginate hlimit hoffset,
        foundIds_exactResults]

def probe (c : Text) : Document where
  id := []
  title := c
  content := c
  wordCount := some 0
  linkCount := some 0

theorem admits_probe (f : Filters) (b c : Text) : f.admits (probe b) = f.admits (probe c) := rfl

theorem mentions_probe {n c : Text} : mentions n (probe c) = true ↔ lower n <:+: lower c := by
  simp only [mentions, probe, Bool.or_self, contains_iff_infix]

section Sought

variable (hmode : o.mode = .exact)
  (hparse : Filtering.parse o.strict o.query = .ok (rest, inline)) (hne : rest ≠ [])
  (hlimit : o.limit = none ∨ o.limit = some 0) (hoffset : o.offset ≤ 0)
  (hall : ∀ ds, (search ds o).map foundIds = .ok ((ds.filter (mentions p)).map (·.id) : List Text))

include hmode hparse hne hlimit hoffset hall

theorem mentions_iff (d : Document) : mentions p d = true ↔
    (inline.merged o.filters).admits d = .ok true ∧
      hasNeedles ((needles rest).map lower) d = true := by
  have hone := hall [d]
  rw [foundIds_search hmode hparse hne hlimit hoffset] at hone
  obtain ⟨passed, hpassed, hids⟩ := map_eq_ok_iff.mp hone
  obtain ⟨b, hadmits, rfl⟩ := apply_singleton_eq_ok_iff.mp (mapError_eq_ok_iff.mp hpassed)
  have hcount := congrArg Multiset.card hids
  rw [Multiset.coe_card, Multiset.coe_card, List.length_map, List.length_map] at hcount
  rw [hadmits]
  cases b <;> cases hhas : hasNeedles ((needles rest).map lower) d <;>
    cases hment : mentions p d <;> simp [hhas, hment] at hcount ⊢

/-- If a search finds what mentions the phrase, then what it asks for is in a text exactly if the
phrase is. -/
theorem needles_infix_iff (c : Text) :
    (∀ n ∈ needles rest, lower n <:+: lower c) ↔ lower p <:+: lower c := by
  have hhas : ∀ c, hasNeedles ((needles rest).map lower) (probe c) = true ↔
      ∀ n ∈ needles rest, lower n <:+: lower c := by
    simp [hasNeedles, probe, contains_iff_infix]
  have hfound := fun c => mentions_iff hmode hparse hne hlimit hoffset hall (probe c)
  simp only [mentions_probe, hhas] at hfound
  have hself := (hfound p).mp List.infix_rfl
  rw [hfound c, admits_probe _ c p, and_iff_right hself.1]

end Sought

/-- What is in the same texts as the phrase, in lower case, is the phrase in lower case. -/
theorem lower_eq_of_infix_iff {n : Text} (h : ∀ c, lower n <:+: lower c ↔ lower p <:+: lower c) :
    lower p = lower n :=
  have hpn := (h n).mp List.infix_rfl
  have hnp := (h p).mpr List.infix_rfl
  hpn.eq_of_length_le hnp.length_le

/-- Words that are sought one by one are found just as well where a line break parts them. -/
theorem not_isBlank_of_unclosed {ws : List Text} (hne : ws ≠ [])
    (hws : ∀ w ∈ ws, w ≠ [] ∧ ∀ c ∈ w, inNeedle c = true)
    (h : ∀ c, (∀ n ∈ needles ('"' :: joinWith [' '] ws), lower n <:+: lower c) ↔
      lower p <:+: lower c) : ∀ b ∈ p, isBlank b = false := by
  have hfound : ∀ sep, isBlank sep = true → lower p <:+: lower (joinWith [sep] ws) := by
    intro sep hsep
    refine (h _).mp fun n hn => ?_
    rw [needles_unclosed hws hne, List.mem_eraseDups] at hn
    rw [lower_joinWith hsep]
    exact infix_joinWith [sep] (List.mem_map_of_mem hn)
  have honly : ∀ b ∈ p, isBlank b = true → ∀ sep, isBlank sep = true → b = sep := by
    intro b hb hblank sep hsep
    have hmem := (hfound sep hsep).subset ((mem_lower_iff hblank).mpr hb)
    rcases mem_joinWith ((mem_lower_iff hblank).mp hmem) with hb | ⟨w, hw, hb⟩
    · exact List.mem_singleton.mp hb
    · rw [not_isBlank_of_inNeedle ((hws w hw).2 b hb)] at hblank
      cases hblank
  intro b hb
  cases hblank : isBlank b with
  | false => rfl
  | true =>
      have hspace := honly b hb hblank ' ' (by decide)
      have hbreak := honly b hb hblank '\n' (by decide)
      exact absurd (hspace.symm.trans hbreak) (by decide)

/-- If the free text of a phrase in quotes is sought as the phrase is, then nothing has been taken
out of it. -/
theorem literal_of_infix_iff (hne : p ≠ []) (hquote : '"' ∉ p) (htrim : trim p = p)
    (h : ∀ c, (∀ n ∈ needles (joinWith [' '] (freeWords (inQuotes p))), lower n <:+: lower c) ↔
      lower p <:+: lower c) :
    joinWith [' '] (Text.words p) = p ∧ ∀ w ∈ Text.words (inQuotes p), isFilter w = false := by
  rcases words_inQuotes hne htrim with ⟨hp, hq⟩ | ⟨first, inner, last, hp, hq⟩
  · rw [hp, hq]
    exact ⟨rfl, by simp [inQuotes, isFilter_quote]⟩
  · have hwords : ∀ w ∈ first :: (inner ++ [last]), w ≠ [] ∧ ∀ c ∈ w, inNeedle c = true :=
      hp ▸ fun w hw => inNeedle_of_mem_words hquote hw
    rw [freeWords, hq, filter_quote, List.filter_append] at h
    cases hlast : isFilter (last ++ ['"']) with
    | true =>
        -- The quote is not closed, and the words are sought one by one. But there is a blank.
        rw [List.filter_cons_of_neg (by simp [hlast]), List.filter_nil, List.append_nil,
          joinWith_cons_char] at h
        have hfree : ∀ w ∈ first :: inner.filter (!isFilter ·),
            w ≠ [] ∧ ∀ c ∈ w, inNeedle c = true := by
          simp only [List.forall_mem_cons, List.forall_mem_append, List.mem_filter] at hwords ⊢
          exact ⟨hwords.1, fun w hw => hwords.2.1 w hw.1⟩
        have hblank := not_isBlank_of_unclosed (List.cons_ne_nil _ _) hfree h
        rw [words_of_forall hne hblank] at hp
        simp at hp
    | false =>
        rw [List.filter_cons_of_pos (by rw [hlast]; rfl), List.filter_nil, joinWith_inQuotes] at h
        have hfree : ∀ w ∈ first :: (inner.filter (!isFilter ·) ++ [last]),
            w ≠ [] ∧ ∀ c ∈ w, inNeedle c = true := by
          simp only [List.forall_mem_cons, List.forall_mem_append, List.mem_filter] at hwords ⊢
          exact ⟨hwords.1, fun w hw => hwords.2.1 w hw.1, hwords.2.2⟩
        simp only [needles_closed hfree (List.cons_ne_nil _ _), List.forall_mem_singleton] at h
        obtain ⟨hspaced, hlength⟩ := spaced_of_lower_eq (List.cons_ne_nil _ _)
          (fun w hw => ⟨(hfree w hw).1, fun c hc => not_isBlank_of_inNeedle ((hfree w hw).2 c hc)⟩)
          (lower_eq_of_infix_iff h)
        refine ⟨hspaced, ?_⟩
        rw [hp] at hlength
        simp only [List.length_cons, List.length_append, List.length_nil, Nat.add_right_cancel_iff]
          at hlength
        have hinner := List.length_filter_eq_length_iff.mp hlength.symm
        simp only [hq, List.forall_mem_cons, List.forall_mem_append]
        exact ⟨isFilter_quote first, fun w hw => by simpa using hinner w hw, hlast, by simp⟩

theorem foundIds_search_inQuotes (hne : p ≠ []) (hquote : '"' ∉ p) (htrim : trim p = p)
    (hmode : o.mode = .exact) (hquery : o.query = inQuotes p) (hfilters : o.filters = {})
    (hlimit : o.limit = none ∨ o.limit = some 0) (hoffset : o.offset ≤ 0)
    (hspaced : joinWith [' '] (Text.words p) = p)
    (hfree : ∀ w ∈ Text.words (inQuotes p), isFilter w = false) (ds : List Document) :
    (search ds o).map foundIds = .ok ((ds.filter (mentions p)).map (·.id) : List Text) := by
  have hparse : Filtering.parse o.strict o.query = .ok (inQuotes p, {}) := by
    rw [hquery, parse_of_free hfree, joinWith_words_inQuotes hne htrim, hspaced]
  have hall : hasNeedles [lower p] = mentions p := funext fun d => Bool.and_true _
  rw [foundIds_search hmode hparse (List.cons_ne_nil _ _) hlimit hoffset, hfilters,
    needles_inQuotes hne hquote htrim, List.map_singleton, hall]
  rfl

/-- A phrase in quotes is sought literally exactly if it has no blanks but single spaces and no
word of the quoted query is a filter. -/
theorem search_inQuotes_iff (hne : p ≠ []) (hquote : '"' ∉ p) (htrim : trim p = p)
    (hmode : o.mode = .exact) (hquery : o.query = inQuotes p) (hfilters : o.filters = {})
    (hlimit : o.limit = none ∨ o.limit = some 0) (hoffset : o.offset ≤ 0) :
    (∀ ds, (search ds o).map foundIds =
        .ok ((ds.filter (mentions p)).map (·.id) : List Text)) ↔
      joinWith [' '] (Text.words p) = p ∧ ∀ w ∈ Text.words (inQuotes p), isFilter w = false := by
  constructor
  · intro hall
    cases hparse : Filtering.parse o.strict o.query with
    | error err =>
        have hnone := hall []
        simp [search, resolve, hparse, Except.map] at hnone
    | ok parts =>
        obtain ⟨rest, inline⟩ := parts
        obtain rfl := (parse_eq_ok_iff.mp hparse).free
        refine literal_of_infix_iff hne hquote htrim fun c => ?_
        rw [← needles_infix_iff hmode hparse ?_ hlimit hoffset hall, hquery]
        rw [hquery]
        exact joinWith_freeWords_inQuotes_ne_nil hne htrim
  · rintro ⟨hspaced, hfree⟩ ds
    exact foundIds_search_inQuotes hne hquote htrim hmode hquery hfilters hlimit hoffset hspaced
      hfree ds

def checkerPhrase : Text := "Borrow CHECKER".toList

theorem search_inQuotes_iff_checker :
    (∀ ds, (search ds { query := inQuotes checkerPhrase }).map foundIds =
        .ok ((ds.filter (mentions checkerPhrase)).map (·.id) : List Text)) ∧
      joinWith [' '] (Text.words checkerPhrase) = checkerPhrase ∧
      ∀ w ∈ Text.words (inQuotes checkerPhrase), isFilter w = false := by
  have hliteral : joinWith [' '] (Text.words checkerPhrase) = checkerPhrase ∧
      ∀ w ∈ Text.words (inQuotes checkerPhrase), isFilter w = false := by decide +kernel
  refine ⟨(search_inQuotes_iff ?_ ?_ ?_ rfl rfl rfl ?_ ?_).mpr hliteral, hliteral⟩
  · decide
  · decide
  · decide
  · exact .inl rfl
  · decide

def gapped : Document := { id := ['g'], content := "a  b".toList }

def marked : Document := { id := ['m'], content := "see tag:old notes".toList }

/-- Two spaces and a filter stand literally in a document, but not in what is sought. -/
theorem search_inQuotes_loses :
    (∀ p ∈ [gapped.content, marked.content], p ≠ [] ∧ '"' ∉ p ∧ trim p = p) ∧
      mentions gapped.content gapped = true ∧
      search [gapped] { query := inQuotes gapped.content } = .ok [] ∧
      mentions marked.content marked = true ∧
      search [marked] { query := inQuotes marked.content } = .ok [] := by
  refine ⟨by decide, by decide +kernel, ?_, by decide +kernel, ?_⟩
  · exact eq_ok_of_toOption (by decide +kernel)
  · exact eq_ok_of_toOption (by decide +kernel)

end Literal

end VaultSearch.Search
