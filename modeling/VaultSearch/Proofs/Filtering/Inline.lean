import VaultSearch.Filtering.Inline
import VaultSearch.Proofs.Except
import VaultSearch.Proofs.Text.Words

namespace VaultSearch.Filtering

open Text

namespace Key

def all : List Key :=
  [excludedTag, tag, created, modified, words, hasLinks, hasBacklinks, folder]

theorem mem_all (k : Key) : k ∈ all := by cases k <;> decide

theorem isBlank_of_mem_text {k : Key} : ∀ c ∈ k.text, isBlank c = false := by
  have hall : k.text.all (!isBlank ·) = true := by cases k <;> rfl
  simpa using hall

/-- A key starts no other key, so `-tag:` is not read as `tag:`, nor are links read as backlinks. -/
theorem eq_of_text_starts {k l : Key} (h : k.text <+: l.text) : k = l := by
  revert h
  cases k <;> cases l <;> decide

def valueOf? (k : Key) (w : Text) : Option Text :=
  if startsWith k.text w && k.accepts (w.drop k.text.length) then some (w.drop k.text.length)
  else none

theorem valueOf?_eq_some_iff {k : Key} {w v : Text} :
    k.valueOf? w = some v ↔ w = k.text ++ v ∧ k.accepts v = true := by
  rw [valueOf?, startsWith]
  constructor
  · intro h
    split at h
    · rename_i hboth
      obtain ⟨hstarts, haccepts⟩ := Bool.and_eq_true_iff.mp hboth
      cases h
      exact ⟨(List.prefix_iff_eq_append.mp (List.isPrefixOf_iff_prefix.mp hstarts)).symm, haccepts⟩
    · cases h
  · rintro ⟨rfl, haccepts⟩
    simp [haccepts]

theorem eq_of_valueOf? {k l : Key} {w v u : Text} (hk : k.valueOf? w = some v)
    (hl : l.valueOf? w = some u) : k = l := by
  have hkw : k.text <+: w := ⟨v, (valueOf?_eq_some_iff.mp hk).1.symm⟩
  have hlw : l.text <+: w := ⟨u, (valueOf?_eq_some_iff.mp hl).1.symm⟩
  rcases List.prefix_or_prefix_of_prefix hkw hlw with h | h
  · exact eq_of_text_starts h
  · exact (eq_of_text_starts h).symm

theorem valueOf?_nil (k : Key) : k.valueOf? [] = none := by cases k <;> rfl

/-- At the start of a word, what is read is the value of the whole word. -/
theorem value?_append {k : Key} {w t : Text} (hw : ∀ c ∈ w, isBlank c = false)
    (ht : ∀ c ∈ t.head?, isBlank c = true) : k.value? (w ++ t) = k.valueOf? w := by
  rw [value?, valueOf?, startsWith_append_of_isBlank isBlank_of_mem_text ht]
  cases hs : startsWith k.text w with
  | false => rfl
  | true =>
      have hlength : k.text.length ≤ w.length :=
        (List.isPrefixOf_iff_prefix.mp hs).length_le
      have hrun : ((w ++ t).drop k.text.length).takeWhile (!isBlank ·) = w.drop k.text.length := by
        rw [List.drop_append_of_le_length hlength]
        refine takeWhile_append_run (fun c hc => ?_) fun c hc => ?_
        · simpa using hw c (List.mem_of_mem_drop hc)
        · simpa using ht c hc
      simp [hrun]

end Key

theorem consume_nil (k : Key) (atStart : Bool) : consume k atStart [] = ([], []) := by
  rw [consume.eq_def]

theorem consume_cons_some {k : Key} {c : Char} {u v : Text} (h : k.value? (c :: u) = some v) :
    consume k true (c :: u) = (v :: (consume k false (u.dropWhile (!isBlank ·))).1,
      ' ' :: (consume k false (u.dropWhile (!isBlank ·))).2) := by
  rw [consume.eq_def]
  simp [h]

theorem consume_cons_none {k : Key} {atStart : Bool} {c : Char} {u : Text}
    (h : atStart = true → k.value? (c :: u) = none) :
    consume k atStart (c :: u) = ((consume k (isBlank c) u).1, c :: (consume k (isBlank c) u).2) := by
  rw [consume.eq_def]
  cases atStart with
  | false => rfl
  | true => simp [h rfl]

theorem consume_of_isBlank {c : Char} (hc : isBlank c = true) (k : Key) (atStart : Bool) (t : Text) :
    consume k atStart (c :: t) = ((consume k true t).1, c :: (consume k true t).2) := by
  -- In front of a blank stands the empty word, and no filter is empty.
  have hnone : k.value? (c :: t) = none := by
    have hempty := Key.value?_append (k := k) (w := []) (t := c :: t) (by simp) (by simpa using hc)
    rwa [List.nil_append, k.valueOf?_nil] at hempty
  rw [consume_cons_none fun _ => hnone, hc]

/-- In the middle of a word, the rest of the word stays. -/
theorem consume_false_append {w t : Text} (hw : ∀ c ∈ w, isBlank c = false)
    (ht : ∀ c ∈ t.head?, isBlank c = true) (k : Key) :
    consume k false (w ++ t) = ((consume k true t).1, w ++ (consume k true t).2) := by
  induction w with
  | nil =>
      cases t with
      | nil => simp [consume_nil]
      | cons c t =>
          have hc := ht c rfl
          rw [List.nil_append, List.nil_append, consume_of_isBlank hc, consume_of_isBlank hc]
  | cons c w ih =>
      obtain ⟨hc, hw⟩ := List.forall_mem_cons.mp hw
      rw [List.cons_append, consume_cons_none (by simp), hc, ih hw, List.cons_append]

theorem consume_true_append {w t : Text} (hne : w ≠ []) (hw : ∀ c ∈ w, isBlank c = false)
    (ht : ∀ c ∈ t.head?, isBlank c = true) (k : Key) :
    consume k true (w ++ t) = match k.valueOf? w with
      | some v => (v :: (consume k true t).1, ' ' :: (consume k true t).2)
      | none => ((consume k true t).1, w ++ (consume k true t).2) := by
  have hvalue := Key.value?_append (k := k) hw ht
  cases w with
  | nil => exact absurd rfl hne
  | cons c w =>
      obtain ⟨hc, hw⟩ := List.forall_mem_cons.mp hw
      rw [List.cons_append] at hvalue
      cases hv : k.valueOf? (c :: w) with
      | none =>
          rw [hv] at hvalue
          rw [List.cons_append, consume_cons_none fun _ => hvalue, hc, consume_false_append hw ht]
          rfl
      | some v =>
          have hrest : (w ++ t).dropWhile (!isBlank ·) = t :=
            dropWhile_append_run (fun c hc => by simp [hw c hc]) fun c hc => by simp [ht c hc]
          have hskip := consume_false_append (w := []) (by simp) ht k
          rw [hv] at hvalue
          rw [List.cons_append, consume_cons_some hvalue, hrest]
          rw [List.nil_append] at hskip
          rw [hskip, List.nil_append]

theorem head?_consume {t : Text} (ht : ∀ c ∈ t.head?, isBlank c = true) (k : Key) :
    ∀ c ∈ (consume k true t).2.head?, isBlank c = true := by
  cases t with
  | nil => simp [consume_nil]
  | cons c t => simpa [consume_of_isBlank (ht c rfl)] using ht

def values (k : Key) (q : Text) : List Text := (Text.words q).filterMap k.valueOf?

theorem consume_fst (k : Key) (t : Text) : (consume k true t).1 = values k t := by
  rw [values]
  induction t using words_induction with
  | nil => rw [consume_nil]; rfl
  | blank c t hc ih => rw [consume_of_isBlank hc, words_of_isBlank hc, ih]
  | word w t hne hw ht ih =>
      rw [consume_true_append hne hw ht, words_append hne hw ht, List.filterMap_cons, ← ih]
      cases k.valueOf? w <;> rfl

theorem words_consume (k : Key) (t : Text) :
    Text.words (consume k true t).2 = (Text.words t).filter fun w => (k.valueOf? w).isNone := by
  induction t using words_induction with
  | nil => rw [consume_nil]; rfl
  | blank c t hc ih => rw [consume_of_isBlank hc, words_of_isBlank hc, words_of_isBlank hc, ih]
  | word w t hne hw ht ih =>
      rw [consume_true_append hne hw ht, words_append hne hw ht, List.filter_cons]
      cases k.valueOf? w with
      | none => simpa [words_append hne hw (head?_consume ht k)] using ih
      | some v => simpa [words_of_isBlank (show isBlank ' ' = true by decide)] using ih

def strip (ks : List Key) (t : Text) : Text := ks.foldl (fun t k => (consume k true t).2) t

theorem words_strip (ks : List Key) (t : Text) :
    Text.words (strip ks t) =
      (Text.words t).filter fun w => ks.all fun k => (k.valueOf? w).isNone := by
  induction ks generalizing t with
  | nil => exact (List.filter_eq_self.mpr fun _ _ => rfl).symm
  | cons k ks ih =>
      rw [strip, List.foldl_cons, ← strip, ih, words_consume, List.filter_filter]
      simp only [List.all_cons, Bool.and_comm]

/-- Taking other filters out beforehand changes nothing in the values of a key. -/
theorem consume_strip (ks : List Key) {k : Key} (hk : k ∉ ks) (t : Text) :
    (consume k true (strip ks t)).1 = values k t := by
  rw [consume_fst, values, words_strip, List.filterMap_filter, values]
  congr 1
  funext w
  cases hw : k.valueOf? w with
  | none => simp
  | some v =>
      have hothers : (ks.all fun l => (l.valueOf? w).isNone) = true := by
        rw [List.all_eq_true]
        intro l hl
        cases hlw : l.valueOf? w with
        | none => rfl
        | some u => exact absurd (Key.eq_of_valueOf? hw hlw ▸ hl) hk
      simp [hothers]

def isFilter (w : Text) : Bool := Key.all.any fun k => (k.valueOf? w).isSome

def freeWords (q : Text) : List Text := (Text.words q).filter (!isFilter ·)

theorem filter_not_isFilter_of_free {ws : List Text} (h : ∀ w ∈ ws, isFilter w = false) :
    ws.filter (!isFilter ·) = ws :=
  List.filter_eq_self.mpr fun w hw => by rw [h w hw]; rfl

/-- Words that are no filters have no values. -/
theorem filterMap_valueOf?_of_free {ws : List Text} (h : ∀ w ∈ ws, isFilter w = false) (k : Key) :
    ws.filterMap k.valueOf? = [] := by
  refine List.filterMap_eq_nil_iff.mpr fun w hw => ?_
  have hfree := h w hw
  simp only [isFilter, List.any_eq_false, Option.not_isSome_iff_eq_none] at hfree
  exact hfree k k.mem_all

theorem words_strip_all (q : Text) : Text.words (strip Key.all q) = freeWords q := by
  rw [words_strip, freeWords]
  congr 1
  funext w
  simp [isFilter, List.not_any_eq_all_not]

section Parts

variable {c : Char} {k : Key} {v : Text}

theorem values_append_blank (hc : isBlank c = true) (l : Key) (s t : Text) :
    values l (s ++ c :: t) = values l s ++ values l t := by
  rw [values, words_append_blank hc, List.filterMap_append]
  rfl

theorem freeWords_append_blank (hc : isBlank c = true) (s t : Text) :
    freeWords (s ++ c :: t) = freeWords s ++ freeWords t := by
  rw [freeWords, words_append_blank hc, List.filter_append]
  rfl

theorem Key.valueOf?_text_append (hv : k.accepts v = true) (l : Key) :
    l.valueOf? (k.text ++ v) = if l = k then some v else none := by
  have hvalue : k.valueOf? (k.text ++ v) = some v := valueOf?_eq_some_iff.mpr ⟨rfl, hv⟩
  split
  · rename_i hl
    rw [hl, hvalue]
  · rename_i hl
    rw [Option.eq_none_iff_forall_ne_some]
    exact fun u hu => hl (eq_of_valueOf? hu hvalue)

theorem words_text_append (hblank : ∀ c ∈ v, isBlank c = false) :
    Text.words (k.text ++ v) = [k.text ++ v] := by
  have hne : k.text ≠ [] := by cases k <;> decide
  exact words_of_forall (List.append_ne_nil_of_left_ne_nil hne v)
    (List.forall_mem_append.mpr ⟨Key.isBlank_of_mem_text, hblank⟩)

/-- A query that is a single filter has its value and no other. -/
theorem values_text_append (hv : k.accepts v = true) (hblank : ∀ c ∈ v, isBlank c = false)
    (l : Key) : values l (k.text ++ v) = if l = k then [v] else [] := by
  rw [values, words_text_append hblank, List.filterMap_cons, List.filterMap_nil,
    Key.valueOf?_text_append hv]
  by_cases hl : l = k
  · rw [if_pos hl, if_pos hl]
  · rw [if_neg hl, if_neg hl]

theorem isFilter_text_append (hv : k.accepts v = true) : isFilter (k.text ++ v) = true := by
  rw [isFilter, List.any_eq_true]
  exact ⟨k, k.mem_all, by rw [Key.valueOf?_text_append hv, if_pos rfl]; rfl⟩

theorem freeWords_text_append (hv : k.accepts v = true) (hblank : ∀ c ∈ v, isBlank c = false) :
    freeWords (k.text ++ v) = [] := by
  rw [freeWords, words_text_append hblank,
    List.filter_cons_of_neg (by simp [isFilter_text_append hv]), List.filter_nil]

theorem mem_splitTags {t : Text} (h : t ∈ splitTags v) : t ≠ [] ∧ ',' ∉ t ∧ t <:+: v := by
  obtain ⟨hpiece, hne⟩ := List.mem_filter.mp h
  refine ⟨by simpa using hne, fun hmem => ?_, infix_of_mem_pieces hpiece⟩
  simpa using forall_of_mem_pieces hpiece ',' hmem

theorem splitTags_joinWith {ts : List Text} (hne : ts ≠ []) (h : ∀ t ∈ ts, t ≠ [] ∧ ',' ∉ t) :
    splitTags (joinWith [','] ts) = ts := by
  rw [splitTags, splitOn_joinWith hne fun t ht => (h t ht).2, List.filter_eq_self]
  simpa using fun t ht => (h t ht).1

theorem splitTags_of_notMem (hne : v ≠ []) (hcomma : ',' ∉ v) : splitTags v = [v] :=
  splitTags_joinWith (List.cons_ne_nil _ _) (List.forall_mem_singleton.mpr ⟨hne, hcomma⟩)

theorem isBlank_of_mem_values {q : Text} (h : v ∈ values k q) : ∀ c ∈ v, isBlank c = false := by
  obtain ⟨w, hw, hv⟩ := List.mem_filterMap.mp h
  obtain ⟨rfl, -⟩ := Key.valueOf?_eq_some_iff.mp hv
  exact (List.forall_mem_append.mp (isBlank_of_mem_words hw)).2

end Parts

section Written

variable {q : Text} {ws : List Text} {kvs : List (Key × Text)}
  (hq : Text.words q = ws ++ kvs.map fun kv => kv.1.text ++ kv.2)
  (hfree : ∀ w ∈ ws, isFilter w = false) (hvalues : ∀ kv ∈ kvs, kv.1.accepts kv.2 = true)

include hq hfree hvalues

/-- Where words that are no filters are followed by filters, each filter has its own value. -/
theorem values_written (l : Key) : values l q = (kvs.filter (·.1 = l)).map Prod.snd := by
  rw [values, hq, List.filterMap_append, filterMap_valueOf?_of_free hfree, List.nil_append,
    List.filterMap_map]
  clear hq
  induction kvs with
  | nil => rfl
  | cons kv kvs ih =>
      obtain ⟨hkv, hkvs⟩ := List.forall_mem_cons.mp hvalues
      have hone : l.valueOf? (kv.1.text ++ kv.2) = if l = kv.1 then some kv.2 else none :=
        Key.valueOf?_text_append hkv l
      rw [List.filterMap_cons, Function.comp_apply, hone, ih hkvs]
      by_cases hl : l = kv.1
      · simp [hl]
      · simp [hl, Ne.symm hl]

theorem freeWords_written : freeWords q = ws := by
  have hkvs : (kvs.map fun kv => kv.1.text ++ kv.2).filter (!isFilter ·) = [] :=
    List.filter_eq_nil_iff.mpr (List.forall_mem_map.mpr fun kv hkv => by
      simp [isFilter_text_append (hvalues kv hkv)])
  rw [freeWords, hq, List.filter_append, filter_not_isFilter_of_free hfree, hkvs, List.append_nil]

end Written

/-- What a query says if each of its words is looked at on its own. -/
def parseWords (strict : Bool) (q : Text) : Except FilterError (Text × Filters) := do
  let created ← readLast (parseDates strict) (values .created q)
  let modified ← readLast (parseDates strict) (values .modified q)
  let counts ← readLast (parseNumbers strict) (values .words q)
  .ok (joinWith [' '] (freeWords q),
    { created := created
      modified := modified
      tags := tagList (values .tag q)
      excludedTags := tagList (values .excludedTag q)
      wordCount := counts
      hasLinks := truth (values .hasLinks q)
      hasBacklinks := truth (values .hasBacklinks q)
      folder := (values .folder q).getLast? })

theorem parse_eq_parseWords (strict : Bool) (q : Text) : parse strict q = parseWords strict q := by
  have hexcluded := consume_strip [] (k := .excludedTag) (by decide) q
  have htags := consume_strip [.excludedTag] (k := .tag) (by decide) q
  have hcreated := consume_strip [.excludedTag, .tag] (k := .created) (by decide) q
  have hmodified := consume_strip [.excludedTag, .tag, .created] (k := .modified) (by decide) q
  have hwords := consume_strip [.excludedTag, .tag, .created, .modified] (k := .words) (by decide) q
  have hlinks := consume_strip [.excludedTag, .tag, .created, .modified, .words] (k := .hasLinks)
    (by decide) q
  have hbacklinks := consume_strip [.excludedTag, .tag, .created, .modified, .words, .hasLinks]
    (k := .hasBacklinks) (by decide) q
  have hfolder := consume_strip
    [.excludedTag, .tag, .created, .modified, .words, .hasLinks, .hasBacklinks] (k := .folder)
    (by decide) q
  -- Each key above is read off what those before it have left, as `parse` does it.
  rw [parseWords, ← words_strip_all, ← hexcluded, ← htags, ← hcreated, ← hmodified, ← hwords, ← hlinks,
    ← hbacklinks, ← hfolder]
  rfl

theorem words_freeText (q : Text) : Text.words (joinWith [' '] (freeWords q)) = freeWords q :=
  words_joinWith fun _ hw =>
    have hmem := (List.mem_filter.mp hw).1
    ⟨mem_words hmem, isBlank_of_mem_words hmem⟩

theorem values_of_free {q : Text} (h : ∀ w ∈ Text.words q, isFilter w = false) (k : Key) :
    values k q = [] := by
  exact filterMap_valueOf?_of_free h k

/-- A query without filters is free text as a whole. -/
theorem parse_of_free {q : Text} (h : ∀ w ∈ Text.words q, isFilter w = false) (strict : Bool) :
    parse strict q = .ok (joinWith [' '] (Text.words q), {}) := by
  have hself : freeWords q = Text.words q := filter_not_isFilter_of_free h
  simp only [parse_eq_parseWords, parseWords, values_of_free h, hself]
  rfl

/-- The free text of a query has no filters, and is its own free text. -/
theorem parse_freeText (strict : Bool) (q : Text) :
    parse strict (joinWith [' '] (freeWords q)) = .ok (joinWith [' '] (freeWords q), {}) := by
  have hfree : ∀ w ∈ Text.words (joinWith [' '] (freeWords q)), isFilter w = false := by
    rw [words_freeText]
    intro w hw
    simpa using (List.mem_filter.mp hw).2
  rw [parse_of_free hfree, words_freeText]

/-- What a query says word by word: the words that are no filters, and the filters of each key. -/
structure ReadsAs (strict : Bool) (q rest : Text) (f : Filters) : Prop where
  free : rest = joinWith [' '] (freeWords q)
  tags : f.tags = tagList (values .tag q)
  excludedTags : f.excludedTags = tagList (values .excludedTag q)
  created : readLast (parseDates strict) (values .created q) = .ok f.created
  modified : readLast (parseDates strict) (values .modified q) = .ok f.modified
  wordCount : readLast (parseNumbers strict) (values .words q) = .ok f.wordCount
  hasLinks : f.hasLinks = truth (values .hasLinks q)
  hasBacklinks : f.hasBacklinks = truth (values .hasBacklinks q)
  folder : f.folder = (values .folder q).getLast?
  fileType : f.fileType = none

theorem parse_eq_ok_iff {strict : Bool} {q rest : Text} {f : Filters} :
    parse strict q = .ok (rest, f) ↔ ReadsAs strict q rest f := by
  rw [parse_eq_parseWords]
  constructor
  · intro h
    obtain ⟨created, hcreated, h⟩ := bind_eq_ok_iff.mp h
    obtain ⟨modified, hmodified, h⟩ := bind_eq_ok_iff.mp h
    obtain ⟨counts, hcounts, h⟩ := bind_eq_ok_iff.mp h
    cases h
    exact ⟨rfl, rfl, rfl, hcreated, hmodified, hcounts, rfl, rfl, rfl, rfl⟩
  · rintro ⟨rfl, htags, hexcluded, hcreated, hmodified, hcounts, hlinks, hbacklinks, hfolder, htype⟩
    cases f
    cases htags
    cases hexcluded
    cases hlinks
    cases hbacklinks
    cases hfolder
    cases htype
    simp only [parseWords, hcreated, hmodified, hcounts]
    rfl

/-- Taking the filters out of the text one key after the other comes to reading each word on its
own, and there is nothing more to take out of what is left. -/
theorem parse_word_by_word {strict : Bool} {q rest : Text} {f : Filters}
    (h : parse strict q = .ok (rest, f)) :
    ReadsAs strict q rest f ∧ parse strict rest = .ok (rest, {}) := by
  have hreads := parse_eq_ok_iff.mp h
  refine ⟨hreads, ?_⟩
  rw [hreads.free]
  exact parse_freeText strict q

def manyFilters : Text :=
  "-tag:old tag:a,,b\nrust created:soon words:1..x words: tag:c haslinks:true xtag:y".toList

def manyFiltersRest : Text := "rust words: xtag:y".toList

def manyFiltersRead : Filters where
  created := some { lastExcluded := true, malformed := true }
  tags := some ["a".toList, "b".toList, "c".toList]
  excludedTags := some ["old".toList]
  wordCount := some { low := some 1, malformed := true }
  hasLinks := some true

theorem parse_word_by_word_manyFilters :
    parse false manyFilters = .ok (manyFiltersRest, manyFiltersRead) ∧
      ReadsAs false manyFilters manyFiltersRest manyFiltersRead ∧
      parse false manyFiltersRest = .ok (manyFiltersRest, {}) := by
  have h : parse false manyFilters = .ok (manyFiltersRest, manyFiltersRead) :=
    eq_ok_of_toOption (by decide +kernel)
  exact ⟨h, parse_word_by_word h⟩

end VaultSearch.Filtering
