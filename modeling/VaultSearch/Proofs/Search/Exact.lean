import VaultSearch.Proofs.Filtering.Dates
import VaultSearch.Proofs.Note.Span
import VaultSearch.Proofs.Search.Independence
import VaultSearch.Proofs.Search.Needles

namespace VaultSearch.Filtering

open Text Note

/-- What is left of a query has no blank at its ends, and none but spaces. -/
theorem freeText_spaced {strict : Bool} {q rest : Text} {f : Filters}
    (h : parse strict q = .ok (rest, f)) :
    trim rest = rest ∧ ∀ c ∈ rest, isBlank c = true → c = ' ' := by
  have hwords : ∀ w ∈ freeWords q, w ≠ [] ∧ ∀ c ∈ w, isBlank c = false := fun w hw =>
    have hmem := (List.mem_filter.mp hw).1
    ⟨mem_words hmem, isBlank_of_mem_words hmem⟩
  rw [(parse_eq_ok_iff.mp h).free]
  refine ⟨trim_joinWith [' '] hwords, fun c hc hblank => ?_⟩
  rcases mem_joinWith hc with hsep | ⟨w, hw, hcw⟩
  · exact List.mem_singleton.mp hsep
  · rw [(hwords w hw).2 c hcw] at hblank
    cases hblank

section Applying

variable {f : Filters} {ds passed : List Document}

theorem admits_empty (d : Document) : ({} : Filters).admits d = .ok true := rfl

theorem apply_eq_keep (f : Filters) (ds : List Document) : f.apply ds = keep f.admits ds := by
  rw [Filters.apply]
  split
  · rename_i hempty
    obtain rfl : f = {} := by simpa [Filters.isEmpty] using hempty
    induction ds with
    | nil => rfl
    | cons d ds ih =>
        rw [keep, admits_empty, ← ih]
        rfl
  · rfl

theorem subset_of_apply (h : f.apply ds = .ok passed) : passed ⊆ ds := by
  rw [apply_eq_keep] at h
  exact fun d hd => ((keep_eq_ok h).2 d hd).1

theorem apply_singleton_eq_ok_iff {d : Document} :
    f.apply [d] = .ok passed ↔ ∃ b, f.admits d = .ok b ∧ passed = if b then [d] else [] := by
  rw [apply_eq_keep, keep]
  cases f.admits d with
  | error err => simp
  | ok b => cases b <;> simp [keep, Except.map, eq_comm]

end Applying

end VaultSearch.Filtering

namespace VaultSearch.Search

open Text Note Filtering

section Pipeline

variable {ds : List Document} {o : Options} {rest : Text} {inline : Filters}

theorem run_exact (hmode : o.mode = .exact) {t : Text} (hne : t ≠ []) (htrim : trim t = t)
    (f : Filters) : run ds t f o = ((f.apply ds).mapError .time).map fun passed =>
      paginate o.limit o.offset (exactResults t passed) := by
  have hfull : t.isEmpty = false := by simpa using hne
  rw [run]
  cases f.apply ds with
  | error err => rfl
  | ok passed =>
      simp only [matching, htrim, hfull, hmode, Bool.false_eq_true, if_false]
      rfl

/-- Without free text, whatever passes the filters is found. -/
theorem run_nil (f : Filters) : run ds [] f o = ((f.apply ds).mapError .time).map fun passed =>
    paginate o.limit o.offset (passed.map plainResult) := by
  rw [run]
  cases f.apply ds <;> rfl

/-- An exact search looks among the documents that pass the filters for what is left of the query. -/
theorem search_exact (hmode : o.mode = .exact)
    (hparse : Filtering.parse o.strict o.query = .ok (rest, inline)) (hne : rest ≠ []) :
    search ds o = (((inline.merged o.filters).apply ds).mapError .time).map fun passed =>
      paginate o.limit o.offset (exactResults rest passed) := by
  rw [search, resolve, hparse, Except.map]
  exact run_exact hmode hne (freeText_spaced hparse).1 _

theorem mem_exactResults {query : Text} {r : Result} :
    r ∈ exactResults query ds ↔ ∃ d ∈ ds, hasNeedles ((needles query).map lower) d = true ∧
      r = exactResult ((needles query).map lower) d := by
  simp only [exactResults, List.mem_map, List.mem_append, List.mem_filter]
  constructor
  · rintro ⟨d, ⟨⟨hd, hhas⟩, -⟩ | ⟨⟨hd, hhas⟩, -⟩, rfl⟩ <;> exact ⟨d, hd, hhas, rfl⟩
  · rintro ⟨d, hd, hhas, rfl⟩
    refine ⟨d, ?_, rfl⟩
    cases (needles query |>.map lower).all (titleHas d) <;> simp [hd, hhas]

end Pipeline

section Evidence

variable {d : Document} {n : Text}

/-- A reason for a document to be in the answer: its title has the needle, or the result marks a
place where the content has it. -/
def Shows (d : Document) (r : Result) (n : Text) : Prop :=
  titleHas d n = true ∨ ∃ x ∈ findSpans d.content n, x ∈ r.spans

theorem titleHas_or_span {needle : Text} (hne : needle ≠ []) (hbreak : '\n' ∉ needle)
    (h : (contains (lower needle) (lower d.title) || contains (lower needle) (lower d.content)) = true) :
    titleHas d (lower needle) = true ∨ ∃ x, x ∈ findSpans d.content (lower needle) := by
  rcases Bool.or_eq_true_iff.mp h with htitle | hcontent
  · exact .inl htitle
  · have hlow : lower (lower needle) = lower needle := lower_of_infix List.infix_rfl
    have hlowBreak : '\n' ∉ lower needle := fun hmem =>
      hbreak (mem_of_mem_lower (by decide) hmem)
    refine .inr (exists_mem_findSpans (lower_ne_nil hne) hlowBreak ?_)
    rw [hlow]
    exact contains_iff_infix.mp hcontent

theorem two_mul_length_le_exactScore {ns : List Text}
    (h : ∀ n ∈ ns, titleHas d n = true ∨ ∃ x, x ∈ findSpans d.content n) :
    2 * ns.length ≤ exactScore ns d := by
  have hsum := List.card_nsmul_le_sum
    (ns.map fun n => (if titleHas d n then 10 else 0) + 2 * (findSpans d.content n).length) 2 ?_
  · rw [List.length_map, smul_eq_mul, Nat.mul_comm, List.sum_eq_foldl] at hsum
    exact hsum
  · simp only [List.mem_map, forall_exists_index, and_imp, forall_apply_eq_imp_iff₂]
    intro n hn
    rcases h n hn with htitle | ⟨x, hx⟩
    · rw [if_pos htitle]
      omega
    · have hpos := List.length_pos_of_mem hx
      omega

theorem score_exactResult (ns : List Text) (d : Document) :
    (exactResult ns d).score = (exactScore ns d : Rat) := rfl

/-- Every document that an exact search finds shows each needle in its title or at some place in
its content, and so scores at least two for each. -/
theorem search_shows_needles {ds : List Document} {o : Options} (hmode : o.mode = .exact)
    {rest : Text} {inline : Filters}
    (hparse : Filtering.parse o.strict o.query = .ok (rest, inline)) (hne : rest ≠ [])
    {rs : List Result} (h : search ds o = .ok rs) :
    ∀ r ∈ rs, ∃ d ∈ ds, r.id = d.id ∧ (∀ n ∈ needles rest, Shows d r (lower n)) ∧
      2 * ((needles rest).length : Rat) ≤ r.score ∧ 0 < r.score := by
  intro r hr
  rw [search_exact hmode hparse hne] at h
  obtain ⟨passed, hpassed, rfl⟩ := map_eq_ok_iff.mp h
  obtain ⟨d, hd, hhas, rfl⟩ := mem_exactResults.mp (mem_of_mem_paginate hr)
  have hshown : ∀ n ∈ needles rest,
      titleHas d (lower n) = true ∨ ∃ x, x ∈ findSpans d.content (lower n) := by
    intro n hn
    obtain ⟨hn', hpart⟩ := mem_needles hne hn
    have hbreak : '\n' ∉ n := fun hmem => by
      have hspace := (freeText_spaced hparse).2 '\n' (hpart.subset hmem) (by decide)
      cases hspace
    exact titleHas_or_span hn' hbreak (List.all_eq_true.mp hhas _ (List.mem_map_of_mem hn))
  have hscore : 2 * (needles rest).length ≤ exactScore ((needles rest).map lower) d := by
    rw [← List.length_map (f := lower)]
    exact two_mul_length_le_exactScore (List.forall_mem_map.mpr hshown)
  have hpos := List.length_pos_iff.mpr (needles_ne_nil rest)
  refine ⟨d, subset_of_apply (mapError_eq_ok_iff.mp hpassed) hd, rfl, fun n hn => ?_, ?_, ?_⟩
  · refine (hshown n hn).imp_right fun ⟨x, hx⟩ => ⟨x, hx, ?_⟩
    exact List.mem_flatMap.mpr ⟨lower n, List.mem_map_of_mem hn, hx⟩
  · rw [score_exactResult]
    exact_mod_cast hscore
  · have hfound : 0 < exactScore ((needles rest).map lower) d := by omega
    rw [score_exactResult]
    exact_mod_cast hfound

def evening : Document where
  id := ['e']
  title := "Oxide".toList
  content := "Η ΟΔΟΣ\n\nrust and  Rust".toList
  tags := ["Way".toList]

def morning : Document where
  id := ['m']
  title := "ΟΔΟΣ".toList
  content := "trust".toList
  tags := ["way".toList]

def untagged : Document := { id := ['u'], title := "ΟΔΟΣ".toList, content := "rust".toList }

def taggedRoad : Options := { query := "\"ΟΔΟΣ \" tag:WAY RUST".toList }

def taggedRoadRest : Text := "\"ΟΔΟΣ \" RUST".toList

def taggedRoadFound : List Result :=
  [evening, morning].map (exactResult ["οδος".toList, "rust".toList])

/-- The sigma at the end of the first line is final there and in the text. -/
theorem search_shows_needles_lineEnd :
    Filtering.parse false taggedRoad.query = .ok (taggedRoadRest, { tags := some ["WAY".toList] }) ∧
      search [evening, untagged, morning] taggedRoad = .ok taggedRoadFound ∧
      ∀ r ∈ taggedRoadFound, ∃ d ∈ [evening, untagged, morning], r.id = d.id ∧
        (∀ n ∈ needles taggedRoadRest, Shows d r (lower n)) ∧
        2 * ((needles taggedRoadRest).length : Rat) ≤ r.score ∧ 0 < r.score := by
  have hparse : Filtering.parse false taggedRoad.query =
      .ok (taggedRoadRest, { tags := some ["WAY".toList] }) :=
    eq_ok_of_toOption (by decide +kernel)
  have hfound : search [evening, untagged, morning] taggedRoad = .ok taggedRoadFound :=
    eq_ok_of_toOption (by decide +kernel)
  exact ⟨hparse, hfound, search_shows_needles rfl hparse (by decide) hfound⟩

end Evidence

end VaultSearch.Search
