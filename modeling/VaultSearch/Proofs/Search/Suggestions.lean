import VaultSearch.Proofs.Search.QuickMarks
import VaultSearch.Search.Suggest

namespace VaultSearch.Search

open Text Note Filtering

section Suggesting

variable {ds : List Document} {t query : Text} {limit : Int}

theorem length_collectUpTo_le (room : Nat) (passes : List Text → Text → Bool) (found xs : List Text) :
    (collectUpTo room passes found xs).length ≤ found.length + xs.length := by
  induction xs generalizing found with
  | nil => exact Nat.le_refl _
  | cons x xs ih =>
      have hnext : (if passes found x then found ++ [x] else found).length ≤ found.length + 1 := by
        split
        · rw [List.length_append, List.length_singleton]
        · exact Nat.le_succ _
      rw [collectUpTo, List.length_cons]
      split
      · omega
      · have hrest := ih (if passes found x then found ++ [x] else found)
        omega

theorem mem_allTags : t ∈ allTags ds ↔ ∃ d ∈ ds, t ∈ d.tags := by
  rw [allTags, List.mem_mergeSort, List.mem_eraseDups, List.mem_flatMap]

/-- With room for all titles and tags, every tag that has the query in it is suggested. -/
theorem mem_suggestions (ht : t ∈ allTags ds) (hquery : lower query <:+: lower t)
    (hroom : ds.length + (allTags ds).length ≤ limit.toNat) :
    tagMark ++ t ∈ suggestions ds query limit := by
  have htitles := length_collectUpTo_le limit.toNat
    (fun found title => contains (lower query) (lower title) && !found.elem title) []
    (ds.map Document.displayTitle)
  have htags := List.length_filter_le (fun tag => contains (lower query) (lower tag)) (allTags ds)
  rw [List.length_nil, List.length_map] at htitles
  rw [suggestions, List.take_of_length_le]
  · refine List.mem_append_right _ (List.mem_map_of_mem (List.mem_filter.mpr ⟨ht, ?_⟩))
    exact contains_iff_infix.mpr hquery
  · rw [List.length_append, List.length_map]
    omega

end Suggesting

def carries (t : Text) (d : Document) : Bool := (lowered d.tags).elem (lower t)

section Separating

variable {t u q : Text}

/-- A tag that can be written as a filter finds the documents that have it, and no other. -/
theorem search_tagMark (ht : IsValue t) (ds : List Document) :
    search ds { query := tagMark ++ t } = .ok ((ds.filter (carries t)).map plainResult) := by
  have hcarries : (Mark.tag.filters t).admitsShape = carries t := by
    funext d
    rw [Bool.eq_iff_iff, Mark.tag.admitsShape_filters ht]
    simp [Mark.Has, carries]
  have hresolve : resolve { query := tagMark ++ t } = .ok ([], Mark.tag.filters t) :=
    resolve_word .tag ht (o := {}) rfl
  rw [search, hresolve, ← hcarries]
  exact run_word .tag (.inl rfl) rfl (apply_word .tag t ds)

theorem isValue_of_mem_splitTags {v : Text} (hv : v ∈ values .tag q) (hu : u ∈ splitTags v) :
    IsValue u := by
  obtain ⟨hne, hcomma, hpart⟩ := mem_splitTags hu
  exact ⟨hne, fun c hc => isBlank_of_mem_values hv c (hpart.subset hc), hcomma⟩

theorem mem_of_tagList {vs ts : List Text} (h : tagList vs = some ts) (hu : u ∈ ts) :
    ∃ v ∈ vs, u ∈ splitTags v := by
  rw [tagList] at h
  split at h
  · cases h
  · cases h
    exact List.mem_flatMap.mp hu

/-- Blanks and commas stand in the lower case of a text where they stand in the text. -/
theorem IsValue.of_lower_eq (hu : IsValue u) (h : lower u = lower t) : IsValue t := by
  constructor
  · rintro rfl
    exact lower_ne_nil hu.nonempty h
  · intro c hc
    cases hblank : isBlank c with
    | false => rfl
    | true =>
        rw [← mem_lower_iff hblank, ← h, mem_lower_iff hblank] at hc
        exact absurd (hu.unbroken c hc) (by simp [hblank])
  · intro hcomma
    rw [← apart_comma.mem_lower_iff rfl, ← h, apart_comma.mem_lower_iff rfl] at hcomma
    exact hu.comma hcomma

def tagged (t : Text) : Document := { id := ['a'], tags := [t] }

def bare : Document := { id := ['b'] }

theorem exactResults_eq_nil {ds : List Document} (hne : q ≠ [])
    (h : ∀ d ∈ ds, d.title = [] ∧ d.content = []) : exactResults q ds = [] := by
  rw [List.eq_nil_iff_forall_not_mem]
  intro r hr
  obtain ⟨d, hd, hhas, -⟩ := mem_exactResults.mp hr
  obtain ⟨n, hn⟩ := List.exists_mem_of_ne_nil _ (needles_ne_nil q)
  obtain ⟨htitle, hcontent⟩ := h d hd
  have hfound := List.all_eq_true.mp hhas _ (List.mem_map_of_mem hn)
  rw [htitle, hcontent, Bool.or_self, contains_iff_infix] at hfound
  exact lower_ne_nil (mem_needles hne hn).1 (List.infix_nil.mp hfound)

/-- Filters that let the tagged document pass and not the other ask for its tag. -/
theorem exists_tag_of_admits {f : Filters} (htype : f.fileType = none)
    (ha : f.admits (tagged t) = .ok true) (hb : f.admits bare ≠ .ok true) :
    ∃ ts u, f.tags = some ts ∧ u ∈ ts ∧ lower u = lower t := by
  obtain ⟨hdates, hshape⟩ := admits_iff.mp ha
  have hdatesBare : ∀ k : DateKey, datesAdmit (k.range f) (k.dateOf bare) = .ok true := by
    intro k
    cases k with
    | created => exact hdates .created
    | modified => exact hdates .modified
  simp only [Filters.admitsShape, Bool.and_eq_true] at hshape
  obtain ⟨⟨⟨⟨⟨⟨htags, -⟩, hwords⟩, hlinks⟩, hbacklinks⟩, hfolder⟩, -⟩ := hshape
  have hbare : f.admitsShape bare = f.tags.all (tagsAdmit · bare) := by
    have hexcluded : f.excludedTags.all (excludedAdmit · bare) = true := by
      cases f.excludedTags <;> simp [excludedAdmit, lowered, bare]
    have hwordsBare : f.wordCount.all (·.admits (words bare)) = true := hwords
    have hlinksBare : f.hasLinks.all (· == decide (0 < links bare)) = true := hlinks
    have hbacklinksBare : f.hasBacklinks.all (· == decide (0 < backlinks bare)) = true := hbacklinks
    have hfolderBare : f.folder.all (folderAdmits · bare) = true := hfolder
    simp only [Filters.admitsShape, hexcluded, hwordsBare, hlinksBare, hbacklinksBare, hfolderBare,
      htype, Option.all_none, Bool.and_true]
  have hfalse : f.tags.all (tagsAdmit · bare) = false := by
    rw [← hbare, ← Bool.not_eq_true]
    exact fun h => hb (admits_iff.mpr ⟨hdatesBare, h⟩)
  cases hf : f.tags with
  | none => simp [hf] at hfalse
  | some ts =>
      cases ts with
      | nil => simp [hf, tagsAdmit, lowered] at hfalse
      | cons u us =>
          refine ⟨u :: us, u, rfl, List.mem_cons_self, ?_⟩
          simp only [hf, Option.all_some, tagsAdmit, lowered, List.map_cons, List.all_cons,
            Bool.and_eq_true] at htags
          simpa [tagged] using htags.1

theorem admits_of_apply {f : Filters} {passed : List Document}
    (h : f.apply [tagged t, bare] = .ok passed) (hids : passed.map (·.id) = [(tagged t).id]) :
    f.admits (tagged t) = .ok true ∧ f.admits bare ≠ .ok true := by
  rw [apply_eq_keep, keep, keep] at h
  cases ha : f.admits (tagged t) with
  | error err => simp [ha] at h
  | ok x =>
      cases hb : f.admits bare with
      | error err => simp [ha, hb, Except.map] at h
      | ok y =>
          simp only [ha, hb, keep, Except.map, Except.ok.injEq] at h
          subst h
          cases x <;> cases y <;> simp_all [tagged, bare]

/-- Only a tag that is one value of a filter can be told by a query, whatever the query says. -/
theorem isValue_of_search {rs : List Result} (h : search [tagged t, bare] { query := q } = .ok rs)
    (hrs : rs.map Result.id = [(tagged t).id]) : IsValue t := by
  rw [search, Engine.resolve_nonStrict rfl rfl] at h
  cases hparse : Filtering.parse false q with
  | error err => simp [hparse] at h
  | ok read =>
      obtain ⟨rest, f⟩ := read
      simp only [hparse] at h
      by_cases hrest : rest = []
      · subst hrest
        rw [run_nil] at h
        obtain ⟨passed, hpassed, rfl⟩ := map_eq_ok_iff.mp h
        have hids : passed.map (·.id) = [(tagged t).id] := by
          rw [← hrs, paginate_whole (.inl rfl), List.map_map]
          rfl
        have hreads := parse_eq_ok_iff.mp hparse
        obtain ⟨ha, hb⟩ := admits_of_apply (mapError_eq_ok_iff.mp hpassed) hids
        obtain ⟨ts, u, hts, hu, hlower⟩ := exists_tag_of_admits hreads.fileType ha hb
        obtain ⟨v, hv, huv⟩ := mem_of_tagList (hreads.tags.symm.trans hts) hu
        exact (isValue_of_mem_splitTags hv huv).of_lower_eq hlower
      · -- Neither document has a text that something could be found in.
        rw [run_exact rfl hrest (freeText_spaced hparse).1] at h
        obtain ⟨passed, hpassed, rfl⟩ := map_eq_ok_iff.mp h
        have hsubset := subset_of_apply (mapError_eq_ok_iff.mp hpassed)
        rw [exactResults_eq_nil hrest fun d hd => ?_] at hrs
        · cases hrs
        · rcases List.mem_pair.mp (hsubset hd) with rfl | rfl <;> exact ⟨rfl, rfl⟩

end Separating

/-- What is suggested for a tag finds, in any list, the documents that have the tag and no other
exactly if the tag is one value of a filter. -/
theorem suggested_tag_works_iff (t : Text) :
    (∀ ds query limit, (∃ d ∈ ds, t ∈ d.tags) → tagMark ++ t ∈ suggestions ds query limit →
      ∃ rs, search ds { query := tagMark ++ t } = .ok rs ∧
        rs.map Result.id = (ds.filter (carries t)).map Document.id) ↔ IsValue t := by
  constructor
  · intro hworks
    have hall : t ∈ allTags [tagged t, bare] :=
      mem_allTags.mpr ⟨tagged t, List.mem_cons_self, List.mem_singleton_self t⟩
    have hcarries : [tagged t, bare].filter (carries t) = [tagged t] := by
      simp [carries, lowered, tagged, bare]
    have hlength : (allTags [tagged t, bare]).length = 1 := by
      simp [allTags, tagged, bare, List.eraseDups_cons]
    have hsuggested : tagMark ++ t ∈ suggestions [tagged t, bare] t 5 :=
      mem_suggestions hall List.infix_rfl (by simp [hlength])
    obtain ⟨rs, hsearch, hids⟩ := hworks _ t 5 (mem_allTags.mp hall) hsuggested
    rw [hcarries] at hids
    exact isValue_of_search hsearch hids
  · intro ht ds query limit _ _
    refine ⟨_, search_tagMark ht ds, ?_⟩
    rw [List.map_map]
    rfl

def machineNote : Document := { id := ['a'], tags := ["machine learning".toList] }

theorem suggested_tag_misses_machineNote :
    "tag:machine learning".toList ∈ suggestions [machineNote] "mach".toList 5 ∧
      carries "machine learning".toList machineNote = true ∧
      search [machineNote] { query := "tag:machine learning".toList } = .ok [] :=
  ⟨by decide +kernel, by decide +kernel, eq_ok_of_toOption (by decide +kernel)⟩

end VaultSearch.Search
