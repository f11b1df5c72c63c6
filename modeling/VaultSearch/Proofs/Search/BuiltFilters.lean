import VaultSearch.Proofs.Filtering.SingleDay
import VaultSearch.Proofs.Search.QuickMarks
import VaultSearch.Search.Suggest

namespace VaultSearch.Search

open Text Time Filtering

def dateValue (first last : Text) : Text :=
  first ++ if last.isEmpty then [] else rangeMark ++ last

def dateValues (first last : Text) : List Text :=
  if first.isEmpty then [] else [dateValue first last]

theorem dateText_eq (first last : Text) :
    dateText first last = (dateValues first last).map (Key.modified.text ++ ·) := by
  cases first with
  | nil => rfl
  | cons c first =>
      exact congrArg (fun t => [t]) (List.append_assoc "modified:".toList (c :: first) _)

def builtFilters (tags : List Text) (first last : Text) : List (Key × Text) :=
  (.tag, joinWith [','] tags) :: (dateValues first last).map (.modified, ·)

def builtFront (operator : Text) (terms phrases : List Text) : List Text :=
  (if terms.isEmpty then [] else [joinWith (' ' :: operator ++ [' ']) terms]) ++
    phrases.map fun p => '"' :: p ++ ['"']

section Building

variable (operator : Text) (terms phrases : List Text) {tags : List Text} {first last : Text}

theorem buildQuery_front : buildQuery operator terms phrases [] [] [] =
    joinWith [' '] (builtFront operator terms phrases) := by
  have hbuilt : buildQuery operator terms phrases [] [] [] =
      joinWith [' '] (builtFront operator terms phrases ++ [] ++ []) := rfl
  rw [hbuilt, List.append_nil, List.append_nil]

theorem buildQuery_eq (hne : tags ≠ []) : buildQuery operator terms phrases tags first last =
    joinWith [' '] (builtFront operator terms phrases ++
      (builtFilters tags first last).map fun kv => kv.1.text ++ kv.2) := by
  have hbuilt : buildQuery operator terms phrases tags first last =
      joinWith [' '] (builtFront operator terms phrases ++
        (if tags.isEmpty then [] else [Key.tag.text ++ joinWith [','] tags]) ++
        dateText first last) := rfl
  rw [hbuilt, if_neg (by simpa using hne), dateText_eq, builtFilters, List.map_cons, List.map_map,
    List.append_assoc, List.singleton_append]
  rfl

variable (hne : tags ≠ []) (htags : ∀ t ∈ tags, IsValue t) (hfirst : ∀ c ∈ first, isBlank c = false)
  (hlast : ∀ c ∈ last, isBlank c = false)

include hne htags hfirst hlast

theorem builtFilters_plain : ∀ kv ∈ builtFilters tags first last,
    kv.1.accepts kv.2 = true ∧ ∀ c ∈ kv.2, isBlank c = false := by
  refine List.forall_mem_cons.mpr ⟨⟨?_, fun c hc => ?_⟩, List.forall_mem_map.mpr fun v hv => ?_⟩
  · simpa [Key.accepts] using joinWith_ne_nil [','] hne fun t ht => (htags t ht).nonempty
  · rcases mem_joinWith hc with hsep | ⟨t, ht, hc⟩
    · rw [List.mem_singleton.mp hsep]
      decide
    · exact (htags t ht).unbroken c hc
  · obtain ⟨hsome, hv⟩ : first ≠ [] ∧ v = dateValue first last := by
      simpa [dateValues] using hv
    have hdot : isBlank '.' = false := by decide
    rw [hv, dateValue]
    refine ⟨by simpa [Key.accepts] using fun h => absurd h hsome, ?_⟩
    refine List.forall_mem_append.mpr ⟨hfirst, ?_⟩
    split
    · exact List.forall_mem_nil _
    · exact List.forall_mem_cons.mpr ⟨hdot, List.forall_mem_cons.mpr ⟨hdot, hlast⟩⟩

theorem words_buildQuery : Text.words (buildQuery operator terms phrases tags first last) =
    Text.words (buildQuery operator terms phrases [] [] []) ++
      (builtFilters tags first last).map fun kv => kv.1.text ++ kv.2 := by
  have hplain := builtFilters_plain hne htags hfirst hlast
  have hwords : (builtFilters tags first last).flatMap (fun kv => Text.words (kv.1.text ++ kv.2)) =
      (builtFilters tags first last).map fun kv => kv.1.text ++ kv.2 := by
    rw [List.map_eq_flatMap]
    exact List.flatMap_congr fun kv hkv => words_text_append (hplain kv hkv).2
  rw [buildQuery_front, buildQuery_eq _ _ _ hne, words_joinWith_flatMap, words_joinWith_flatMap,
    List.flatMap_append, List.flatMap_map, hwords]

variable {operator terms phrases}

/-- What is read off a built query: the tags in order, and the dates if the first one is given. -/
theorem parse_buildQuery
    (hfree : ∀ w ∈ Text.words (buildQuery operator terms phrases [] [] []), isFilter w = false)
    (strict : Bool) : Filtering.parse strict (buildQuery operator terms phrases tags first last) =
      (readLast (parseDates strict) (dateValues first last)).map fun r =>
        (joinWith [' '] (Text.words (buildQuery operator terms phrases [] [] [])),
          { tags := some tags, modified := r }) := by
  have haccepts : ∀ kv ∈ builtFilters tags first last, kv.1.accepts kv.2 = true := fun kv hkv =>
    (builtFilters_plain hne htags hfirst hlast kv hkv).1
  have hwords := words_buildQuery operator terms phrases hne htags hfirst hlast
  have hvalues := values_written hwords hfree haccepts
  have htag : values .tag (buildQuery operator terms phrases tags first last) =
      [joinWith [','] tags] := by
    simp [hvalues, builtFilters, List.filter_map, Function.comp_def]
  have hmodified : values .modified (buildQuery operator terms phrases tags first last) =
      dateValues first last := by
    simp [hvalues, builtFilters, List.filter_map, Function.comp_def]
  have hother {l : Key} (ht : l ≠ .tag) (hm : l ≠ .modified) :
      values l (buildQuery operator terms phrases tags first last) = [] := by
    simp [hvalues, builtFilters, List.filter_map, Function.comp_def, ht.symm, hm.symm]
  have hsplit : tagList [joinWith [','] tags] = some tags := by
    rw [tagList, List.isEmpty_cons, if_neg Bool.false_ne_true, List.flatMap_singleton,
      splitTags_joinWith hne fun t ht => ⟨(htags t ht).nonempty, (htags t ht).comma⟩]
  rw [parse_eq_parseWords, parseWords, freeWords_written hwords hfree haccepts, htag, hmodified,
    hsplit, hother (l := .created) (by decide) (by decide),
    hother (l := .words) (by decide) (by decide),
    hother (l := .excludedTag) (by decide) (by decide),
    hother (l := .hasLinks) (by decide) (by decide),
    hother (l := .hasBacklinks) (by decide) (by decide),
    hother (l := .folder) (by decide) (by decide)]
  cases readLast (parseDates strict) (dateValues first last) <;> rfl

end Building

def IsDate (t : Text) : Prop := ∃ d : Date, d.text = t

/-- The range has the bounds that are given, each at the midnight of its date. -/
structure KeepsBounds (r : DateRange) (first last : Text) : Prop where
  first : first ≠ [] → ∃ d : Date, d.text = first ∧ r.first = some (.ofDate d)
  last : last ≠ [] → ∃ d : Date, d.text = last ∧ r.last = some (.ofDate d)
  read : r.malformed = false

section Dates

variable {first last : Text} {strict : Bool}

theorem IsDate.ne_nil {t : Text} (h : IsDate t) : t ≠ [] := by
  obtain ⟨d, rfl⟩ := h
  exact List.ne_nil_of_length_pos (by rw [d.length_text]; decide)

theorem IsDate.isBlank {t : Text} (h : IsDate t) : ∀ c ∈ t, isBlank c = false := by
  obtain ⟨d, rfl⟩ := h
  exact fun c hc => (Date.text_plain hc).1

theorem keepsBounds_day {d : Date} (h : d.index + 1 < dayCount) :
    ∃ r, parseDates strict (dateValue d.text []) = .ok r ∧ KeepsBounds r d.text [] := by
  have hvalue : dateValue d.text [] = d.text := List.append_nil _
  rw [hvalue]
  exact ⟨_, parseDates_of_readDates (readDates_day h) rfl strict,
    fun _ => ⟨d, rfl, rfl⟩, fun h => absurd rfl h, rfl⟩

theorem keepsBounds_between (d e : Date) :
    ∃ r, parseDates strict (dateValue d.text e.text) = .ok r ∧ KeepsBounds r d.text e.text := by
  have hvalue : dateValue d.text e.text = d.text ++ rangeMark ++ e.text := by
    rw [dateValue, if_neg (by simpa using IsDate.ne_nil ⟨e, rfl⟩), List.append_assoc]
  rw [hvalue]
  exact ⟨_, parseDates_of_readDates (readDates_between d e) rfl strict,
    fun _ => ⟨d, rfl, rfl⟩, fun _ => ⟨e, rfl, rfl⟩, rfl⟩

theorem isDate_dayText {year month day : Nat} (h : (Date.ofCivil year month day).isOk = true) :
    IsDate (dayText year month day) :=
  (isOk_iff.mp h).imp fun _ => text_of_ofCivil

theorem isBeforeLast_iff_text {d : Date} :
    d.index + 1 < dayCount ↔ d.text ≠ dayText 9999 12 31 := by
  rw [isBeforeLast_iff, Ne, Ne, not_iff_not, ← Date.ofCivil_eq_ok_iff]
  constructor
  · exact text_of_ofCivil
  · intro h
    obtain ⟨last, hlast⟩ := isOk_iff.mp (by decide +kernel : (Date.ofCivil 9999 12 31).isOk = true)
    have hread := readDate_text d
    rw [h, ← text_of_ofCivil hlast, readDate_text] at hread
    rw [hlast, Option.some.inj hread]

/-- The dates of a built query are read as given if they are dates and there is a day after a first
one that is alone. -/
theorem keepsBounds_iff (strict : Bool) (hfirst : first ≠ []) :
    (∃ r, parseDates strict (dateValue first last) = .ok r ∧ KeepsBounds r first last) ↔
      IsDate first ∧ (last ≠ [] → IsDate last) ∧ (last = [] → first ≠ dayText 9999 12 31) := by
  constructor
  · rintro ⟨r, hread, hbounds⟩
    obtain ⟨d, rfl, -⟩ := hbounds.first hfirst
    refine ⟨⟨d, rfl⟩, fun h => (hbounds.last h).imp fun e he => he.1, ?_⟩
    rintro rfl hlast
    have hvalue : dateValue d.text [] = d.text := List.append_nil _
    have herror := readDates_lastDay fun h => isBeforeLast_iff_text.mp h hlast
    rw [hvalue, parseDates, herror] at hread
    cases hread
  · rintro ⟨⟨d, rfl⟩, hlast, hday⟩
    by_cases h : last = []
    · subst h
      exact keepsBounds_day (isBeforeLast_iff_text.mpr (hday rfl))
    · obtain ⟨e, rfl⟩ := hlast h
      exact keepsBounds_between d e

end Dates

/-- The tags of a built query are read back in order, and with them the dates that were given, if
they are dates, the first one is given and, where it is alone, there is a day after it. A last date
alone is not in the query at all. -/
theorem filters_survive_buildQuery {operator : Text} {terms phrases tags : List Text}
    {first last : Text} (hne : tags ≠ []) (htags : ∀ t ∈ tags, IsValue t)
    (hfirst : ∀ c ∈ first, isBlank c = false) (hlast : ∀ c ∈ last, isBlank c = false)
    (hfree : ∀ w ∈ Text.words (buildQuery operator terms phrases [] [] []), isFilter w = false)
    (strict : Bool) :
    ((∃ rest f r, Filtering.parse strict (buildQuery operator terms phrases tags first last) =
        .ok (rest, f) ∧ f.tags = some tags ∧ f.modified = some r ∧ KeepsBounds r first last) ↔
      IsDate first ∧ (last ≠ [] → IsDate last) ∧ (last = [] → first ≠ dayText 9999 12 31)) ∧
    (first = [] → Filtering.parse strict (buildQuery operator terms phrases tags first last) =
      .ok (joinWith [' '] (Text.words (buildQuery operator terms phrases [] [] [])),
        { tags := some tags })) := by
  have hparse := parse_buildQuery hne htags hfirst hlast hfree strict
  by_cases h : first = []
  · subst h
    have hlost : readLast (parseDates strict) (dateValues [] last) = .ok none := rfl
    rw [hlost, Except.map] at hparse
    refine ⟨iff_of_false ?_ ?_, fun _ => hparse⟩
    · rintro ⟨rest, f, r, hread, -, hsome, -⟩
      rw [hparse] at hread
      cases hread
      cases hsome
    · exact fun ⟨hdate, _⟩ => hdate.ne_nil rfl
  · have hgiven : readLast (parseDates strict) (dateValues first last) =
        (parseDates strict (dateValue first last)).map some := by
      rw [dateValues, if_neg (by simpa using h)]
      rfl
    rw [hgiven] at hparse
    refine ⟨?_, fun hnone => absurd hnone h⟩
    rw [← keepsBounds_iff strict h]
    constructor
    · rintro ⟨rest, f, r, hread, -, hsome, hbounds⟩
      rw [hparse] at hread
      obtain ⟨_, hmap, hpair⟩ := map_eq_ok_iff.mp hread
      obtain ⟨r', hr', rfl⟩ := map_eq_ok_iff.mp hmap
      cases hpair
      cases hsome
      exact ⟨r, hr', hbounds⟩
    · rintro ⟨r, hr, hbounds⟩
      rw [hr] at hparse
      exact ⟨_, _, r, hparse, rfl, rfl, hbounds⟩

def systemsAndLang : List Text := ["systems".toList, "lang".toList]

theorem filters_survive_buildQuery_halfYear :
    systemsAndLang ≠ [] ∧ (∀ t ∈ systemsAndLang, IsValue t) ∧
      IsDate (dayText 2024 1 1) ∧ IsDate (dayText 2024 6 30) ∧
      ∃ rest f r, Filtering.parse false (buildQuery Query.andWord ["rust".toList, "go".toList]
          ["borrow checker".toList] systemsAndLang (dayText 2024 1 1) (dayText 2024 6 30)) =
        .ok (rest, f) ∧ f.tags = some systemsAndLang ∧ f.modified = some r ∧
        KeepsBounds r (dayText 2024 1 1) (dayText 2024 6 30) := by
  have hne : systemsAndLang ≠ [] := List.cons_ne_nil _ _
  have htags : ∀ t ∈ systemsAndLang, IsValue t := by decide +kernel
  have hfirst : IsDate (dayText 2024 1 1) := isDate_dayText (by decide +kernel)
  have hlast : IsDate (dayText 2024 6 30) := isDate_dayText (by decide +kernel)
  have hfree : ∀ w ∈ Text.words (buildQuery Query.andWord ["rust".toList, "go".toList]
      ["borrow checker".toList] [] [] []), isFilter w = false := by decide +kernel
  have hsurvive :=
    filters_survive_buildQuery hne htags hfirst.isBlank hlast.isBlank hfree false
  exact ⟨hne, htags, hfirst, hlast,
    hsurvive.1.mpr ⟨hfirst, fun _ => hlast, fun hnone => absurd hnone hlast.ne_nil⟩⟩

/-- The last date is not in the query any more. -/
theorem lastDate_lost :
    (∀ t ∈ systemsAndLang, IsValue t) ∧ IsDate (dayText 2024 6 30) ∧
      buildQuery Query.andWord [] [] systemsAndLang [] (dayText 2024 6 30) =
        "tag:systems,lang".toList ∧
      Filtering.parse false "tag:systems,lang".toList =
        .ok ([], { tags := some systemsAndLang }) := by
  refine ⟨by decide +kernel, isDate_dayText (by decide +kernel), rfl, ?_⟩
  exact eq_ok_of_toOption (by decide +kernel)

end VaultSearch.Search
