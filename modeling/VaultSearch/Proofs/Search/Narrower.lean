import VaultSearch.Proofs.Search.Exact

namespace VaultSearch.Filtering

open Text Note

/-- A further condition takes out of what is kept, and never fails. -/
theorem keep_and {α ε : Type} {p : α → Except ε Bool} (q : α → Bool) {xs ys : List α}
    (h : keep p xs = .ok ys) :
    keep (fun x => (p x).map (· && q x)) xs = .ok (ys.filter q) := by
  induction xs generalizing ys with
  | nil =>
      cases h
      rfl
  | cons x xs ih =>
      rw [keep] at h
      cases hp : p x with
      | error err => simp [hp] at h
      | ok b =>
          rw [hp] at h
          obtain ⟨zs, hzs, rfl⟩ := map_eq_ok_iff.mp h
          rw [keep, hp, ih hzs]
          cases b <;> cases hq : q x <;> simp [Except.map, hq]

inductive TagKey
  | wanted
  | excluded

namespace TagKey

def key : TagKey → Key
  | wanted => .tag
  | excluded => .excludedTag

def tags : TagKey → Filters → Option (List Text)
  | wanted => Filters.tags
  | excluded => Filters.excludedTags

def admits : TagKey → List Text → Document → Bool
  | wanted => tagsAdmit
  | excluded => excludedAdmit

def add (k : TagKey) (ts : List Text) (f : Filters) : Filters :=
  match k with
  | wanted => { f with tags := some (f.tags.getD [] ++ ts) }
  | excluded => { f with excludedTags := some (f.excludedTags.getD [] ++ ts) }

variable (k : TagKey) (ts : List Text) (f : Filters) (d : Document)

theorem admits_append (us : List Text) :
    k.admits (ts ++ us) d = (k.admits ts d && k.admits us d) := by
  cases k with
  | wanted => simp [admits, tagsAdmit, lowered]
  | excluded => simp [admits, excludedAdmit, lowered]

theorem all_tags : (k.tags f).all (k.admits · d) = k.admits ((k.tags f).getD []) d := by
  cases h : k.tags f with
  | some us => rfl
  | none => cases k <;> rfl

theorem admitsShape_add : (k.add ts f).admitsShape d = (f.admitsShape d && k.admits ts d) := by
  have hadded : k.admits ((k.tags f).getD [] ++ ts) d =
      ((k.tags f).all (k.admits · d) && k.admits ts d) := by
    rw [admits_append, all_tags]
  cases k with
  | wanted =>
      simp only [tags, admits] at hadded
      simp only [Filters.admitsShape, add, admits, Option.all_some, hadded]
      ac_rfl
  | excluded =>
      simp only [tags, admits] at hadded
      simp only [Filters.admitsShape, add, admits, Option.all_some, hadded]
      ac_rfl

/-- The dates of a document are looked at before its tags, and fail as they did. -/
theorem admits_add : (k.add ts f).admits d = (f.admits d).map (· && k.admits ts d) := by
  have hcreated : (k.add ts f).created = f.created := by cases k <;> rfl
  have hmodified : (k.add ts f).modified = f.modified := by cases k <;> rfl
  rw [Filters.admits, Filters.admits, hcreated, hmodified, admitsShape_add]
  cases datesAdmit f.created d.created with
  | error err => rfl
  | ok inCreated =>
      cases inCreated with
      | false => rfl
      | true =>
          cases datesAdmit f.modified d.modified with
          | error err => rfl
          | ok inModified => cases inModified <;> rfl

variable {k ts f}

theorem apply_add {ds passed : List Document} (h : f.apply ds = .ok passed) :
    (k.add ts f).apply ds = .ok (passed.filter (k.admits ts)) := by
  rw [apply_eq_keep] at h ⊢
  rw [funext (k.admits_add ts f)]
  exact keep_and _ h

/-- Tags that are given explicitly stand over all tags of the query. -/
theorem merged_add (e : Filters) : (k.add ts f).merged e =
    if (k.tags e).isSome then f.merged e else k.add ts (f.merged e) := by
  obtain ⟨created, modified, tags, excludedTags, wordCount, hasLinks, hasBacklinks, folder, fileType⟩
    := e
  cases k with
  | wanted => cases tags <;> rfl
  | excluded => cases excludedTags <;> rfl

theorem accepts_key {x : Text} (hx : x ≠ []) : k.key.accepts x = true := by
  cases k <;> simp [key, Key.accepts, hx]

end TagKey

theorem tagList_append_singleton (vs : List Text) (x : Text) :
    tagList (vs ++ [x]) = some ((tagList vs).getD [] ++ splitTags x) := by
  cases vs with
  | nil => simp [tagList]
  | cons v vs => simp [tagList]

/-- A tag filter at the end of a query is a word of its own wherever the query ends. -/
theorem ReadsAs.add {strict : Bool} {q rest : Text} {f : Filters} (h : ReadsAs strict q rest f)
    (k : TagKey) {x : Text} (hne : x ≠ []) (hx : ∀ c ∈ x, isBlank c = false) :
    ReadsAs strict (q ++ ' ' :: (k.key.text ++ x)) rest (k.add (splitTags x) f) := by
  have hspace : isBlank ' ' = true := by decide
  have haccepts := TagKey.accepts_key (k := k) hne
  have hvalues : ∀ l, values l (q ++ ' ' :: (k.key.text ++ x)) =
      values l q ++ if l = k.key then [x] else [] := by
    intro l
    rw [values_append_blank hspace, values_text_append haccepts hx]
  have hfree : freeWords (q ++ ' ' :: (k.key.text ++ x)) = freeWords q := by
    rw [freeWords_append_blank hspace, freeWords_text_append haccepts hx, List.append_nil]
  obtain ⟨rfl, htags, hexcluded, hcreated, hmodified, hcounts, hlinks, hbacklinks, hfolder, htype⟩ := h
  -- From here on only what the words of the longer query say is of interest.
  generalize q ++ ' ' :: (k.key.text ++ x) = longer at hvalues hfree
  cases k with
  | wanted =>
      constructor <;> simp [TagKey.add, TagKey.key, tagList_append_singleton, *]
  | excluded =>
      constructor <;> simp [TagKey.add, TagKey.key, tagList_append_singleton, *]

end VaultSearch.Filtering

namespace VaultSearch.Search

open Text Note Filtering

section Parts

variable {α : Type} {le : α → α → Bool}

/-- A stable sort puts a part of a list in the order that the whole comes in. -/
theorem mergeSort_sublist (htrans : ∀ a b c, le a b = true → le b c = true → le a c = true)
    (htotal : ∀ a b, (le a b || le b a) = true) {part xs : List α} (h : part.Sublist xs) :
    (part.mergeSort le).Sublist (xs.mergeSort le) := by
  induction h with
  | slnil => exact .refl _
  | @cons part xs a _ ih =>
      obtain ⟨before, after, hall, hrest, -⟩ := List.mergeSort_cons htrans htotal a xs
      rw [hrest] at ih
      rw [hall]
      exact ih.trans (List.Sublist.append_left (List.sublist_cons_self a after) before)
  | @cons_cons part xs a _ ih =>
      rw [mergeSort_cons_eq htrans htotal, mergeSort_cons_eq htrans htotal]
      exact (ih.filter _).append ((ih.filter _).cons_cons a)

variable {part ds : List Document} (h : part.Sublist ds)

include h

theorem exactResults_sublist (query : Text) :
    (exactResults query part).Sublist (exactResults query ds) :=
  (((h.filter _).filter _).append ((h.filter _).filter _)).map _

theorem booleanResults_sublist (query : Text) :
    (booleanResults query part).Sublist (booleanResults query ds) :=
  (h.filter _).map _

theorem fuzzyResults_sublist (threshold : Number.Binary64) (query : Text) :
    (fuzzyResults threshold query part).Sublist (fuzzyResults threshold query ds) :=
  (mergeSort_sublist byScore_trans byScore_total ((h.filter _).map _)).map _

theorem matching_sublist (o : Options) (text : Text) :
    (matching o text part).Sublist (matching o text ds) := by
  simp only [matching]
  split
  · exact h.map plainResult
  · cases o.mode with
    | exact => exact exactResults_sublist h (trim text)
    | boolean => exact booleanResults_sublist h (trim text)
    | fuzzy => exact fuzzyResults_sublist h o.threshold (trim text)

end Parts

def Options.withTag (o : Options) (k : TagKey) (x : Text) : Options :=
  { o with query := o.query ++ ' ' :: (k.key.text ++ x) }

def Options.leaves (o : Options) (k : TagKey) (x : Text) (d : Document) : Bool :=
  (k.tags o.filters).isSome || k.admits (splitTags x) d

section Narrowing

variable {ds : List Document} {o : Options} {k : TagKey} {x : Text}

theorem resolve_withTag (hne : x ≠ []) (hx : ∀ c ∈ x, isBlank c = false) {text : Text}
    {filters : Filters} (h : resolve o = .ok (text, filters)) : resolve (o.withTag k x) =
      .ok (text, if (k.tags o.filters).isSome then filters else k.add (splitTags x) filters) := by
  rw [resolve] at h ⊢
  obtain ⟨⟨rest, inline⟩, hparse, heq⟩ := map_eq_ok_iff.mp h
  cases heq
  have hlonger := parse_eq_ok_iff.mpr ((parse_eq_ok_iff.mp hparse).add k hne hx)
  simp only [Options.withTag, hlonger, Except.map, TagKey.merged_add]

theorem apply_withTag {filters : Filters} {passed : List Document}
    (h : filters.apply ds = .ok passed) :
    (if (k.tags o.filters).isSome then filters else k.add (splitTags x) filters).apply ds =
      .ok (passed.filter (o.leaves k x)) := by
  cases hset : (k.tags o.filters).isSome with
  | true =>
      have hall : passed.filter (o.leaves k x) = passed :=
        List.filter_eq_self.mpr fun d _ => by rw [Options.leaves, hset, Bool.true_or]
      rw [if_pos rfl, h, hall]
  | false =>
      have hleaves : o.leaves k x = k.admits (splitTags x) := by
        funext d
        rw [Options.leaves, hset, Bool.false_or]
      rw [if_neg Bool.false_ne_true, TagKey.apply_add h, hleaves]

/-- A tag filter behind a query comes to searching the documents that have or have not the tag. The
results are a part of those without it, in the same order and with the same scores and spans. -/
theorem search_withTag (hlimit : o.limit = none ∨ o.limit = some 0) (hoffset : o.offset = 0)
    (k : TagKey) (hne : x ≠ []) (hx : ∀ c ∈ x, isBlank c = false) {rs : List Result}
    (h : search ds o = .ok rs) :
    ∃ found, search ds (o.withTag k x) = .ok found ∧
      search (ds.filter (o.leaves k x)) o = .ok found ∧ found.Sublist rs := by
  rw [search] at h
  cases hresolve : resolve o with
  | error err => simp [hresolve] at h
  | ok resolved =>
      obtain ⟨text, filters⟩ := resolved
      simp only [hresolve, run] at h
      cases hpassed : filters.apply ds with
      | error err => simp [hpassed] at h
      | ok passed =>
          simp only [hpassed, hoffset, paginate_whole hlimit, Except.ok.injEq] at h
          refine ⟨matching o text (passed.filter (o.leaves k x)), ?_, ?_, ?_⟩
          · have hlonger : (o.withTag k x).offset = 0 := hoffset
            have hall : ∀ found : List Result, paginate (o.withTag k x).limit 0 found = found :=
              paginate_whole hlimit
            simp only [search, resolve_withTag hne hx hresolve, run, apply_withTag hpassed, hlonger,
              hall]
            rfl
          · simp only [search, hresolve, run, apply_filter _ hpassed, hoffset, paginate_whole hlimit]
          · rw [← h]
            exact matching_sublist List.filter_sublist o text

def openQuotation : Options := { query := "-tag:old \"ΟΔΟΣ".toList }

def openQuotationFound : List Result :=
  [untagged, morning, evening].map (exactResult ["οδος".toList])

theorem search_withTag_openQuotation :
    search [evening, untagged, morning] openQuotation = .ok openQuotationFound ∧
      ∃ found, search [evening, untagged, morning] (openQuotation.withTag .wanted "WAY".toList) =
          .ok found ∧
        search ([evening, untagged, morning].filter (openQuotation.leaves .wanted "WAY".toList))
          openQuotation = .ok found ∧ found.Sublist openQuotationFound := by
  have hfound : search [evening, untagged, morning] openQuotation = .ok openQuotationFound :=
    eq_ok_of_toOption (by decide +kernel)
  exact ⟨hfound, search_withTag (.inl rfl) rfl .wanted (by decide) (by simp [isBlank]) hfound⟩

end Narrowing

end VaultSearch.Search
