import VaultSearch.Proofs.Engine.Dates
import VaultSearch.Proofs.Narrowing
import VaultSearch.Proofs.Note.Terms
import VaultSearch.Proofs.Search.Exact
import VaultSearch.Proofs.Search.Quick

namespace VaultSearch

open Text Note Filtering

namespace Search

inductive Mark
  | tag
  | folder

structure IsName (x : Text) : Prop where
  nonempty : x ≠ []
  unquoted : ∀ c ∈ x, isUnquoted c = true
  comma : ',' ∉ x

structure IsValue (x : Text) : Prop where
  nonempty : x ≠ []
  unbroken : ∀ c ∈ x, isBlank c = false
  comma : ',' ∉ x

instance : DecidablePred IsValue := fun x =>
  decidable_of_iff (x ≠ [] ∧ x.all (!isBlank ·) = true ∧ ',' ∉ x)
    ⟨fun ⟨hne, hblank, hcomma⟩ => ⟨hne, by simpa using hblank, hcomma⟩,
      fun h => ⟨h.nonempty, by simpa using h.unbroken, h.comma⟩⟩

theorem IsName.isValue {x : Text} (hx : IsName x) : IsValue x where
  nonempty := hx.nonempty
  unbroken c hc := (isUnquoted_iff.mp (hx.unquoted c hc)).1
  comma := hx.comma

namespace Mark

variable {x : Text} (m : Mark)

def key : Mark → Key
  | tag => .tag
  | folder => .folder

def text : Mark → Text
  | tag => tagMark
  | folder => folderMark

theorem key_text : m.key.text = m.text := by cases m <;> rfl

/-- The word is one, for the filters as for the parts of a quick query. -/
theorem unquoted_word (hx : IsName x) : ∀ c ∈ m.text ++ x, isUnquoted c = true := by
  have hmark : m.text.all isUnquoted = true := by cases m <;> rfl
  exact List.forall_mem_append.mpr ⟨List.all_eq_true.mp hmark, hx.unquoted⟩

theorem word_ne_nil (hx : IsName x) : m.text ++ x ≠ [] :=
  List.append_ne_nil_of_right_ne_nil _ hx.nonempty

theorem words_word (hx : IsName x) : Text.words (m.text ++ x) = [m.text ++ x] :=
  words_of_forall (m.word_ne_nil hx) fun c hc => (isUnquoted_iff.mp (m.unquoted_word hx c hc)).1

theorem quickParts_word (hx : IsName x) : quickParts (m.text ++ x) = [m.text ++ x] := by
  have hunquoted := fun c hc => isUnquoted_iff.mp (m.unquoted_word hx c hc)
  rw [quickParts_of_unquoted (fun h => (hunquoted _ h).2.1 rfl) fun h => (hunquoted _ h).2.2 rfl,
    m.words_word hx]

section Filter

def filters : Mark → Text → Filters
  | tag, x => { tags := some [x] }
  | folder, x => { folder := some x }

def Has : Mark → Text → Document → Prop
  | tag, x, d => lower x ∈ lowered d.tags
  | folder, x, d => lower d.effectiveFolder = lower x

theorem accepts_value (hx : IsValue x) : m.key.accepts x = true := by
  cases m <;> simpa [key, Key.accepts] using hx.nonempty

theorem values_word (hx : IsValue x) (k : Key) :
    values k (m.text ++ x) = if k = m.key then [x] else [] := by
  rw [← key_text, values_text_append (m.accepts_value hx) hx.unbroken]

theorem freeWords_word (hx : IsValue x) : freeWords (m.text ++ x) = [] := by
  rw [← key_text, freeWords_text_append (m.accepts_value hx) hx.unbroken]

/-- The whole query is one filter. -/
theorem parse_word (hx : IsValue x) (strict : Bool) :
    parse strict (m.text ++ x) = .ok ([], m.filters x) := by
  have hvalues := m.values_word hx
  have hsplit := splitTags_of_notMem hx.nonempty hx.comma
  rw [parse_eq_ok_iff]
  constructor
  · rw [m.freeWords_word hx]
    rfl
  all_goals cases m <;> simp [filters, hvalues, key, tagList, hsplit, truth, readLast]

theorem admits_filters {d : Document} :
    (m.filters x).admits d = .ok ((m.filters x).admitsShape d) := by
  cases m <;> rfl

theorem admitsShape_filters (hx : IsValue x) {d : Document} :
    (m.filters x).admitsShape d = true ↔ m.Has x d := by
  cases m with
  | tag => simp [filters, Filters.admitsShape, tagsAdmit, lowered, Has]
  | folder => simp [filters, Filters.admitsShape, folderAdmits, Has, hx.nonempty]

end Filter

section Quick

variable {d : Document} {y : Text}

def asks : Mark → Text → QuickQuery
  | tag, y => { tags := [y] }
  | folder, y => { folders := [y] }

theorem read_word (hx : IsName x) :
    QuickQuery.read [] [] (m.text ++ x) = m.asks (lower x) := by
  rw [QuickQuery.read, m.quickParts_word hx]
  cases m with
  | tag =>
      have hstarts : startsWith tagMark (tagMark ++ x) = true :=
        startsWith_iff_prefix.mpr (List.prefix_append _ _)
      simp [text, asks, QuickQuery.addPart, hstarts]
  | folder =>
      have hother : startsWith tagMark (folderMark ++ x) = false := rfl
      have hstarts : startsWith folderMark (folderMark ++ x) = true :=
        startsWith_iff_prefix.mpr (List.prefix_append _ _)
      simp [text, asks, QuickQuery.addPart, hother, hstarts]

theorem required_asks : (m.asks y).required = [m.text ++ y] := by cases m <;> rfl

theorem weight_pos_iff {n : Nat} (hn : 0 < n) {p : Text → Bool} :
    0 < n * ([y].filter p).length ↔ p y = true := by
  cases hp : p y <;> simp [hp, hn]

theorem score_tag_pos_iff : 0 < (tag.asks y).score d ↔ ∃ t ∈ d.tags, y <:+: lower t := by
  have hscore : (tag.asks y).score d =
      15 * ([y].filter fun y => d.tags.any fun t => contains y (lower t)).length := by
    simp [asks, QuickQuery.score]
  rw [hscore, weight_pos_iff (by decide)]
  simp only [List.any_eq_true, contains_iff_infix]

/-- Only the folder that is given counts. -/
theorem score_folder_pos_iff (hy : y ≠ []) :
    0 < (folder.asks y).score d ↔ y <:+: lower (d.folder.getD []) := by
  have hscore : (folder.asks y).score d = if (lower (d.folder.getD [])).isEmpty then 0
      else 10 * ([y].filter (contains · (lower (d.folder.getD [])))).length := by
    simp only [asks, QuickQuery.score, List.map_nil, List.filter_nil, List.foldl_nil,
      List.length_nil, Nat.mul_zero, Nat.zero_add]
  rw [hscore]
  split
  · rename_i hempty
    rw [List.isEmpty_iff.mp hempty, List.infix_nil]
    exact iff_of_false (Nat.lt_irrefl 0) hy
  · rw [weight_pos_iff (by decide), contains_iff_infix]

def Ranks (m : Mark) (x : Text) (d : Document) : Prop :=
  m.text ++ lower x ∈ d.terms ∧ 0 < (m.asks (lower x)).score d

end Quick

/-- The document is found by one of the two searches only: a tag is spelled like the index term that
is asked for, or the folder is not given and read off the path. -/
inductive Parted (x : Text) (d : Document) : Mark → Prop
  | disguisedTag {t : Text} (ht : t ∈ d.tags) (hspelled : lower t = tagMark ++ lower x)
      (hnot : lower x ∉ lowered d.tags) : Parted x d tag
  | folderOfPath (hfolder : d.folder.getD [] = []) (hpath : lower (topFolder d.path) = lower x) :
      Parted x d folder
  | disguisedFolder {t : Text} (ht : t ∈ d.tags) (hspelled : lower t = folderMark ++ lower x)
      (hpart : lower x <:+: lower (d.folder.getD [])) (hnot : lower (d.folder.getD []) ≠ lower x) :
      Parted x d folder

section Comparing

variable {d : Document}

theorem ranks_tag_iff : tag.Ranks x d ↔
    tag.Has x d ∨ ∃ t ∈ d.tags, lower t = tagMark ++ lower x := by
  have hterms : tag.text ++ lower x ∈ d.terms ↔
      ∃ t ∈ d.tags, lower t = lower x ∨ lower t = tagMark ++ lower x :=
    Document.tagMark_mem_terms_iff
  rw [Ranks, hterms, score_tag_pos_iff]
  constructor
  · rintro ⟨⟨t, ht, hsame | hspelled⟩, -⟩
    · exact .inl (List.mem_map.mpr ⟨t, ht, hsame⟩)
    · exact .inr ⟨t, ht, hspelled⟩
  · rintro (hhas | ⟨t, ht, hspelled⟩)
    · obtain ⟨t, ht, hsame⟩ := List.mem_map.mp hhas
      exact ⟨⟨t, ht, .inl hsame⟩, t, ht, hsame ▸ List.infix_rfl⟩
    · exact ⟨⟨t, ht, .inr hspelled⟩, t, ht, hspelled ▸ (List.suffix_append _ _).isInfix⟩

theorem ranks_folder_iff (hx : IsName x) : folder.Ranks x d ↔
    (folder.Has x d ∨ ∃ t ∈ d.tags, lower t = folderMark ++ lower x) ∧
      lower x <:+: lower (d.folder.getD []) := by
  have hlow := lower_ne_nil hx.nonempty
  have hterms : folder.text ++ lower x ∈ d.terms ↔
      (d.effectiveFolder ≠ [] ∧ lower d.effectiveFolder = lower x) ∨
        ∃ t ∈ d.tags, lower t = folderMark ++ lower x :=
    Document.folderMark_mem_terms_iff
  have hset : lower d.effectiveFolder = lower x → d.effectiveFolder ≠ [] := by
    rintro hsame hnil
    rw [hnil] at hsame
    exact hlow hsame.symm
  rw [Ranks, hterms, score_folder_pos_iff hlow, and_iff_right_of_imp hset]
  rfl

theorem has_iff_ranks_tag_iff : (tag.Has x d ↔ tag.Ranks x d) ↔ ¬Parted x d tag := by
  rw [ranks_tag_iff]
  constructor
  · rintro hsame ⟨ht, hspelled, hnot⟩
    exact hnot (hsame.mpr (.inr ⟨_, ht, hspelled⟩))
  · intro hnot
    refine ⟨.inl, ?_⟩
    rintro (hhas | ⟨t, ht, hspelled⟩)
    · exact hhas
    · exact by_contra fun hhas => hnot (.disguisedTag ht hspelled hhas)

theorem has_iff_ranks_folder_iff_of_not_given (hx : IsName x) (hfolder : d.folder.getD [] = []) :
    (folder.Has x d ↔ folder.Ranks x d) ↔ ¬Parted x d folder := by
  -- A folder that is not given scores nothing, so a quick search leaves the document out.
  have hnone : ¬lower x <:+: lower (d.folder.getD []) := by
    rw [hfolder]
    exact fun h => lower_ne_nil hx.nonempty (List.infix_nil.mp h)
  have hout : ¬folder.Ranks x d := fun h => hnone ((ranks_folder_iff hx).mp h).2
  have hhas : folder.Has x d ↔ lower (topFolder d.path) = lower x := by
    rw [Has, Document.effectiveFolder_of_not_given hfolder]
  constructor
  · intro hsame hparted
    cases hparted with
    | folderOfPath _ hpath => exact hout (hsame.mp (hhas.mpr hpath))
    | disguisedFolder _ _ hpart _ => exact hnone hpart
  · exact fun hnot => iff_of_false (fun h => hnot (.folderOfPath hfolder (hhas.mp h))) hout

theorem has_iff_ranks_folder_iff_of_given (hx : IsName x) (hfolder : d.folder.getD [] ≠ []) :
    (folder.Has x d ↔ folder.Ranks x d) ↔ ¬Parted x d folder := by
  have hhas : folder.Has x d ↔ lower (d.folder.getD []) = lower x := by
    rw [Has, Document.effectiveFolder_of_given hfolder]
  rw [ranks_folder_iff hx]
  constructor
  · intro hsame hparted
    cases hparted with
    | folderOfPath hempty _ => exact hfolder hempty
    | disguisedFolder ht hspelled hpart hnot =>
        exact hnot (hhas.mp (hsame.mpr ⟨.inr ⟨_, ht, hspelled⟩, hpart⟩))
  · intro hnot
    refine ⟨fun h => ⟨.inl h, hhas.mp h ▸ List.infix_rfl⟩, ?_⟩
    rintro ⟨h | ⟨t, ht, hspelled⟩, hpart⟩
    · exact h
    · exact by_contra fun h => hnot (.disguisedFolder ht hspelled hpart (mt hhas.mpr h))

/-- The two searches take the same view of a document unless it is parted. -/
theorem has_iff_ranks_iff (hx : IsName x) : (m.Has x d ↔ m.Ranks x d) ↔ ¬Parted x d m := by
  cases m with
  | tag => exact has_iff_ranks_tag_iff
  | folder =>
      by_cases hfolder : d.folder.getD [] = []
      · exact has_iff_ranks_folder_iff_of_not_given hx hfolder
      · exact has_iff_ranks_folder_iff_of_given hx hfolder

end Comparing

end Mark

section Searching

variable {ds : List Document} {p q : Document → Prop} {rs found : List Result}

/-- The ids of the results are those of the documents that pass a test. -/
def Picks (ds : List Document) (p : Document → Prop) (rs : List Result) : Prop :=
  ∀ id, id ∈ rs.map Result.id ↔ ∃ d ∈ ds, p d ∧ d.id = id

def SameIds (rs found : List Result) : Prop :=
  ∀ id, id ∈ rs.map Result.id ↔ id ∈ found.map Result.id

theorem Picks.mem_iff (hids : ∀ a ∈ ds, ∀ b ∈ ds, a.id = b.id → a = b) (h : Picks ds p rs)
    {d : Document} (hd : d ∈ ds) : d.id ∈ rs.map Result.id ↔ p d := by
  rw [h d.id]
  constructor
  · rintro ⟨b, hb, hpass, hid⟩
    rwa [← hids b hb d hd hid]
  · exact fun hpass => ⟨d, hd, hpass, rfl⟩

theorem Picks.sameIds_iff (hids : ∀ a ∈ ds, ∀ b ∈ ds, a.id = b.id → a = b) (hrs : Picks ds p rs)
    (hfound : Picks ds q found) : SameIds rs found ↔ ∀ d ∈ ds, (p d ↔ q d) := by
  constructor
  · intro hsame d hd
    rw [← hrs.mem_iff hids hd, ← hfound.mem_iff hids hd]
    exact hsame d.id
  · intro hsame id
    rw [hrs id, hfound id]
    exact exists_congr fun d => and_congr_right fun hd => and_congr_left' (hsame d hd)

variable {e : Engine} {x : Text} {o : Options} {r : Engine.Request} {limit : Option Int} (m : Mark)

theorem resolve_word (hx : IsValue x) (hfilters : o.filters = {}) :
    resolve { o with query := m.text ++ x } = .ok ([], m.filters x) := by
  simp only [resolve, m.parse_word hx, hfilters, Except.map, Filters.merged_empty]

theorem apply_word (x : Text) (ds : List Document) :
    (m.filters x).apply ds = .ok (ds.filter (m.filters x).admitsShape) := by
  rw [apply_eq_keep]
  exact keep_eq_filter (fun d => m.admits_filters) ds

theorem run_word (hall : o.limit = none ∨ o.limit = some 0) (hoffset : o.offset = 0)
    {passed : List Document} (h : (m.filters x).apply ds = .ok passed) :
    run ds [] (m.filters x) o = .ok (passed.map plainResult) := by
  rw [run_nil, h, hoffset]
  exact congrArg Except.ok (paginate_whole hall _)

/-- A search for a single tag or folder finds the documents that have it. -/
theorem search_word (he : e.Consistent) (hx : IsName x) (hfilters : r.filters = {})
    (hall : r.limit = none ∨ r.limit = some 0) (hoffset : r.offset = 0) :
    e.search { r with query := m.text ++ x } =
      .ok ((e.toList.filter (m.filters x).admitsShape).map plainResult) := by
  have hread : resolve (e.options { r with query := m.text ++ x }) = .ok ([], m.filters x) :=
    resolve_word (o := e.options r) m hx.isValue hfilters
  rw [Engine.search, Engine.find, hread]
  exact run_word m hall hoffset (he.apply_candidates (apply_word m x e.toList))

theorem picks_filter (hx : IsName x) (ds : List Document) :
    Picks ds (m.Has x) ((ds.filter (m.filters x).admitsShape).map plainResult) := by
  intro id
  rw [List.map_map, List.mem_map]
  simp only [List.mem_filter, m.admitsShape_filters hx.isValue, and_assoc]
  rfl

theorem picks_quick (he : e.Consistent) (hx : IsName x) (hlimit : ∀ n ∈ limit, (e.size : Int) ≤ n) :
    Picks e.toList (m.Ranks x) (quick e (m.text ++ x) limit [] []) := by
  have hpart : m.text ++ x ∈ quickParts (m.text ++ x) := by
    rw [m.quickParts_word hx]
    exact List.mem_singleton_self _
  intro id
  simp only [List.mem_map, mem_quick_iff he (trim_ne_nil_of_part hpart) hlimit, m.read_word hx,
    mem_scan_iff, m.required_asks, List.forall_mem_singleton]
  constructor
  · rintro ⟨_, ⟨d, hd, hterm, hscore, rfl⟩, rfl⟩
    exact ⟨d, hd, ⟨hterm, hscore⟩, rfl⟩
  · rintro ⟨d, hd, ⟨hterm, hscore⟩, rfl⟩
    exact ⟨_, ⟨d, hd, hterm, hscore, rfl⟩, rfl⟩

/-- A quick search for a single tag or folder finds the same documents as a search with that filter
exactly if no document is parted. -/
theorem quick_same_iff (he : e.Reachable) (hx : IsName x) (hfilters : r.filters = {})
    (hall : r.limit = none ∨ r.limit = some 0) (hoffset : r.offset = 0)
    (hlimit : ∀ n ∈ limit, (e.size : Int) ≤ n) :
    ∃ rs, e.search { r with query := m.text ++ x } = .ok rs ∧
      (SameIds rs (quick e (m.text ++ x) limit [] []) ↔ ∀ d ∈ e.toList, ¬m.Parted x d) := by
  have hc := he.consistent
  have hids : ∀ a ∈ e.toList, ∀ b ∈ e.toList, a.id = b.id → a = b :=
    fun a ha b hb hid => hc.eq_of_id_eq ha hb hid
  refine ⟨_, search_word m hc hx hfilters hall hoffset, ?_⟩
  rw [(picks_filter m hx e.toList).sameIds_iff hids (picks_quick m hc hx hlimit)]
  exact forall₂_congr fun d _ => m.has_iff_ranks_iff hx

def filedNotes : Engine :=
  [Engine.Command.add { id := ['a'], tags := ["Rust".toList], folder := some "Work".toList },
    .add { id := ['b'], tags := ["old".toList, "RUST".toList], path := "Home/b.md".toList },
    .add { id := ['c'], tags := ["rusty".toList], folder := some "Homework".toList }].foldl
      Engine.perform {}

theorem quick_same_iff_filedNotes :
    (filedNotes.Reachable ∧ IsName "rust".toList ∧ IsName "home".toList ∧ filedNotes.size = 3) ∧
      (∃ rs, filedNotes.search { query := "tag:rust".toList } = .ok rs ∧
        SameIds rs (quick filedNotes "tag:rust".toList (some 3) [] [])) ∧
      ∃ rs, filedNotes.search { query := "folder:home".toList } = .ok rs ∧
        ¬SameIds rs (quick filedNotes "folder:home".toList (some 3) [] []) := by
  have he : filedNotes.Reachable := (Engine.Reachable.empty _ false).foldl _
  have hsize : filedNotes.size = 3 := by decide +kernel
  have hlimit : ∀ n ∈ some (3 : Int), (filedNotes.size : Int) ≤ n := by simp [hsize]
  have hrust : IsName "rust".toList := ⟨by decide, List.all_eq_true.mp rfl, by decide⟩
  have hhome : IsName "home".toList := ⟨by decide, List.all_eq_true.mp rfl, by decide⟩
  have hspelled : ∀ d ∈ filedNotes.toList, ∀ t ∈ d.tags, lower t ≠ tagMark ++ lower "rust".toList := by
    decide +kernel
  have hpath : ∃ d ∈ filedNotes.toList, d.folder.getD [] = [] ∧
      lower (topFolder d.path) = lower "home".toList := by
    decide +kernel
  have htag := quick_same_iff (r := {}) .tag he hrust rfl (.inl rfl) rfl hlimit
  have hfolder := quick_same_iff (r := {}) .folder he hhome rfl (.inl rfl) rfl hlimit
  refine ⟨⟨he, hrust, hhome, hsize⟩, ?_, ?_⟩
  · obtain ⟨rs, hsearch, hsame⟩ := htag
    refine ⟨rs, hsearch, hsame.mpr fun d hd => ?_⟩
    rintro ⟨ht, heq, -⟩
    exact hspelled d hd _ ht heq
  · obtain ⟨rs, hsearch, hsame⟩ := hfolder
    obtain ⟨d, hd, hnone, htop⟩ := hpath
    exact ⟨rs, hsearch, fun h => hsame.mp h d hd (.folderOfPath hnone htop)⟩

def pathNote : Document where
  id := ['a']
  path := "Work/a.md".toList

def pathNotes : Engine := [Engine.Command.add pathNote].foldl Engine.perform {}

theorem quick_misses_pathNote :
    (pathNotes.Reachable ∧ IsName "work".toList ∧ pathNotes.size = 1) ∧
      pathNotes.search { query := "folder:work".toList } = .ok [plainResult pathNote] ∧
      quick pathNotes "folder:work".toList (some 1) [] [] = [] := by
  have he : pathNotes.Reachable := (Engine.Reachable.empty _ false).foldl _
  have hname : IsName "work".toList := ⟨by decide, List.all_eq_true.mp rfl, by decide⟩
  have hsearch : pathNotes.search { query := "folder:work".toList } = .ok [plainResult pathNote] :=
    eq_ok_of_toOption (by decide +kernel)
  have hscan : (QuickQuery.read [] [] "folder:work".toList).scan pathNotes.toList = [] := by
    decide +kernel
  refine ⟨⟨he, hname, by decide +kernel⟩, hsearch, ?_⟩
  rw [quick_eq_scan he.consistent (by decide), hscan, List.mergeSort_nil]
  rfl

end Searching

end Search

end VaultSearch
