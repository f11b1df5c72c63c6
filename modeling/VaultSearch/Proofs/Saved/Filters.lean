import VaultSearch.Proofs.Saved.Search
import VaultSearch.Saved.Criteria

namespace VaultSearch.Saved

open Text Yaml Filtering

/-- A request to save a search, with values of the types that it takes. -/
structure Request where
  name : Text
  query : Text
  description : Option Text := none
  tags : Option (List Text) := none
  excludedTags : Option (List Text) := none
  folder : Option Text := none
  fileType : Option Text := none
  hasLinks : Option Bool := none
  hasBacklinks : Option Bool := none

namespace Request

def texts (ts : List Text) : Value := .list none (ts.map .text)

def criteria (r : Request) : List (Text × Value) :=
  [("tags".toList, .ofOption texts r.tags),
    ("exclude_tags".toList, .ofOption texts r.excludedTags),
    ("folder".toList, .ofOption .text r.folder),
    ("file_type".toList, .ofOption .text r.fileType),
    ("has_links".toList, .ofOption .bool r.hasLinks),
    ("has_backlinks".toList, .ofOption .bool r.hasBacklinks)]

theorem names_criteria (r : Request) : r.criteria.map Prod.fst = Criteria.names := rfl

def filters (r : Request) : Filters :=
  Filters.dropEmpty {
    tags := r.tags
    excludedTags := r.excludedTags
    folder := r.folder
    fileType := r.fileType
    hasLinks := r.hasLinks
    hasBacklinks := r.hasBacklinks }

end Request

def given (cs : List (Text × Value)) : Entries :=
  (cs.filter (!·.2.isNull)).map fun (name, v) => (.text name, v)

theorem Value.eq_null_of_isNull {v : Value} (h : v.isNull = true) : v = .null := by
  rw [Value.isNull.eq_def] at h
  split at h
  · rfl
  · cases h

section Given

variable {cs : List (Text × Value)} {name : Text}

theorem given_cons (name : Text) (v : Value) (cs : List (Text × Value)) :
    given ((name, v) :: cs) = if v.isNull then given cs else (.text name, v) :: given cs := by
  rw [given, List.filter_cons]
  cases v.isNull <;> rfl

theorem lookup_given_of_notMem (h : name ∉ cs.map Prod.fst) : Value.lookup name (given cs) = none := by
  induction cs with
  | nil => rfl
  | cons c cs ih =>
      obtain ⟨other, v⟩ := c
      rw [List.map_cons, List.mem_cons, not_or] at h
      rw [given_cons]
      split
      · exact ih h.2
      · rw [Value.lookup_cons, if_neg ((MapKey.same_text_iff other name).not.mpr (Ne.symm h.1)), ih h.2]

/-- A criterion that is left out looks like one that is null. -/
theorem lookup_given (hnames : (cs.map Prod.fst).Nodup) {v : Value} (h : (name, v) ∈ cs) :
    (Value.lookup name (given cs)).getD .null = v := by
  induction cs with
  | nil => cases h
  | cons c cs ih =>
      obtain ⟨other, w⟩ := c
      rw [List.map_cons, List.nodup_cons] at hnames
      rw [given_cons]
      rcases List.mem_cons.mp h with heq | h
      · cases heq
        split
        · rename_i hnull
          rw [lookup_given_of_notMem hnames.1, Value.eq_null_of_isNull hnull]
          rfl
        · rw [Value.lookup_cons, if_pos ((MapKey.same_text_iff name name).mpr rfl)]
          rfl
      · have hne : other ≠ name := by
          rintro rfl
          exact hnames.1 (List.mem_map.mpr ⟨_, h, rfl⟩)
        split
        · exact ih hnames.2 h
        · rw [Value.lookup_cons, if_neg ((MapKey.same_text_iff other name).not.mpr hne)]
          exact ih hnames.2 h

end Given

namespace Criteria

variable {p q : List (Option Nat)} {v : Value}

theorem text?_back {t : Option Text} (h : v.bareIn p = (Value.ofOption .text t).bareIn q) :
    text? v = some t := by
  cases t with
  | none => rw [Value.eq_scalar_of_bareIn rfl h, text?]
  | some t => rw [Value.eq_scalar_of_bareIn rfl h, text?]

theorem bool?_back {b : Option Bool} (h : v.bareIn p = (Value.ofOption .bool b).bareIn q) :
    bool? v = some b := by
  cases b with
  | none => rw [Value.eq_scalar_of_bareIn rfl h, bool?]
  | some b => rw [Value.eq_scalar_of_bareIn rfl h, bool?]

theorem allTexts?_back {vs : List Value} {ts : List Text}
    (h : bareItems p vs = bareItems q (ts.map .text)) : allTexts? vs = some ts := by
  induction ts generalizing vs with
  | nil =>
      cases vs with
      | nil => rfl
      | cons v vs => cases h
  | cons t ts ih =>
      cases vs with
      | nil => cases h
      | cons v vs =>
          simp only [List.map_cons, bareItems, List.cons.injEq] at h
          rw [Value.eq_scalar_of_bareIn rfl h.1, allTexts?, ih h.2]
          rfl

theorem texts?_back {ts : Option (List Text)}
    (h : v.bareIn p = (Value.ofOption Request.texts ts).bareIn q) : texts? v = some ts := by
  cases ts with
  | none => rw [Value.eq_scalar_of_bareIn rfl h, texts?]
  | some ts =>
      cases v with
      | list label vs =>
          simp only [Value.ofOption, Request.texts, Value.bareIn, Value.list.injEq, true_and] at h
          rw [texts?, allTexts?_back h]
          rfl
      | scalar | map | set | tuple | again => cases h

/-- Whatever is left out, null, empty or false: entries that are those of a request, but for labels,
stand for its filters. -/
theorem filters?_back {es : Entries} (r : Request)
    (h : bareEntries p es = bareEntries q (given r.criteria)) :
    (ofEntries es).filters? = some r.filters := by
  have hnames : (r.criteria.map Prod.fst).Nodup := r.names_criteria ▸ (by decide : names.Nodup)
  have hvalue : ∀ {name v}, (name, v) ∈ r.criteria →
      ((Value.lookup name es).getD .null).bareIn p = v.bareIn q := by
    intro name v hmem
    have hlookup := congrArg (Value.lookup name) h
    rw [Value.lookup_bareEntries, Value.lookup_bareEntries] at hlookup
    have hgiven := lookup_given hnames hmem
    cases hes : Value.lookup name es with
    | none =>
        rw [hes] at hlookup
        rw [Option.map_eq_none_iff.mp hlookup.symm] at hgiven
        rw [← hgiven]
        rfl
    | some w =>
        rw [hes] at hlookup
        obtain ⟨u, hu, hbare⟩ := Option.map_eq_some_iff.mp hlookup.symm
        rw [hu] at hgiven
        rw [← hgiven]
        exact hbare.symm
  have htags : texts? (ofEntries es).tags = some r.tags :=
    texts?_back (hvalue (by simp [Request.criteria]))
  have hexcluded : texts? (ofEntries es).excludedTags = some r.excludedTags :=
    texts?_back (hvalue (by simp [Request.criteria]))
  have hfolder : text? (ofEntries es).folder = some r.folder :=
    text?_back (hvalue (by simp [Request.criteria]))
  have hfileType : text? (ofEntries es).fileType = some r.fileType :=
    text?_back (hvalue (by simp [Request.criteria]))
  have hlinks : bool? (ofEntries es).hasLinks = some r.hasLinks :=
    bool?_back (hvalue (by simp [Request.criteria]))
  have hbacklinks : bool? (ofEntries es).hasBacklinks = some r.hasBacklinks :=
    bool?_back (hvalue (by simp [Request.criteria]))
  simp only [filters?, htags, hexcluded, hfolder, hfileType, hlinks, hbacklinks]
  rfl

end Criteria

end VaultSearch.Saved
