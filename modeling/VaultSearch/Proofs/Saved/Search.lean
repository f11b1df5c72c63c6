import Mathlib.Data.List.Forall2
import VaultSearch.Proofs.Yaml.Loaded
import VaultSearch.Saved.Search

namespace VaultSearch.Yaml

namespace Scalar

theorem sameKey_bare (k : Scalar) (key : Text) : k.bare.sameKey (.text key) = k.sameKey (.text key) := by
  cases k with
  | float label x => cases x <;> rfl
  | null | bool | int | text | bytes | date | stamp => rfl

def isLabelled : Scalar → Bool
  | float _ _ | date _ _ | stamp _ _ => true
  | _ => false

theorem eq_of_bare {r s : Scalar} (hs : s.isLabelled = false) (h : r.bare = s.bare) : r = s := by
  cases s with
  | float | date | stamp => cases hs
  | null | bool | int | text | bytes =>
      cases r with
      | float | date | stamp => cases h
      | null | bool | int | text | bytes => exact h

end Scalar

theorem MapKey.same_text_iff (a b : Text) : MapKey.same (.text a) (.text b) = true ↔ a = b :=
  decide_eq_true_iff

theorem MapKey.same_bare (k : MapKey) (key : Text) : k.bare.same (.text key) = k.same (.text key) := by
  cases k with
  | scalar s => exact s.sameKey_bare key
  | pair label a b => rfl

namespace Value

theorem lookup_append (key : Text) (es fs : Entries) :
    lookup key (es ++ fs) = (lookup key es).or (lookup key fs) := by
  induction es with
  | nil => rfl
  | cons e es ih =>
      obtain ⟨k, v⟩ := e
      rw [List.cons_append, lookup_cons, lookup_cons, ih]
      split <;> rfl

theorem lookup_bareEntries (key : Text) (path : List (Option Nat)) (es : Entries) :
    lookup key (bareEntries path es) = (lookup key es).map (·.bareIn path) := by
  induction es with
  | nil => rfl
  | cons e es ih =>
      obtain ⟨k, v⟩ := e
      rw [bareEntries, lookup_cons, lookup_cons, k.same_bare, ih]
      split <;> rfl

theorem eq_scalar_of_bareIn {p q : List (Option Nat)} {v : Value} {s : Scalar}
    (hs : s.isLabelled = false) (h : v.bareIn p = (scalar s).bareIn q) : v = scalar s := by
  cases v with
  | scalar r => exact congrArg scalar (Scalar.eq_of_bare hs (Value.scalar.inj h))
  | list | map | set | tuple | again => cases h

end Value

end VaultSearch.Yaml

namespace VaultSearch.Saved

open Text Yaml Number Time

/-- The stamps among the values of entries can be written and read again. -/
def Stamped (es : Entries) : Prop :=
  ∀ key label s, Value.lookup key es = some (.scalar (.stamp label s)) → s.IsReadable

theorem Stamped.append_id {es : Entries} (h : Stamped es) (id : Text) :
    Stamped (es ++ [(.text "id".toList, .text id)]) := by
  intro key label s hs
  rw [Value.lookup_append, Option.or_eq_some_iff] at hs
  rcases hs with hs | ⟨-, hs⟩
  · exact h key label s hs
  · rw [Value.lookup_cons] at hs
    split at hs <;> cases hs

deriving instance DecidableEq for SavedSearch

namespace SavedSearch

def entries (x : SavedSearch) : Entries :=
  [(.text "id".toList, .text x.id),
    (.text "name".toList, x.name),
    (.text "query".toList, x.query),
    (.text "filters".toList, x.filters),
    (.text "description".toList, x.description),
    (.text "created".toList, .text (x.created.text 'T')),
    (.text "last_used".toList, .ofOption (fun u => .text (u.text 'T')) x.lastUsed),
    (.text "use_count".toList, .int x.useCount)]

theorem toValue_eq (x : SavedSearch) : x.toValue = .map none x.entries := rfl

def bare (x : SavedSearch) : SavedSearch :=
  { x with
    name := x.name.bare
    query := x.query.bare
    filters := x.filters.bare
    description := x.description.bare }

theorem bare_relabel {f : Nat → Nat} (hf : ∀ a b, f a = f b → a = b) (x : SavedSearch) :
    (x.relabel f).bare = x.bare := by
  simp only [bare, relabel, Value.bare_relabel hf]

/-- The values of a search are of the kinds that reading gives them. Its description is of any. -/
structure Proper (x : SavedSearch) : Prop where
  name : ∃ t, x.name = .text t
  query : ∃ t, x.query = .text t
  filters : ∃ es, x.filters = .map none es
  created : x.created.IsReadable
  lastUsed : ∀ u ∈ x.lastUsed, u.IsReadable

theorem Proper.relabel {x : SavedSearch} (h : x.Proper) (f : Nat → Nat) : (x.relabel f).Proper := by
  obtain ⟨⟨name, hname⟩, ⟨query, hquery⟩, ⟨es, hfilters⟩, hcreated, hlastUsed⟩ := h
  refine ⟨⟨name, ?_⟩, ⟨query, ?_⟩, ⟨relabelEntries f es, ?_⟩, hcreated, hlastUsed⟩
  · rw [SavedSearch.relabel, hname]
    rfl
  · rw [SavedSearch.relabel, hquery]
    rfl
  · rw [SavedSearch.relabel, hfilters]
    rfl

end SavedSearch

def Alike (xs ys : List SavedSearch) : Prop := xs.map SavedSearch.bare = ys.map SavedSearch.bare

namespace Alike

variable {xs ys zs us : List SavedSearch}

theorem refl (xs : List SavedSearch) : Alike xs xs := rfl

theorem symm (h : Alike xs ys) : Alike ys xs := Eq.symm h

theorem trans (h : Alike xs ys) (h' : Alike ys zs) : Alike xs zs := Eq.trans h h'

theorem append (h : Alike xs ys) (h' : Alike zs us) : Alike (xs ++ zs) (ys ++ us) := by
  rw [Alike, List.map_append, List.map_append, h, h']

theorem ids (h : Alike xs ys) : xs.map (·.id) = ys.map (·.id) := by
  have hids := congrArg (List.map SavedSearch.id) h
  rwa [List.map_map, List.map_map] at hids

theorem filter_id (h : Alike xs ys) (p : Text → Bool) :
    Alike (xs.filter (p ·.id)) (ys.filter (p ·.id)) := by
  have hfilter := congrArg (List.filter (p ·.id)) h
  rwa [List.filter_map, List.filter_map] at hfilter

theorem relabel {f : Nat → Nat} (hf : ∀ a b, f a = f b → a = b) (xs : List SavedSearch) :
    Alike (xs.map (·.relabel f)) xs := by
  rw [Alike, List.map_map]
  exact List.map_congr_left fun x _ => x.bare_relabel hf

end Alike

theorem naive_readable (m : Moment) : (Stamp.naive m).IsReadable := by
  simp [Stamp.naive, Stamp.IsReadable]

section Reading

variable {now : Moment} {es : Entries}

theorem readStamp_readable {key : Text} {s : Stamp} (h : Stamped es)
    (hs : readStamp (Value.lookup key es) = some s) : s.IsReadable := by
  rw [readStamp.eq_def] at hs
  split at hs
  · rename_i label s' hlookup
    cases hs
    exact h key label s hlookup
  · exact Stamp.isReadable_of_read? hs
  · cases hs

theorem readFilters_ok {v : Option Value} {filters : Value} (h : readFilters v = .ok filters) :
    ∃ fs, filters = .map none fs := by
  rw [readFilters.eq_def] at h
  split at h
  · cases h
    exact ⟨[], rfl⟩
  · split at h
    · cases h
      exact ⟨[], rfl⟩
    · split at h
      · cases h
        exact ⟨_, rfl⟩
      · split at h
        · cases h
        · obtain ⟨fs, -, heq⟩ := map_eq_ok_iff.mp h
          exact ⟨fs, heq.symm⟩

theorem readEntry_proper {x : SavedSearch} (hes : Stamped es) (h : readEntry now es = .ok x) :
    x.Proper := by
  obtain ⟨id, -, h⟩ := bind_eq_ok_iff.mp h
  obtain ⟨name, -, h⟩ := bind_eq_ok_iff.mp h
  obtain ⟨query, -, h⟩ := bind_eq_ok_iff.mp h
  obtain ⟨filters, hfilters, h⟩ := bind_eq_ok_iff.mp h
  obtain ⟨count, -, h⟩ := bind_eq_ok_iff.mp h
  cases h
  refine ⟨⟨name, rfl⟩, ⟨query, rfl⟩, readFilters_ok hfilters, ?_, ?_⟩
  · cases hcreated : readStamp (Value.lookup "created".toList es) with
    | none =>
        rw [Option.getD_none]
        exact naive_readable now
    | some s =>
        rw [Option.getD_some]
        exact readStamp_readable hes hcreated
  · exact fun u hu => readStamp_readable hes hu

theorem readEntries_proper {vs : List Value} {xs : List SavedSearch}
    (hvs : ∀ m es, Value.map m es ∈ vs → Stamped (entriesOf m es)) (h : readEntries now vs = .ok xs) :
    ∀ x ∈ xs, x.Proper := by
  induction vs generalizing xs with
  | nil =>
      cases h
      simp
  | cons v vs ih =>
      have hrest : ∀ m es, Value.map m es ∈ vs → Stamped (entriesOf m es) :=
        fun m es hes => hvs m es (List.mem_cons_of_mem _ hes)
      cases v with
      | map m es =>
          rw [readEntries] at h
          split at h
          · obtain ⟨x, hx, h⟩ := bind_eq_ok_iff.mp h
            obtain ⟨ys, hys, h⟩ := bind_eq_ok_iff.mp h
            cases h
            intro y hy
            rcases List.mem_cons.mp hy with rfl | hy
            · exact readEntry_proper (hvs m es List.mem_cons_self) hx
            · exact ih hrest hys y hy
          · exact ih hrest h
      | scalar | list | set | tuple | again => exact ih hrest h

end Reading

section WrittenAndRead

variable {p q : List (Option Nat)} {m : Option Nat} {es : Entries} {x : SavedSearch}

theorem lookup_of_bareEntries (h : bareEntries p es = bareEntries q x.entries) (key : Text)
    {v : Value} (hv : Value.lookup key x.entries = some v) :
    ∃ w, Value.lookup key es = some w ∧ w.bareIn p = v.bareIn q := by
  have hlookup := congrArg (Value.lookup key) h
  rw [Value.lookup_bareEntries, Value.lookup_bareEntries, hv] at hlookup
  exact Option.map_eq_some_iff.mp hlookup

theorem readFilters_back {v : Value} {fs : Entries} (h : v.bareIn p = (Value.map none fs).bareIn q) :
    ∃ filters, readFilters (some v) = .ok filters ∧ filters.bare = (Value.map none fs).bare := by
  cases v with
  | map m gs =>
      simp only [Value.bareIn, Value.map.injEq, true_and] at h
      refine ⟨.map none gs, ?_, ?_⟩
      · cases gs with
        | nil => rfl
        | cons g gs =>
            have hsame : entriesOf m (g :: gs) = g :: gs := entriesOf_of_bareEntries h
            simp [readFilters, Value.isTruthy, hsame]
      · simp only [Value.bare, Value.bareIn, bareEntries_alone h]
  | scalar | list | set | tuple | again => cases h

theorem readStamp_back {key : Text} {s : Stamp} (h : bareEntries p es = bareEntries q x.entries)
    (hlookup : Value.lookup key x.entries = some (.text (s.text 'T'))) (hs : s.IsReadable) :
    readStamp (Value.lookup key es) = some s := by
  obtain ⟨w, hw, hbare⟩ := lookup_of_bareEntries h key hlookup
  rw [hw, Value.eq_scalar_of_bareIn rfl hbare]
  exact Stamp.read?_text hs 'T'

theorem readStamp_lastUsed (h : bareEntries p es = bareEntries q x.entries) (hx : x.Proper) :
    readStamp (Value.lookup "last_used".toList es) = x.lastUsed := by
  cases hused : x.lastUsed with
  | none =>
      have hnull : Value.lookup "last_used".toList x.entries = some .null := by
        simp only [SavedSearch.entries, hused]
        rfl
      obtain ⟨w, hw, hbare⟩ := lookup_of_bareEntries h _ hnull
      rw [hw, Value.eq_scalar_of_bareIn rfl hbare]
      rfl
  | some u =>
      have htext : Value.lookup "last_used".toList x.entries = some (.text (u.text 'T')) := by
        simp only [SavedSearch.entries, hused]
        rfl
      exact readStamp_back h htext (hx.lastUsed u hused)

/-- What is written for a search is read as that search, at any time and wherever it stands. -/
theorem readEntry_back (h : bareEntries p es = bareEntries q x.entries) (hx : x.Proper) :
    hasId es = true ∧ ∃ y : SavedSearch, (∀ now, readEntry now es = .ok y) ∧ y.bare = x.bare := by
  obtain ⟨name, hname⟩ := hx.name
  obtain ⟨query, hquery⟩ := hx.query
  obtain ⟨fs, hfs⟩ := hx.filters
  -- Of the fields, only the filters and the description can have labels that come out different.
  obtain ⟨wid, hid, hidBare⟩ := lookup_of_bareEntries h "id".toList (v := .text x.id) rfl
  obtain ⟨wname, hname', hnameBare⟩ := lookup_of_bareEntries h "name".toList (v := .text name)
    (congrArg some hname)
  obtain ⟨wquery, hquery', hqueryBare⟩ := lookup_of_bareEntries h "query".toList (v := .text query)
    (congrArg some hquery)
  obtain ⟨wfilters, hfilters, hfiltersBare⟩ := lookup_of_bareEntries h "filters".toList
    (v := .map none fs) (congrArg some hfs)
  obtain ⟨wdescription, hdescription, hdescriptionBare⟩ :=
    lookup_of_bareEntries h "description".toList (v := x.description) rfl
  obtain ⟨wcount, hcount, hcountBare⟩ := lookup_of_bareEntries h "use_count".toList
    (v := .int x.useCount) rfl
  have hcreated : readStamp (Value.lookup "created".toList es) = some x.created :=
    readStamp_back h rfl hx.created
  have hlastUsed := readStamp_lastUsed h hx
  obtain ⟨filters, hread, hbare⟩ := readFilters_back hfiltersBare
  obtain rfl := Value.eq_scalar_of_bareIn rfl hidBare
  obtain rfl := Value.eq_scalar_of_bareIn rfl hnameBare
  obtain rfl := Value.eq_scalar_of_bareIn rfl hqueryBare
  obtain rfl := Value.eq_scalar_of_bareIn rfl hcountBare
  refine ⟨by rw [hasId, hid]; rfl, { x with filters := filters, description := wdescription }, ?_, ?_⟩
  · intro now
    simp only [readEntry, hid, hname', hquery', hfilters, hdescription, hcount, hcreated, hlastUsed, hread]
    simp only [readText, Value.toText, Scalar.toText, Option.getD_some, readCount, hname, hquery]
    rfl
  · have hdesc : wdescription.bare = x.description.bare := Value.bare_of_bareIn hdescriptionBare
    simp only [SavedSearch.bare, hbare, hdesc, hfs]

def ReadsAs (v : Value) (y : SavedSearch) : Prop :=
  ∃ m es, v = .map m es ∧ entriesOf m es = es ∧ hasId es = true ∧ ∀ now, readEntry now es = .ok y

theorem items_back {vs : List Value} {xs : List SavedSearch}
    (h : bareItems p vs = bareItems q (xs.map SavedSearch.toValue)) (hxs : ∀ x ∈ xs, x.Proper) :
    ∃ ys, List.Forall₂ ReadsAs vs ys ∧ Alike ys xs := by
  induction xs generalizing vs with
  | nil =>
      cases vs with
      | nil => exact ⟨[], .nil, rfl⟩
      | cons v vs => cases h
  | cons x xs ih =>
      cases vs with
      | nil => cases h
      | cons v vs =>
          simp only [List.map_cons, bareItems, List.cons.injEq] at h
          obtain ⟨ys, hys, hsame⟩ := ih h.2 fun x hx => hxs x (List.mem_cons_of_mem _ hx)
          cases v with
          | map m es =>
              simp only [SavedSearch.toValue_eq, Value.bareIn, Value.map.injEq, true_and] at h
              obtain ⟨hid, y, hy, hbare⟩ := readEntry_back h.1 (hxs x List.mem_cons_self)
              refine ⟨y :: ys, .cons ⟨m, es, rfl, entriesOf_of_bareEntries h.1, hid, hy⟩ hys, ?_⟩
              rw [Alike, List.map_cons, hbare, hsame, List.map_cons]
          | scalar | list | set | tuple | again => cases h.1

end WrittenAndRead

theorem readEntries_of_readsAs {vs : List Value} {ys : List SavedSearch}
    (h : List.Forall₂ ReadsAs vs ys) (now : Moment) : readEntries now vs = .ok ys := by
  induction h with
  | nil => rfl
  | cons hv _ ih =>
      obtain ⟨m, es, rfl, hsame, hid, hy⟩ := hv
      rw [readEntries, if_pos hid, hsame, hy now, ih]
      rfl

end VaultSearch.Saved
