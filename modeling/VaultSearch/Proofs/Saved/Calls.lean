import VaultSearch.Proofs.Saved.Store

namespace VaultSearch.Saved

open Text Yaml Time

structure Update where
  name : Option Text := none
  query : Option Text := none
  filters : Option Entries := none
  description : Option (Option Text) := none

namespace Update

def fields (u : Update) : List (Text × Value) :=
  (u.name.map fun t => ("name".toList, Value.text t)).toList ++
    (u.query.map fun t => ("query".toList, Value.text t)).toList ++
    (u.filters.map fun es => ("filters".toList, Value.map none es)).toList ++
    (u.description.map fun d => ("description".toList, Value.ofOption .text d)).toList

def applied (u : Update) (x : SavedSearch) : SavedSearch :=
  { x with
    name := (u.name.map Value.text).getD x.name
    query := (u.query.map Value.text).getD x.query
    filters := (u.filters.map (Value.map none)).getD x.filters
    description := (u.description.map (Value.ofOption .text)).getD x.description }

theorem fields_known (u : Update) :
    (u.fields.map Prod.fst).filter (!Store.fieldNames.elem ·) = [] := by
  obtain ⟨name, query, filters, description⟩ := u
  cases name <;> cases query <;> cases filters <;> cases description <;> rfl

theorem foldl_setField (u : Update) (x : SavedSearch) :
    u.fields.foldl Store.setField x = u.applied x := by
  obtain ⟨name, query, filters, description⟩ := u
  cases name <;> cases query <;> cases filters <;> cases description <;> rfl

theorem id_applied (u : Update) (x : SavedSearch) : (u.applied x).id = x.id := rfl

theorem applied_proper (u : Update) {x : SavedSearch} (h : x.Proper) : (u.applied x).Proper := by
  obtain ⟨name, query, filters, description⟩ := u
  refine ⟨?_, ?_, ?_, h.created, h.lastUsed⟩
  · cases name with
    | none => exact h.name
    | some t => exact ⟨t, rfl⟩
  · cases query with
    | none => exact h.query
    | some t => exact ⟨t, rfl⟩
  · cases filters with
    | none => exact h.filters
    | some es => exact ⟨es, rfl⟩

end Update

namespace SavedSearch

def fresh (id : Text) (now : Moment) (name query : Text) (filters : Option Entries)
    (description : Option Text) : SavedSearch where
  id := id
  name := .text name
  query := .text query
  filters := .map none (filters.getD [])
  description := .ofOption .text description
  created := .naive now

def used (now : Moment) (x : SavedSearch) : SavedSearch :=
  { x with useCount := x.useCount + 1, lastUsed := some (.naive now) }

theorem id_used (now : Moment) (x : SavedSearch) : (x.used now).id = x.id := rfl

theorem fresh_proper (id : Text) (now : Moment) (name query : Text) (filters : Option Entries)
    (description : Option Text) : (fresh id now name query filters description).Proper :=
  ⟨⟨name, rfl⟩, ⟨query, rfl⟩, ⟨_, rfl⟩, naive_readable now, fun _ hu => nomatch hu⟩

theorem Proper.used {x : SavedSearch} (h : x.Proper) (now : Moment) : (x.used now).Proper := by
  refine ⟨h.name, h.query, h.filters, h.created, ?_⟩
  rintro u ⟨⟩
  exact naive_readable now

end SavedSearch

namespace Store

variable {s s' : Store} {now : Moment} {xs ys : List SavedSearch}

def edited (s : Store) (now : Moment) (id : Text) (f : List SavedSearch → List SavedSearch) :
    Option (List SavedSearch) :=
  (s.list now).toOption.bind fun xs => if (xs.map (·.id)).elem id then some (f xs) else none

def ids (s : Store) (now : Moment) : List Text :=
  ((s.list now).toOption.getD []).map (·.id)

theorem ids_eq (h : s.list now = .ok xs) : s.ids now = xs.map (·.id) := by
  rw [ids, h]
  rfl

section Editing

variable {id : Text} {f : List SavedSearch → List SavedSearch}

theorem edited_eq_some (h : s.list now = .ok xs) (hys : s.edited now id f = some ys) :
    id ∈ xs.map (·.id) ∧ ys = f xs := by
  rw [edited, h] at hys
  simp only [Except.toOption, Option.bind_some] at hys
  split at hys
  · rename_i hid
    exact ⟨List.elem_iff.mp hid, (Option.some.inj hys).symm⟩
  · cases hys

theorem edited_eq_none (h : s.list now = .ok xs) (hnone : s.edited now id f = none) :
    id ∉ xs.map (·.id) := by
  rw [edited, h] at hnone
  simp only [Except.toOption, Option.bind_some] at hnone
  split at hnone
  · cases hnone
  · rename_i hid
    exact fun hmem => hid (List.elem_iff.mpr hmem)

theorem edited_of_mem (h : s.list now = .ok xs) (hid : id ∈ xs.map (·.id)) :
    s.edited now id f = some (f xs) := by
  cases hys : s.edited now id f with
  | none => exact absurd hid (edited_eq_none h hys)
  | some ys => rw [(edited_eq_some h hys).2]

theorem edited_of_notMem (h : s.list now = .ok xs) (hid : id ∉ xs.map (·.id)) :
    s.edited now id f = none := by
  cases hys : s.edited now id f with
  | none => rfl
  | some ys => exact absurd (edited_eq_some h hys).1 hid

theorem edited_proper (hf : ∀ xs : List SavedSearch, (∀ x ∈ xs, x.Proper) → ∀ x ∈ f xs, x.Proper)
    (h : s.edited now id f = some ys) : ∀ x ∈ ys, x.Proper := by
  obtain ⟨xs, hxs, -⟩ := Option.bind_eq_some_iff.mp h
  have hlist := eq_ok_of_toOption hxs
  obtain ⟨-, rfl⟩ := edited_eq_some hlist h
  exact hf xs (list_proper hlist)

theorem modify_file (s : Store) (now : Moment) (id : Text) (f : SavedSearch → SavedSearch) :
    (s.modify now id f).1.file =
      ((s.edited now id (change id f)).map fun xs => (s.put xs ()).1.file).getD s.file := by
  cases hlist : s.list now with
  | error e =>
      rw [modify, withList, edited, hlist]
      rfl
  | ok xs =>
      rw [modify, withList_of_list hlist]
      cases hfind : find? id xs with
      | none =>
          rw [edited_of_notMem hlist (find?_eq_none_iff.mp hfind)]
          rfl
      | some x =>
          rw [edited_of_mem hlist (List.mem_map.mpr ⟨x, mem_of_find? hfind, id_of_find? hfind⟩)]
          exact put_file rfl (change id f xs) (some (f x))

theorem length_filter_eq_iff : (xs.filter (·.id ≠ id)).length = xs.length ↔ id ∉ xs.map (·.id) := by
  rw [List.length_filter_eq_length_iff]
  simp

theorem delete_file (s : Store) (now : Moment) (id : Text) :
    (s.delete now id).1.file =
      ((s.edited now id (·.filter (·.id ≠ id))).map fun xs => (s.put xs ()).1.file).getD s.file := by
  cases hlist : s.list now with
  | error e =>
      rw [delete, withList, edited, hlist]
      rfl
  | ok xs =>
      rw [delete, withList_of_list hlist]
      dsimp only
      by_cases hid : id ∈ xs.map (·.id)
      · rw [if_neg (fun h => length_filter_eq_iff.mp h hid), edited_of_mem hlist hid]
        exact put_file rfl _ _
      · rw [if_pos (length_filter_eq_iff.mpr hid), edited_of_notMem hlist hid]
        rfl

end Editing

theorem save_of_list (h : s.list now = .ok xs) (name query : Text) (filters : Option Entries)
    (description : Option Text) :
    s.save now (.text name) (.text query) (.ofOption (.map none) filters)
        (.ofOption .text description) =
      Store.put { s with made := s.made + 1 }
        (xs ++ [.fresh (idOf (s.made + 1)) now name query filters description])
        (.fresh (idOf (s.made + 1)) now name query filters description) := by
  have hfilters : (if (Value.ofOption (Value.map none) filters).isTruthy = true
      then Value.ofOption (Value.map none) filters else .map none []) =
      .map none (filters.getD []) := by
    cases filters with
    | none => rfl
    | some es => cases es <;> rfl
  have hlist : Store.list { s with made := s.made + 1 } now = .ok xs := (list_congr rfl now).trans h
  rw [save, hfilters]
  exact withList_of_list hlist _

end Store

/-- A call of the store that can change its file, with values of the types that it takes. -/
inductive Call
  | save (name query : Text) (filters : Option Entries) (description : Option Text)
  | update (id : Text) (u : Update)
  | recordUse (id : Text)
  | delete (id : Text)
  | importText (data : Text) (merge : Bool)

namespace Call

open Store

def run (s : Store) (now : Moment) : Call → Store
  | save name query filters description =>
    (s.save now (.text name) (.text query) (.ofOption (.map none) filters)
      (.ofOption .text description)).1
  | update id u => (s.update now id u.fields).1
  | recordUse id => (s.recordUse now id).1
  | delete id => (s.delete now id).1
  | importText data merge => (s.importText now data merge).1

def written (s : Store) (now : Moment) : Call → Option (List SavedSearch)
  | save name query filters description =>
    (s.list now).toOption.map
      (· ++ [.fresh (idOf (s.made + 1)) now name query filters description])
  | update id u => s.edited now id (change id u.applied)
  | recordUse id => s.edited now id (change id (.used now))
  | delete id => s.edited now id (·.filter (·.id ≠ id))
  | importText data merge =>
    match (s.incoming now data).2, s.kept now merge with
    | .ok incoming, .ok current =>
      some (joined current (untaken (current.map (·.id)) incoming))
    | _, _ => none

def newId? (s : Store) : Call → Option Text
  | save _ _ _ _ => some (idOf (s.made + 1))
  | _ => none

/-- What a call writes reads back, and the id that it makes is not taken. -/
structure Sound (s : Store) (now : Moment) (c : Call) : Prop where
  storable : ∀ xs ∈ c.written s now, Storable xs
  unused : ∀ id ∈ c.newId? s, id ∉ s.ids now

instance (s : Store) (now : Moment) (c : Call) : Decidable (c.Sound s now) :=
  decidable_of_iff
    ((∀ xs ∈ c.written s now, Storable xs) ∧ ∀ id ∈ c.newId? s, ¬(s.ids now).elem id = true)
    ⟨fun h => ⟨h.1, fun id hid hmem => h.2 id hid (List.elem_iff.mpr hmem)⟩,
      fun h => ⟨h.storable, fun id hid hmem => h.unused id hid (List.elem_iff.mp hmem)⟩⟩

variable {s : Store} {now : Moment} {c : Call} {xs ys ws : List SavedSearch}

section Writing

theorem file_run (c : Call) (s : Store) (now : Moment) :
    (c.run s now).file = ((c.written s now).map fun xs => (s.put xs ()).1.file).getD s.file := by
  cases c with
  | save name query filters description =>
      have hfile : Store.file { s with made := s.made + 1 } = s.file := rfl
      rw [run, written]
      cases hlist : s.list now with
      | error e =>
          rw [Store.save, withList, list_congr hfile, hlist]
          rfl
      | ok xs =>
          rw [save_of_list hlist]
          simp only [Except.toOption, Option.map_some, Option.getD_some]
          exact put_file hfile _ _
  | update id u =>
      rw [run, Store.update, u.fields_known, List.isEmpty_nil, if_pos rfl, funext u.foldl_setField]
      exact s.modify_file now id u.applied
  | recordUse id => exact s.modify_file now id _
  | delete id => exact s.delete_file now id
  | importText data merge =>
      have hfile := s.incoming_file now data
      rw [run, written, importText_eq]
      generalize s.incoming now data = outcome at hfile ⊢
      obtain ⟨s₁, r⟩ := outcome
      cases r with
      | error e => exact hfile
      | ok incoming =>
          dsimp only
          rw [kept_congr hfile]
          cases s.kept now merge with
          | error e => exact hfile
          | ok current => exact put_file hfile _ _

theorem file_of_unwritten (h : c.written s now = none) : (c.run s now).file = s.file := by
  rw [file_run, h]
  rfl

theorem written_proper (h : c.written s now = some ws) : ∀ x ∈ ws, x.Proper := by
  cases c with
  | save name query filters description =>
      obtain ⟨xs, hxs, rfl⟩ := Option.map_eq_some_iff.mp h
      intro x hx
      rcases List.mem_append.mp hx with hx | hx
      · exact list_proper (eq_ok_of_toOption hxs) x hx
      · rw [List.mem_singleton.mp hx]
        exact SavedSearch.fresh_proper ..
  | update id u => exact edited_proper (fun _ => change_proper fun _ hx => u.applied_proper hx) h
  | recordUse id => exact edited_proper (fun _ => change_proper fun _ hx => hx.used now) h
  | delete id => exact edited_proper (fun _ hxs x hx => hxs x (List.mem_of_mem_filter hx)) h
  | importText data merge =>
      rw [written] at h
      split at h
      · rename_i incoming current hincoming hcurrent
        cases h
        exact joined_proper (kept_proper hcurrent)
          fun x hx => incoming_proper hincoming x (mem_untaken hx).1
      · cases h

theorem holds_run (h : c.written s now = some ws) (hstorable : Storable ws) :
    ∃ ys, (c.run s now).Holds ys ∧ Alike ys ws := by
  obtain ⟨t, -, ys, hholds, hsame⟩ := s.put_storable (written_proper h) hstorable ()
  refine ⟨ys, hholds.of_file ?_, hsame⟩
  rw [file_run, h]
  rfl

end Writing

section Importing

variable {data : Text} {merge : Bool}

theorem importText_fails (h : (importText data merge).written s now = none) :
    ∃ e, (s.importText now data merge).2 = .error e := by
  have hfile := s.incoming_file now data
  rw [written] at h
  rw [importText_eq]
  generalize s.incoming now data = outcome at h hfile ⊢
  obtain ⟨s₁, r⟩ := outcome
  cases r with
  | error e => exact ⟨e, rfl⟩
  | ok incoming =>
      dsimp only
      rw [kept_congr hfile]
      cases hkept : s.kept now merge with
      | error e => exact ⟨e, rfl⟩
      | ok current =>
          rw [hkept] at h
          cases h

theorem importText_answers {incoming current : List SavedSearch}
    (hincoming : (s.incoming now data).2 = .ok incoming) (hkept : s.kept now merge = .ok current)
    (hstorable : Storable (joined current (untaken (current.map (·.id)) incoming))) :
    (s.importText now data merge).2 = .ok (untaken (current.map (·.id)) incoming) := by
  have hfile := s.incoming_file now data
  have hproper : ∀ x ∈ joined current (untaken (current.map (·.id)) incoming), x.Proper :=
    joined_proper (kept_proper hkept) fun x hx => incoming_proper hincoming x (mem_untaken hx).1
  rw [importText_eq]
  generalize s.incoming now data = outcome at hincoming hfile ⊢
  obtain ⟨s₁, r⟩ := outcome
  obtain rfl : r = .ok incoming := hincoming
  dsimp only
  rw [kept_congr hfile, hkept]
  obtain ⟨t, hput, -⟩ := s₁.put_storable hproper hstorable (untaken (current.map (·.id)) incoming)
  dsimp only
  rw [hput]

end Importing

end Call

def noon : Moment := ⟨63000000000000000, by decide⟩

end VaultSearch.Saved
