import VaultSearch.Proofs.Saved.Search
import VaultSearch.Saved.Store

namespace VaultSearch.Saved

open Text Yaml Time

abbrev Storable (xs : List SavedSearch) : Prop := ReadsBack (xs.map SavedSearch.toValue)

theorem ids_distinct_alike {xs ys : List SavedSearch} (h : Alike xs ys)
    (hxs : (xs.map (·.id)).Nodup) : (ys.map (·.id)).Nodup := h.ids ▸ hxs

namespace Store

variable {s s' : Store} {now : Moment} {xs ys : List SavedSearch} {id : Text}

section Reading

theorem list_congr (h : s.file = s'.file) (now : Moment) : s.list now = s'.list now := by
  rw [list, list, h]

/-- The file holds the searches, at whatever time it is read. -/
def Holds (s : Store) (xs : List SavedSearch) : Prop := ∀ now, s.list now = .ok xs

theorem Holds.of_file (h : s.Holds xs) (hfile : s'.file = s.file) : s'.Holds xs :=
  fun now => (list_congr hfile now).trans (h now)

theorem stamped_of_load {t : Text} {label m : Option Nat} {vs : List Value} {es : Entries}
    (hload : load t = .ok (.list label vs)) (hes : .map m es ∈ itemsOf label vs) :
    Stamped (entriesOf m es) :=
  fun _ _ _ hs => load_stamp_readable hload (.item .self hes) hs

theorem list_proper (h : s.list now = .ok xs) : ∀ x ∈ xs, x.Proper := by
  rw [list] at h
  split at h
  · cases h
    simp
  · rename_i t _
    split at h
    · cases h
      simp
    · cases h
    · rename_i label vs hload
      exact readEntries_proper (fun m es => stamped_of_load hload) h
    · cases h
      simp

end Reading

section Writing

theorem readsAs_of_storable (hproper : ∀ x ∈ xs, x.Proper) (h : Storable xs) :
    ∃ t label vs ys, write xs = .ok t ∧ load t = .ok (.list label vs) ∧ itemsOf label vs = vs ∧
      List.Forall₂ ReadsAs vs ys ∧ Alike ys xs := by
  obtain ⟨t, v, hdump, hload, hbare⟩ := h
  cases v with
  | list label vs =>
      simp only [Value.bare, Value.bareIn, Value.list.injEq, true_and] at hbare
      obtain ⟨ys, hreads, hsame⟩ := items_back hbare hproper
      exact ⟨t, label, vs, ys, mapError_eq_ok_iff.mpr hdump, hload, itemsOf_of_bareItems hbare, hreads,
        hsame⟩
  | scalar | map | set | tuple | again => cases hbare

/-- A storable list is written, and the file holds it from then on. -/
theorem put_storable {α : Type} (s : Store) (hproper : ∀ x ∈ xs, x.Proper) (h : Storable xs)
    (answer : α) :
    ∃ t, s.put xs answer = ({ s with file := some t }, .ok answer) ∧
      ∃ ys, (s.put xs answer).1.Holds ys ∧ Alike ys xs := by
  obtain ⟨t, label, vs, ys, hwrite, hload, hitems, hreads, hsame⟩ := readsAs_of_storable hproper h
  have hput : s.put xs answer = ({ s with file := some t }, .ok answer) := by
    rw [put, hwrite]
  refine ⟨t, hput, ys, fun now => ?_, hsame⟩
  rw [hput, list]
  simp only [hload, hitems]
  exact readEntries_of_readsAs hreads now

/-- The file after a list is written depends on the file before, and on nothing else of the store. -/
theorem put_file {α : Type} (h : s'.file = s.file) (xs : List SavedSearch) (answer : α) :
    (s'.put xs answer).1.file = (s.put xs ()).1.file := by
  rw [put, put]
  cases write xs with
  | error e => exact h
  | ok t => rfl

/-- The text is what is written of the searches `xs`, and `ys` are read from it. -/
structure Written (xs : List SavedSearch) (t : Text) (ys : List SavedSearch) : Prop where
  write : write xs = .ok t
  load : ∃ label vs, load t = .ok (.list label vs) ∧ itemsOf label vs = vs ∧
    List.Forall₂ ReadsAs vs ys
  storable : Storable xs

/-- Writes the searches and reads the text once, which is what takes long to compute. -/
def restores (now : Moment) (xs ys : List SavedSearch) : Bool :=
  match Saved.write xs with
  | .error _ => false
  | .ok t => match Yaml.load t with
    | .ok (.list label vs) =>
      decide ((Value.list label vs).bare = (Value.list none (xs.map SavedSearch.toValue)).bare) &&
        decide ((readEntries now vs).toOption = some ys)
    | _ => false

theorem exists_written (now : Moment) (hproper : ∀ x ∈ xs, x.Proper)
    (h : restores now xs ys = true) : ∃ t, Written xs t ys := by
  rw [restores] at h
  split at h
  · cases h
  · rename_i t hwrite
    split at h
    · rename_i label vs hload
      rw [Bool.and_eq_true, decide_eq_true_eq, decide_eq_true_eq] at h
      obtain ⟨hbare, hread⟩ := h
      have hitems := hbare
      simp only [Value.bare, Value.bareIn, Value.list.injEq, true_and] at hitems
      obtain ⟨zs, hreads, -⟩ := items_back hitems hproper
      cases (eq_ok_of_toOption hread).symm.trans (readEntries_of_readsAs hreads now)
      exact ⟨t, hwrite, ⟨label, vs, hload, itemsOf_of_bareItems hitems, hreads⟩,
        t, _, mapError_eq_ok_iff.mp hwrite, hload, hbare⟩
    · cases h

theorem Written.put {α : Type} {t : Text} (h : Written xs t ys) (s : Store) (answer : α) :
    s.put xs answer = ({ s with file := some t }, .ok answer) := by
  rw [Store.put, h.write]

theorem Written.list {t : Text} (h : Written xs t ys) (hfile : s.file = some t) (now : Moment) :
    s.list now = .ok ys := by
  obtain ⟨label, vs, hload, hitems, hreads⟩ := h.load
  rw [Store.list, hfile]
  simp only [hload, hitems]
  exact readEntries_of_readsAs hreads now

theorem withList_of_list {α : Type} (h : s.list now = .ok xs) (f : List SavedSearch → Outcome α) :
    s.withList now f = f xs := by
  rw [withList, h]

end Writing

section Changing

theorem find?_eq_none_iff : find? id xs = none ↔ id ∉ xs.map (·.id) := by
  rw [find?, List.find?_eq_none]
  simp [eq_comm]

theorem id_of_find? {x : SavedSearch} (h : find? id xs = some x) : x.id = id := by
  simpa using List.find?_some h

theorem mem_of_find? {x : SavedSearch} (h : find? id xs = some x) : x ∈ xs :=
  List.mem_of_find?_eq_some h

theorem find?_append (id : Text) (xs ys : List SavedSearch) :
    find? id (xs ++ ys) = (find? id xs).or (find? id ys) :=
  List.find?_append

theorem find?_filter_ne {other : Text} (h : other ≠ id) :
    find? id (xs.filter (·.id ≠ other)) = find? id xs := by
  rw [find?, find?, List.find?_filter]
  congr 1
  funext x
  by_cases hx : x.id = id
  · simp [hx, h.symm]
  · simp [hx]

theorem find?_alike (h : Alike xs ys) (id : Text) :
    (find? id xs).map SavedSearch.bare = (find? id ys).map SavedSearch.bare := by
  have hfind := congrArg (List.find? (·.id = id)) h
  rwa [List.find?_map, List.find?_map] at hfind

variable {f : SavedSearch → SavedSearch}

theorem change_proper (hf : ∀ x : SavedSearch, x.Proper → (f x).Proper)
    (hxs : ∀ x ∈ xs, x.Proper) : ∀ x ∈ change id f xs, x.Proper := by
  induction xs with
  | nil => simp [change]
  | cons x xs ih =>
      rw [change]
      have hrest : ∀ y ∈ xs, y.Proper := fun y hy => hxs y (List.mem_cons_of_mem _ hy)
      split
      · intro y hy
        rcases List.mem_cons.mp hy with rfl | hy
        · exact hf x (hxs x List.mem_cons_self)
        · exact hrest y hy
      · intro y hy
        rcases List.mem_cons.mp hy with rfl | hy
        · exact hxs y List.mem_cons_self
        · exact ih hrest y hy

/-- Where ids are distinct, there is one search to change. -/
theorem change_eq_map (hxs : (xs.map (·.id)).Nodup) :
    change id f xs = xs.map fun x => if x.id = id then f x else x := by
  induction xs with
  | nil => rfl
  | cons x xs ih =>
      rw [List.map_cons, List.nodup_cons] at hxs
      rw [change, List.map_cons]
      split
      · rename_i hid
        have hothers : ∀ y ∈ xs, (if y.id = id then f y else y) = y := by
          intro y hy
          rw [if_neg]
          rintro rfl
          exact hxs.1 (hid ▸ List.mem_map_of_mem hy)
        rw [List.map_congr_left hothers, List.map_id']
      · rw [ih hxs.2]

theorem ids_change (hf : ∀ x, (f x).id = x.id) : (change id f xs).map (·.id) = xs.map (·.id) := by
  induction xs with
  | nil => rfl
  | cons x xs ih =>
      rw [change]
      split
      · rw [List.map_cons, List.map_cons, hf]
      · rw [List.map_cons, List.map_cons, ih]

theorem find?_change (hf : ∀ x, (f x).id = x.id) (other : Text) :
    find? id (change other f xs) =
      if other = id then (find? id xs).map f else find? id xs := by
  induction xs with
  | nil => split <;> rfl
  | cons x xs ih =>
      simp only [find?, List.find?_cons] at ih ⊢
      by_cases hx : x.id = other <;> by_cases hid : x.id = id
      · subst hx hid
        simp [change, hf]
      · subst hx
        simp [change, hf, hid]
      · subst hid
        simp [change, hx, Ne.symm hx]
      · simp [change, hx, hid, ih]

end Changing

section Importing

variable {taken : List Text}

theorem mem_untaken {x : SavedSearch} (h : x ∈ untaken taken xs) : x ∈ xs ∧ x.id ∉ taken := by
  induction xs generalizing taken with
  | nil => cases h
  | cons y ys ih =>
      rw [untaken] at h
      split at h
      · obtain ⟨hmem, hid⟩ := ih h
        exact ⟨List.mem_cons_of_mem _ hmem, hid⟩
      · rename_i hy
        rcases List.mem_cons.mp h with rfl | h
        · exact ⟨List.mem_cons_self, by simpa using hy⟩
        · obtain ⟨hmem, hid⟩ := ih h
          exact ⟨List.mem_cons_of_mem _ hmem, fun htaken => hid (List.mem_cons_of_mem _ htaken)⟩

theorem ids_untaken_nodup (taken : List Text) (xs : List SavedSearch) :
    ((untaken taken xs).map (·.id)).Nodup := by
  induction xs generalizing taken with
  | nil => exact List.nodup_nil
  | cons x xs ih =>
      rw [untaken]
      split
      · exact ih taken
      · rw [List.map_cons, List.nodup_cons]
        refine ⟨fun hmem => ?_, ih _⟩
        obtain ⟨y, hy, hid⟩ := List.mem_map.mp hmem
        exact (mem_untaken hy).2 (hid ▸ List.mem_cons_self)

/-- The ids of the searches that are there and of those that are added to them are distinct. -/
theorem ids_append_untaken_nodup (hxs : (xs.map (·.id)).Nodup) (ys : List SavedSearch) :
    ((xs ++ untaken (xs.map (·.id)) ys).map (·.id)).Nodup := by
  rw [List.map_append]
  refine List.nodup_append.mpr ⟨hxs, ids_untaken_nodup _ ys, ?_⟩
  rintro id hid _ hmem rfl
  obtain ⟨y, hy, rfl⟩ := List.mem_map.mp hmem
  exact (mem_untaken hy).2 hid

theorem untaken_of_nodup (hxs : (xs.map (·.id)).Nodup) :
    untaken taken xs = xs.filter fun x => !taken.elem x.id := by
  induction xs generalizing taken with
  | nil => rfl
  | cons x xs ih =>
      rw [List.map_cons, List.nodup_cons] at hxs
      rw [untaken, List.filter_cons]
      split
      · rename_i hx
        rw [hx, ih hxs.2]
        rfl
      · rename_i hx
        rw [Bool.not_eq_true] at hx
        rw [hx, ih hxs.2]
        refine congrArg (x :: ·) (List.filter_congr fun y hy => ?_)
        have hne : y.id ≠ x.id := fun heq => hxs.1 (heq ▸ List.mem_map_of_mem hy)
        rw [List.elem_cons, beq_eq_false_iff_ne.mpr hne]

variable {vs : List Value} {data : Text}

/-- An entry that comes in is read, with an id made for it if it has none. -/
theorem readIncoming_map (s : Store) (now : Moment) (m : Option Nat) (es : Entries)
    (vs : List Value) :
    ∃ (s₀ : Store) (es₀ : Entries), s₀.file = s.file ∧
      (Stamped (entriesOf m es) → Stamped es₀) ∧
      (hasId (entriesOf m es) = true → s₀ = s ∧ es₀ = entriesOf m es) ∧
      (hasId (entriesOf m es) = false → s₀ = { s with made := s.made + 1 } ∧
        es₀ = entriesOf m es ++ [(.text "id".toList, .text (idOf (s.made + 1)))]) ∧
      ((∃ e, readEntry now es₀ = .error e ∧
          s.readIncoming now (.map m es :: vs) = (s₀, .error e)) ∨
        ∃ x, readEntry now es₀ = .ok x ∧ s.readIncoming now (.map m es :: vs) =
          ((s₀.readIncoming now vs).1, (s₀.readIncoming now vs).2.map (x :: ·))) := by
  -- The id is made before the entry is read, so an entry that cannot be read uses one up, too.
  let fs := entriesOf m es
  let s₀ : Store := if hasId fs then s else { s with made := s.made + 1 }
  let es₀ : Entries := if hasId fs then fs else fs ++ [(.text "id".toList, .text (idOf s₀.made))]
  refine ⟨s₀, es₀, ?_, ?_, ?_, ?_, ?_⟩
  · dsimp only [s₀]
    split <;> rfl
  · intro h
    dsimp only [es₀]
    split
    · exact h
    · exact h.append_id _
  · exact fun hid => ⟨if_pos hid, if_pos hid⟩
  · intro hid
    dsimp only [es₀, s₀]
    rw [hid]
    exact ⟨rfl, rfl⟩
  · rw [readIncoming]
    cases readEntry now es₀ with
    | error e => exact .inl ⟨e, rfl, rfl⟩
    | ok x =>
        refine .inr ⟨x, rfl, ?_⟩
        generalize s₀.readIncoming now vs = outcome
        obtain ⟨s₁, r⟩ := outcome
        cases r <;> rfl

theorem readIncoming_file (s : Store) (now : Moment) (vs : List Value) :
    (s.readIncoming now vs).1.file = s.file := by
  induction vs generalizing s with
  | nil => rfl
  | cons v vs ih =>
      cases v with
      | map m es =>
          obtain ⟨s₀, es₀, hfile, -, -, -, ⟨e, -, heq⟩ | ⟨x, -, heq⟩⟩ := s.readIncoming_map now m es vs
          · rw [heq]
            exact hfile
          · rw [heq]
            exact (ih s₀).trans hfile
      | scalar | list | set | tuple | again => exact ih s

theorem readIncoming_proper (hvs : ∀ m es, Value.map m es ∈ vs → Stamped (entriesOf m es))
    (h : (s.readIncoming now vs).2 = .ok xs) : ∀ x ∈ xs, x.Proper := by
  induction vs generalizing s xs with
  | nil =>
      cases h
      simp
  | cons v vs ih =>
      have hrest : ∀ m es, Value.map m es ∈ vs → Stamped (entriesOf m es) :=
        fun m es hes => hvs m es (List.mem_cons_of_mem _ hes)
      cases v with
      | map m es =>
          obtain ⟨s₀, es₀, -, hes₀, -, -, ⟨e, -, heq⟩ | ⟨x, hx, heq⟩⟩ := s.readIncoming_map now m es vs
          · rw [heq] at h
            cases h
          · rw [heq] at h
            obtain ⟨ys, hys, rfl⟩ := map_eq_ok_iff.mp h
            intro y hy
            rcases List.mem_cons.mp hy with rfl | hy
            · exact readEntry_proper (hes₀ (hvs m es List.mem_cons_self)) hx
            · exact ih hrest hys y hy
      | scalar | list | set | tuple | again => exact ih hrest (s := s) h

theorem readIncoming_of_readsAs (h : List.Forall₂ ReadsAs vs ys) (s : Store) (now : Moment) :
    s.readIncoming now vs = (s, .ok ys) := by
  induction h with
  | nil => rfl
  | cons hv _ ih =>
      obtain ⟨m, es, rfl, hparts, hid, hy⟩ := hv
      obtain ⟨s₀, es₀, -, -, hsame, -, hread⟩ := s.readIncoming_map now m es _
      rw [hparts] at hsame
      obtain ⟨rfl, rfl⟩ := hsame hid
      rcases hread with ⟨e, he, -⟩ | ⟨x, hx, heq⟩
      · cases (hy now).symm.trans he
      · cases (hy now).symm.trans hx
        rw [heq, ih]
        rfl

def incoming (s : Store) (now : Moment) (data : Text) : Outcome (List SavedSearch) :=
  match load data with
  | .error .malformed => (s, .error .notYaml)
  | .error e => (s, .error (.yaml e))
  | .ok v =>
    match v with
    | .list label vs => s.readIncoming now (itemsOf label vs)
    | _ => (s, .error .notList)

theorem Written.incoming {t : Text} (h : Written xs t ys) (s : Store) (now : Moment) :
    s.incoming now t = (s, .ok ys) := by
  obtain ⟨label, vs, hload, hitems, hreads⟩ := h.load
  rw [Store.incoming, hload]
  simp only [hitems]
  exact readIncoming_of_readsAs hreads s now

def kept (s : Store) (now : Moment) (merge : Bool) : Except SavedError (List SavedSearch) :=
  if merge then s.list now else .ok []

/-- Two lists as one to be written, where no value of one shares a label with the other. -/
def joined (xs ys : List SavedSearch) : List SavedSearch :=
  xs.map (·.relabel (2 * ·)) ++ ys.map (·.relabel (2 * · + 1))

theorem joined_alike (xs ys : List SavedSearch) : Alike (joined xs ys) (xs ++ ys) :=
  (Alike.relabel (fun _ _ h => by omega) xs).append (Alike.relabel (fun _ _ h => by omega) ys)

theorem joined_proper (hxs : ∀ x ∈ xs, x.Proper) (hys : ∀ y ∈ ys, y.Proper) :
    ∀ x ∈ joined xs ys, x.Proper := by
  intro x hx
  rcases List.mem_append.mp hx with hx | hx
  · obtain ⟨y, hy, rfl⟩ := List.mem_map.mp hx
    exact (hxs y hy).relabel _
  · obtain ⟨y, hy, rfl⟩ := List.mem_map.mp hx
    exact (hys y hy).relabel _

theorem incoming_file (s : Store) (now : Moment) (data : Text) :
    (s.incoming now data).1.file = s.file := by
  rw [incoming]
  split
  · rfl
  · rfl
  · split
    · exact s.readIncoming_file now _
    · rfl

theorem incoming_proper (h : (s.incoming now data).2 = .ok xs) : ∀ x ∈ xs, x.Proper := by
  rw [incoming] at h
  split at h
  · cases h
  · cases h
  · rename_i v hload
    split at h
    · rename_i label vs
      exact readIncoming_proper (fun m es => stamped_of_load hload) h
    · cases h

theorem kept_eq (h : s.list now = .ok xs) (merge : Bool) :
    s.kept now merge = .ok (if merge then xs else []) := by
  rw [kept, h]
  cases merge <;> rfl

theorem kept_proper {merge : Bool} (h : s.kept now merge = .ok xs) : ∀ x ∈ xs, x.Proper := by
  rw [kept] at h
  split at h
  · exact list_proper h
  · cases h
    simp

theorem kept_congr (h : s'.file = s.file) (now : Moment) (merge : Bool) :
    s'.kept now merge = s.kept now merge := by
  rw [kept, kept, list_congr h]

theorem importText_eq (s : Store) (now : Moment) (data : Text) (merge : Bool) :
    s.importText now data merge = match s.incoming now data with
      | (s₁, .error e) => (s₁, .error e)
      | (s₁, .ok incoming) => match s₁.kept now merge with
        | .error e => (s₁, .error e)
        | .ok current =>
          let added := untaken (current.map (·.id)) incoming
          s₁.put (joined current added) added := by
  rw [importText, incoming]
  cases load data with
  | error e => cases e <;> rfl
  | ok v => cases v <;> rfl

end Importing

end Store

end VaultSearch.Saved
