import VaultSearch.Proofs.Saved.Transfer
import VaultSearch.Proofs.Yaml.Text
import VaultSearch.Server

namespace VaultSearch.Saved

open Text Yaml Number Time

def isCountable : Value → Bool
  | .scalar (.bool _) | .scalar (.int _) => true
  | .scalar (.float _ x) => x.value?.isSome
  | .scalar (.text t) => (readInt t).isOk
  | .scalar (.bytes b) => (readInt (asciiText b)).isOk
  | _ => false

/-- The value has two parts, and the first can be a key. -/
def isPair (v : Value) : Bool :=
  match items? v with
  | some [k, _] => (MapKey.ofValue? k).isSome
  | _ => false

def isFilterable : Value → Bool
  | .map _ _ => true
  | v => !v.isTruthy || (items? v).any fun vs => vs.all isPair

def textKeys : List Text := ["id".toList, "name".toList, "query".toList]

def isSound (es : Entries) : Bool :=
  (textKeys.all fun key => (Value.lookup key es).all fun v => v.ints.all isShort) &&
    (Value.lookup "filters".toList es).all isFilterable &&
    (Value.lookup "use_count".toList es).all isCountable

section Fields

/-- Of all that is in a document, only scalars that are neither text nor bytes have no parts to go
through; a collection has them also where it stands in itself. -/
theorem items?_eq_none_iff {t : Text} {whole v : Value} (h : load t = .ok whole)
    (hv : Taken whole v) :
    items? v = none ↔ ∃ s, v = .scalar s ∧ (∀ u, s ≠ .text u) ∧ ∀ b, s ≠ .bytes b := by
  cases v with
  | scalar s => cases s <;> simp [items?]
  | list | map | set | tuple => simp [items?]
  | again shape label => exact absurd rfl (load_taken_ne_again h hv shape label)

/-- An entry can be its own filters, and so can the list that it is in. -/
example : (Store.list { file := "&r\n- &a {id: x, filters: *a}\n- {id: y, filters: *r}\n".toList }
    noon).isOk = true := by
  decide +kernel

theorem isPair_set (label : Option Nat) (ks : List Scalar) :
    isPair (.set label ks) = decide (ks.length = 2) := by
  rcases ks with _ | ⟨k, _ | ⟨j, _ | ⟨i, ks⟩⟩⟩
  · rfl
  · rfl
  · rfl
  · simp [isPair, items?]

/-- It does not matter which member of a set comes first. -/
theorem isFilterable_set_of_perm {label : Option Nat} {ks js : List Scalar} (h : ks.Perm js) :
    isFilterable (.set label ks) = isFilterable (.set label js) := by
  simp only [isFilterable, Value.isTruthy, items?, Option.any_some, List.all_map, h.all_eq,
    h.isEmpty_eq]

theorem isOk_readCount (v : Value) : (readCount v).isOk = isCountable v := by
  cases v with
  | scalar s =>
      cases s with
      | float label x => cases x <;> rfl
      | text t => exact isOk_mapError _ _
      | bytes b =>
          rw [readCount, isCountable]
          cases readInt (asciiText b) with
          | error e => cases e <;> rfl
          | ok n => rfl
      | null | bool | int | date | stamp => rfl
  | list | map | set | tuple | again => rfl

theorem isOk_pairEntries (place : Nat) (es : Entries) (vs : List Value) :
    (pairEntries place es vs).isOk = vs.all isPair := by
  induction vs generalizing place es with
  | nil => rfl
  | cons v vs ih =>
      rw [List.all_cons, isPair]
      cases hitems : items? v with
      | none =>
          simp only [pairEntries, hitems]
          rfl
      | some ws =>
          rcases ws with _ | ⟨k, _ | ⟨w, _ | ⟨_, _⟩⟩⟩
          · simp only [pairEntries, hitems]
            rfl
          · simp only [pairEntries, hitems]
            rfl
          · cases hkey : MapKey.ofValue? k with
            | none =>
                simp only [pairEntries, hitems, hkey]
                rfl
            | some key =>
                simp only [pairEntries, hitems, hkey, ih, Option.isSome_some, Bool.true_and]
          · simp only [pairEntries, hitems]
            rfl

theorem isOk_readFilters (v : Option Value) : (readFilters v).isOk = v.all isFilterable := by
  cases v with
  | none => rfl
  | some v =>
      cases v with
      | map m es => cases es <;> rfl
      | scalar | list | set | tuple | again =>
          simp only [readFilters, isFilterable, Option.all_some]
          split
          · rename_i hfalsy
            rw [hfalsy]
            rfl
          · rename_i htruthy
            rw [Bool.not_eq_true] at htruthy
            rw [htruthy, Bool.false_or]
            split
            · rename_i hitems
              rw [hitems]
              rfl
            · rename_i vs hitems
              rw [hitems, isOk_map, isOk_pairEntries]
              rfl

theorem isOk_readText (v : Option Value) :
    (readText v).isOk = v.all fun v => v.ints.all isShort := by
  cases v with
  | none => rfl
  | some v => rw [readText, isOk_mapError, Value.isOk_toText, Option.all_some]

theorem isOk_readEntry (now : Moment) (es : Entries) : (readEntry now es).isOk = isSound es := by
  have hcount : (readCount ((Value.lookup "use_count".toList es).getD (.int 0))).isOk =
      (Value.lookup "use_count".toList es).all isCountable := by
    rw [isOk_readCount]
    cases Value.lookup "use_count".toList es <;> rfl
  rw [isSound, textKeys, ← isOk_readFilters, ← hcount]
  simp only [List.all_cons, List.all_nil, ← isOk_readText, Bool.and_assoc, Bool.true_and]
  refine (isOk_bind_of_forall fun id => ?_).trans rfl
  refine isOk_bind_of_forall fun name => ?_
  refine isOk_bind_of_forall fun query => ?_
  refine isOk_bind_of_forall fun filters => ?_
  cases readCount ((Value.lookup "use_count".toList es).getD (.int 0)) <;> rfl

/-- A failure that an entry can have: one of its values is of the wrong type, or is infinite, or can
not be used for another reason. -/
def OfEntry (e : SavedError) : Prop :=
  e.isBadValue = true ∨ e = .wrongType ∨ e = .countInfinite

theorem OfEntry.isBadValue_eq_false_iff {e : SavedError} (h : OfEntry e) :
    e.isBadValue = false ↔ e = .wrongType ∨ e = .countInfinite := by
  rcases h with hbad | rfl | rfl
  · refine iff_of_false (by rw [hbad]; nofun) ?_
    rintro (rfl | rfl) <;> cases hbad
  · exact iff_of_true rfl (.inl rfl)
  · exact iff_of_true rfl (.inr rfl)

theorem ofEntry_readText (v : Option Value) : Meets OfEntry (fun _ => True) (readText v) := by
  cases v with
  | none => trivial
  | some v =>
      rw [readText]
      cases v.toText with
      | error e => exact .inl rfl
      | ok t => trivial

theorem ofEntry_pairEntries (place : Nat) (es : Entries) (vs : List Value) :
    Meets OfEntry (fun _ => True) (pairEntries place es vs) := by
  induction vs generalizing place es with
  | nil => trivial
  | cons v vs ih =>
      rw [pairEntries.eq_def]
      dsimp only
      split
      · exact .inr (.inl rfl)
      · split
        · exact .inr (.inl rfl)
        · exact ih _ _
      · exact .inl rfl

theorem ofEntry_readFilters (v : Option Value) :
    Meets OfEntry (fun _ => True) (readFilters v) := by
  rw [readFilters.eq_def]
  split
  · trivial
  · split
    · trivial
    · split
      · trivial
      · split
        · exact .inr (.inl rfl)
        · exact (ofEntry_pairEntries _ _ _).map fun _ _ => trivial

theorem ofEntry_readCount (v : Value) : Meets OfEntry (fun _ => True) (readCount v) := by
  cases v with
  | scalar s =>
      cases s with
      | float label x =>
          cases x with
          | nan => exact .inl rfl
          | infinite => exact .inr (.inr rfl)
          | negZero | finite => trivial
      | text t =>
          rw [readCount]
          cases readInt t with
          | error e => exact .inl rfl
          | ok n => trivial
      | bytes b =>
          rw [readCount]
          cases readInt (asciiText b) with
          | error e => cases e <;> exact .inl rfl
          | ok n => trivial
      | bool | int => trivial
      | null | date | stamp => exact .inr (.inl rfl)
  | list | map | set | tuple | again => exact .inr (.inl rfl)

theorem ofEntry_readEntry (now : Moment) (es : Entries) :
    Meets OfEntry (fun _ => True) (readEntry now es) := by
  refine (ofEntry_readText _).bind fun id _ => ?_
  refine (ofEntry_readText _).bind fun name _ => ?_
  refine (ofEntry_readText _).bind fun query _ => ?_
  refine (ofEntry_readFilters _).bind fun filters _ => ?_
  exact (ofEntry_readCount _).bind fun count _ => trivial

end Fields

section Lists

variable {now : Moment} {vs : List Value} {xs : List SavedSearch}

def valid? (now : Moment) : Value → Option SavedSearch
  | .map m es => if hasId es then (readEntry now (entriesOf m es)).toOption else none
  | _ => none

def fault? (now : Moment) : Value → Option SavedError
  | .map m es => if hasId es then failure? (readEntry now (entriesOf m es)) else none
  | _ => none

/-- A list comes to its valid searches, unless there is a fault in it; then to the first. -/
theorem readEntries_eq (now : Moment) (vs : List Value) :
    readEntries now vs = match vs.findSome? (fault? now) with
      | some e => .error e
      | none => .ok (vs.filterMap (valid? now)) := by
  induction vs with
  | nil => rfl
  | cons v vs ih =>
      cases v with
      | map m es =>
          rw [readEntries, List.findSome?_cons, List.filterMap_cons, fault?, valid?]
          cases hid : hasId es with
          | false => exact ih
          | true =>
              rw [if_pos rfl, if_pos rfl, if_pos rfl, ih]
              cases readEntry now (entriesOf m es) with
              | error e => rfl
              | ok x => cases vs.findSome? (fault? now) <;> rfl
      | scalar | list | set | tuple | again => exact ih

/-- No fault comes of the value: it is a sound entry, or none. Where entries need no id, each mapping
is one. -/
def isHarmless (needsId : Bool) : Value → Bool
  | .map m es => (needsId && !hasId es) || isSound (entriesOf m es)
  | _ => true

theorem fault?_eq_none_iff {v : Value} : fault? now v = none ↔ isHarmless true v = true := by
  cases v with
  | map m es =>
      rw [fault?, isHarmless]
      cases hid : hasId es with
      | true =>
          rw [if_pos rfl, failure?_eq_none_iff, isOk_readEntry]
          rfl
      | false => exact iff_of_true rfl rfl
  | scalar | list | set | tuple | again => exact iff_of_true rfl rfl

theorem findSome?_fault?_eq_none_iff (now : Moment) (vs : List Value) :
    vs.findSome? (fault? now) = none ↔ vs.all (isHarmless true) = true := by
  rw [List.findSome?_eq_none_iff, List.all_eq_true]
  exact forall₂_congr fun v _ => fault?_eq_none_iff

theorem ofEntry_of_fault {e : SavedError} (h : vs.findSome? (fault? now) = some e) : OfEntry e := by
  obtain ⟨v, -, hv⟩ := List.exists_of_findSome?_eq_some h
  cases v with
  | map m es =>
      rw [fault?] at hv
      split at hv
      · have hmeets := ofEntry_readEntry now (entriesOf m es)
        cases hread : readEntry now (entriesOf m es) with
        | error cause =>
            rw [hread] at hv hmeets
            cases hv
            exact hmeets
        | ok x =>
            rw [hread] at hv
            cases hv
      · cases hv
  | scalar | list | set | tuple | again => cases hv

theorem readEntries_eq_ok_iff :
    readEntries now vs = .ok xs ↔
      vs.all (isHarmless true) = true ∧ xs = vs.filterMap (valid? now) := by
  rw [readEntries_eq, ← findSome?_fault?_eq_none_iff now vs]
  cases vs.findSome? (fault? now) <;> simp [eq_comm]

theorem readEntries_eq_error_iff {e : SavedError} :
    readEntries now vs = .error e ↔ vs.findSome? (fault? now) = some e := by
  rw [readEntries_eq]
  cases vs.findSome? (fault? now) <;> simp

def identified : Nat → List Value → List Value
  | _, [] => []
  | n, .map m es :: vs =>
    if hasId es then .map m es :: identified n vs
    else .map none (entriesOf m es ++ [(.text "id".toList, .text (idOf (n + 1)))]) ::
      identified (n + 1) vs
  | n, v :: vs => v :: identified n vs

theorem lookup_append_id (key : Text) (es : Entries) (id : Text) :
    Value.lookup key (es ++ [(.text "id".toList, .text id)]) =
      (Value.lookup key es).or (if key = "id".toList then some (.text id) else none) := by
  rw [Value.lookup_append, Value.lookup_cons]
  simp only [MapKey.same_text_iff, eq_comm (a := "id".toList)]
  rfl

theorem hasId_append_id (es : Entries) (id : Text) :
    hasId (es ++ [(.text "id".toList, .text id)]) = true := by
  rw [hasId, lookup_append_id, if_pos rfl, Option.isSome_or, Option.isSome_some, Bool.or_true]

theorem isSound_append_id {es : Entries} (hid : hasId es = false) (id : Text) :
    isSound (es ++ [(.text "id".toList, .text id)]) = isSound es := by
  have hnone : Value.lookup "id".toList es = none := by simpa [hasId] using hid
  have hother : ∀ key, key ≠ "id".toList →
      Value.lookup key (es ++ [(.text "id".toList, .text id)]) = Value.lookup key es := by
    intro key hkey
    rw [lookup_append_id, if_neg hkey, Option.or_none]
  have hgiven : Value.lookup "id".toList (es ++ [(.text "id".toList, .text id)]) =
      some (.text id) := by
    rw [lookup_append_id, hnone, if_pos rfl, Option.none_or]
  simp only [isSound, textKeys, List.all_cons, List.all_nil, hgiven, hnone]
  rw [hother "name".toList (by decide), hother "query".toList (by decide),
    hother "filters".toList (by decide), hother "use_count".toList (by decide)]
  rfl

theorem hasId_entriesOf (m : Option Nat) (es : Entries) : hasId (entriesOf m es) = hasId es := by
  rw [hasId, Value.lookup_entriesOf, Option.isSome_map, hasId]

/-- What comes in is read as a list whose entries all have ids. -/
theorem readIncoming_eq (s : Store) (now : Moment) (vs : List Value) :
    (s.readIncoming now vs).2 = readEntries now (identified s.made vs) := by
  induction vs generalizing s with
  | nil => rfl
  | cons v vs ih =>
      cases v with
      | map m es =>
          obtain ⟨s₀, es₀, -, -, hsame, hgiven, hread⟩ := s.readIncoming_map now m es vs
          have hidentified : ∃ m' es', hasId es' = true ∧ entriesOf m' es' = es₀ ∧
              identified s.made (.map m es :: vs) = .map m' es' :: identified s₀.made vs := by
            rw [hasId_entriesOf] at hsame hgiven
            rw [identified]
            cases hid : hasId es with
            | true =>
                obtain ⟨rfl, rfl⟩ := hsame hid
                exact ⟨m, es, hid, rfl, if_pos rfl⟩
            | false =>
                obtain ⟨rfl, rfl⟩ := hgiven hid
                exact ⟨none, _, hasId_append_id _ _, entriesOf_none _, if_neg Bool.false_ne_true⟩
          obtain ⟨m', es', hid, rfl, hidentified⟩ := hidentified
          rw [hidentified, readEntries, if_pos hid, ← ih s₀]
          rcases hread with ⟨e, he, heq⟩ | ⟨x, hx, heq⟩
          · rw [heq, he]
            rfl
          · rw [heq, hx]
            cases (s₀.readIncoming now vs).2 <;> rfl
      | scalar | list | set | tuple | again => exact ih s

theorem all_identified (n : Nat) (vs : List Value) :
    (identified n vs).all (isHarmless true) = vs.all (isHarmless false) := by
  induction vs generalizing n with
  | nil => rfl
  | cons v vs ih =>
      cases v with
      | map m es =>
          rw [identified, List.all_cons]
          cases hid : hasId es with
          | true =>
              rw [if_pos rfl, List.all_cons, ih, isHarmless, isHarmless, hid]
              rfl
          | false =>
              rw [if_neg Bool.false_ne_true, List.all_cons, ih, isHarmless, isHarmless,
                hasId_append_id, entriesOf_none, isSound_append_id (hid ▸ hasId_entriesOf m es)]
              rfl
      | scalar | list | set | tuple | again =>
          rw [identified, List.all_cons, List.all_cons, ih]
          · rfl
          · nofun

end Lists

section Files

variable {t : Text} {v : Value} {vs : List Value} {now : Moment}

def listed? : Value → Option (List Value)
  | .list label vs => some (itemsOf label vs)
  | _ => none

theorem list_eq_readEntries (hload : load t = .ok v) (hvs : listed? v = some vs) {s : Store}
    (hfile : s.file = some t) (now : Moment) : s.list now = readEntries now vs := by
  rw [Store.list, hfile]
  simp only [hload]
  cases v with
  | list label us =>
      cases hvs
      rfl
  | scalar | map | set | tuple | again => cases hvs

theorem incoming_eq (hload : load t = .ok v) (hvs : listed? v = some vs) (s : Store)
    (now : Moment) : s.incoming now t = s.readIncoming now vs := by
  rw [Store.incoming, hload]
  cases v with
  | list label us =>
      cases hvs
      rfl
  | scalar | map | set | tuple | again => cases hvs

theorem isBadValue_of_write {xs : List SavedSearch} {e : SavedError} (h : write xs = .error e) :
    e.isBadValue = true := by
  obtain ⟨cause, -, rfl⟩ := mapError_eq_error_iff.mp h
  rfl

section Import

variable (hload : load t = .ok v) (hvs : listed? v = some vs) (s : Store) (merge : Bool)

include hload hvs

theorem importText_of_listed : s.importText now t merge =
    match readEntries now (identified s.made vs), s.kept now merge with
    | .error e, _ => ((s.readIncoming now vs).1, .error e)
    | .ok _, .error e => ((s.readIncoming now vs).1, .error e)
    | .ok incoming, .ok current =>
      let added := Store.untaken (current.map (·.id)) incoming
      (s.readIncoming now vs).1.put (Store.joined current added) added := by
  have hfile := s.readIncoming_file now vs
  rw [Store.importText_eq, incoming_eq hload hvs, ← readIncoming_eq]
  generalize s.readIncoming now vs = outcome at hfile
  obtain ⟨s₁, result⟩ := outcome
  cases result with
  | error e => rfl
  | ok incoming =>
      dsimp only
      rw [Store.kept_congr hfile]
      cases s.kept now merge <;> rfl

/-- An import writes the searches that are kept and those of the list that are new, once all of them
could be read. -/
theorem importText_eq_ok_iff {added : List SavedSearch} :
    (s.importText now t merge).2 = .ok added ↔
      ∃ incoming current text, readEntries now (identified s.made vs) = .ok incoming ∧
        s.kept now merge = .ok current ∧ added = Store.untaken (current.map (·.id)) incoming ∧
        write (Store.joined current added) = .ok text ∧
        (s.importText now t merge).1.file = some text := by
  rw [importText_of_listed hload hvs]
  cases readEntries now (identified s.made vs) with
  | error e => simp
  | ok incoming =>
      cases s.kept now merge with
      | error e => simp
      | ok current =>
          dsimp only
          rw [Store.put]
          cases hwrite : write
              (Store.joined current (Store.untaken (current.map (·.id)) incoming)) with
          | error err =>
              constructor
              · intro h
                cases h
              · rintro ⟨_, _, text, ⟨⟩, ⟨⟩, rfl, htext, -⟩
                cases hwrite.symm.trans htext
          | ok text =>
              constructor
              · rintro ⟨⟩
                exact ⟨incoming, current, text, rfl, rfl, rfl, hwrite, rfl⟩
              · rintro ⟨_, _, _, ⟨⟩, ⟨⟩, rfl, -, -⟩
                rfl

theorem importText_eq_error_iff {e : SavedError} :
    (s.importText now t merge).2 = .error e ↔
      readEntries now (identified s.made vs) = .error e ∨
      ∃ incoming, readEntries now (identified s.made vs) = .ok incoming ∧
        (s.kept now merge = .error e ∨ ∃ current, s.kept now merge = .ok current ∧
          write (Store.joined current (Store.untaken (current.map (·.id)) incoming)) =
            .error e) := by
  rw [importText_of_listed hload hvs]
  cases readEntries now (identified s.made vs) with
  | error err => simp
  | ok incoming =>
      cases s.kept now merge with
      | error err => simp
      | ok current =>
          dsimp only
          rw [Store.put]
          cases hwrite : write
              (Store.joined current (Store.untaken (current.map (·.id)) incoming)) <;>
            simp [hwrite]

end Import

theorem isOk_importSaved_eq_false_iff {s : Server} {merge : Bool} :
    (s.importSaved now t merge).2.isOk = false ↔
      ∃ e, (s.saved.importText now t merge).2 = .error e ∧ e.isBadValue = false := by
  rw [Server.importSaved]
  rcases s.saved.importText now t merge with ⟨s₁, e | added⟩
  · cases hbad : e.isBadValue <;> simp [hbad, Except.isOk, Except.toBool]
  · simp [Except.isOk, Except.toBool]

/-- What comes of a list of values in the file of a store, in an import, and in the call for one. Only
the call can tell in which order the members of a set are looked at, where they fail in different
ways; they are looked at as they are written. -/
structure Outcomes (t : Text) (vs : List Value) (now : Moment) : Prop where
  list : ∀ s : Store, s.file = some t → ∀ xs,
    s.list now = .ok xs ↔
      vs.all (isHarmless true) = true ∧ xs = vs.filterMap (valid? now)
  importText : ∀ (s : Store) (merge : Bool) (added : List SavedSearch),
    (s.importText now t merge).2 = .ok added ↔
      vs.all (isHarmless false) = true ∧ ∃ current text, s.kept now merge = .ok current ∧
        added = Store.untaken (current.map (·.id))
          ((identified s.made vs).filterMap (valid? now)) ∧
        write (Store.joined current added) = .ok text ∧
        (s.importText now t merge).1.file = some text
  importSaved : ∀ (s : Server) (merge : Bool),
    (s.importSaved now t merge).2.isOk = false ↔
      (∃ e, (identified s.saved.made vs).findSome? (fault? now) = some e ∧
        (e = .wrongType ∨ e = .countInfinite)) ∨
      vs.all (isHarmless false) = true ∧
        ∃ e, s.saved.kept now merge = .error e ∧ e.isBadValue = false

theorem outcomes_of_listed (hload : load t = .ok v) (hvs : listed? v = some vs) (now : Moment) :
    Outcomes t vs now := by
  constructor
  · intro s hfile xs
    rw [list_eq_readEntries hload hvs hfile, readEntries_eq_ok_iff]
  · intro s merge added
    rw [importText_eq_ok_iff hload hvs]
    simp only [readEntries_eq_ok_iff, all_identified]
    constructor
    · rintro ⟨incoming, current, text, ⟨hall, rfl⟩, hkept, hadded, hwrite, hfile⟩
      exact ⟨hall, current, text, hkept, hadded, hwrite, hfile⟩
    · rintro ⟨hall, current, text, hkept, hadded, hwrite, hfile⟩
      exact ⟨_, current, text, ⟨hall, rfl⟩, hkept, hadded, hwrite, hfile⟩
  · intro s merge
    rw [isOk_importSaved_eq_false_iff]
    simp only [importText_eq_error_iff hload hvs, readEntries_eq_error_iff, readEntries_eq_ok_iff,
      all_identified]
    constructor
    · rintro ⟨e, hfault | ⟨incoming, ⟨hall, -⟩, hkept | ⟨current, -, hwrite⟩⟩, hbad⟩
      · exact .inl ⟨e, hfault, (ofEntry_of_fault hfault).isBadValue_eq_false_iff.mp hbad⟩
      · exact .inr ⟨hall, e, hkept, hbad⟩
      · cases hbad.symm.trans (isBadValue_of_write hwrite)
    · rintro (⟨e, hfault, hbad⟩ | ⟨hall, e, hkept, hbad⟩)
      · exact ⟨e, .inl hfault, (ofEntry_of_fault hfault).isBadValue_eq_false_iff.mpr hbad⟩
      · exact ⟨e, .inr ⟨_, ⟨hall, rfl⟩, .inl hkept⟩, hbad⟩

theorem importText_of_unlisted (hload : load t = .ok v) (hvs : listed? v = none) (s : Store)
    (merge : Bool) : (s.importText now t merge).2 = .error .notList := by
  rw [Store.importText, hload]
  cases v with
  | list => cases hvs
  | scalar | map | set | tuple | again => rfl

end Files

def oneNameless : Text := "- {name: a}\n- junk\n- {id: b, use_count: 2}\n".toList

def oneUnsound : Text := "- {id: a, use_count: many}\n- {id: b}\n".toList

end VaultSearch.Saved
