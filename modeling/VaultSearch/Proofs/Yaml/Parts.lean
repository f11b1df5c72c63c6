import VaultSearch.Proofs.Yaml.Value

namespace VaultSearch.Yaml

namespace Value

theorem part_of_label?_eq_none {whole : Value} (h : whole.label? = none) (v : Value) : whole.part v = v := by
  rw [part, h]

theorem lookup_cons (key : Text) (k : MapKey) (v : Value) (es : Entries) :
    lookup key ((k, v) :: es) = if k.same (.text key) = true then some v else lookup key es := by
  rw [lookup, List.find?_cons]
  cases k.same (.text key) <;> rfl

theorem lookup_entriesOf (key : Text) (label : Option Nat) (es : Entries) :
    lookup key (entriesOf label es) = (lookup key es).map (Value.map label es).part := by
  rw [entriesOf, lookup, lookup, List.find?_map, Option.map_map, Option.map_map]
  rfl

end Value

theorem itemsOf_none (vs : List Value) : itemsOf none vs = vs := by
  rw [itemsOf, List.map_congr_left fun v _ => Value.part_of_label?_eq_none rfl v, List.map_id']

theorem entriesOf_none (es : Entries) : entriesOf none es = es := by
  have hsame : ∀ e ∈ es, (e.1, (Value.map none es).part e.2) = e :=
    fun e _ => by rw [Value.part_of_label?_eq_none rfl]
  rw [entriesOf, List.map_congr_left hsame, List.map_id']

theorem resolveItems_eq_map (l : Nat) (whole : Value) (path : List Nat) (vs : List Value) :
    resolveItems l whole path vs = vs.map (Value.resolve l whole path) := by
  induction vs with
  | nil => rfl
  | cons v vs ih => rw [resolveItems, ih, List.map_cons]

theorem resolveEntries_eq_map (l : Nat) (whole : Value) (path : List Nat) (es : Entries) :
    resolveEntries l whole path es = es.map fun (k, v) => (k, Value.resolve l whole path v) := by
  induction es with
  | nil => rfl
  | cons e es ih => rw [resolveEntries, ih, List.map_cons]

section Closed

variable {p q is js : List (Option Nat)} {l : Nat}

theorem depth_append (m : Nat) (is p : List (Option Nat)) :
    depth m (is ++ p) = if some m ∈ is then depth m is else is.length + depth m p := by
  induction is with
  | nil => simp
  | cons i is ih =>
      rw [List.cons_append, depth, depth, ih]
      by_cases hi : i = some m
      · simp [hi]
      · have hmem : some m ∈ i :: is ↔ some m ∈ is := by simp [Ne.symm hi]
        simp only [if_neg hi, hmem, List.length_cons]
        split <;> omega

theorem depth_lt_of_mem {m : Nat} (h : some m ∈ is) : depth m is < is.length := by
  induction is with
  | nil => cases h
  | cons i is ih =>
      rw [depth, List.length_cons]
      split
      · omega
      · rename_i hi
        have his := (List.mem_cons.mp h).resolve_left (Ne.symm hi)
        have := ih his
        omega

/-- What is named at the distance of `l` in one place is named nowhere if there is nothing to name at
that distance in the other. -/
theorem depth_ne_of_none (hlen : is.length = js.length) (hl : some l ∉ is) (m : Nat) :
    depth l (is ++ some l :: p) ≠ depth m (js ++ none :: q) := by
  rw [depth_append, if_neg hl, depth_append, depth, if_pos rfl]
  split
  · rename_i hm
    have := depth_lt_of_mem hm
    omega
  · rw [depth, if_neg (by simp : (none : Option Nat) ≠ some m)]
    omega

mutual

/-- A value that is the same as one inside a collection without a label does not name the collection
it stands in itself. -/
theorem Value.resolve_of_bareIn {p q is js : List (Option Nat)} {l : Nat} {whole : Value}
    (hlen : is.length = js.length) (hl : some l ∉ is) (path : List Nat) (v w : Value)
    (heq : v.bareIn (is ++ some l :: p) = w.bareIn (js ++ none :: q)) :
    Value.resolve l whole path v = v := by
  cases v with
  | scalar | set => rw [Value.resolve]
  | list label vs =>
      rw [Value.resolve]
      split
      · rfl
      · rename_i hlabel
        cases w with
        | list label' ws =>
            simp only [Value.bareIn, Value.list.injEq, true_and] at heq
            have hinner : (label :: is).length = (label' :: js).length := by simp [hlen]
            have hl' : some l ∉ label :: is := by simp [hl, Ne.symm hlabel]
            rw [resolveItems_of_bareItems hinner hl' _ vs ws heq]
        | scalar | map | set | tuple | again => cases heq
  | map label es =>
      rw [Value.resolve]
      split
      · rfl
      · rename_i hlabel
        cases w with
        | map label' fs =>
            simp only [Value.bareIn, Value.map.injEq, true_and] at heq
            have hinner : (label :: is).length = (label' :: js).length := by simp [hlen]
            have hl' : some l ∉ label :: is := by simp [hl, Ne.symm hlabel]
            rw [resolveEntries_of_bareEntries hinner hl' _ es fs heq]
        | scalar | list | set | tuple | again => cases heq
  | tuple label v₁ v₂ =>
      rw [Value.resolve]
      split
      · rfl
      · rename_i hlabel
        cases w with
        | tuple label' w₁ w₂ =>
            simp only [Value.bareIn, Value.tuple.injEq, true_and] at heq
            have hinner : (label :: is).length = (label' :: js).length := by simp [hlen]
            have hl' : some l ∉ label :: is := by simp [hl, Ne.symm hlabel]
            rw [Value.resolve_of_bareIn hinner hl' _ v₁ w₁ heq.1,
              Value.resolve_of_bareIn hinner hl' _ v₂ w₂ heq.2]
        | scalar | list | map | set | again => cases heq
  | again shape m =>
      rw [Value.resolve]
      split
      · rename_i hm
        cases w with
        | again shape' m' =>
            simp only [Value.bareIn, Value.again.injEq, hm] at heq
            exact absurd heq.2 (depth_ne_of_none hlen hl m')
        | scalar | list | map | set | tuple => cases heq
      · rfl
termination_by structural v

theorem resolveItems_of_bareItems {p q is js : List (Option Nat)} {l : Nat} {whole : Value}
    (hlen : is.length = js.length) (hl : some l ∉ is) (path : List Nat) (vs ws : List Value)
    (heq : bareItems (is ++ some l :: p) vs = bareItems (js ++ none :: q) ws) :
    resolveItems l whole path vs = vs := by
  cases vs with
  | nil => rfl
  | cons v vs =>
      cases ws with
      | nil => cases heq
      | cons w ws =>
          simp only [bareItems, List.cons.injEq] at heq
          rw [resolveItems, Value.resolve_of_bareIn hlen hl path v w heq.1,
            resolveItems_of_bareItems hlen hl path vs ws heq.2]
termination_by structural vs

theorem resolveEntries_of_bareEntries {p q is js : List (Option Nat)} {l : Nat} {whole : Value}
    (hlen : is.length = js.length) (hl : some l ∉ is) (path : List Nat) (es fs : Entries)
    (heq : bareEntries (is ++ some l :: p) es = bareEntries (js ++ none :: q) fs) :
    resolveEntries l whole path es = es := by
  cases es with
  | nil => rfl
  | cons e es =>
      obtain ⟨k, v⟩ := e
      cases fs with
      | nil => cases heq
      | cons f fs =>
          simp only [bareEntries, List.cons.injEq, Prod.mk.injEq] at heq
          rw [resolveEntries, Value.resolve_of_bareIn hlen hl path v _ heq.1.2,
            resolveEntries_of_bareEntries hlen hl path es fs heq.2]
termination_by structural es

end

variable {label : Option Nat}

/-- What is the same as the items of a list without a label can be taken out as it is. -/
theorem itemsOf_of_bareItems {vs ws : List Value}
    (h : bareItems (label :: p) vs = bareItems (none :: q) ws) : itemsOf label vs = vs := by
  cases label with
  | none => exact itemsOf_none vs
  | some l =>
      have hlen : ([] : List (Option Nat)).length = ([] : List (Option Nat)).length := rfl
      have hsame : resolveItems l (.list (some l) vs) [] vs = vs :=
        resolveItems_of_bareItems hlen List.not_mem_nil [] vs ws h
      rwa [resolveItems_eq_map] at hsame

theorem entriesOf_of_bareEntries {es fs : Entries}
    (h : bareEntries (label :: p) es = bareEntries (none :: q) fs) : entriesOf label es = es := by
  cases label with
  | none => exact entriesOf_none es
  | some l =>
      have hlen : ([] : List (Option Nat)).length = ([] : List (Option Nat)).length := rfl
      have hsame : resolveEntries l (.map (some l) es) [] es = es :=
        resolveEntries_of_bareEntries hlen List.not_mem_nil [] es fs h
      rwa [resolveEntries_eq_map] at hsame

end Closed

end VaultSearch.Yaml
