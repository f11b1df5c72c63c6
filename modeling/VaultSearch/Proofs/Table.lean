import VaultSearch.Table

namespace VaultSearch.Table

variable {K V : Type} [DecidableEq K]

/-- Since no key is listed twice, looking a key up and listing all entries say the same. -/
theorem get?_eq_some_iff {t : Table K V} {k : K} {v : V} :
    t.get? k = some v ↔ (k, v) ∈ t.entries := by
  obtain ⟨es, hes⟩ := t
  simp only [get?]
  induction es with
  | nil => simp
  | cons e es ih =>
      obtain ⟨hne, hes⟩ := List.nodup_cons.mp hes
      by_cases hk : e.1 = k
      · have hnot : (k, v) ∉ es := fun hm => hne (List.mem_map.mpr ⟨(k, v), hm, hk.symm⟩)
        simp only [List.find?_cons_of_pos (p := fun e : K × V => decide (e.1 = k)) (decide_eq_true hk),
          Option.map_some, Option.some.injEq, List.mem_cons, hnot, or_false, Prod.ext_iff, hk, true_and]
        exact eq_comm
      · have hhead : (k, v) ≠ e := fun he => hk (congrArg Prod.fst he).symm
        rw [List.find?_cons_of_neg (by simpa using hk), ih hes, List.mem_cons]
        simp [hhead]

theorem mem_keys_iff {t : Table K V} {k : K} : k ∈ t.keys ↔ ∃ v, t.get? k = some v := by
  simp only [get?_eq_some_iff, keys, List.mem_map]
  constructor
  · rintro ⟨⟨j, v⟩, hm, rfl⟩
    exact ⟨v, hm⟩
  · rintro ⟨v, hm⟩
    exact ⟨(k, v), hm, rfl⟩

theorem get?_eq_none_iff {t : Table K V} {k : K} : t.get? k = none ↔ k ∉ t.keys := by
  rw [mem_keys_iff, ← Option.isSome_iff_exists, Option.not_isSome_iff_eq_none]

theorem contains_iff {t : Table K V} {k : K} : t.contains k = true ↔ k ∈ t.keys := by
  rw [contains, Option.isSome_iff_exists, mem_keys_iff]

theorem mem_values_iff {t : Table K V} {v : V} : v ∈ t.values ↔ ∃ k, t.get? k = some v := by
  simp only [get?_eq_some_iff, values, List.mem_map]
  constructor
  · rintro ⟨⟨k, w⟩, hm, rfl⟩
    exact ⟨k, hm⟩
  · rintro ⟨k, hm⟩
    exact ⟨(k, v), hm, rfl⟩

@[simp] theorem get?_empty (k : K) : ({} : Table K V).get? k = none := rfl

theorem replace_of_ne {k : K} {v : V} {e : K × V} (h : e.1 ≠ k) : replace k v e = e := by
  rw [replace, if_neg h]

theorem mem_map_replace_self {es : List (K × V)} {k : K} {v w : V} (hk : k ∈ es.map Prod.fst) :
    (k, w) ∈ es.map (replace k v) ↔ w = v := by
  rw [List.mem_map]
  constructor
  · rintro ⟨e, -, he⟩
    by_cases hek : e.1 = k
    · rw [replace, if_pos hek, Prod.mk.injEq] at he
      exact he.2.symm
    · rw [replace_of_ne hek] at he
      exact absurd (congrArg Prod.fst he) hek
  · rintro rfl
    obtain ⟨e, he, hek⟩ := List.mem_map.mp hk
    exact ⟨e, he, by rw [replace, if_pos hek]⟩

theorem mem_map_replace_of_ne {es : List (K × V)} {k j : K} {v w : V} (hj : j ≠ k) :
    (j, w) ∈ es.map (replace k v) ↔ (j, w) ∈ es := by
  rw [List.mem_map]
  constructor
  · rintro ⟨e, he, hr⟩
    by_cases hek : e.1 = k
    · rw [replace, if_pos hek, Prod.mk.injEq] at hr
      exact absurd hr.1.symm hj
    · rw [replace_of_ne hek] at hr
      exact hr ▸ he
  · intro hm
    exact ⟨(j, w), hm, replace_of_ne hj⟩

theorem mem_entries_put {t : Table K V} {k j : K} {v w : V} :
    (j, w) ∈ (t.put k v).entries ↔ if j = k then w = v else (j, w) ∈ t.entries := by
  by_cases hk : k ∈ t.keys
  · simp only [put, hk, dite_true]
    by_cases hj : j = k
    · subst hj
      rw [mem_map_replace_self hk, if_pos rfl]
    · rw [mem_map_replace_of_ne hj, if_neg hj]
  · simp only [put, hk, dite_false, List.mem_append, List.mem_singleton, Prod.mk.injEq]
    by_cases hj : j = k
    · subst hj
      have hnot : (j, w) ∉ t.entries := fun hm => hk (mem_keys_iff.mpr ⟨w, get?_eq_some_iff.mpr hm⟩)
      simp [hnot]
    · simp [hj]

@[simp] theorem get?_put (t : Table K V) (k j : K) (v : V) :
    (t.put k v).get? j = if j = k then some v else t.get? j := by
  ext w
  rw [get?_eq_some_iff, mem_entries_put]
  split
  · simp [eq_comm]
  · rw [get?_eq_some_iff]

@[simp] theorem get?_erase (t : Table K V) (k j : K) :
    (t.erase k).get? j = if j = k then none else t.get? j := by
  ext w
  rw [get?_eq_some_iff]
  by_cases hj : j = k <;> simp [erase, hj, get?_eq_some_iff]

theorem mem_keys_put {t : Table K V} {k j : K} {v : V} :
    j ∈ (t.put k v).keys ↔ j = k ∨ j ∈ t.keys := by
  simp only [mem_keys_iff, get?_put]
  by_cases hj : j = k <;> simp [hj]

theorem get?_foldl_erase (t : Table K V) (ks : List K) (k : K) :
    (ks.foldl erase t).get? k = if k ∈ ks then none else t.get? k := by
  induction ks generalizing t with
  | nil => rfl
  | cons j ks ih =>
      rw [List.foldl_cons, ih, get?_erase]
      by_cases hj : k = j <;> simp [hj]

@[simp] theorem get?_mapValues {W : Type} (t : Table K V) (f : V → W) (k : K) :
    (t.mapValues f).get? k = (t.get? k).map f := by
  rw [get?, mapValues, List.find?_map, Option.map_map, get?, Option.map_map]
  rfl

omit [DecidableEq K] in
theorem nodup_entries (t : Table K V) : t.entries.Nodup :=
  List.Pairwise.of_map Prod.fst (fun _ _ hne he => hne (congrArg Prod.fst he)) t.nodup

theorem perm_entries_put (t : Table K V) (k : K) (v : V) :
    (t.put k v).entries.Perm ((k, v) :: (t.erase k).entries) := by
  have hfresh : (k, v) ∉ (t.erase k).entries := by simp [erase]
  rw [List.perm_ext_iff_of_nodup (nodup_entries _) (List.nodup_cons.mpr ⟨hfresh, nodup_entries _⟩)]
  rintro ⟨j, w⟩
  rw [mem_entries_put]
  by_cases hj : j = k <;> simp [erase, hj]

theorem filter_entries_eq (t : Table K V) (k : K) :
    t.entries.filter (·.1 = k) = ((t.get? k).map (k, ·)).toList := by
  obtain ⟨es, hes⟩ := t
  simp only [get?]
  induction es with
  | nil => rfl
  | cons e es ih =>
      obtain ⟨hne, hes⟩ := List.nodup_cons.mp hes
      by_cases hk : e.1 = k
      · have hrest : es.filter (·.1 = k) = [] := by
          rw [List.filter_eq_nil_iff]
          intro d hd hdk
          rw [decide_eq_true_eq] at hdk
          exact hne (List.mem_map.mpr ⟨d, hd, hdk.trans hk.symm⟩)
        obtain ⟨j, v⟩ := e
        subst hk
        simp [hrest]
      · simp only [hk, decide_false, Bool.false_eq_true, not_false_eq_true, List.filter_cons_of_neg,
          List.find?_cons_of_neg, ih hes]

omit [DecidableEq K] in
def count (p : V → Bool) (t : Table K V) : Nat := t.entries.countP fun e => p e.2

theorem count_erase (t : Table K V) (k : K) (p : V → Bool) :
    (t.erase k).count p + ((t.get? k).any p).toNat = t.count p := by
  have hsplit := List.countP_eq_countP_filter_add t.entries (fun e => p e.2) (fun e => decide (e.1 = k))
  rw [filter_entries_eq] at hsplit
  rw [count, count, hsplit, Nat.add_comm]
  congr 1
  · cases t.get? k with
    | none => rfl
    | some v => cases hv : p v <;> simp [hv]
  · simp [erase]

theorem count_put (t : Table K V) (k : K) (v : V) (p : V → Bool) :
    (t.put k v).count p + ((t.get? k).any p).toNat = t.count p + (p v).toNat := by
  have hput : (t.put k v).count p = (t.erase k).count p + (p v).toNat := by
    rw [count, (perm_entries_put t k v).countP_eq, List.countP_cons, count]
    cases p v <;> rfl
  rw [hput, ← count_erase t k p]
  omega

omit [DecidableEq K] in
theorem count_mapValues {W : Type} (t : Table K V) (f : V → W) (p : W → Bool) :
    (t.mapValues f).count p = t.count (p ∘ f) := by
  rw [count, mapValues, List.countP_map]
  rfl

theorem count_pos_iff {t : Table K V} {p : V → Bool} :
    0 < t.count p ↔ ∃ k v, t.get? k = some v ∧ p v = true := by
  rw [count, List.countP_pos_iff]
  constructor
  · rintro ⟨⟨k, v⟩, hm, hp⟩
    exact ⟨k, v, get?_eq_some_iff.mpr hm, hp⟩
  · rintro ⟨k, v, hm, hp⟩
    exact ⟨(k, v), get?_eq_some_iff.mp hm, hp⟩

theorem count_congr {t : Table K V} {p q : V → Bool}
    (h : ∀ k v, t.get? k = some v → p v = q v) : t.count p = t.count q := by
  refine List.countP_congr fun e he => ?_
  rw [h e.1 e.2 (get?_eq_some_iff.mpr he)]

/-- Two sorts that exclude each other are counted one by one. -/
theorem count_or {t : Table K V} {p q : V → Bool}
    (h : ∀ k v, t.get? k = some v → p v = true → q v = false) :
    t.count (fun v => p v || q v) = t.count p + t.count q := by
  have hentries : ∀ e ∈ t.entries, p e.2 = true → q e.2 = false :=
    fun e he => h e.1 e.2 (get?_eq_some_iff.mpr he)
  simp only [count]
  generalize t.entries = es at hentries
  induction es with
  | nil => rfl
  | cons e es ih =>
      obtain ⟨he, hes⟩ := List.forall_mem_cons.mp hentries
      rw [List.countP_cons, List.countP_cons, List.countP_cons, ih hes]
      cases hp : p e.2 <;> cases hq : q e.2 <;> simp_all <;> omega

end VaultSearch.Table
