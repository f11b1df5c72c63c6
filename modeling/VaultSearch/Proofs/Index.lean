import Mathlib.Tactic.Tauto
import VaultSearch.Index
import VaultSearch.Proofs.Table

namespace VaultSearch.Index

open Note

def bucket (buckets : Table Text (List Text)) (term : Text) : List Text :=
  (buckets.get? term).getD []

theorem lookup_eq_bucket (x : Index) (term : Text) : x.lookup term = bucket x.buckets term := rfl

theorem get?_insertTerm_self (id : Text) (buckets : Table Text (List Text)) (t : Text) :
    (insertTerm id buckets t).get? t =
      some (if id ∈ bucket buckets t then bucket buckets t else bucket buckets t ++ [id]) := by
  by_cases hid : id ∈ bucket buckets t
  · rw [if_pos hid]
    rw [bucket] at hid
    simp [insertTerm, bucket, hid]
  · rw [if_neg hid]
    rw [bucket] at hid
    simp [insertTerm, bucket, hid]

theorem get?_insertTerm_of_ne {t s : Text} (hs : s ≠ t) (id : Text)
    (buckets : Table Text (List Text)) : (insertTerm id buckets t).get? s = buckets.get? s := by
  rw [insertTerm, Table.get?_put, if_neg hs]

theorem get?_eraseTerm_self (id : Text) (buckets : Table Text (List Text)) (t : Text) :
    (eraseTerm id buckets t).get? t =
      ((buckets.get? t).map (·.filter (· ≠ id))).filter (!·.isEmpty) := by
  rw [eraseTerm]
  cases hb : buckets.get? t with
  | none => rw [hb]; rfl
  | some ids =>
      by_cases he : (ids.filter (· ≠ id)).isEmpty = true
      · simp only [he, if_true, Table.get?_erase, Option.map_some, Option.filter_some, Bool.not_true,
          Bool.false_eq_true, if_false]
      · simp only [he, Bool.false_eq_true, if_false, Table.get?_put, if_true, Option.map_some,
          Option.filter_some, Bool.not_false]

theorem get?_eraseTerm_of_ne {t s : Text} (hs : s ≠ t) (id : Text)
    (buckets : Table Text (List Text)) : (eraseTerm id buckets t).get? s = buckets.get? s := by
  rw [eraseTerm]
  cases buckets.get? t with
  | none => rfl
  | some ids =>
      by_cases he : (ids.filter (· ≠ id)).isEmpty = true
      · simp only [he, if_true, Table.get?_erase, if_neg hs]
      · simp only [he, Bool.false_eq_true, if_false, Table.get?_put, if_neg hs]

theorem mem_bucket_insertTerm {id j t s : Text} {buckets : Table Text (List Text)} :
    j ∈ bucket (insertTerm id buckets t) s ↔ j ∈ bucket buckets s ∨ (j = id ∧ s = t) := by
  by_cases hs : s = t
  · subst hs
    rw [bucket, get?_insertTerm_self, Option.getD_some]
    by_cases hid : id ∈ bucket buckets s
    · have hj : j = id → j ∈ bucket buckets s := fun he => he ▸ hid
      rw [if_pos hid]
      tauto
    · rw [if_neg hid, List.mem_append, List.mem_singleton]
      tauto
  · rw [bucket, get?_insertTerm_of_ne hs, ← bucket]
    tauto

theorem getD_filter_isEmpty (ids : Option (List Text)) :
    (ids.filter (!·.isEmpty)).getD [] = ids.getD [] := by
  cases ids with
  | none => rfl
  | some ids => cases ids <;> rfl

theorem mem_bucket_eraseTerm {id j t s : Text} {buckets : Table Text (List Text)} :
    j ∈ bucket (eraseTerm id buckets t) s ↔ j ∈ bucket buckets s ∧ ¬(j = id ∧ s = t) := by
  by_cases hs : s = t
  · subst hs
    rw [bucket, get?_eraseTerm_self, getD_filter_isEmpty, bucket]
    cases buckets.get? s <;> simp
  · rw [bucket, get?_eraseTerm_of_ne hs, ← bucket]
    tauto

theorem mem_bucket_foldl_insertTerm {id j t : Text} {terms : List Text}
    {buckets : Table Text (List Text)} :
    j ∈ bucket (terms.foldl (insertTerm id) buckets) t ↔
      j ∈ bucket buckets t ∨ (j = id ∧ t ∈ terms) := by
  induction terms generalizing buckets with
  | nil => simp
  | cons s terms ih =>
      rw [List.foldl_cons, ih, mem_bucket_insertTerm, List.mem_cons]
      tauto

theorem mem_bucket_foldl_eraseTerm {id j t : Text} {terms : List Text}
    {buckets : Table Text (List Text)} :
    j ∈ bucket (terms.foldl (eraseTerm id) buckets) t ↔
      j ∈ bucket buckets t ∧ ¬(j = id ∧ t ∈ terms) := by
  induction terms generalizing buckets with
  | nil => simp
  | cons s terms ih =>
      rw [List.foldl_cons, ih, mem_bucket_eraseTerm, List.mem_cons]
      tauto

def Tidy (buckets : Table Text (List Text)) : Prop :=
  ∀ t ids, buckets.get? t = some ids → ids ≠ [] ∧ ids.Nodup

theorem tidy_empty : Tidy {} := fun t ids h => by simp at h

theorem Tidy.bucket_nodup {buckets : Table Text (List Text)} (h : Tidy buckets) (t : Text) :
    (bucket buckets t).Nodup := by
  rw [bucket]
  cases hb : buckets.get? t with
  | none => exact List.nodup_nil
  | some ids => exact (h t ids hb).2

theorem Tidy.insertTerm {buckets : Table Text (List Text)} (h : Tidy buckets) (id s : Text) :
    Tidy (insertTerm id buckets s) := by
  intro t ids ht
  by_cases hs : t = s
  · subst hs
    rw [get?_insertTerm_self, Option.some.injEq] at ht
    by_cases hid : id ∈ bucket buckets t
    · rw [if_pos hid] at ht
      exact ht ▸ ⟨List.ne_nil_of_mem hid, h.bucket_nodup t⟩
    · rw [if_neg hid] at ht
      subst ht
      refine ⟨by simp, List.nodup_append.mpr ⟨h.bucket_nodup t, by simp, ?_⟩⟩
      intro a ha b hb hab
      rw [List.mem_singleton] at hb
      exact hid (hb ▸ hab ▸ ha)
  · rw [get?_insertTerm_of_ne hs] at ht
    exact h t ids ht

theorem Tidy.eraseTerm {buckets : Table Text (List Text)} (h : Tidy buckets) (id s : Text) :
    Tidy (eraseTerm id buckets s) := by
  intro t ids ht
  by_cases hs : t = s
  · subst hs
    rw [get?_eraseTerm_self, Option.filter_eq_some_iff, Option.map_eq_some_iff] at ht
    obtain ⟨⟨old, ho, rfl⟩, hne⟩ := ht
    exact ⟨by simpa using hne, (h t old ho).2.filter _⟩
  · rw [get?_eraseTerm_of_ne hs] at ht
    exact h t ids ht

theorem Tidy.foldl {f : Table Text (List Text) → Text → Table Text (List Text)}
    (hf : ∀ {b}, Tidy b → ∀ s, Tidy (f b s)) {buckets : Table Text (List Text)}
    (h : Tidy buckets) (terms : List Text) : Tidy (terms.foldl f buckets) := by
  induction terms generalizing buckets with
  | nil => exact h
  | cons s terms ih => exact ih (hf h s)

/-- The two tables agree: an id is under a term exactly if the term is among those of the id. -/
structure Lockstep (x : Index) : Prop where
  tidy : Tidy x.buckets
  mem_lookup : ∀ {t id : Text}, id ∈ x.lookup t ↔ t ∈ x.termsFor id

theorem lockstep_empty : Lockstep {} :=
  ⟨tidy_empty, by simp [lookup, termsFor]⟩

theorem termsOf_remove (x : Index) (id j : Text) :
    (x.remove id).termsOf.get? j = if j = id then none else x.termsOf.get? j := by
  rw [Index.remove]
  cases ht : x.termsOf.get? id with
  | none =>
      by_cases hj : j = id
      · simp [hj, ht]
      · simp [hj]
  | some terms => simp

theorem add_eq (x : Index) (d : Document) :
    x.add d = ⟨d.terms.foldl (insertTerm d.id) (x.remove d.id).buckets,
      (x.remove d.id).termsOf.put d.id d.terms⟩ := by
  rw [Index.add]
  by_cases hc : x.contains d.id = true
  · simp [hc]
  · have hn : x.termsOf.get? d.id = none := by
      simpa [contains, Table.contains] using hc
    simp [hc, Index.remove, hn]

theorem termsOf_add (x : Index) (d : Document) (j : Text) :
    (x.add d).termsOf.get? j = if j = d.id then some d.terms else x.termsOf.get? j := by
  rw [add_eq]
  by_cases hj : j = d.id <;> simp [hj, termsOf_remove]

theorem Lockstep.remove {x : Index} (h : x.Lockstep) (id : Text) : (x.remove id).Lockstep := by
  have hrest := termsOf_remove x id
  rw [Index.remove] at hrest ⊢
  cases ht : x.termsOf.get? id with
  | none => exact h
  | some terms =>
      rw [ht] at hrest
      refine ⟨Tidy.foldl (fun hb s => hb.eraseTerm id s) h.tidy terms, ?_⟩
      intro t j
      rw [lookup_eq_bucket, mem_bucket_foldl_eraseTerm, ← lookup_eq_bucket, h.mem_lookup, termsFor,
        termsFor, hrest]
      by_cases hj : j = id
      · subst hj
        simp [ht]
      · simp [hj]

theorem Lockstep.add {x : Index} (h : x.Lockstep) (d : Document) : (x.add d).Lockstep := by
  have hr := h.remove d.id
  have hterms := termsOf_add x d
  rw [add_eq] at hterms ⊢
  refine ⟨Tidy.foldl (fun hb s => hb.insertTerm d.id s) hr.tidy d.terms, ?_⟩
  intro t j
  rw [lookup_eq_bucket, mem_bucket_foldl_insertTerm, ← lookup_eq_bucket, hr.mem_lookup, termsFor,
    termsFor, hterms, termsOf_remove]
  by_cases hj : j = d.id
  · subst hj
    simp
  · simp [hj]

theorem mem_narrow_some (x : Index) {ids terms : List Text} {id : Text} :
    id ∈ x.narrow (some ids) terms ↔ id ∈ ids ∧ ∀ t ∈ terms, id ∈ x.lookup t := by
  induction terms generalizing ids with
  | nil => simp [narrow]
  | cons t terms ih =>
      rw [narrow]
      cases hb : x.buckets.get? t with
      | none => simp [lookup, hb]
      | some bucket =>
          have hl : x.lookup t = bucket := by rw [lookup, hb, Option.getD_some]
          have hmem : id ∈ ids.filter bucket.elem ↔ id ∈ ids ∧ id ∈ x.lookup t := by
            simp [hl]
          by_cases he : (ids.filter bucket.elem).isEmpty = true
          · rw [List.isEmpty_iff.mp he] at hmem
            simp only [he, if_true, List.not_mem_nil, false_iff, List.forall_mem_cons] at hmem ⊢
            tauto
          · simp only [he, Bool.false_eq_true, if_false, ih, List.forall_mem_cons, ← and_assoc, hmem]

/-- Narrowing intersects the buckets, and stopping early at an empty result changes nothing. -/
theorem mem_candidates_iff (x : Index) {terms : List Text} (hne : terms ≠ []) {id : Text} :
    id ∈ x.candidates terms ↔ ∀ t ∈ terms, id ∈ x.lookup t := by
  cases terms with
  | nil => exact absurd rfl hne
  | cons t terms =>
      rw [candidates, narrow]
      cases hb : x.buckets.get? t with
      | none => simp [lookup, hb]
      | some bucket =>
          have hl : x.lookup t = bucket := by rw [lookup, hb, Option.getD_some]
          by_cases he : bucket.isEmpty = true
          · simp [hl, List.isEmpty_iff.mp he]
          · simp only [he, Bool.false_eq_true, if_false, mem_narrow_some, List.forall_mem_cons, hl]

end VaultSearch.Index
