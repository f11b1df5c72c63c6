import VaultSearch.Proofs.Except
import VaultSearch.Search.Pipeline

namespace VaultSearch.Search

open Text Note Filtering

section Lists

variable {α ε : Type}

theorem mergeSort_cons_eq {le : α → α → Bool}
    (htrans : ∀ a b c, le a b = true → le b c = true → le a c = true)
    (htotal : ∀ a b, (le a b || le b a) = true) (a : α) (xs : List α) :
    (a :: xs).mergeSort le =
      (xs.mergeSort le).filter (!le a ·) ++ a :: (xs.mergeSort le).filter (le a) := by
  obtain ⟨before, after, hall, hrest, hbefore⟩ := List.mergeSort_cons htrans htotal a xs
  have hsorted := List.pairwise_mergeSort htrans htotal (a :: xs)
  rw [hall, List.pairwise_append, List.pairwise_cons] at hsorted
  have hafter : ∀ b ∈ after, le a b = true := hsorted.2.1.1
  have hkept : before.filter (!le a ·) = before := List.filter_eq_self.mpr hbefore
  have hlater : after.filter (le a) = after := List.filter_eq_self.mpr hafter
  have hnone : after.filter (!le a ·) = [] :=
    List.filter_eq_nil_iff.mpr fun b hb => by simp [hafter b hb]
  have hearlier : before.filter (le a) = [] :=
    List.filter_eq_nil_iff.mpr fun b hb => by simpa using hbefore b hb
  rw [hall, hrest, List.filter_append, List.filter_append, hkept, hlater, hnone, hearlier,
    List.append_nil, List.nil_append]

theorem filter_filter_comm (p q : α → Bool) (xs : List α) :
    (xs.filter q).filter p = (xs.filter p).filter q := by
  rw [List.filter_filter, List.filter_filter]
  simp only [Bool.and_comm]

/-- A stable sort puts the elements of a part in the order that they have in the whole. -/
theorem filter_mergeSort {le : α → α → Bool}
    (htrans : ∀ a b c, le a b = true → le b c = true → le a c = true)
    (htotal : ∀ a b, (le a b || le b a) = true) (p : α → Bool) (xs : List α) :
    (xs.mergeSort le).filter p = (xs.filter p).mergeSort le := by
  induction xs with
  | nil => simp
  | cons a xs ih =>
      cases hp : p a with
      | false =>
          obtain ⟨before, after, hall, hrest, -⟩ := List.mergeSort_cons htrans htotal a xs
          rw [hall, List.filter_append, List.filter_cons_of_neg (by simp [hp]), ← List.filter_append,
            ← hrest, ih, List.filter_cons_of_neg (by simp [hp])]
      | true =>
          -- The new element goes between two filtered parts of the sorted rest, and each of them is
          -- known by the induction hypothesis.
          have hside : ∀ q : α → Bool, ((xs.mergeSort le).filter q).filter p =
              ((xs.filter p).mergeSort le).filter q := by
            intro q
            rw [filter_filter_comm, ih]
          rw [mergeSort_cons_eq htrans htotal, List.filter_append, List.filter_cons_of_pos hp,
            hside, hside, List.filter_cons_of_pos hp, mergeSort_cons_eq htrans htotal]

theorem byScore_trans {score : α → Rat} (a b c : α) (hab : decide (score b ≤ score a) = true)
    (hbc : decide (score c ≤ score b) = true) : decide (score c ≤ score a) = true :=
  decide_eq_true (Rat.le_trans (of_decide_eq_true hbc) (of_decide_eq_true hab))

theorem byScore_total {score : α → Rat} (a b : α) :
    (decide (score b ≤ score a) || decide (score a ≤ score b)) = true := by
  simpa using Rat.le_total

/-- A part of a list is told by its keys, if no two elements share one. -/
theorem eq_filter_of_sublist {key : α → Text} {part xs : List α}
    (hpart : part.Sublist xs) (hkeys : (xs.map key).Nodup) :
    part = xs.filter fun x => (part.map key).elem (key x) := by
  induction hpart with
  | slnil => rfl
  | @cons part xs a hpart ih =>
      rw [List.map_cons, List.nodup_cons] at hkeys
      obtain ⟨ha, hkeys⟩ := hkeys
      have hout : key a ∉ part.map key := fun hmem => ha ((hpart.map key).subset hmem)
      rw [List.filter_cons_of_neg (by simpa using hout)]
      exact ih hkeys
  | @cons_cons part xs a hpart ih =>
      rw [List.map_cons, List.nodup_cons] at hkeys
      obtain ⟨ha, hkeys⟩ := hkeys
      rw [List.filter_cons_of_pos (by simp)]
      refine congrArg (a :: ·) ((ih hkeys).trans (List.filter_congr fun x hx => ?_))
      have hne : key x ≠ key a := fun heq => ha (heq ▸ List.mem_map_of_mem hx)
      simp [hne]

/-- Filtering a part comes to what filtering the whole leaves of it. -/
theorem keep_filter_filter {p : α → Except ε Bool} (q : α → Bool) {xs ys : List α}
    (h : keep p xs = .ok ys) : keep p (xs.filter q) = .ok (ys.filter q) := by
  induction xs generalizing ys with
  | nil =>
      cases h
      rfl
  | cons x xs ih =>
      rw [keep] at h
      cases hp : p x with
      | error err => simp [hp] at h
      | ok b =>
          cases hk : keep p xs with
          | error err => simp [hp, hk, Except.map] at h
          | ok zs =>
              simp only [hp, hk, Except.map, Except.ok.injEq] at h
              subst h
              cases hq : q x with
              | false => cases b <;> simp [hq, ih hk]
              | true => cases b <;> simp [hq, keep, hp, ih hk, Except.map]

end Lists

theorem map_filter_result {α : Type} (result : α → Result) (key : α → Text)
    (hkey : ∀ x, (result x).id = key x) (p : Text → Bool) (xs : List α) :
    (xs.map result).filter (p ·.id) = (xs.filter fun x => p (key x)).map result := by
  rw [List.filter_map]
  simp only [Function.comp_def, hkey]

section Results

variable (p : Text → Bool) (ds : List Document)

theorem exactResults_filter (query : Text) :
    exactResults query (ds.filter (p ·.id)) = (exactResults query ds).filter (p ·.id) := by
  simp only [exactResults]
  rw [map_filter_result (exactResult _) Document.id fun _ => rfl,
    List.filter_append]
  simp only [filter_filter_comm fun d : Document => p d.id]

theorem booleanResults_filter (query : Text) :
    booleanResults query (ds.filter (p ·.id)) = (booleanResults query ds).filter (p ·.id) := by
  rw [booleanResults, booleanResults, booleanFilter, booleanFilter,
    map_filter_result (booleanResult _) Document.id fun _ => rfl,
    filter_filter_comm]

theorem fuzzyResults_filter (threshold : Number.Binary64) (query : Text) :
    fuzzyResults threshold query (ds.filter (p ·.id)) =
      (fuzzyResults threshold query ds).filter (p ·.id) := by
  simp only [fuzzyResults, Fuzzy.rank]
  rw [map_filter_result _ (fun x : Document × Rat => x.1.id) fun _ => rfl,
    filter_mergeSort byScore_trans byScore_total, List.filter_map, filter_filter_comm]
  rfl

/-- Each way of matching looks at every document on its own, and orders the results by what they
say themselves. -/
theorem matching_filter (o : Options) (text : Text) :
    matching o text (ds.filter (p ·.id)) = (matching o text ds).filter (p ·.id) := by
  simp only [matching]
  split
  · exact (map_filter_result plainResult Document.id (fun _ => rfl) p ds).symm
  · cases o.mode with
    | exact => exact exactResults_filter p ds (trim text)
    | boolean => exact booleanResults_filter p ds (trim text)
    | fuzzy => exact fuzzyResults_filter p ds o.threshold (trim text)

theorem apply_filter {f : Filters} {ds passed : List Document} (p : Document → Bool)
    (h : f.apply ds = .ok passed) : f.apply (ds.filter p) = .ok (passed.filter p) := by
  rw [Filters.apply] at h ⊢
  split at h
  · rename_i hempty
    cases h
    rw [if_pos hempty]
  · rename_i hset
    rw [if_neg hset]
    exact keep_filter_filter p h

end Results

theorem paginate_whole {α : Type} {limit : Option Int} (h : limit = none ∨ limit = some 0)
    (xs : List α) : paginate limit 0 xs = xs := by
  rcases h with rfl | rfl <;> rfl

theorem mem_of_mem_paginate {α : Type} {limit : Option Int} {offset : Int} {xs : List α} {x : α}
    (h : x ∈ paginate limit offset xs) : x ∈ xs := by
  cases limit with
  | none => exact List.mem_of_mem_drop h
  | some n =>
      simp only [paginate] at h
      split at h
      · exact List.mem_of_mem_drop h
      · exact List.mem_of_mem_drop (List.mem_of_mem_take h)

theorem run_filter {ds : List Document} {o : Options} (hlimit : o.limit = none ∨ o.limit = some 0)
    (hoffset : o.offset = 0) {text : Text} {filters : Filters} {rs : List Result}
    (h : run ds text filters o = .ok rs) (p : Text → Bool) :
    run (ds.filter (p ·.id)) text filters o = .ok (rs.filter (p ·.id)) := by
  rw [run] at h ⊢
  cases hf : filters.apply ds with
  | error err => simp [hf] at h
  | ok passed =>
      simp only [hf, hoffset, paginate_whole hlimit, Except.ok.injEq] at h
      simp only [apply_filter _ hf, hoffset, paginate_whole hlimit, matching_filter, h]

/-- What else is searched makes no difference to a document: whether it is found, its score, its
spans and its place among the others stay the same when documents are left out. -/
theorem run_of_sublist {ds part : List Document} (hpart : part.Sublist ds)
    (hids : (ds.map (·.id)).Nodup) {o : Options} (hlimit : o.limit = none ∨ o.limit = some 0)
    (hoffset : o.offset = 0) {text : Text} {filters : Filters} {rs : List Result}
    (h : run ds text filters o = .ok rs) :
    run part text filters o = .ok (rs.filter fun r => (part.map (·.id)).elem r.id) := by
  have hrun := run_filter hlimit hoffset h fun id => (part.map (·.id)).elem id
  rwa [← eq_filter_of_sublist hpart hids] at hrun

def inContent : Document := { id := ['a'], title := "Oxide".toList, content := "On rust".toList }

def inTitle : Document := { id := ['b'], title := "Rust".toList }

def inBoth : Document := { id := ['c'], title := "Rust".toList, content := "rust\nRust".toList }

def inNeither : Document := { id := ['d'] }

/-- Hits in the title come first, so leaving a document out does not just cut a page short. -/
theorem run_of_sublist_withoutTitleHit :
    run [inContent, inTitle, inNeither, inBoth] "rust".toList {} {} =
        .ok ([inTitle, inBoth, inContent].map (exactResult ["rust".toList])) ∧
      run [inContent, inNeither, inBoth] "rust".toList {} {} =
        .ok ([inBoth, inContent].map (exactResult ["rust".toList])) := by
  have hall : run [inContent, inTitle, inNeither, inBoth] "rust".toList {} {} =
      .ok ([inTitle, inBoth, inContent].map (exactResult ["rust".toList])) :=
    eq_ok_of_toOption (by decide +kernel)
  have hpart : [inContent, inNeither, inBoth].Sublist [inContent, inTitle, inNeither, inBoth] :=
    .cons_cons _ (.cons _ (.refl _))
  exact ⟨hall, run_of_sublist hpart (by decide) (.inl rfl) rfl hall⟩

end VaultSearch.Search
