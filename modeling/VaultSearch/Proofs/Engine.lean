import VaultSearch.Engine
import VaultSearch.Proofs.Index

namespace VaultSearch.Engine

open Note

@[simp] theorem get?_remove (e : Engine) (id j : Text) :
    (e.remove id).get? j = if j = id then none else e.get? j := by
  by_cases hc : e.contains id = true
  · simp [remove, hc, get?]
  · have hn : e.documents.get? id = none := by
      simpa [contains, Table.contains] using hc
    by_cases hj : j = id
    · simp [remove, hc, get?, hj, hn]
    · simp [remove, hc, hj]

@[simp] theorem get?_add (e : Engine) (d : Document) (j : Text) :
    (e.add d).get? j = if j = d.id then some d else e.get? j := by
  have hr := get?_remove e d.id j
  rw [get?] at hr
  by_cases hj : j = d.id
  · simp [add, get?, hj]
  · simpa [add, get?, hj] using hr

theorem update_eq_add (e : Engine) (d : Document) : e.update d = e.add d := by
  have hgone : (e.remove d.id).contains d.id = false := by
    have := get?_remove e d.id d.id
    rw [if_pos rfl, get?] at this
    simp [contains, Table.contains, this]
  rw [update, add, add]
  have : (e.remove d.id).remove d.id = e.remove d.id := by
    rw [remove, hgone, if_neg Bool.false_ne_true]
  rw [this]

theorem contains_iff {e : Engine} {id : Text} : e.contains id = true ↔ ∃ d, e.get? id = some d := by
  rw [contains, Table.contains, Option.isSome_iff_exists, get?]

def lastOf (ds : List Document) (id : Text) : Option Document := ds.reverse.find? (·.id = id)

theorem lastOf_eq_none {ds : List Document} {id : Text} (h : ∀ d ∈ ds, d.id ≠ id) :
    lastOf ds id = none := by
  rw [lastOf, List.find?_eq_none]
  intro d hd
  simpa using h d (List.mem_reverse.mp hd)

theorem lastOf_eq_some {ds : List Document} {id : Text} {d : Document} (hd : d ∈ ds)
    (hid : d.id = id) (h : ∀ c ∈ ds, c.id = id → c = d) : lastOf ds id = some d := by
  cases hl : lastOf ds id with
  | none =>
      rw [lastOf, List.find?_eq_none] at hl
      exact absurd hid (by simpa using hl d (List.mem_reverse.mpr hd))
  | some c =>
      rw [lastOf] at hl
      have hc : c.id = id := by simpa using List.find?_some hl
      rw [h c (List.mem_reverse.mp (List.mem_of_find?_eq_some hl)) hc]

theorem get?_foldl_add (e : Engine) (ds : List Document) (id : Text) :
    (ds.foldl add e).get? id = (lastOf ds id).or (e.get? id) := by
  induction ds generalizing e with
  | nil => rfl
  | cons d ds ih =>
      rw [List.foldl_cons, ih, get?_add, lastOf, lastOf, List.reverse_cons, List.find?_append]
      by_cases hid : id = d.id
      · cases ds.reverse.find? (·.id = id) <;> simp [hid]
      · have hd : ¬d.id = id := fun h => hid h.symm
        cases ds.reverse.find? (·.id = id) <;> simp [hid, hd]

theorem removeAll_fst (e : Engine) (ids : List Text) : (e.removeAll ids).1 = ids.foldl remove e := by
  rw [removeAll]
  generalize 0 = n
  induction ids generalizing e n with
  | nil => rfl
  | cons id ids ih => exact ih (e.remove id) _

theorem get?_foldl_remove (e : Engine) (ids : List Text) (id : Text) :
    (ids.foldl remove e).get? id = if id ∈ ids then none else e.get? id := by
  induction ids generalizing e with
  | nil => rfl
  | cons j ids ih =>
      rw [List.foldl_cons, ih, get?_remove]
      by_cases hj : id = j <;> simp [hj]

/-- After a batch, an id that is removed is gone, and any other has its last new document. -/
theorem get?_apply (e : Engine) (upserts : List Document) (removals : List Text) (id : Text) :
    (e.apply upserts removals).1.get? id =
      if id ∈ removals then none else (lastOf upserts id).or (e.get? id) := by
  rw [apply, removeAll_fst, get?_foldl_remove, get?_foldl_add]

theorem get?_rebuild (e : Engine) (ds : List Document) (id : Text) :
    (e.rebuild ds).get? id = lastOf ds id := by
  rw [rebuild, get?_foldl_add, Option.or_eq_left_of_none]
  rfl

/-- The index knows exactly the terms of the documents, and each document is under its own id. -/
structure Consistent (e : Engine) : Prop where
  lockstep : e.index.Lockstep
  terms : ∀ id, e.index.termsOf.get? id = (e.get? id).map Document.terms
  ids : ∀ {id : Text} {d : Document}, e.get? id = some d → d.id = id

theorem consistent_clear (e : Engine) : e.clear.Consistent where
  lockstep := Index.lockstep_empty
  terms := fun _ => rfl
  ids := fun h => by simp [clear, get?] at h

theorem Consistent.remove {e : Engine} (h : e.Consistent) (id : Text) :
    (e.remove id).Consistent where
  lockstep := by
    rw [Engine.remove]
    split
    · exact h.lockstep.remove id
    · exact h.lockstep
  terms := by
    intro j
    rw [get?_remove, Engine.remove]
    split
    · rw [Index.termsOf_remove, h.terms]
      split <;> rfl
    · rename_i hc
      rw [h.terms]
      split
      · rename_i hj
        have hn : e.get? id = none := by simpa [Engine.contains, Table.contains, Engine.get?] using hc
        rw [hj, hn]
      · rfl
  ids := by
    intro j d hd
    rw [get?_remove] at hd
    split at hd
    · cases hd
    · exact h.ids hd

theorem Consistent.add {e : Engine} (h : e.Consistent) (d : Document) : (e.add d).Consistent where
  lockstep := (h.remove d.id).lockstep.add d
  terms := by
    intro j
    rw [get?_add, Engine.add, Index.termsOf_add, (h.remove d.id).terms, get?_remove]
    by_cases hj : j = d.id <;> simp [hj]
  ids := by
    intro j c hc
    rw [get?_add] at hc
    split at hc
    · rename_i hj
      cases hc
      exact hj.symm
    · exact h.ids hc

theorem Consistent.foldl_add {e : Engine} (h : e.Consistent) (ds : List Document) :
    (ds.foldl Engine.add e).Consistent := by
  induction ds generalizing e with
  | nil => exact h
  | cons d ds ih => exact ih (h.add d)

theorem Consistent.foldl_remove {e : Engine} (h : e.Consistent) (ids : List Text) :
    (ids.foldl Engine.remove e).Consistent := by
  induction ids generalizing e with
  | nil => exact h
  | cons id ids ih => exact ih (h.remove id)

theorem Consistent.apply {e : Engine} (h : e.Consistent) (upserts : List Document)
    (removals : List Text) : (e.apply upserts removals).1.Consistent := by
  rw [Engine.apply, removeAll_fst]
  exact (h.foldl_add upserts).foldl_remove removals

theorem Consistent.rebuild (e : Engine) (ds : List Document) : (e.rebuild ds).Consistent :=
  (consistent_clear e).foldl_add ds

inductive Command
  | add (d : Document)
  | update (d : Document)
  | remove (id : Text)
  | apply (upserts : List Document) (removals : List Text)
  | rebuild (ds : List Document)

def perform (e : Engine) : Command → Engine
  | .add d => e.add d
  | .update d => e.update d
  | .remove id => e.remove id
  | .apply upserts removals => (e.apply upserts removals).1
  | .rebuild ds => e.rebuild ds

inductive Reachable : Engine → Prop
  | empty (threshold : Number.Binary64) (strict : Bool) :
      Reachable { threshold := threshold, strict := strict }
  | perform {e : Engine} (h : Reachable e) (c : Command) : Reachable (e.perform c)

theorem Reachable.foldl {e : Engine} (h : Reachable e) (cs : List Command) :
    Reachable (cs.foldl Engine.perform e) := by
  induction cs generalizing e with
  | nil => exact h
  | cons c cs ih => exact ih (h.perform c)

theorem Consistent.perform {e : Engine} (h : e.Consistent) (c : Command) :
    (e.perform c).Consistent := by
  cases c with
  | add d => exact h.add d
  | update d => exact (h.remove d.id).add d
  | remove id => exact h.remove id
  | apply upserts removals => exact h.apply upserts removals
  | rebuild ds => exact Consistent.rebuild e ds

theorem Reachable.consistent {e : Engine} (h : Reachable e) : e.Consistent := by
  induction h with
  | empty threshold strict => exact consistent_clear { threshold := threshold, strict := strict }
  | perform _ c ih => exact ih.perform c

/-- An engine's index finds a document under some terms exactly if they are all among its own. -/
theorem Consistent.mem_index_candidates_iff {e : Engine} (h : e.Consistent) {required : List Text}
    {id : Text} {d : Document} (hd : e.get? id = some d) :
    id ∈ e.index.candidates required ↔ ∀ t ∈ required, t ∈ d.terms := by
  have hterms : e.index.termsOf.get? id = some d.terms := by rw [h.terms, hd, Option.map_some]
  cases required with
  | nil =>
      have hlisted : id ∈ e.index.documentIds := Table.mem_keys_iff.mpr ⟨_, hterms⟩
      simpa [Index.candidates, Index.narrow] using hlisted
  | cons t ts =>
      rw [Index.mem_candidates_iff _ (List.cons_ne_nil t ts)]
      simp only [h.lockstep.mem_lookup, Index.termsFor, hterms, Option.getD_some]

/-- Looking terms up in the index is the same as testing each document for them. -/
theorem Consistent.under_eq_filter {e : Engine} (h : e.Consistent) (required : List Text) :
    e.under required = e.toList.filter fun d => required.all d.terms.elem := by
  rw [under]
  cases required with
  | nil => exact (List.filter_eq_self.mpr fun _ _ => rfl).symm
  | cons t ts =>
      rw [if_neg (by simp), toList, Table.values, List.filter_map]
      refine congrArg (List.map Prod.snd) (List.filter_congr ?_)
      rintro ⟨id, d⟩ hm
      have hd : e.get? id = some d := Table.get?_eq_some_iff.mpr hm
      rw [Bool.eq_iff_iff]
      simp only [List.elem_eq_mem, decide_eq_true_eq, Function.comp_apply, List.all_eq_true,
        h.mem_index_candidates_iff hd]

end VaultSearch.Engine
