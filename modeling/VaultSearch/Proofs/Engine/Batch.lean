import Mathlib.Data.List.Dedup
import VaultSearch.Proofs.Engine
import VaultSearch.Proofs.Index.Refinement

namespace VaultSearch.Engine

open Note

variable {e : Engine}

def newest : List Document → List Document
  | [] => []
  | d :: ds => if d.id ∈ ds.map Document.id then newest ds else d :: newest ds

theorem map_id_newest (ds : List Document) :
    (newest ds).map Document.id = (ds.map Document.id).dedup := by
  induction ds with
  | nil => rfl
  | cons d ds ih =>
      rw [newest, List.map_cons]
      split
      · rename_i hlater
        rw [List.dedup_cons_of_mem hlater, ih]
      · rename_i hlast
        rw [List.dedup_cons_of_notMem hlast, List.map_cons, ih]

section Order

theorem entries_remove (e : Engine) (id : Text) :
    (e.remove id).documents.entries = e.documents.entries.filter (·.1 ≠ id) := by
  rw [remove]
  split
  · rfl
  · rename_i hc
    have hk : id ∉ e.documents.keys := fun hk => hc (Table.contains_iff.mpr hk)
    refine (List.filter_eq_self.mpr fun x hx => ?_).symm
    rw [decide_eq_true_eq]
    rintro rfl
    exact hk (List.mem_map_of_mem hx)

theorem entries_add (e : Engine) (d : Document) :
    (e.add d).documents.entries = e.documents.entries.filter (·.1 ≠ d.id) ++ [(d.id, d)] := by
  have hgone : d.id ∉ (e.remove d.id).documents.keys := by
    rw [Table.keys, entries_remove]
    simp
  rw [← entries_remove, add, Table.put, dif_neg hgone]

theorem Consistent.filter_values (h : e.Consistent) (p : Text → Bool) :
    (e.documents.entries.filter fun x => p x.1).map Prod.snd = e.toList.filter fun d => p d.id := by
  rw [toList, Table.values, List.filter_map]
  refine congrArg (List.map Prod.snd) (List.filter_congr ?_)
  rintro ⟨id, d⟩ hx
  rw [Function.comp_apply, h.ids (Table.get?_eq_some_iff.mpr hx)]

theorem Consistent.toList_remove (h : e.Consistent) (id : Text) :
    (e.remove id).toList = e.toList.filter (·.id ≠ id) := by
  rw [toList, Table.values, entries_remove]
  exact h.filter_values fun j => j ≠ id

/-- A document that is put goes to the end, wherever it was. -/
theorem Consistent.toList_add (h : e.Consistent) (d : Document) :
    (e.add d).toList = e.toList.filter (·.id ≠ d.id) ++ [d] := by
  rw [toList, Table.values, entries_add, List.map_append]
  exact congrArg (· ++ [d]) (h.filter_values fun j => j ≠ d.id)

theorem Consistent.toList_foldl_add (h : e.Consistent) (ds : List Document) :
    (ds.foldl Engine.add e).toList =
      (e.toList.filter fun d => d.id ∉ ds.map Document.id) ++ newest ds := by
  induction ds generalizing e with
  | nil => simp [newest]
  | cons d ds ih =>
      have hrest : (e.toList.filter (·.id ≠ d.id)).filter (fun c => c.id ∉ ds.map Document.id) =
          e.toList.filter fun c => c.id ∉ (d :: ds).map Document.id := by
        rw [List.filter_filter]
        refine List.filter_congr fun c _ => ?_
        simp [Bool.and_comm]
      rw [List.foldl_cons, ih (h.add d), h.toList_add, List.filter_append, hrest, newest,
        List.append_assoc]
      by_cases hlater : d.id ∈ ds.map Document.id
      · rw [if_pos hlater, List.filter_cons_of_neg (by simpa using hlater), List.filter_nil,
          List.nil_append]
      · rw [if_neg hlater, List.filter_cons_of_pos (by simpa using hlater), List.filter_nil,
          List.singleton_append]

theorem Consistent.toList_foldl_remove (h : e.Consistent) (ids : List Text) :
    (ids.foldl Engine.remove e).toList = e.toList.filter (·.id ∉ ids) := by
  induction ids generalizing e with
  | nil => simp
  | cons id ids ih =>
      rw [List.foldl_cons, ih (h.remove id), h.toList_remove, List.filter_filter]
      refine List.filter_congr fun d _ => ?_
      simp [Bool.and_comm]

/-- What a batch does not touch keeps its place, and what it puts follows in the order of the last
times that it is put. -/
theorem Consistent.toList_apply (h : e.Consistent) (upserts : List Document)
    (removals : List Text) :
    (e.apply upserts removals).1.toList =
      (e.toList.filter fun d => d.id ∉ upserts.map Document.id ∧ d.id ∉ removals) ++
        (newest upserts).filter (·.id ∉ removals) := by
  rw [Engine.apply, removeAll_fst, (h.foldl_add upserts).toList_foldl_remove, h.toList_foldl_add,
    List.filter_append, List.filter_filter]
  congr 1
  refine List.filter_congr fun d _ => ?_
  simp [Bool.and_comm]

end Order

section Counting

theorem contains_remove {id j : Text} :
    (e.remove id).contains j = true ↔ j ≠ id ∧ e.contains j = true := by
  rw [contains_iff, contains_iff, get?_remove]
  by_cases hj : j = id <;> simp [hj]

theorem contains_add {d : Document} {id : Text} :
    (e.add d).contains id = true ↔ id = d.id ∨ e.contains id = true := by
  rw [contains_iff, contains_iff, get?_add]
  by_cases hid : id = d.id <;> simp [hid]

theorem contains_foldl_add {ds : List Document} {id : Text} :
    (ds.foldl add e).contains id = true ↔ e.contains id = true ∨ id ∈ ds.map Document.id := by
  induction ds generalizing e with
  | nil => simp
  | cons d ds ih =>
      rw [List.foldl_cons, ih, contains_add, List.map_cons, List.mem_cons]
      tauto

theorem contains_apply {upserts : List Document} {removals : List Text} {id : Text} :
    (e.apply upserts removals).1.contains id = true ↔
      id ∉ removals ∧ (e.contains id = true ∨ id ∈ upserts.map Document.id) := by
  rw [← contains_foldl_add, apply, removeAll_fst, contains_iff, contains_iff, get?_foldl_remove]
  by_cases hid : id ∈ removals <;> simp [hid]

theorem length_filter_dedup_cons (p : Text → Bool) (id : Text) (ids : List Text) :
    ((id :: ids).dedup.filter p).length =
      (if p id then 1 else 0) + (ids.dedup.filter fun j => j ≠ id ∧ p j).length := by
  have hnodup := List.nodup_dedup (id :: ids)
  have hrest := (List.nodup_dedup ids).filter fun j => j ≠ id ∧ p j
  cases hp : p id with
  | false =>
      have hperm : ((id :: ids).dedup.filter p).Perm (ids.dedup.filter fun j => j ≠ id ∧ p j) := by
        rw [List.perm_ext_iff_of_nodup (hnodup.filter p) hrest]
        intro j
        by_cases hj : j = id <;> simp [hj, hp]
      simp [hperm.length_eq]
  | true =>
      have hperm : ((id :: ids).dedup.filter p).Perm
          (id :: ids.dedup.filter fun j => j ≠ id ∧ p j) := by
        rw [List.perm_ext_iff_of_nodup (hnodup.filter p) (List.nodup_cons.mpr ⟨by simp, hrest⟩)]
        intro j
        by_cases hj : j = id <;> simp [hj, hp]
      rw [hperm.length_eq, List.length_cons, if_pos rfl, Nat.add_comm]

theorem foldl_remove_snd (e : Engine) (ids : List Text) (n : Nat) :
    (ids.foldl (fun (e, n) id => (e.remove id, if e.contains id then n + 1 else n)) (e, n)).2 =
      n + (ids.dedup.filter e.contains).length := by
  induction ids generalizing e n with
  | nil => rfl
  | cons id ids ih =>
      have hleft : (ids.dedup.filter (e.remove id).contains).length =
          (ids.dedup.filter fun j => j ≠ id ∧ e.contains j).length := by
        refine congrArg List.length (List.filter_congr fun j _ => ?_)
        rw [Bool.eq_iff_iff, contains_remove, decide_eq_true_eq]
      rw [List.foldl_cons, ih, length_filter_dedup_cons, hleft, ← Nat.add_assoc]
      congr 1
      split <;> rfl

/-- An id that is removed twice counts once, and one that is not there does not count. -/
theorem removeAll_snd (e : Engine) (ids : List Text) :
    (e.removeAll ids).2 = (ids.dedup.filter e.contains).length := by
  rw [removeAll, foldl_remove_snd, Nat.zero_add]

theorem apply_counts (e : Engine) (upserts : List Document) (removals : List Text) :
    (e.apply upserts removals).2 = (upserts.length, (removals.dedup.filter fun id =>
      e.contains id ∨ id ∈ upserts.map Document.id).length) := by
  change (upserts.length, ((upserts.foldl add e).removeAll removals).2) = _
  rw [removeAll_snd]
  refine congrArg (Prod.mk _) (congrArg List.length (List.filter_congr fun id _ => ?_))
  rw [Bool.eq_iff_iff, contains_foldl_add, decide_eq_true_eq]

theorem Consistent.size_rebuild (e : Engine) (ds : List Document) :
    (e.rebuild ds).size = (ds.map Document.id).dedup.length := by
  have hlist : (e.rebuild ds).toList = newest ds := (consistent_clear e).toList_foldl_add ds
  rw [← map_id_newest, List.length_map, ← hlist, toList, Table.values, List.length_map]
  rfl

end Counting

theorem Consistent.mirrors (h : e.Consistent) : e.index.Mirrors e.documents :=
  ⟨h.lockstep, h.terms⟩

/-- What a batch does to an ordered map in which all that is put moves to the end, and how many ids
it puts and removes. -/
structure Applied (e : Engine) (upserts : List Document) (removals : List Text)
    (after : Engine × Nat × Nat) : Prop where
  get? : ∀ id, after.1.get? id =
    if id ∈ removals then none else (lastOf upserts id).or (e.get? id)
  toList : after.1.toList =
    (e.toList.filter fun d => d.id ∉ upserts.map Document.id ∧ d.id ∉ removals) ++
      (newest upserts).filter (·.id ∉ removals)
  counts : after.2 = (upserts.length, (removals.dedup.filter fun id =>
    e.contains id ∨ id ∈ upserts.map Document.id).length)
  mirrors : after.1.index.Mirrors after.1.documents

/-- All changes of an engine are batches, and the index follows each of them. -/
theorem changes_are_batches (he : Reachable e) :
    (∀ upserts removals, Applied e upserts removals (e.apply upserts removals)) ∧
      (∀ d, e.add d = (e.apply [d] []).1 ∧ e.update d = (e.apply [d] []).1) ∧
      (∀ id, e.remove id = (e.apply [] [id]).1) ∧
      (∀ ds, e.rebuild ds =
          (({ threshold := e.threshold, strict := e.strict } : Engine).apply ds []).1 ∧
        (e.rebuild ds).size = (ds.map Document.id).dedup.length) ∧
      ∀ c, (e.perform c).index.Mirrors (e.perform c).documents := by
  have h := he.consistent
  refine ⟨fun upserts removals => ?_, fun d => ⟨rfl, update_eq_add e d⟩, fun id => rfl,
    fun ds => ⟨rfl, Consistent.size_rebuild e ds⟩, fun c => (h.perform c).mirrors⟩
  exact ⟨get?_apply e upserts removals, h.toList_apply upserts removals,
    apply_counts e upserts removals, (h.apply upserts removals).mirrors⟩

def threeNotes : Engine :=
  [Command.add { id := ['a'] }, .add { id := ['b'] }, .add { id := ['c'] },
    .update { id := ['b'], title := ['B'] }].foldl perform {}

def mixedUpserts : List Document :=
  [{ id := ['a'], title := ['1'] }, { id := ['d'] }, { id := ['e'] }, { id := ['a'], title := ['2'] }]

def mixedRemovals : List Text := [['c'], ['e'], ['x'], ['c']]

theorem changes_are_batches_mixed :
    Reachable threeNotes ∧
      (threeNotes.apply mixedUpserts mixedRemovals).1.toList =
        [{ id := ['b'], title := ['B'] }, { id := ['d'] }, { id := ['a'], title := ['2'] }] ∧
      (threeNotes.apply mixedUpserts mixedRemovals).2 = (4, 2) := by
  have hr : Reachable threeNotes := (Reachable.empty _ false).foldl _
  have h := (changes_are_batches hr).1 mixedUpserts mixedRemovals
  exact ⟨hr, h.toList.trans (by decide +kernel), h.counts.trans (by decide +kernel)⟩

end VaultSearch.Engine
