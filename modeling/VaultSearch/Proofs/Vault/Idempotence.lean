import VaultSearch.Proofs.Vault.History

namespace VaultSearch.Vault

open Note

namespace Catalog

variable {c : Catalog} {d : Disk} {root : Location} {n : NoteFile}

theorem sameTime_self (a : Rat) : sameTime a a = true := by
  rw [sameTime, Rat.sub_self]
  decide +kernel

/-- A pass has nothing to do about a note: it has the recorded time, or it cannot be read. A note
that cannot be read is tried again by each pass. -/
def Settled (d : Disk) (root : Location) (known : Option Seen) (n : NoteFile) : Prop :=
  timeRecorded known n = true ∨ (digestRecorded known n = false ∧ readText d root n = none)

theorem lookAt_of_settled {x : Changes} (h : Settled d root (x.seen.get? n.path) n) :
    lookAt d root x n = .ok x := by
  rw [lookAt_eq]
  rcases h with ht | ⟨hd, hnone⟩
  · rw [if_pos ht]
  · rw [hd, if_neg Bool.false_ne_true, readDocument_eq_none_iff.mpr hnone]
    exact ite_self _

theorem lookAll_of_settled {x : Changes} {ns : List NoteFile}
    (h : ∀ n ∈ ns, Settled d root (x.seen.get? n.path) n) : lookAll d root x ns = (x, none) := by
  induction ns with
  | nil => rfl
  | cons n ns ih =>
      obtain ⟨hn, hns⟩ := List.forall_mem_cons.mp h
      rw [lookAll, lookAt_of_settled hn]
      exact ih hns

/-- Whatever was recorded of a note before a look at it, what is recorded after it settles it. -/
theorem settled_recordAfter {known : Option Seen}
    (h : passesOver known n = true ∨ (document? d root n).isSome ∨ readText d root n = none) :
    Settled d root (recordAfter d root known n) n := by
  rw [recordAfter]
  cases ht : timeRecorded known n with
  | true =>
      rw [if_pos rfl]
      exact .inl ht
  | false =>
      rw [if_neg Bool.false_ne_true]
      split
      · exact .inl (sameTime_self n.time)
      · rename_i hno
        simp only [Bool.or_eq_true, not_or, Bool.not_eq_true] at hno
        simp only [passesOver, ht, hno, Bool.or_self, Bool.false_eq_true, false_or] at h
        exact .inr ⟨hno.1, h⟩

theorem Complete.settled {x y : Changes} {ns : List NoteFile} (h : Complete d root x ns y)
    (hn : n ∈ ns) : Settled d root (y.seen.get? n.path) n := by
  rw [h.record n hn]
  apply settled_recordAfter
  cases ht : taken d root x.seen n with
  | some doc => exact .inr (.inl (by rw [(recordAfter_of_taken ht).1, Option.isSome_some]))
  | none => exact (h.of_taken_eq_none n hn ht).imp_right .inr

/-- All notes are settled, and there are records of no others. -/
structure AtRest (d : Disk) (c : Catalog) : Prop where
  settled : ∀ n ∈ walk d c.root, Settled d c.root (c.seen.get? n.path) n
  walked : ∀ p ∈ c.seen.keys, p ∈ (walk d c.root).map NoteFile.path

theorem AtRest.gone_eq_nil (h : AtRest d c) :
    gone ((walk d c.root).map NoteFile.path) c.seen = [] :=
  List.eq_nil_iff_forall_not_mem.mpr fun p hp =>
    (mem_gone.mp hp).2 (h.walked p (mem_gone.mp hp).1)

theorem AtRest.sync_eq (h : AtRest d c) : c.sync d = (c, .ok (0, 0, 0)) := by
  have hgone := h.gone_eq_nil
  rw [gone] at hgone
  rw [sync, lookAll_of_settled h.settled]
  simp only [hgone]
  rfl

/-- Whatever state it begins in, a sync that does not fail comes to rest. -/
theorem atRest_sync (hd : d.Named) (h : (c.sync d).2.isOk = true) : AtRest d (c.sync d).1 := by
  obtain ⟨x, hla, -, hseen⟩ := sync_cases h
  have hpass := lookAll_complete (walk_nodup_paths hd c.root) hla
  constructor
  · intro n hn
    rw [sync_root] at hn ⊢
    have hstay : n.path ∉ gone ((walk d c.root).map NoteFile.path) x.seen :=
      fun hgone => (mem_gone.mp hgone).2 (List.mem_map_of_mem hn)
    rw [hseen, Table.get?_foldl_erase, if_neg hstay]
    exact hpass.settled hn
  · intro p hp
    rw [sync_root]
    by_contra hno
    have hnone := (sync_unwalked hd h hno).2
    exact Table.get?_eq_none_iff.mp hnone hp

end Catalog

namespace World

variable {w : World}

theorem next_sync_of_atRest (h : Catalog.AtRest w.disk w.catalog) : w.next .sync = w := by
  rw [next, h.sync_eq]

theorem run_sync_of_atRest (h : Catalog.AtRest w.disk w.catalog) (k : Nat) :
    w.run (List.replicate k .sync) = w := by
  induction k with
  | zero => rfl
  | succ k ih =>
      rw [List.replicate_succ', run_concat, ih]
      exact next_sync_of_atRest h

/-- After a sync that does not fail, a sync of the same disk reports no change and changes nothing,
and neither do any more of them. -/
theorem sync_idempotent (w : World) (h : List Step) (hret : (w.run h).returns .sync = true) :
    let v := w.run (h ++ [.sync])
    v.catalog.sync v.disk = (v.catalog, .ok (0, 0, 0)) ∧
      ∀ k, v.run (List.replicate k .sync) = v := by
  intro v
  have hrest : Catalog.AtRest v.disk v.catalog := by
    simp only [v, run_concat]
    exact Catalog.atRest_sync (w.run h).named hret
  exact ⟨hrest.sync_eq, run_sync_of_atRest hrest⟩

def withUnreadable : Disk :=
  let d := (Disk.withNote {} "b.md" "one" 1700000010000).write ["a.md".toList] ⟨[], 0⟩
  let d := d.write [['v'], "c.md".toList] ⟨[255], 0⟩
  d.put [['v'], "d.md".toList] (.link ["a.md".toList])

def unreadableAppear : List Step :=
  [.reindex, .edit withUnreadable (by decide +kernel)]

theorem sync_idempotent_unreadableAppear :
    let v := oneNote.run (unreadableAppear ++ [.sync])
    ((oneNote.run unreadableAppear).returns .sync = true ∧ v.walk.length = 3 ∧ v.seen.size = 1) ∧
      v.catalog.sync v.disk = (v.catalog, .ok (0, 0, 0)) ∧
        ∀ k, v.run (List.replicate k .sync) = v := by
  have hret : (oneNote.run unreadableAppear).returns .sync = true := by decide +kernel
  exact ⟨⟨hret, by decide +kernel, by decide +kernel⟩,
    sync_idempotent oneNote unreadableAppear hret⟩

end World

end VaultSearch.Vault
