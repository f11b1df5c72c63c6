import VaultSearch.Proofs.Vault.Bookkeeping

namespace VaultSearch.Vault.World

open Note

variable {w : World}

/-- Each document is that of a note which is there. -/
def NoGhosts (w : World) : Prop :=
  ∀ id, w.engine.contains id = true → id ∈ w.walk.map NoteFile.path

def FailedReindex (w : World) (s : Step) : Prop := s = .reindex ∧ w.returns s = false

theorem orphan_iff_since (hw : w.IsNew) (h : List Step) (id : Text) :
    Orphan id (w.run h) ↔ w.Since h FailedReindex (Orphan id) := by
  constructor
  · apply since_of_begins (hw.not_orphan id)
    intro g s _ hbefore hafter
    exact hafter.begins hbefore
  · exact Since.now

/-- Of what is not walked, a sync leaves the orphans in the engine, and nothing else. -/
theorem contains_sync_iff (hret : w.returns .sync = true) {id : Text}
    (hid : id ∉ w.walk.map NoteFile.path) :
    (w.next .sync).engine.contains id = true ↔ Orphan id w := by
  have hengine : (w.next .sync).engine.get? id =
      if id ∈ w.seen.keys then none else w.engine.get? id :=
    (Catalog.sync_unwalked w.named hret hid).1
  rw [Engine.contains_iff, hengine, Orphan, Table.get?_eq_none_iff]
  by_cases hk : id ∈ w.seen.keys
  · simp [hk]
  · simp [hk]

/-- After a sync there are no ghosts but orphans, which are left behind by a reindex that failed. -/
theorem noGhosts_sync_iff (hw : w.IsNew) (h : List Step)
    (hret : (w.run h).returns .sync = true) :
    (w.run (h ++ [.sync])).NoGhosts ↔
      ∀ id, w.Since h FailedReindex (Orphan id) → id ∈ (w.run h).walk.map NoteFile.path := by
  rw [run_concat]
  constructor
  · intro hno id hs
    by_contra hid
    have hc := (contains_sync_iff hret hid).mpr hs.now
    have hwalked := hno id hc
    rw [walk_next_sync] at hwalked
    exact hid hwalked
  · intro hall id hc
    rw [walk_next_sync]
    by_contra hid
    have horphan := (contains_sync_iff hret hid).mp hc
    exact hid (hall id ((orphan_iff_since hw h id).mp horphan))

def emptied : Step := .edit (Disk.mkdir {} [['v']]) (by decide +kernel)

def brokenAdded : Step :=
  .edit ((oneNote.disk.withNote "a.md" "---\ncreated: 2024-02-30\n---\n") 1700000000000)
    (by decide +kernel)

theorem noGhosts_sync_iff_emptied :
    (oneNote.IsNew ∧ (oneNote.run [.reindex, emptied]).returns .sync = true) ∧
      ((oneNote.run ([.reindex, emptied] ++ [.sync])).NoGhosts ↔
        ∀ id, oneNote.Since [.reindex, emptied] FailedReindex (Orphan id) →
          id ∈ (oneNote.run [.reindex, emptied]).walk.map NoteFile.path) := by
  have hret : (oneNote.run [.reindex, emptied]).returns .sync = true := by decide +kernel
  exact ⟨⟨isNew_oneNote, hret⟩, noGhosts_sync_iff isNew_oneNote _ hret⟩

/-- A reindex fails at a note that then goes away with all others; a sync keeps one of them. -/
theorem ghost_after_failed_reindex :
    oneNote.IsNew ∧
      (oneNote.run [.reindex, brokenAdded, .reindex, emptied]).returns .sync = true ∧
      ¬(oneNote.run [.reindex, brokenAdded, .reindex, emptied, .sync]).NoGhosts := by
  refine ⟨isNew_oneNote, by decide +kernel, fun hno => ?_⟩
  have hc := hno "b.md".toList (by decide +kernel)
  exact absurd hc (by decide +kernel)

end VaultSearch.Vault.World
