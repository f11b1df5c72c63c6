import VaultSearch.Proofs.Engine.Batch
import VaultSearch.Proofs.Except
import VaultSearch.Proofs.Vault.Convergence

namespace VaultSearch.Vault

open Note

namespace Catalog

variable {d : Disk} {root : Location}

def isAdded (d : Disk) (root : Location) (seen : Table Text Seen) (n : NoteFile) : Bool :=
  (taken d root seen n).isSome && (seen.get? n.path).isNone

def isUpdated (d : Disk) (root : Location) (seen : Table Text Seen) (n : NoteFile) : Bool :=
  (taken d root seen n).isSome && (seen.get? n.path).isSome

theorem lookAt_counts {x y : Changes} {n : NoteFile} (h : lookAt d root x n = .ok y) :
    y.added = x.added + (isAdded d root x.seen n).toNat ∧
      y.updated = x.updated + (isUpdated d root x.seen n).toNat := by
  rw [lookAt_eq] at h
  rw [isAdded, isUpdated, taken, passesOver]
  cases ht : timeRecorded (x.seen.get? n.path) n with
  | true =>
      rw [ht, if_pos rfl] at h
      cases h
      simp
  | false =>
      rw [ht, if_neg Bool.false_ne_true] at h
      cases hd : digestRecorded (x.seen.get? n.path) n with
      | true =>
          rw [hd, if_pos rfl] at h
          cases h
          simp
      | false =>
          rw [hd, if_neg Bool.false_ne_true] at h
          cases hr : readDocument d root n with
          | error err =>
              rw [hr] at h
              cases h
          | ok found =>
              rw [hr] at h
              cases h
              rw [document?, hr]
              cases found with
              | none => simp [afterReading, Except.toOption]
              | some doc =>
                  cases hk : x.seen.get? n.path <;> simp [afterReading, Except.toOption, hk]

/-- A pass counts the notes that it takes up, by what was recorded before it. -/
theorem lookAll_counts {x y : Changes} {ns : List NoteFile}
    (hnodup : (ns.map NoteFile.path).Nodup) (h : lookAll d root x ns = (y, none)) :
    y.added = x.added + ns.countP (isAdded d root x.seen) ∧
      y.updated = x.updated + ns.countP (isUpdated d root x.seen) := by
  induction ns generalizing x with
  | nil =>
      cases h
      exact ⟨rfl, rfl⟩
  | cons n ns ih =>
      obtain ⟨hn, hns⟩ := List.nodup_cons.mp hnodup
      obtain ⟨z, hl, hla⟩ := lookAll_cons h
      obtain ⟨hadded, hupdated⟩ := lookAt_counts hl
      obtain ⟨hrest, hrest'⟩ := ih hns hla
      have hkeep : ∀ m ∈ ns, z.seen.get? m.path = x.seen.get? m.path := fun m hm =>
        (lookAt_cases hl).record_of_notMem hn hm
      have hnew : ns.countP (isAdded d root z.seen) = ns.countP (isAdded d root x.seen) := by
        refine List.countP_congr fun m hm => ?_
        rw [isAdded, isAdded, taken_congr (hkeep m hm), hkeep m hm]
      have hchanged :
          ns.countP (isUpdated d root z.seen) = ns.countP (isUpdated d root x.seen) := by
        refine List.countP_congr fun m hm => ?_
        rw [isUpdated, isUpdated, taken_congr (hkeep m hm), hkeep m hm]
      rw [List.countP_cons, List.countP_cons]
      constructor
      · rw [hrest, hadded, hnew]
        cases isAdded d root x.seen n <;> simp
        omega
      · rw [hrest', hupdated, hchanged]
        cases isUpdated d root x.seen n <;> simp
        omega

theorem gone_put {paths : List Text} {seen : Table Text Seen} {p : Text} (hp : p ∈ paths)
    (k : Seen) : gone paths (seen.put p k) = gone paths seen := by
  rw [gone, gone, Table.keys, Table.put]
  split
  · rw [Table.map_fst_replace]
    rfl
  · rw [List.map_append, List.filter_append]
    simp [Table.keys, hp]

theorem Look.gone {x y : Changes} {n : NoteFile} (h : Look d root x n y) {paths : List Text}
    (hn : n.path ∈ paths) : Catalog.gone paths y.seen = Catalog.gone paths x.seen := by
  cases h with
  | sameTime | unread => rfl
  | sameDigest | read => exact gone_put hn _

/-- What is gone is the same before a pass and after it. -/
theorem lookAll_gone {x y : Changes} {ns : List NoteFile} {paths : List Text}
    (hsub : ∀ n ∈ ns, n.path ∈ paths) (h : lookAll d root x ns = (y, none)) :
    gone paths y.seen = gone paths x.seen := by
  induction ns generalizing x with
  | nil =>
      cases h
      rfl
  | cons n ns ih =>
      obtain ⟨hn, hns⟩ := List.forall_mem_cons.mp hsub
      obtain ⟨z, hl, hla⟩ := lookAll_cons h
      exact (ih hns hla).trans ((lookAt_cases hl).gone hn)

end Catalog

namespace World

variable {w : World}

def ids (w : World) : List Text := w.engine.documents.keys

theorem mem_ids_iff {id : Text} : id ∈ w.ids ↔ w.engine.contains id = true :=
  Table.contains_iff.symm

theorem nodup_ids (w : World) : w.ids.Nodup := w.engine.documents.nodup_keys

def Agrees (w : World) : Prop := ∀ id, id ∈ w.seen.keys ↔ id ∈ w.ids

theorem IsNew.agrees_run (hw : w.IsNew) {h : List Step} (hall : w.allReturn h = true) :
    (w.run h).Agrees := by
  intro id
  rw [mem_ids_iff, Engine.contains_iff]
  constructor
  · intro hk
    obtain ⟨k, hk⟩ := Table.mem_keys_iff.mp hk
    obtain ⟨doc, hdoc, -⟩ := hw.faithful_run hall (List.Subset.refl _) id k hk
    exact ⟨doc, hdoc⟩
  · intro hdoc
    by_contra hno
    exact hw.not_orphan_run hall id ⟨hdoc, Table.get?_eq_none_iff.mpr hno⟩

def readings (w : World) : List Document :=
  w.walk.filterMap (Catalog.taken w.disk w.root w.seen)

def gone (w : World) : List Text := Catalog.gone (w.walk.map NoteFile.path) w.seen

theorem mem_readings_iff {id : Text} : id ∈ w.readings.map Document.id ↔
    ∃ n ∈ w.walk, n.path = id ∧ (Catalog.taken w.disk w.root w.seen n).isSome = true := by
  simp only [readings, List.mem_map, List.mem_filterMap, Option.isSome_iff_exists]
  constructor
  · rintro ⟨doc, ⟨n, hn, ht⟩, rfl⟩
    exact ⟨n, hn, (Catalog.id_of_taken ht).symm, doc, ht⟩
  · rintro ⟨n, hn, rfl, doc, ht⟩
    exact ⟨doc, ⟨n, hn, ht⟩, Catalog.id_of_taken ht⟩

theorem not_mem_gone_of_mem_readings {id : Text} (h : id ∈ w.readings.map Document.id) :
    id ∉ w.gone := by
  obtain ⟨n, hn, rfl, -⟩ := mem_readings_iff.mp h
  exact fun hgone => (Catalog.mem_gone.mp hgone).2 (List.mem_map_of_mem hn)

/-- A sync hands the engine one batch, and takes two of its counts from the records before it. -/
theorem sync_batch {added updated deleted : Nat}
    (h : (w.catalog.sync w.disk).2 = .ok (added, updated, deleted)) :
    (w.next .sync).engine = (w.engine.apply w.readings w.gone).1 ∧
      added = w.walk.countP (Catalog.isAdded w.disk w.root w.seen) ∧
      updated = w.walk.countP (Catalog.isUpdated w.disk w.root w.seen) ∧
      deleted = (w.engine.apply w.readings w.gone).2.2 := by
  have hnodup := walk_nodup_paths w.named w.root
  change (w.catalog.sync w.disk).1.engine = _ ∧ _
  rw [Catalog.sync] at h ⊢
  split at h
  · cases h
  · rename_i x hla
    obtain ⟨hadded, hupdated⟩ := Catalog.lookAll_counts hnodup hla
    have hups : x.upserts = w.readings :=
      (Catalog.lookAll_complete hnodup hla).upserts.trans (List.nil_append _)
    have hgone : x.seen.keys.filter (!(w.walk.map NoteFile.path).elem ·) = w.gone :=
      Catalog.lookAll_gone (fun n hn => List.mem_map_of_mem hn) hla
    simp only [Except.ok.injEq, Prod.mk.injEq] at h
    obtain ⟨rfl, rfl, rfl⟩ := h
    refine ⟨?_, hadded.trans (Nat.zero_add _), hupdated.trans (Nat.zero_add _), ?_⟩
    · rw [← hups, ← hgone]
      rfl
    · rw [← hups, ← hgone]
      rfl

theorem length_filter_notMem_add {xs ys : List Text} (hxs : xs.Nodup) (hys : ys.Nodup) :
    xs.length + (ys.filter (· ∉ xs)).length = ys.length + (xs.filter (· ∉ ys)).length := by
  have hcommon : (xs.filter (· ∈ ys)).Perm (ys.filter (· ∈ xs)) := by
    rw [List.perm_ext_iff_of_nodup (hxs.filter _) (hys.filter _)]
    intro id
    simp [and_comm]
  have hx := List.length_eq_length_filter_add (l := xs) (· ∈ ys)
  have hy := List.length_eq_length_filter_add (l := ys) (· ∈ xs)
  simp only [← decide_not] at hx hy
  have := hcommon.length_eq
  omega

/-- What a sync reports. A document is replaced when the batch that the sync hands to the engine has
a new one of its id. -/
structure Reports (w : World) (counts : Nat × Nat × Nat) : Prop where
  batch : (w.next .sync).engine = (w.engine.apply w.readings w.gone).1
  added : counts.1 = ((w.next .sync).ids.filter (· ∉ w.ids)).length
  updated : counts.2.1 = (w.ids.filter fun id =>
    id ∈ (w.next .sync).ids ∧ id ∈ w.readings.map Document.id).length
  deleted : counts.2.2 = (w.ids.filter (· ∉ (w.next .sync).ids)).length
  size : (w.next .sync).engine.size + counts.2.2 = w.engine.size + counts.1

/-- Notes of one sort are as many as the ids that are their paths. -/
theorem countP_walk {p : NoteFile → Bool} {ids : List Text} (hids : ids.Nodup)
    (hmem : ∀ id, id ∈ ids ↔ ∃ n ∈ w.walk, n.path = id ∧ p n = true) :
    w.walk.countP p = ids.length := by
  have hpaths : ((w.walk.filter p).map NoteFile.path).Nodup :=
    (walk_nodup_paths w.named w.root).sublist (List.filter_sublist.map _)
  have hperm : ((w.walk.filter p).map NoteFile.path).Perm ids := by
    rw [List.perm_ext_iff_of_nodup hpaths hids]
    intro id
    rw [hmem, List.mem_map]
    simp only [List.mem_filter, and_assoc, and_comm (a := p _ = true)]
  rw [List.countP_eq_length_filter, ← hperm.length_eq, List.length_map]

theorem mem_ids_next_sync {counts : Nat × Nat × Nat}
    (hsync : (w.catalog.sync w.disk).2 = .ok counts) {id : Text} :
    id ∈ (w.next .sync).ids ↔
      id ∉ w.gone ∧ (id ∈ w.ids ∨ id ∈ w.readings.map Document.id) := by
  rw [mem_ids_iff, (sync_batch hsync).1, Engine.contains_apply, mem_ids_iff]

section Counts

variable {counts : Nat × Nat × Nat} (hw : w.Agrees)
  (hsync : (w.catalog.sync w.disk).2 = .ok counts) {id : Text}

include hw hsync

theorem Agrees.mem_added_iff : id ∈ (w.next .sync).ids.filter (· ∉ w.ids) ↔
    ∃ n ∈ w.walk, n.path = id ∧ Catalog.isAdded w.disk w.root w.seen n = true := by
  have hread : id ∈ w.readings.map Document.id → id ∉ w.gone := not_mem_gone_of_mem_readings
  have hnew : id ∈ (w.next .sync).ids.filter (· ∉ w.ids) ↔
      id ∈ w.readings.map Document.id ∧ id ∉ w.seen.keys := by
    rw [List.mem_filter, mem_ids_next_sync hsync, decide_eq_true_eq, hw]
    tauto
  rw [hnew, mem_readings_iff]
  constructor
  · rintro ⟨⟨n, hn, rfl, ht⟩, hk⟩
    exact ⟨n, hn, rfl, by simp [Catalog.isAdded, ht, Table.get?_eq_none_iff, hk]⟩
  · rintro ⟨n, hn, rfl, hp⟩
    simp only [Catalog.isAdded, Bool.and_eq_true, Option.isNone_iff_eq_none,
      Table.get?_eq_none_iff] at hp
    exact ⟨⟨n, hn, rfl, hp.1⟩, hp.2⟩

theorem Agrees.mem_updated_iff :
    id ∈ (w.ids.filter fun id => id ∈ (w.next .sync).ids ∧ id ∈ w.readings.map Document.id) ↔
      ∃ n ∈ w.walk, n.path = id ∧ Catalog.isUpdated w.disk w.root w.seen n = true := by
  have hread : id ∈ w.readings.map Document.id → id ∉ w.gone := not_mem_gone_of_mem_readings
  have hold : id ∈ (w.ids.filter fun id =>
      id ∈ (w.next .sync).ids ∧ id ∈ w.readings.map Document.id) ↔
        id ∈ w.readings.map Document.id ∧ id ∈ w.seen.keys := by
    rw [List.mem_filter, decide_eq_true_eq, mem_ids_next_sync hsync, hw]
    tauto
  rw [hold, mem_readings_iff]
  constructor
  · rintro ⟨⟨n, hn, rfl, ht⟩, hk⟩
    obtain ⟨k, hk⟩ := Table.mem_keys_iff.mp hk
    exact ⟨n, hn, rfl, by simp [Catalog.isUpdated, ht, hk]⟩
  · rintro ⟨n, hn, rfl, hp⟩
    rw [Catalog.isUpdated, Bool.and_eq_true] at hp
    exact ⟨⟨n, hn, rfl, hp.1⟩, Table.mem_keys_iff.mpr (Option.isSome_iff_exists.mp hp.2)⟩

theorem Agrees.mem_deleted_iff : id ∈ w.ids.filter (· ∉ (w.next .sync).ids) ↔ id ∈ w.gone := by
  have hgone : id ∈ w.gone → id ∈ w.ids := fun hid => (hw id).mp (Catalog.mem_gone.mp hid).1
  rw [List.mem_filter, decide_eq_true_eq, mem_ids_next_sync hsync]
  tauto

end Counts

theorem nodup_gone (w : World) : w.gone.Nodup := w.seen.nodup_keys.filter _

theorem Agrees.reports (hw : w.Agrees) {counts : Nat × Nat × Nat}
    (hsync : (w.catalog.sync w.disk).2 = .ok counts) : Reports w counts := by
  obtain ⟨hbatch, hadded, hupdated, hdeleted⟩ := sync_batch hsync
  replace hadded : counts.1 = ((w.next .sync).ids.filter (· ∉ w.ids)).length :=
    hadded.trans (countP_walk ((nodup_ids _).filter _) fun _ => hw.mem_added_iff hsync)
  replace hdeleted : counts.2.2 = (w.ids.filter (· ∉ (w.next .sync).ids)).length := by
    -- What is gone was in the engine, and each id of it once, so that each removal counts.
    have hall : ∀ id ∈ w.gone.dedup,
        decide (w.engine.contains id ∨ id ∈ w.readings.map Document.id) = true := by
      intro id hid
      have hmem := (hw id).mp (Catalog.mem_gone.mp (List.mem_dedup.mp hid)).1
      simp [mem_ids_iff.mp hmem]
    have hperm : (w.ids.filter (· ∉ (w.next .sync).ids)).Perm w.gone := by
      rw [List.perm_ext_iff_of_nodup ((nodup_ids _).filter _) (nodup_gone w)]
      exact fun _ => hw.mem_deleted_iff hsync
    rw [hdeleted, Engine.apply_counts, List.filter_eq_self.mpr hall, (nodup_gone w).dedup,
      hperm.length_eq]
  refine ⟨hbatch, hadded,
    hupdated.trans (countP_walk ((nodup_ids _).filter _) fun _ => hw.mem_updated_iff hsync),
    hdeleted, ?_⟩
  have hsize := length_filter_notMem_add (nodup_ids (w.next .sync)) (nodup_ids w)
  rw [← hadded, ← hdeleted] at hsize
  simpa [ids, Engine.size, Table.keys, Table.size] using hsize

/-- While nothing fails, the records are of the documents in the engine, and a sync reports what
changes in it. -/
theorem agrees_and_reports (hw : w.IsNew) (h : List Step) (hall : w.allReturn h = true) :
    (w.run h).Agrees ∧
      ∀ counts, ((w.run h).catalog.sync (w.run h).disk).2 = .ok counts →
        Reports (w.run h) counts :=
  ⟨hw.agrees_run hall, fun _ => (hw.agrees_run hall).reports⟩

def threeChanges : List Step :=
  [.edit (oneNote.disk.withNote "a.md" "old" 1700000000000) (by decide +kernel), .reindex,
    .edit ((Disk.withNote {} "b.md" "two" 1700000010000).withNote "c.md" "new" 1700000010000)
      (by decide +kernel)]

theorem agrees_and_reports_threeChanges :
    (oneNote.IsNew ∧ oneNote.allReturn threeChanges = true ∧
      ((oneNote.run threeChanges).catalog.sync (oneNote.run threeChanges).disk).2 =
        .ok (1, 1, 1)) ∧
      (oneNote.run threeChanges).Agrees ∧ Reports (oneNote.run threeChanges) (1, 1, 1) := by
  have hall : oneNote.allReturn threeChanges = true := by decide +kernel
  have hsync : ((oneNote.run threeChanges).catalog.sync (oneNote.run threeChanges).disk).2 =
      .ok (1, 1, 1) := eq_ok_of_toOption (by decide +kernel)
  have h := agrees_and_reports isNew_oneNote threeChanges hall
  exact ⟨⟨isNew_oneNote, hall, hsync⟩, h.1, h.2 _ hsync⟩

end World

end VaultSearch.Vault
