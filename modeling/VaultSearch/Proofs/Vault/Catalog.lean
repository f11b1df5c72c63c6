import VaultSearch.Proofs.Vault.Pass

namespace VaultSearch.Vault.Catalog

open Note

variable {c : Catalog} {d : Disk} {root : Location}

theorem lastOf_filterMap {f : NoteFile → Option Document} {ns : List NoteFile}
    (hid : ∀ n doc, f n = some doc → doc.id = n.path) (hnodup : (ns.map NoteFile.path).Nodup)
    {n : NoteFile} (hn : n ∈ ns) : Engine.lastOf (ns.filterMap f) n.path = f n := by
  have only : ∀ m ∈ ns, ∀ doc, f m = some doc → doc.id = n.path → f n = some doc := by
    intro m hm doc hf hdoc
    have hmn := List.inj_on_of_nodup_map hnodup hm hn ((hid m doc hf).symm.trans hdoc)
    exact hmn ▸ hf
  cases hf : f n with
  | none =>
      refine Engine.lastOf_eq_none fun doc hdoc he => ?_
      obtain ⟨m, hm, hfm⟩ := List.mem_filterMap.mp hdoc
      cases hf.symm.trans (only m hm doc hfm he)
  | some doc =>
      refine Engine.lastOf_eq_some (List.mem_filterMap.mpr ⟨n, hn, hf⟩) (hid n doc hf) ?_
      intro other hother he
      obtain ⟨m, hm, hfm⟩ := List.mem_filterMap.mp hother
      exact Option.some.inj ((only m hm other hfm he).symm.trans hf)

theorem lastOf_filterMap_of_notMem {f : NoteFile → Option Document} {ns : List NoteFile}
    (hid : ∀ n doc, f n = some doc → doc.id = n.path) {p : Text}
    (hp : p ∉ ns.map NoteFile.path) : Engine.lastOf (ns.filterMap f) p = none := by
  refine Engine.lastOf_eq_none fun doc hdoc he => hp ?_
  obtain ⟨n, hn, hf⟩ := List.mem_filterMap.mp hdoc
  exact List.mem_map.mpr ⟨n, hn, (hid n doc hf).symm.trans he⟩

section Reading

variable {seen seen' : Table Text Seen} {ns : List NoteFile} {docs : List Document}

theorem readAll_record_of_notMem (d : Disk) (root : Location) (seen : Table Text Seen)
    {ns : List NoteFile} {p : Text} (hp : p ∉ ns.map NoteFile.path) :
    (readAll d root seen ns).1.get? p = seen.get? p := by
  induction ns generalizing seen with
  | nil => rfl
  | cons n ns ih =>
      rw [List.map_cons, List.mem_cons, not_or] at hp
      rw [readAll]
      split
      · rfl
      · exact ih seen hp.2
      · have hput := ih (seen.put n.path n.seen) hp.2
        rw [Table.get?_put, if_neg hp.1] at hput
        split <;> simp_all

theorem readAll_cons {n : NoteFile} (h : readAll d root seen (n :: ns) = (seen', .ok docs)) :
    (readText d root n = none ∧ readAll d root seen ns = (seen', .ok docs)) ∨
      ∃ doc rest, document? d root n = some doc ∧ docs = doc :: rest ∧
        readAll d root (seen.put n.path n.seen) ns = (seen', .ok rest) := by
  rw [readAll] at h
  cases hr : readDocument d root n with
  | error err => simp [hr] at h
  | ok found =>
      cases found with
      | none => exact .inl ⟨readDocument_eq_none_iff.mp hr, by simpa only [hr] using h⟩
      | some doc =>
          simp only [hr] at h
          cases hra : readAll d root (seen.put n.path n.seen) ns with
          | mk after result =>
              cases result with
              | error err => simp [hra] at h
              | ok rest =>
                  simp only [hra, Prod.mk.injEq, Except.ok.injEq] at h
                  obtain ⟨rfl, rfl⟩ := h
                  exact .inr ⟨doc, rest, document?_eq_some_iff.mpr hr, rfl, rfl⟩

/-- A reading that comes to its end has read all notes that have a text. -/
structure ReadThrough (d : Disk) (root : Location) (seen : Table Text Seen) (ns : List NoteFile)
    (seen' : Table Text Seen) (docs : List Document) : Prop where
  docs : docs = ns.filterMap (document? d root)
  record : ∀ n ∈ ns, seen'.get? n.path =
    if (document? d root n).isSome then some n.seen else seen.get? n.path

theorem readAll_through (hnodup : (ns.map NoteFile.path).Nodup)
    (h : readAll d root seen ns = (seen', .ok docs)) : ReadThrough d root seen ns seen' docs := by
  induction ns generalizing seen docs with
  | nil =>
      cases h
      exact ⟨rfl, by simp⟩
  | cons n ns ih =>
      obtain ⟨hn, hns⟩ := List.nodup_cons.mp hnodup
      have hne : ∀ m ∈ ns, m.path ≠ n.path := fun m hm he => hn (he ▸ List.mem_map_of_mem hm)
      rcases readAll_cons h with ⟨htext, hra⟩ | ⟨doc, rest, hdoc, rfl, hra⟩
      · have hnone := document?_of_readText htext
        have hrest := ih hns hra
        have hframe := readAll_record_of_notMem d root seen hn
        rw [hra] at hframe
        refine ⟨?_, List.forall_mem_cons.mpr ⟨?_, hrest.record⟩⟩
        · rw [hrest.docs, List.filterMap_cons_none hnone]
        · rw [hframe, hnone, Option.isSome_none, if_neg Bool.false_ne_true]
      · have hrest := ih hns hra
        have hframe := readAll_record_of_notMem d root (seen.put n.path n.seen) hn
        rw [hra] at hframe
        refine ⟨?_, List.forall_mem_cons.mpr ⟨?_, ?_⟩⟩
        · rw [hrest.docs, List.filterMap_cons_some hdoc]
        · rw [hframe, Table.get?_put, if_pos rfl, hdoc, Option.isSome_some, if_pos rfl]
        · intro m hm
          rw [hrest.record m hm, Table.get?_put, if_neg (hne m hm)]

end Reading

section Reindex

theorem reindex_root : (c.reindex d).1.root = c.root := by
  rw [reindex]
  split <;> rfl

theorem reindex_failed (h : (c.reindex d).2.isOk = false) :
    (c.reindex d).1.engine = c.engine := by
  rw [reindex] at h ⊢
  split at h
  · rfl
  · cases h

theorem reindex_cases (h : (c.reindex d).2.isOk = true) :
    ∃ docs, readAll d c.root {} (walk d c.root) = ((c.reindex d).1.seen, .ok docs) ∧
      (c.reindex d).1.engine = c.engine.rebuild docs := by
  rw [reindex] at h ⊢
  split at h
  · cases h
  · rename_i seen docs hra
    exact ⟨docs, hra, rfl⟩

theorem reindex_walked (hd : d.Named) (h : (c.reindex d).2.isOk = true) {n : NoteFile}
    (hn : n ∈ walk d c.root) :
    (c.reindex d).1.engine.get? n.path = document? d c.root n ∧
      (c.reindex d).1.seen.get? n.path =
        (if (document? d c.root n).isSome then some n.seen else none) := by
  obtain ⟨docs, hra, hengine⟩ := reindex_cases h
  have hthrough := readAll_through (walk_nodup_paths hd c.root) hra
  refine ⟨?_, hthrough.record n hn⟩
  rw [hengine, Engine.get?_rebuild, hthrough.docs]
  exact lastOf_filterMap (fun _ _ => id_of_document?) (walk_nodup_paths hd c.root) hn

theorem reindex_unwalked (hd : d.Named) (h : (c.reindex d).2.isOk = true) {p : Text}
    (hp : p ∉ (walk d c.root).map NoteFile.path) :
    (c.reindex d).1.engine.get? p = none ∧ (c.reindex d).1.seen.get? p = none := by
  obtain ⟨docs, hra, hengine⟩ := reindex_cases h
  constructor
  · rw [hengine, Engine.get?_rebuild, (readAll_through (walk_nodup_paths hd c.root) hra).docs]
    exact lastOf_filterMap_of_notMem (fun _ _ => id_of_document?) hp
  · have hframe := readAll_record_of_notMem d c.root {} hp
    rwa [hra] at hframe

end Reindex

section Sync

def gone (paths : List Text) (seen : Table Text Seen) : List Text :=
  seen.keys.filter (!paths.elem ·)

theorem mem_gone {paths : List Text} {seen : Table Text Seen} {p : Text} :
    p ∈ gone paths seen ↔ p ∈ seen.keys ∧ p ∉ paths := by
  simp [gone]

theorem sync_root : (c.sync d).1.root = c.root := by
  rw [sync]
  split <;> rfl

/-- A sync that fails has changed no document, and forgotten no record. -/
theorem sync_failed (h : (c.sync d).2.isOk = false) :
    (c.sync d).1.engine = c.engine ∧ ∀ p ∈ c.seen.keys, p ∈ (c.sync d).1.seen.keys := by
  rw [sync] at h ⊢
  split at h
  · rename_i x err hla
    refine ⟨rfl, fun p hp => ?_⟩
    have hkeep := lookAll_mem_keys d c.root { seen := c.seen } (walk d c.root) hp
    rwa [hla] at hkeep
  · cases h

theorem sync_cases (h : (c.sync d).2.isOk = true) :
    ∃ x, lookAll d c.root { seen := c.seen } (walk d c.root) = (x, none) ∧
      (c.sync d).1.engine =
        (c.engine.apply x.upserts (gone ((walk d c.root).map NoteFile.path) x.seen)).1 ∧
      (c.sync d).1.seen =
        (gone ((walk d c.root).map NoteFile.path) x.seen).foldl Table.erase x.seen := by
  rw [sync] at h ⊢
  split at h
  · cases h
  · rename_i x hla
    exact ⟨x, hla, rfl, rfl⟩

theorem sync_walked (hd : d.Named) (h : (c.sync d).2.isOk = true) {n : NoteFile}
    (hn : n ∈ walk d c.root) :
    (c.sync d).1.engine.get? n.path = (taken d c.root c.seen n).or (c.engine.get? n.path) ∧
      (c.sync d).1.seen.get? n.path = recordAfter d c.root (c.seen.get? n.path) n := by
  obtain ⟨x, hla, hengine, hseen⟩ := sync_cases h
  have hnodup := walk_nodup_paths hd c.root
  have hpass := lookAll_complete hnodup hla
  have hstay : n.path ∉ gone ((walk d c.root).map NoteFile.path) x.seen :=
    fun hgone => (mem_gone.mp hgone).2 (List.mem_map_of_mem hn)
  constructor
  · rw [hengine, Engine.get?_apply, if_neg hstay, hpass.upserts, List.nil_append]
    rw [lastOf_filterMap (fun _ _ => id_of_taken) hnodup hn]
  · rw [hseen, Table.get?_foldl_erase, if_neg hstay, hpass.record n hn]

/-- A note that is not walked is removed only if there is a record of it. -/
theorem sync_unwalked (hd : d.Named) (h : (c.sync d).2.isOk = true) {p : Text}
    (hp : p ∉ (walk d c.root).map NoteFile.path) :
    (c.sync d).1.engine.get? p = (if p ∈ c.seen.keys then none else c.engine.get? p) ∧
      (c.sync d).1.seen.get? p = none := by
  obtain ⟨x, hla, hengine, hseen⟩ := sync_cases h
  have hpass := lookAll_complete (walk_nodup_paths hd c.root) hla
  have hframe := lookAll_record_of_notMem d c.root { seen := c.seen } hp
  rw [hla] at hframe
  have hkeys : p ∈ x.seen.keys ↔ p ∈ c.seen.keys := by
    rw [Table.mem_keys_iff, Table.mem_keys_iff, hframe]
  have hgone : p ∈ gone ((walk d c.root).map NoteFile.path) x.seen ↔ p ∈ c.seen.keys := by
    rw [mem_gone, hkeys, and_iff_left hp]
  constructor
  · rw [hengine, Engine.get?_apply, hpass.upserts, List.nil_append,
      lastOf_filterMap_of_notMem (fun _ _ => id_of_taken) hp, Option.none_or]
    simp only [hgone]
  · rw [hseen, Table.get?_foldl_erase]
    simp only [hgone]
    split
    · rfl
    · rename_i hno
      rw [hframe]
      exact Table.get?_eq_none_iff.mpr hno

theorem isSome_taken_of_sync (hd : d.Named) (h : (c.sync d).2.isOk = true) {n : NoteFile}
    (hn : n ∈ walk d c.root) (hread : (readText d c.root n).isSome)
    (hlook : passesOver (c.seen.get? n.path) n = false) :
    ∃ doc, taken d c.root c.seen n = some doc := by
  obtain ⟨x, hla, -, -⟩ := sync_cases h
  have hpass := lookAll_complete (walk_nodup_paths hd c.root) hla
  cases ht : taken d c.root c.seen n with
  | some doc => exact ⟨doc, rfl⟩
  | none =>
      rcases hpass.of_taken_eq_none n hn ht with hover | hnone
      · cases hlook.symm.trans hover
      · rw [hnone] at hread
        cases hread

end Sync

section Load

variable {n : NoteFile}

theorem load_root : (c.load d n).1.root = c.root := by
  rw [load]
  split <;> rfl

theorem load_failed (h : (c.load d n).2.isOk = false) : (c.load d n).1 = c := by
  rw [load] at h ⊢
  split at h
  · rfl
  · cases h
  · cases h

theorem load_read {doc : Document} (h : readDocument d c.root n = .ok (some doc)) :
    (∀ p, (c.load d n).1.engine.get? p = if p = n.path then some doc else c.engine.get? p) ∧
      (∀ p, (c.load d n).1.seen.get? p = if p = n.path then some n.seen else c.seen.get? p) := by
  simp only [load, h]
  refine ⟨fun p => ?_, fun p => Table.get?_put _ _ _ _⟩
  rw [Engine.update_eq_add, Engine.get?_add, id_of_readDocument h]

theorem load_cases : (c.load d n).1 = c ∨
    ∃ doc, readDocument d c.root n = .ok (some doc) ∧
      (∀ p, (c.load d n).1.engine.get? p = if p = n.path then some doc else c.engine.get? p) ∧
      (∀ p, (c.load d n).1.seen.get? p = if p = n.path then some n.seen else c.seen.get? p) := by
  cases hr : readDocument d c.root n with
  | error err => exact .inl (by rw [load, hr])
  | ok found =>
      cases found with
      | none => exact .inl (by rw [load, hr])
      | some doc => exact .inr ⟨doc, rfl, load_read hr⟩

end Load

end VaultSearch.Vault.Catalog
