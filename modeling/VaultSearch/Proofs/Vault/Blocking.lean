import VaultSearch.Proofs.Note.Frontmatter
import VaultSearch.Proofs.Vault.LostUpdate
import VaultSearch.Proofs.Vault.Report

namespace VaultSearch.Vault

open Note Time

variable {d : Disk} {root : Location} {n : NoteFile}

/-- There is a text, but no document of it: its frontmatter is blocked, or it leaves the time of
change to the disk, whose time is none of the calendar. -/
inductive Hinders (d : Disk) (root : Location) (n : NoteFile) : Prop
  | frontmatter {t : Text} (ht : readText d root n = some t) (h : Blocked t)
  | time {t : Text} {m : Metadata} {body : Text} (ht : readText d root n = some t)
      (hnote : readNote t n.path = .ok (m, body)) (hm : m.modified = none ∨ m.modified = some [])
      (h : (Moment.ofEpochFloat (.finite n.time)).isOk = false)

theorem isOk_modifiedAt_eq_false {m : Metadata} : (modifiedAt m n).isOk = false ↔
    (m.modified = none ∨ m.modified = some []) ∧
      (Moment.ofEpochFloat (.finite n.time)).isOk = false := by
  rw [modifiedAt]
  split
  · rename_i c t hm
    simp [hm, Except.isOk, Except.toBool]
  · rename_i hm
    have hno : m.modified = none ∨ m.modified = some [] := by
      cases hmod : m.modified with
      | none => exact .inl rfl
      | some t =>
          cases t with
          | nil => exact .inr rfl
          | cons c t => exact absurd hmod (hm c t)
    rw [isOk_map, and_iff_right hno]

theorem isOk_readDocument_iff : (readDocument d root n).isOk = true ↔ ¬Hinders d root n := by
  cases ht : readText d root n with
  | none =>
      refine iff_of_true (isOk_iff.mpr ⟨none, readDocument_eq_none_iff.mpr ht⟩) ?_
      rintro (⟨ht', -⟩ | ⟨ht', -, -, -⟩) <;> cases ht.symm.trans ht'
  | some t =>
      cases hnote : readNote t n.path with
      | error err =>
          have hfail : readDocument d root n = .error err := by
            simp only [readDocument, ht, hnote]
          have hblocked : Blocked t := by
            by_contra hno
            obtain ⟨found, hok⟩ := isOk_iff.mp (isOk_readNote_iff.mpr hno)
            cases hnote.symm.trans hok
          rw [hfail]
          exact iff_of_false Bool.false_ne_true (not_not_intro (.frontmatter ht hblocked))
      | ok found =>
          obtain ⟨m, body⟩ := found
          have hmake : (readDocument d root n).isOk = (modifiedAt m n).isOk := by
            simp only [readDocument, ht, hnote]
            rw [isOk_mapError, isOk_map, makeDocument, isOk_map]
          rw [hmake, ← not_iff_not, not_not, Bool.not_eq_true, isOk_modifiedAt_eq_false]
          constructor
          · rintro ⟨hm, htime⟩
            exact .time ht hnote hm htime
          · rintro (⟨ht', hblocked⟩ | ⟨ht', hnote', hm, htime⟩)
            · cases ht.symm.trans ht'
              exact absurd hblocked (isOk_readNote_iff.mp (isOk_iff.mpr ⟨_, hnote⟩))
            · cases ht.symm.trans ht'
              cases hnote.symm.trans hnote'
              exact ⟨hm, htime⟩

namespace Catalog

variable {c : Catalog} {ns : List NoteFile}

theorem isOk_readAll (d : Disk) (root : Location) (seen : Table Text Seen) (ns : List NoteFile) :
    (readAll d root seen ns).2.isOk = ns.all fun n => (readDocument d root n).isOk := by
  induction ns generalizing seen with
  | nil => rfl
  | cons n ns ih =>
      rw [readAll, List.all_cons]
      cases readDocument d root n with
      | error err => rfl
      | ok found =>
          cases found with
          | none => exact ih seen
          | some doc =>
              rw [← ih (seen.put n.path n.seen)]
              obtain ⟨after, result⟩ := readAll d root (seen.put n.path n.seen) ns
              cases result <;> rfl

theorem isOk_reindex (c : Catalog) (d : Disk) :
    (c.reindex d).2.isOk = (walk d c.root).all fun n => (readDocument d c.root n).isOk := by
  rw [reindex, ← isOk_readAll d c.root {}]
  obtain ⟨seen, result⟩ := readAll d c.root {} (walk d c.root)
  cases result <;> rfl

theorem isOk_lookAt (x : Changes) (n : NoteFile) : (lookAt d root x n).isOk =
    (passesOver (x.seen.get? n.path) n || (readDocument d root n).isOk) := by
  rw [lookAt_eq, passesOver]
  cases timeRecorded (x.seen.get? n.path) n with
  | true => rfl
  | false =>
      cases digestRecorded (x.seen.get? n.path) n with
      | true => rfl
      | false => exact isOk_map _ _

/-- A pass comes to its end if and only if each note is passed over, going by what was recorded
before it, or can be read. -/
theorem isNone_lookAll (x : Changes) (hnodup : (ns.map NoteFile.path).Nodup) :
    (lookAll d root x ns).2.isNone = ns.all fun n =>
      passesOver (x.seen.get? n.path) n || (readDocument d root n).isOk := by
  induction ns generalizing x with
  | nil => rfl
  | cons n ns ih =>
      obtain ⟨hn, hns⟩ := List.nodup_cons.mp hnodup
      rw [lookAll, List.all_cons, ← isOk_lookAt]
      cases hl : lookAt d root x n with
      | error err => rfl
      | ok y =>
          have hkeep : ∀ m ∈ ns, y.seen.get? m.path = x.seen.get? m.path := fun m hm =>
            (lookAt_cases hl).record_of_notMem hn hm
          refine (ih y hns).trans ?_
          rw [Bool.eq_iff_iff, List.all_eq_true, isOk_iff.mpr ⟨y, rfl⟩, Bool.true_and,
            List.all_eq_true]
          exact forall₂_congr fun m hm => by rw [hkeep m hm]

theorem isOk_sync (hd : d.Named) : (c.sync d).2.isOk = (walk d c.root).all fun n =>
    passesOver (c.seen.get? n.path) n || (readDocument d c.root n).isOk := by
  rw [sync, ← isNone_lookAll { seen := c.seen } (walk_nodup_paths hd c.root)]
  obtain ⟨x, failure⟩ := lookAll d c.root { seen := c.seen } (walk d c.root)
  cases failure <;> rfl

end Catalog

namespace World

variable {w : World} {s : Step}

theorem returns_reindex_iff :
    w.returns .reindex = true ↔ ∀ n ∈ w.walk, ¬Hinders w.disk w.root n := by
  rw [returns, Catalog.isOk_reindex, List.all_eq_true]
  simp only [isOk_readDocument_iff]
  rfl

theorem returns_sync_iff : w.returns .sync = true ↔ ∀ n ∈ w.walk,
    Catalog.passesOver (w.seen.get? n.path) n = true ∨ ¬Hinders w.disk w.root n := by
  rw [returns, Catalog.isOk_sync w.named, List.all_eq_true]
  simp only [Bool.or_eq_true, isOk_readDocument_iff]
  rfl

theorem mem_ids_of_get? {id : Text} {doc : Document} (h : w.engine.get? id = some doc) :
    id ∈ w.ids := by
  rw [mem_ids_iff, Engine.contains_iff]
  exact ⟨doc, h⟩

def Unfilled (id : Text) (w : World) : Prop := id ∈ w.seen.keys ∧ id ∉ w.ids

theorem IsNew.not_unfilled (hw : w.IsNew) (id : Text) : ¬Unfilled id w := by
  rintro ⟨hk, -⟩
  exact Table.get?_eq_none_iff.mp (hw.2 id) hk

/-- Only a call that fails leaves a record of what is not in the engine. -/
theorem Unfilled.begins {id : Text} (h : Unfilled id (w.next s)) (hbefore : ¬Unfilled id w) :
    Fails w s := by
  by_contra hret
  rw [Fails, Bool.not_eq_false] at hret
  obtain ⟨hk, hno⟩ := h
  obtain ⟨k, hk⟩ := Table.mem_keys_iff.mp hk
  -- A record that is left after a call that returns is an old one of the same document, or new.
  rcases record_next hret hk with ⟨j, hj, -, hsame⟩ | ⟨doc, hdoc, -⟩
  · refine hbefore ⟨Table.mem_keys_iff.mpr ⟨j, hj⟩, fun hid => hno ?_⟩
    rw [mem_ids_iff, Engine.contains_iff] at hid ⊢
    rwa [hsame]
  · exact hno (mem_ids_of_get? hdoc)

theorem unfilled_iff_since (hw : w.IsNew) (h : List Step) (id : Text) :
    Unfilled id (w.run h) ↔ w.Since h Fails (Unfilled id) := by
  constructor
  · apply since_of_begins (hw.not_unfilled id)
    intro g s _ hbefore hafter
    exact hafter.begins hbefore
  · exact Since.now

section Readable

variable {n : NoteFile} {t : Text} (hn : n ∈ w.walk) (ht : w.text n = some t)

include hn ht

theorem read_of_reindex (hret : w.returns .reindex = true) :
    ∃ doc, (w.next .reindex).engine.get? n.path = some doc ∧
      readDocument w.disk w.root n = .ok (some doc) := by
  have hengine : (w.next .reindex).engine.get? n.path = Catalog.document? w.disk w.root n :=
    (Catalog.reindex_walked w.named hret hn).1
  have hfree : ¬Hinders w.disk w.root n := returns_reindex_iff.mp hret n hn
  obtain ⟨found, hread⟩ := isOk_iff.mp (isOk_readDocument_iff.mpr hfree)
  cases found with
  | none =>
      have hnone : w.text n = none := readDocument_eq_none_iff.mp hread
      cases ht.symm.trans hnone
  | some doc => exact ⟨doc, hengine.trans (Catalog.document?_eq_some_iff.mpr hread), hread⟩

theorem mem_ids_next_reindex (hret : w.returns .reindex = true) :
    n.path ∈ (w.next .reindex).ids := by
  obtain ⟨doc, hdoc, -⟩ := read_of_reindex hn ht hret
  exact mem_ids_of_get? hdoc

theorem mem_ids_next_sync_iff (hret : w.returns .sync = true) : n.path ∈ (w.next .sync).ids ↔
    ¬(Catalog.passesOver (w.seen.get? n.path) n = true ∧ Unfilled n.path w) := by
  cases hover : Catalog.passesOver (w.seen.get? n.path) n with
  | false =>
      obtain ⟨doc, hdoc, -⟩ := read_of_not_passesOver hret hn ht hover
      exact iff_of_true (mem_ids_of_get? hdoc) fun h => Bool.false_ne_true h.1
  | true =>
      obtain ⟨k, hk, -⟩ := Catalog.passesOver_iff.mp hover
      have hkeys : n.path ∈ w.seen.keys := Table.mem_keys_iff.mpr ⟨k, hk⟩
      have hsame : n.path ∈ (w.next .sync).ids ↔ n.path ∈ w.ids := by
        rw [mem_ids_iff, mem_ids_iff, Engine.contains_iff, Engine.contains_iff,
          engine_of_passesOver hret hn hover]
      rw [hsame, Unfilled, and_iff_right rfl, and_iff_right hkeys, not_not]

end Readable

/-- What a note can do to the others after a history. -/
structure Blocking (w : World) (h : List Step) : Prop where
  reindex : (w.run h).returns .reindex = true ↔
    ∀ n ∈ (w.run h).walk, ¬Hinders (w.run h).disk (w.run h).root n
  sync : (w.run h).returns .sync = true ↔ ∀ n ∈ (w.run h).walk,
    Catalog.passesOver ((w.run h).seen.get? n.path) n = true ∨
      ¬Hinders (w.run h).disk (w.run h).root n
  reindexed : (w.run h).returns .reindex = true → ∀ n ∈ (w.run h).walk, ∀ t,
    (w.run h).text n = some t → n.path ∈ (w.run (h ++ [.reindex])).ids
  synced : (w.run h).returns .sync = true → ∀ n ∈ (w.run h).walk, ∀ t,
    (w.run h).text n = some t → (n.path ∈ (w.run (h ++ [.sync])).ids ↔
      ¬(Catalog.passesOver ((w.run h).seen.get? n.path) n = true ∧
        w.Since h Fails (Unfilled n.path)))

/-- A note stands in the way of the others if and only if it hinders: then no call comes to its end
that reads it. Else all that have a text get into the engine, but for what an earlier failure has
left behind. -/
theorem returns_unless_hindered (hw : w.IsNew) (h : List Step) :
    (∀ t path, (readNote t path).isOk = true ↔ ¬Blocked t) ∧
      (∀ t, Blocked t → ∃ head rest, splitFrontmatter t = some (head, rest) ∧ Fault head) ∧
      Blocking w h := by
  refine ⟨fun t path => isOk_readNote_iff, fun t => Blocked.fault, ?_⟩
  constructor
  · exact returns_reindex_iff
  · exact returns_sync_iff
  · intro hret n hn t ht
    rw [run_concat]
    exact mem_ids_next_reindex hn ht hret
  · intro hret n hn t ht
    rw [run_concat, mem_ids_next_sync_iff hn ht hret, unfilled_iff_since hw]

theorem returns_unless_hindered_rewritten :
    oneNote.IsNew ∧ (∀ t path, (readNote t path).isOk = true ↔ ¬Blocked t) ∧
      (∀ t, Blocked t → ∃ head rest, splitFrontmatter t = some (head, rest) ∧ Fault head) ∧
      Blocking oneNote [.reindex, rewritten] :=
  ⟨isNew_oneNote, returns_unless_hindered isNew_oneNote [.reindex, rewritten]⟩

/-- A day that does not exist keeps another note out of the engine. -/
theorem blocked_by_missing_day :
    (readNote "---\ncreated: 2024-02-30\n---\n".toList "a.md".toList).isOk = false ∧
      (oneNote.run [brokenAdded]).returns .reindex = false ∧
      (oneNote.run [brokenAdded]).returns .sync = false ∧
      (∃ n ∈ (oneNote.run [brokenAdded]).walk, n.path = "b.md".toList ∧
        (oneNote.run [brokenAdded]).text n = some "one".toList) ∧
      "b.md".toList ∉ (oneNote.run [brokenAdded, .reindex, .sync]).ids := by
  decide +kernel

end World

end VaultSearch.Vault
