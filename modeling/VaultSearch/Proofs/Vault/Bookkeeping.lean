import VaultSearch.Proofs.Vault.History

namespace VaultSearch.Vault.World

open Note

variable {w : World} {s : Step}

/-- A step that fails leaves all documents as they were. -/
theorem engine_next_of_fails (hret : w.returns s = false) : (w.next s).engine = w.engine := by
  cases s with
  | edit | forget => cases hret
  | reindex => exact Catalog.reindex_failed hret
  | sync => exact (Catalog.sync_failed hret).1
  | load n => exact congrArg Catalog.engine (Catalog.load_failed hret)

def Orphan (id : Text) (w : World) : Prop :=
  (∃ doc, w.engine.get? id = some doc) ∧ w.seen.get? id = none

theorem IsNew.not_orphan (h : w.IsNew) (id : Text) : ¬Orphan id w := by
  rintro ⟨⟨doc, hdoc⟩, -⟩
  cases (h.1 id).symm.trans hdoc

theorem orphan_of_reindex {id : Text} (hret : w.returns .reindex = true) :
    ¬Orphan id (w.next .reindex) := by
  rintro ⟨⟨doc, hdoc⟩, hnone⟩
  by_cases hp : id ∈ w.walk.map NoteFile.path
  · obtain ⟨n, hn, rfl⟩ := List.mem_map.mp hp
    obtain ⟨hengine, hseen⟩ := Catalog.reindex_walked w.named hret hn
    have hread : Catalog.document? w.disk w.root n = some doc := hengine.symm.trans hdoc
    rw [hread, Option.isSome_some, if_pos rfl] at hseen
    cases hnone.symm.trans hseen
  · have hengine := (Catalog.reindex_unwalked w.named hret hp).1
    cases hdoc.symm.trans hengine

theorem Orphan.of_sync {id : Text} (h : Orphan id (w.next .sync)) : Orphan id w := by
  obtain ⟨⟨doc, hdoc⟩, hnone⟩ := h
  cases hret : w.returns .sync with
  | false =>
      rw [engine_next_of_fails hret] at hdoc
      have hkeep := (Catalog.sync_failed hret).2
      refine ⟨⟨doc, hdoc⟩, Table.get?_eq_none_iff.mpr fun hk => ?_⟩
      exact Table.get?_eq_none_iff.mp hnone (hkeep id hk)
  | true =>
      by_cases hp : id ∈ w.walk.map NoteFile.path
      · obtain ⟨n, hn, rfl⟩ := List.mem_map.mp hp
        obtain ⟨hengine, hseen⟩ := Catalog.sync_walked w.named hret hn
        have hafter := hseen.symm.trans hnone
        have hbefore := hengine.symm.trans hdoc
        cases ht : Catalog.taken w.disk w.root w.seen n with
        | some new => cases hafter.symm.trans (Catalog.recordAfter_of_taken ht).2
        | none =>
            rw [ht, Option.none_or] at hbefore
            exact ⟨⟨doc, hbefore⟩, Catalog.recordAfter_eq_none hafter⟩
      · have hengine := (Catalog.sync_unwalked w.named hret hp).1.symm.trans hdoc
        split at hengine
        · cases hengine
        · rename_i hk
          exact ⟨⟨doc, hengine⟩, Table.get?_eq_none_iff.mpr hk⟩

theorem Orphan.of_load {id : Text} {n : NoteFile} (h : Orphan id (w.next (.load n))) :
    Orphan id w := by
  rcases Catalog.load_cases with hsame | ⟨new, -, hengine, hseen⟩
  · rwa [next, hsame] at h
  · obtain ⟨⟨doc, hdoc⟩, hnone⟩ := h
    have hafter := (hseen id).symm.trans hnone
    have hbefore := (hengine id).symm.trans hdoc
    split at hafter
    · cases hafter
    · rename_i hne
      rw [if_neg hne] at hbefore
      exact ⟨⟨doc, hbefore⟩, hafter⟩

theorem Orphan.of_forget {id p : Text} (h : Orphan id (w.next (.forget p))) : Orphan id w := by
  obtain ⟨⟨doc, hdoc⟩, hnone⟩ := h
  have hbefore := (Engine.get?_remove w.engine p id).symm.trans hdoc
  have hafter := (Table.get?_erase w.seen p id).symm.trans hnone
  split at hbefore
  · cases hbefore
  · rename_i hne
    rw [if_neg hne] at hafter
    exact ⟨⟨doc, hbefore⟩, hafter⟩

/-- Only a reindex that fails makes orphans. -/
theorem Orphan.begins {id : Text} (h : Orphan id (w.next s)) (hbefore : ¬Orphan id w) :
    s = .reindex ∧ w.returns s = false := by
  cases s with
  | edit => exact absurd h hbefore
  | sync => exact absurd h.of_sync hbefore
  | load n => exact absurd h.of_load hbefore
  | forget p => exact absurd h.of_forget hbefore
  | reindex =>
      cases hret : w.returns .reindex with
      | true => exact absurd h (orphan_of_reindex hret)
      | false => exact ⟨rfl, rfl⟩

/-- The document was read from contents that were told with the digest. -/
def Source (told : List (Bytes × Text)) (path digest : Text) (doc : Document) : Prop :=
  ∃ b, (b, digest) ∈ told ∧ ReadFrom b path doc

theorem Source.mono {told told' : List (Bytes × Text)} {path digest : Text} {doc : Document}
    (h : Source told path digest doc) (hsub : told ⊆ told') : Source told' path digest doc := by
  obtain ⟨b, hb, hfrom⟩ := h
  exact ⟨b, hsub hb, hfrom⟩

theorem told_of_walk {d : Disk} {root : Location} {n : NoteFile} (hn : n ∈ Vault.walk d root) :
    ∃ b, (b, n.digest) ∈ d.told ∧ ∀ t, readText d root n = some t → textOf b = some t := by
  obtain ⟨b, hb, hdigest, htext⟩ := contents_of_walk hn
  exact ⟨b, List.mem_map.mpr ⟨b, hb, by rw [hdigest]⟩, htext⟩

def Kept (w w' : World) (p digest : Text) : Prop :=
  ∃ j, w.seen.get? p = some j ∧ j.digest = digest ∧ w'.engine.get? p = w.engine.get? p

def JustRead (w : World) (s : Step) (p digest : Text) : Prop :=
  ∃ doc, (w.next s).engine.get? p = some doc ∧ Source (w.tells s) p digest doc

def Takes (w : World) : Step → NoteFile → Document → Prop
  | .reindex, n, doc => n ∈ w.walk ∧ readDocument w.disk w.root n = .ok (some doc)
  | .sync, n, doc =>
    n ∈ w.walk ∧ Catalog.passesOver (w.seen.get? n.path) n = false ∧
      readDocument w.disk w.root n = .ok (some doc)
  | .load m, n, doc => n = m ∧ readDocument w.disk w.root n = .ok (some doc)
  | .edit _ _, _, _ | .forget _, _, _ => False

theorem Takes.read {n : NoteFile} {doc : Document} (h : w.Takes s n doc) :
    readDocument w.disk w.root n = .ok (some doc) := by
  cases s with
  | edit | forget => exact h.elim
  | reindex | load => exact h.2
  | sync => exact h.2.2

theorem Takes.unique {m n : NoteFile} {doc other : Document} (hm : w.Takes s m doc)
    (hn : w.Takes s n other) (hp : m.path = n.path) : m = n ∧ doc = other := by
  have hmn : m = n := by
    cases s with
    | edit | forget => exact hm.elim
    | reindex | sync => exact List.inj_on_of_nodup_map (walk_nodup_paths w.named _) hm.1 hn.1 hp
    | load o => exact hm.1.trans hn.1.symm
  subst hmn
  have hread := hm.read.symm.trans hn.read
  cases hread
  exact ⟨rfl, rfl⟩

theorem Takes.told {n : NoteFile} {doc : Document} (h : w.Takes s n doc) :
    ∃ b, (b, n.digest) ∈ w.tells s ∧ ∀ t, w.text n = some t → textOf b = some t := by
  cases s with
  | edit | forget => exact h.elim
  | reindex | sync => exact told_of_walk h.1
  | load m =>
      obtain ⟨rfl, hread⟩ := h
      obtain ⟨t, -, -, ht, -, -⟩ := readDocument_eq_some_iff.mp hread
      obtain ⟨f, hf, htext⟩ := read_of_readText ht
      refine ⟨f.bytes, by simp [tells, hf], fun t' ht' => ?_⟩
      rw [htext, Option.some.inj (ht.symm.trans ht')]

theorem Takes.source {n : NoteFile} {doc : Document} (h : w.Takes s n doc) :
    Source (w.tells s) n.path n.digest doc := by
  obtain ⟨b, hb, htext⟩ := h.told
  exact ⟨b, hb, readFrom_of_readDocument h.read htext⟩

/-- What has been taken up is in the engine, and is recorded. -/
theorem next_of_takes (hret : w.returns s = true) {n : NoteFile} {doc : Document}
    (h : w.Takes s n doc) :
    (w.next s).engine.get? n.path = some doc ∧ (w.next s).seen.get? n.path = some n.seen := by
  cases s with
  | edit | forget => exact h.elim
  | reindex =>
      obtain ⟨hengine, hseen⟩ := Catalog.reindex_walked w.named hret h.1
      have hread : Catalog.document? w.disk w.root n = some doc :=
        Catalog.document?_eq_some_iff.mpr h.2
      rw [hread, Option.isSome_some, if_pos rfl] at hseen
      exact ⟨hengine.trans hread, hseen⟩
  | sync =>
      obtain ⟨hengine, hseen⟩ := Catalog.sync_walked w.named hret h.1
      have htaken : Catalog.taken w.disk w.root w.seen n = some doc :=
        Catalog.taken_eq_some_iff.mpr h.2
      rw [htaken, Option.some_or] at hengine
      exact ⟨hengine, hseen.trans (Catalog.recordAfter_of_taken htaken).2⟩
  | load m =>
      obtain ⟨rfl, hread⟩ := h
      obtain ⟨hengine, hseen⟩ := Catalog.load_read hread
      exact ⟨(hengine n.path).trans (if_pos rfl), (hseen n.path).trans (if_pos rfl)⟩

def JustTaken (w : World) (s : Step) (p digest : Text) : Prop :=
  ∃ n doc, w.Takes s n doc ∧ n.path = p ∧ n.digest = digest

theorem JustTaken.justRead (hret : w.returns s = true) {p digest : Text}
    (h : w.JustTaken s p digest) : w.JustRead s p digest := by
  obtain ⟨n, doc, htakes, rfl, rfl⟩ := h
  exact ⟨doc, (next_of_takes hret htakes).1, htakes.source⟩

theorem record_of_reindex (hret : w.returns .reindex = true) {p : Text} {k : Seen}
    (hk : (w.next .reindex).seen.get? p = some k) : w.JustTaken .reindex p k.digest := by
  by_cases hp : p ∈ w.walk.map NoteFile.path
  · obtain ⟨n, hn, rfl⟩ := List.mem_map.mp hp
    obtain ⟨-, hseen⟩ := Catalog.reindex_walked w.named hret hn
    have hrec := hseen.symm.trans hk
    split at hrec
    · rename_i hsome
      obtain ⟨doc, hread⟩ := Option.isSome_iff_exists.mp hsome
      cases hrec
      exact ⟨n, doc, ⟨hn, Catalog.document?_eq_some_iff.mp hread⟩, rfl, rfl⟩
    · cases hrec
  · cases hk.symm.trans (Catalog.reindex_unwalked w.named hret hp).2

theorem record_of_sync (hret : w.returns .sync = true) {p : Text} {k : Seen}
    (hk : (w.next .sync).seen.get? p = some k) :
    Kept w (w.next .sync) p k.digest ∨ w.JustTaken .sync p k.digest := by
  by_cases hp : p ∈ w.walk.map NoteFile.path
  · obtain ⟨n, hn, rfl⟩ := List.mem_map.mp hp
    obtain ⟨hengine, hseen⟩ := Catalog.sync_walked w.named hret hn
    have hrec := hseen.symm.trans hk
    cases ht : Catalog.taken w.disk w.root w.seen n with
    | some doc =>
        cases (Catalog.recordAfter_of_taken ht).2.symm.trans hrec
        exact .inr ⟨n, doc, ⟨hn, Catalog.taken_eq_some_iff.mp ht⟩, rfl, rfl⟩
    | none =>
        obtain ⟨j, hj, hdigest⟩ := Catalog.recordAfter_of_taken_eq_none ht hrec
        rw [ht, Option.none_or] at hengine
        exact .inl ⟨j, hj, hdigest, hengine⟩
  · cases hk.symm.trans (Catalog.sync_unwalked w.named hret hp).2

theorem record_of_load {n : NoteFile} {p : Text} {k : Seen}
    (hk : (w.next (.load n)).seen.get? p = some k) :
    Kept w (w.next (.load n)) p k.digest ∨ w.JustTaken (.load n) p k.digest := by
  rcases Catalog.load_cases with hsame | ⟨doc, hread, hengine, hseen⟩
  · rw [next, hsame] at hk ⊢
    exact .inl ⟨k, hk, rfl, rfl⟩
  · have hrec := (hseen p).symm.trans hk
    split at hrec
    · rename_i hp
      cases hrec
      exact .inr ⟨n, doc, ⟨rfl, hread⟩, hp.symm, rfl⟩
    · rename_i hp
      exact .inl ⟨k, hrec, rfl, (hengine p).trans (if_neg hp)⟩

theorem record_of_forget {q p : Text} {k : Seen}
    (hk : (w.next (.forget q)).seen.get? p = some k) :
    Kept w (w.next (.forget q)) p k.digest := by
  have hrec := (Table.get?_erase w.seen q p).symm.trans hk
  split at hrec
  · cases hrec
  · rename_i hne
    exact ⟨k, hrec, rfl, (Engine.get?_remove w.engine q p).trans (if_neg hne)⟩

/-- What is recorded after a step that does not fail was recorded before, or has just been taken
up. -/
theorem kept_or_justTaken (hret : w.returns s = true) {p : Text} {k : Seen}
    (hk : (w.next s).seen.get? p = some k) :
    Kept w (w.next s) p k.digest ∨ w.JustTaken s p k.digest := by
  cases s with
  | edit => exact .inl ⟨k, hk, rfl, rfl⟩
  | reindex => exact .inr (record_of_reindex hret hk)
  | sync => exact record_of_sync hret hk
  | load n => exact record_of_load hk
  | forget q => exact .inl (record_of_forget hk)

/-- What is recorded after a step that does not fail was recorded before, or has just been read. -/
theorem record_next (hret : w.returns s = true) {p : Text} {k : Seen}
    (hk : (w.next s).seen.get? p = some k) :
    Kept w (w.next s) p k.digest ∨ JustRead w s p k.digest :=
  (kept_or_justTaken hret hk).imp_right fun htaken => htaken.justRead hret

section Sync

variable {n : NoteFile} {t : Text}

theorem read_of_not_passesOver (hret : w.returns .sync = true) (hn : n ∈ w.walk)
    (ht : w.text n = some t) (hover : Catalog.passesOver (w.seen.get? n.path) n = false) :
    ∃ doc, (w.next .sync).engine.get? n.path = some doc ∧
      readDocument w.disk w.root n = .ok (some doc) := by
  have hread : (w.text n).isSome := by rw [ht, Option.isSome_some]
  obtain ⟨doc, htaken⟩ := Catalog.isSome_taken_of_sync w.named hret hn hread hover
  have hengine : (w.next .sync).engine.get? n.path =
      (Catalog.taken w.disk w.root w.seen n).or (w.engine.get? n.path) :=
    (Catalog.sync_walked w.named hret hn).1
  rw [htaken, Option.some_or] at hengine
  have hdoc := (Catalog.recordAfter_of_taken htaken).1
  exact ⟨doc, hengine, Catalog.document?_eq_some_iff.mp hdoc⟩

theorem engine_of_not_taken (hret : w.returns .sync = true) (hn : n ∈ w.walk)
    (hnone : Catalog.taken w.disk w.root w.seen n = none) :
    (w.next .sync).engine.get? n.path = w.engine.get? n.path := by
  have hengine : (w.next .sync).engine.get? n.path =
      (Catalog.taken w.disk w.root w.seen n).or (w.engine.get? n.path) :=
    (Catalog.sync_walked w.named hret hn).1
  rwa [hnone, Option.none_or] at hengine

theorem engine_of_passesOver (hret : w.returns .sync = true) (hn : n ∈ w.walk)
    (hover : Catalog.passesOver (w.seen.get? n.path) n = true) :
    (w.next .sync).engine.get? n.path = w.engine.get? n.path := by
  apply engine_of_not_taken hret hn
  rw [Catalog.taken, if_pos hover]

theorem engine_of_text_eq_none (hret : w.returns .sync = true) (hn : n ∈ w.walk)
    (ht : w.text n = none) : (w.next .sync).engine.get? n.path = w.engine.get? n.path := by
  apply engine_of_not_taken hret hn
  rw [Catalog.taken, Catalog.document?_of_readText ht, ite_self]

end Sync

end VaultSearch.Vault.World
