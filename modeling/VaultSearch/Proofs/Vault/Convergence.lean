import VaultSearch.Proofs.Vault.Ghosts

namespace VaultSearch.Vault.World

open Note

variable {w : World} {told : List (Bytes × Text)}

/-- A note with other contents than those of its record has another time than it, too. -/
def TimesTell (told : List (Bytes × Text)) (w : World) : Prop :=
  ∀ n ∈ w.walk, ∀ k ∈ w.seen.get? n.path, ∀ x ∈ told, ∀ y ∈ told,
    x.2 = k.digest → y.2 = n.digest → x.1 ≠ y.1 → sameTime n.time k.time = false

instance (told : List (Bytes × Text)) (w : World) : Decidable (w.TimesTell told) :=
  inferInstanceAs (Decidable (∀ n ∈ w.walk, ∀ k ∈ w.seen.get? n.path, ∀ x ∈ told, ∀ y ∈ told,
    x.2 = k.digest → y.2 = n.digest → x.1 ≠ y.1 → sameTime n.time k.time = false))

/-- The engine after a sync agrees with the disk, and keeps what can not be read. -/
structure Converged (w w' : World) : Prop where
  readable : ∀ n ∈ w.walk, ∀ t, w.text n = some t →
    ∃ doc, w'.engine.get? n.path = some doc ∧ Tells w.disk w.root n doc ∧
      ∀ now, readDocument w.disk w.root n = .ok (some now) → AgreeButFileTime doc now
  unreadable : ∀ n ∈ w.walk, w.text n = none → w'.engine.get? n.path = w.engine.get? n.path
  noGhosts : w'.NoGhosts

def Faithful (told : List (Bytes × Text)) (w : World) : Prop :=
  ∀ p k, w.seen.get? p = some k →
    ∃ doc, w.engine.get? p = some doc ∧ Source told p k.digest doc

theorem IsNew.faithful (h : w.IsNew) : Faithful told w := by
  intro p k hk
  cases (h.2 p).symm.trans hk

theorem Faithful.next {s : Step} (h : Faithful told w) (hret : w.returns s = true)
    (hsub : w.tells s ⊆ told) : Faithful told (w.next s) := by
  intro p k hk
  rcases record_next hret hk with ⟨j, hj, hdigest, hsame⟩ | ⟨doc, hdoc, hsource⟩
  · obtain ⟨doc, hdoc, hsource⟩ := h p j hj
    exact ⟨doc, hsame.trans hdoc, hdigest ▸ hsource⟩
  · exact ⟨doc, hdoc, hsource.mono hsub⟩

theorem IsNew.faithful_run (hw : w.IsNew) {h : List Step} (hall : w.allReturn h = true)
    (hsub : w.told h ⊆ told) : Faithful told (w.run h) := by
  apply run_induction hw.faithful
  intro g s hp hg
  have htells := tells_subset_told w hp
  exact hg.next (returns_of_allReturn hall hp) fun x hx => hsub (htells hx)

theorem IsNew.not_orphan_run (hw : w.IsNew) {h : List Step} (hall : w.allReturn h = true)
    (id : Text) : ¬Orphan id (w.run h) := by
  rw [orphan_iff_since hw]
  rintro ⟨g, s, k, rfl, ⟨-, hfail⟩, -⟩
  have hp : (g ++ [s]) <+: (g ++ s :: k) := ⟨k, by simp⟩
  cases hfail.symm.trans (returns_of_allReturn hall hp)

theorem Faithful.tells (h : Faithful told w) (hdiff : DigestsDiffer told)
    (htimes : w.TimesTell told) (hsub : w.disk.told ⊆ told) {n : NoteFile} (hn : n ∈ w.walk)
    {t : Text} (ht : w.text n = some t)
    (hover : Catalog.passesOver (w.seen.get? n.path) n = true) :
    ∃ doc, w.engine.get? n.path = some doc ∧ Tells w.disk w.root n doc := by
  obtain ⟨k, hk, hsame⟩ := Catalog.passesOver_iff.mp hover
  obtain ⟨doc, hdoc, b, hb, hfrom⟩ := h n.path k hk
  obtain ⟨c, hc, htext⟩ := told_of_walk hn
  -- The record stands for contents `b`, the disk has `c`; neither digest nor time parts them.
  have hbc : b = c := by
    by_contra hne
    rcases hsame with htime | hdigest
    · have hother := htimes n hn k hk _ hb _ (hsub hc) rfl rfl hne
      cases htime.symm.trans hother
    · exact hne (hdiff _ hb _ (hsub hc) hdigest)
  subst hbc
  exact ⟨doc, hdoc, hfrom.tells (htext t ht) ht⟩

/-- When no step has failed, a sync makes the engine agree with the disk. -/
theorem sync_converges (hw : w.IsNew) (h : List Step)
    (hall : w.allReturn (h ++ [.sync]) = true) (hdiff : DigestsDiffer (w.told (h ++ [.sync])))
    (htimes : (w.run h).TimesTell (w.told (h ++ [.sync]))) :
    Converged (w.run h) (w.run (h ++ [.sync])) := by
  have hret := returns_of_allReturn hall (List.prefix_refl _)
  have hbefore : w.allReturn h = true := by
    rw [allReturn_append, Bool.and_eq_true] at hall
    exact hall.1
  have hfaithful : Faithful (w.told (h ++ [.sync])) (w.run h) := by
    apply hw.faithful_run hbefore
    rw [told_append]
    exact List.subset_append_left _ _
  have hdisk : (w.run h).disk.told ⊆ w.told (h ++ [.sync]) := fun x hx =>
    tells_subset_told w (List.prefix_refl _) (disk_told_subset_tells _ _ hx)
  rw [run_concat]
  constructor
  · intro n hn t ht
    have key : ∃ doc, ((w.run h).next .sync).engine.get? n.path = some doc ∧
        Tells (w.run h).disk (w.run h).root n doc := by
      cases hover : Catalog.passesOver ((w.run h).seen.get? n.path) n with
      | false =>
          obtain ⟨doc, hdoc, hread⟩ := read_of_not_passesOver hret hn ht hover
          exact ⟨doc, hdoc, n.time, hread⟩
      | true =>
          rw [engine_of_passesOver hret hn hover]
          exact hfaithful.tells hdiff htimes hdisk hn ht hover
    obtain ⟨doc, hdoc, htells⟩ := key
    exact ⟨doc, hdoc, htells, fun now hnow => htells.agree hnow⟩
  · intro n hn ht
    exact engine_of_text_eq_none hret hn ht
  · intro id hc
    rw [walk_next_sync]
    by_contra hid
    exact hw.not_orphan_run hbefore id ((contains_sync_iff hret hid).mp hc)

def loadedAndTouched : List Step :=
  [.reindex, rewritten, .load rewrittenNote,
    .edit (Disk.withNote {} "b.md" "two" 1700000020000) (by decide +kernel)]

theorem sync_converges_loadedAndTouched :
    (oneNote.IsNew ∧ oneNote.allReturn (loadedAndTouched ++ [.sync]) = true ∧
      DigestsDiffer (oneNote.told (loadedAndTouched ++ [.sync])) ∧
      (oneNote.run loadedAndTouched).TimesTell (oneNote.told (loadedAndTouched ++ [.sync]))) ∧
      Converged (oneNote.run loadedAndTouched) (oneNote.run (loadedAndTouched ++ [.sync])) := by
  have hall : oneNote.allReturn (loadedAndTouched ++ [.sync]) = true := by decide +kernel
  have hdiff : DigestsDiffer (oneNote.told (loadedAndTouched ++ [.sync])) := by decide +kernel
  have htimes : (oneNote.run loadedAndTouched).TimesTell
      (oneNote.told (loadedAndTouched ++ [.sync])) := by decide +kernel
  exact ⟨⟨isNew_oneNote, hall, hdiff, htimes⟩,
    sync_converges isNew_oneNote loadedAndTouched hall hdiff htimes⟩

end VaultSearch.Vault.World
