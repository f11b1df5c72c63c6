import VaultSearch.Proofs.Vault.Bookkeeping

namespace VaultSearch.Vault.World

open Note

variable {w : World} {n : NoteFile} {path digest t : Text}

/-- The engine has a document with the title, the body and the tags of a text. -/
def Holds (path t : Text) (w : World) : Prop :=
  ∃ m body doc, readNote t path = .ok (m, body) ∧ w.engine.get? path = some doc ∧
    doc.title = m.title ∧ doc.content = body ∧ doc.tags = m.tags

/-- The digest of a text is recorded, but the engine does not have its document. -/
def Lost (path digest t : Text) (w : World) : Prop :=
  (∃ k, w.seen.get? path = some k ∧ k.digest = digest) ∧ ¬Holds path t w

/-- The time of a note is the recorded one, but not its digest, and the engine does not have its
document. -/
def Shadowed (n : NoteFile) (t : Text) (w : World) : Prop :=
  (∃ k, w.seen.get? n.path = some k ∧ k.digest ≠ n.digest ∧ sameTime n.time k.time = true) ∧
    ¬Holds n.path t w

def Fails (w : World) (s : Step) : Prop := w.returns s = false

theorem IsNew.not_lost (h : w.IsNew) : ¬Lost path digest t w := by
  rintro ⟨⟨k, hk, -⟩, -⟩
  cases (h.2 path).symm.trans hk

theorem Holds.of_readFrom {b : Bytes} {doc : Document} (hdoc : w.engine.get? path = some doc)
    (hfrom : ReadFrom b path doc) (hb : textOf b = some t) : Holds path t w := by
  obtain ⟨m, body, hnote, htitle, hbody, htags⟩ := hfrom.content hb
  exact ⟨m, body, doc, hnote, hdoc, htitle, hbody, htags⟩

theorem Holds.congr {w' : World} (h : w'.engine.get? path = w.engine.get? path) :
    Holds path t w' ↔ Holds path t w := by
  rw [Holds, Holds, h]

/-- Only a step that fails loses an update. -/
theorem Lost.begins {s : Step} (h : Lost path digest t (w.next s)) (hbefore : ¬Lost path digest t w)
    {told : List (Bytes × Text)} (hdiff : DigestsDiffer told) (hsub : w.tells s ⊆ told)
    {c : Bytes} (hc : (c, digest) ∈ told) (htext : textOf c = some t) : Fails w s := by
  obtain ⟨⟨k, hk, rfl⟩, hnot⟩ := h
  rw [Fails, ← Bool.not_eq_true]
  intro hret
  rcases record_next hret hk with ⟨j, hj, hdigest, hsame⟩ | ⟨doc, hdoc, b, hb, hfrom⟩
  · exact hbefore ⟨⟨j, hj, hdigest⟩, fun hholds => hnot ((Holds.congr hsame).mpr hholds)⟩
  · -- The step has just read contents of this very digest, so they are those of the text.
    have hbc : b = c := hdiff _ (hsub hb) _ hc rfl
    subst hbc
    exact hnot (.of_readFrom hdoc hfrom htext)

theorem holds_of_not_passesOver (hret : w.returns .sync = true) (hn : n ∈ w.walk)
    (ht : w.text n = some t)
    (hover : Catalog.passesOver (w.seen.get? n.path) n = false) :
    Holds n.path t (w.next .sync) := by
  obtain ⟨doc, hengine, hdoc⟩ := read_of_not_passesOver hret hn ht hover
  obtain ⟨b, -, htext⟩ := told_of_walk hn
  exact .of_readFrom hengine (readFrom_of_readDocument hdoc htext) (htext t ht)

/-- A sync brings the engine up to date with a note, unless the note was lost or is shadowed. -/
theorem holds_sync_iff_before (hret : w.returns .sync = true) (hn : n ∈ w.walk)
    (ht : w.text n = some t) :
    Holds n.path t (w.next .sync) ↔ ¬Lost n.path n.digest t w ∧ ¬Shadowed n t w := by
  cases hover : Catalog.passesOver (w.seen.get? n.path) n with
  | false =>
      have hno : ∀ k, w.seen.get? n.path = some k →
          ¬(sameTime n.time k.time = true ∨ k.digest = n.digest) := by
        intro k hk hsame
        have hyes := Catalog.passesOver_iff.mpr ⟨k, hk, hsame⟩
        cases hover.symm.trans hyes
      refine iff_of_true (holds_of_not_passesOver hret hn ht hover) ⟨?_, ?_⟩
      · rintro ⟨⟨k, hk, hdigest⟩, -⟩
        exact hno k hk (.inr hdigest)
      · rintro ⟨⟨k, hk, -, htime⟩, -⟩
        exact hno k hk (.inl htime)
  | true =>
      rw [Holds.congr (engine_of_passesOver hret hn hover)]
      obtain ⟨k, hk, hsame⟩ := Catalog.passesOver_iff.mp hover
      constructor
      · intro hholds
        exact ⟨fun hlost => hlost.2 hholds, fun hshadow => hshadow.2 hholds⟩
      · rintro ⟨hlost, hshadow⟩
        by_contra hnot
        by_cases hdigest : k.digest = n.digest
        · exact hlost ⟨⟨k, hk, hdigest⟩, hnot⟩
        · have htime := hsame.resolve_right hdigest
          exact hshadow ⟨⟨k, hk, hdigest, htime⟩, hnot⟩

/-- After a sync the engine holds what a note says, unless its digest has been recorded without its
document since a step that failed, or its time is that of other contents. -/
theorem holds_sync_iff (hw : w.IsNew) (h : List Step)
    (hdiff : DigestsDiffer (w.told (h ++ [.sync]))) (hret : (w.run h).returns .sync = true)
    (hn : n ∈ (w.run h).walk) (ht : (w.run h).text n = some t) :
    Holds n.path t (w.run (h ++ [.sync])) ↔
      ¬w.Since h Fails (Lost n.path n.digest t) ∧ ¬Shadowed n t (w.run h) := by
  have hsince : Lost n.path n.digest t (w.run h) ↔ w.Since h Fails (Lost n.path n.digest t) := by
    constructor
    · apply since_of_begins hw.not_lost
      intro g s hp hbefore hafter
      obtain ⟨c, hc, htext⟩ := told_of_walk hn
      have hnow : (c, n.digest) ∈ w.told (h ++ [.sync]) :=
        tells_subset_told w (List.prefix_refl _) (disk_told_subset_tells _ _ hc)
      have hsub := tells_subset_told w (hp.trans (List.prefix_append h [.sync]))
      exact hafter.begins hbefore hdiff hsub hnow (htext t ht)
    · exact Since.now
  rw [run_concat, holds_sync_iff_before hret hn ht, hsince]

theorem holds_sync_iff_rewritten :
    (oneNote.IsNew ∧ DigestsDiffer (oneNote.told ([.reindex, rewritten] ++ [.sync])) ∧
      (oneNote.run [.reindex, rewritten]).returns .sync = true ∧
      rewrittenNote ∈ (oneNote.run [.reindex, rewritten]).walk ∧
      (oneNote.run [.reindex, rewritten]).text rewrittenNote = some "two".toList) ∧
      (Holds rewrittenNote.path "two".toList (oneNote.run ([.reindex, rewritten] ++ [.sync])) ↔
        ¬oneNote.Since [.reindex, rewritten] Fails
          (Lost rewrittenNote.path rewrittenNote.digest "two".toList) ∧
        ¬Shadowed rewrittenNote "two".toList (oneNote.run [.reindex, rewritten])) := by
  have hdiff : DigestsDiffer (oneNote.told ([.reindex, rewritten] ++ [.sync])) := by
    decide +kernel
  have hret : (oneNote.run [.reindex, rewritten]).returns .sync = true := by decide +kernel
  have hn : rewrittenNote ∈ (oneNote.run [.reindex, rewritten]).walk := by decide +kernel
  have ht : (oneNote.run [.reindex, rewritten]).text rewrittenNote = some "two".toList := by
    decide +kernel
  exact ⟨⟨isNew_oneNote, hdiff, hret, hn, ht⟩, holds_sync_iff isNew_oneNote _ hdiff hret hn ht⟩

def rewrittenBesideBroken : Step :=
  .edit ((Disk.withNote {} "b.md" "two" 1700000010000).withNote "c.md"
    "---\ncreated: 2024-02-30\n---\n" 1700000010000) (by decide +kernel)

/-- A sync that fails at another note makes the next one pass over what it had read before. -/
theorem lost_after_failed_sync :
    (oneNote.IsNew ∧
      DigestsDiffer (oneNote.told
        [.reindex, rewrittenBesideBroken, .sync, rewritten, .sync]) ∧
      (∀ n ∈ oneNote.walk, sameTime rewrittenNote.time n.time = false) ∧
      (oneNote.run [.reindex, rewrittenBesideBroken, .sync, rewritten]).returns .sync = true ∧
      rewrittenNote ∈
        (oneNote.run [.reindex, rewrittenBesideBroken, .sync, rewritten]).walk ∧
      (oneNote.run [.reindex, rewrittenBesideBroken, .sync, rewritten]).text rewrittenNote =
        some "two".toList) ∧
      ¬Holds rewrittenNote.path "two".toList
        (oneNote.run [.reindex, rewrittenBesideBroken, .sync, rewritten, .sync]) := by
  refine ⟨⟨isNew_oneNote, by decide +kernel, by decide +kernel, by decide +kernel,
    by decide +kernel, by decide +kernel⟩, ?_⟩
  rintro ⟨m, body, doc, hnote, hdoc, -, hbody, -⟩
  have htwo : ((readNote "two".toList rewrittenNote.path).toOption.map Prod.snd) =
      some "two".toList := by decide +kernel
  have hone : ((oneNote.run [.reindex, rewrittenBesideBroken, .sync, rewritten, .sync]).engine.get?
      rewrittenNote.path).map Document.content = some "one".toList := by decide +kernel
  rw [hnote] at htwo
  rw [hdoc, Option.map_some, hbody] at hone
  cases htwo
  exact absurd hone (by decide)

end VaultSearch.Vault.World
