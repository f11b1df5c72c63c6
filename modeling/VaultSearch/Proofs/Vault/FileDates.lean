import VaultSearch.Filtering.Range
import VaultSearch.Proofs.Vault.Blocking
import VaultSearch.Proofs.Vault.Convergence

namespace VaultSearch.Vault

open Text Note Time Filtering

/-- The front matter leaves the time of the last change to the disk. -/
def LeavesDate (t path : Text) : Prop :=
  ∃ m body, readNote t path = .ok (m, body) ∧ (m.modified = none ∨ m.modified = some [])

instance (t path : Text) : Decidable (LeavesDate t path) :=
  decidable_of_iff
    (∃ r ∈ (readNote t path).toOption, r.1.modified = none ∨ r.1.modified = some []) <| by
      simp [LeavesDate, toOption_eq_some_iff]

def SameDate (m n : NoteFile) : Prop :=
  Moment.ofEpochFloat (.finite m.time) = Moment.ofEpochFloat (.finite n.time)

def HasFileDate (n : NoteFile) (doc : Document) : Prop :=
  ∃ date, Moment.ofEpochFloat (.finite n.time) = .ok date ∧
    doc.modified = some (.stamp (.naive date))

theorem HasFileDate.eq_iff {m n : NoteFile} {doc now : Document} (hm : HasFileDate m doc)
    (hn : HasFileDate n now) : doc.modified = now.modified ↔ SameDate m n := by
  obtain ⟨date, hdate, hdoc⟩ := hm
  obtain ⟨date', hdate', hnow⟩ := hn
  rw [hdoc, hnow, SameDate, hdate, hdate']
  simp [Stamp.naive]

section Reading

variable {d d' : Disk} {root root' : Location} {m n : NoteFile} {doc now : Document} {t : Text}

theorem hasFileDate_of_readDocument (hread : readDocument d root n = .ok (some doc))
    (ht : readText d root n = some t) (hleaves : LeavesDate t n.path) : HasFileDate n doc := by
  obtain ⟨t', data, body, ht', hnote, hmake⟩ := readDocument_eq_some_iff.mp hread
  obtain ⟨data', body', hnote', hnone⟩ := hleaves
  cases Option.some.inj (ht'.symm.trans ht)
  cases Except.ok.inj (hnote'.symm.trans hnote)
  obtain ⟨modified, hmodified, rfl⟩ := makeDocument_fields hmake
  have hdisk : modifiedAt data n =
      (Moment.ofEpochFloat (.finite n.time)).map fun date => .stamp (.naive date) := by
    rcases hnone with hnone | hnone <;> rw [modifiedAt, hnone]
  obtain ⟨date, hdate, rfl⟩ := map_eq_ok_iff.mp (hdisk.symm.trans hmodified)
  exact ⟨date, hdate, rfl⟩

/-- One text, read under one path, makes one document if the dates are the same. -/
theorem eq_of_sameDate (hm : readDocument d root m = .ok (some doc))
    (hn : readDocument d' root' n = .ok (some now)) (htm : readText d root m = some t)
    (htn : readText d' root' n = some t) (hp : m.path = n.path) (hdate : SameDate m n) :
    doc = now := by
  obtain ⟨t₁, data, body, ht₁, hnote, hmake⟩ := readDocument_eq_some_iff.mp hm
  obtain ⟨t₂, data', body', ht₂, hnote', hmake'⟩ := readDocument_eq_some_iff.mp hn
  cases Option.some.inj (ht₁.symm.trans htm)
  cases Option.some.inj (ht₂.symm.trans htn)
  rw [hp] at hnote
  cases Except.ok.inj (hnote.symm.trans hnote')
  have hsame : makeDocument m data body = makeDocument n data body := by
    rw [SameDate] at hdate
    simp only [makeDocument, modifiedAt, hp, hdate]
  exact Except.ok.inj (hmake.symm.trans (hsame.trans hmake'))

end Reading

namespace World

variable {w : World} {h : List Step} {m n : NoteFile} {doc : Document}

/-- Of all notes of its path that the steps took up, this one was the last. -/
def LastTaken (w : World) (h : List Step) (m : NoteFile) (doc : Document) : Prop :=
  ∃ g s k, h = g ++ s :: k ∧ (w.run g).Takes s m doc ∧
    ∀ l t, (l ++ [t]) <+: k → ∀ n other, (w.run (g ++ s :: l)).Takes t n other → n.path ≠ m.path

theorem Takes.last {s : Step} (htakes : (w.run h).Takes s m doc) :
    LastTaken w (h ++ [s]) m doc := by
  refine ⟨h, s, [], rfl, htakes, fun l t hp => ?_⟩
  simp at hp

theorem LastTaken.concat (hlast : LastTaken w h m doc) {s : Step}
    (hnone : ∀ n other, (w.run h).Takes s n other → n.path ≠ m.path) :
    LastTaken w (h ++ [s]) m doc := by
  obtain ⟨g, u, k, rfl, htakes, hrest⟩ := hlast
  refine ⟨g, u, k ++ [s], by simp, htakes, fun l t hp => ?_⟩
  rcases List.prefix_concat_iff.mp hp with heq | hp
  · obtain ⟨rfl, hts⟩ := List.append_inj' heq rfl
    cases hts
    exact hnone
  · exact hrest l t hp

theorem LastTaken.takes_prefix (hlast : LastTaken w h m doc) :
    ∃ g s, (g ++ [s]) <+: h ∧ (w.run g).Takes s m doc := by
  obtain ⟨g, s, k, rfl, htakes, -⟩ := hlast
  exact ⟨g, s, ⟨k, by simp⟩, htakes⟩

theorem append_cons_eq_append_cons {α : Type} {g g' k k' : List α} {s s' : α}
    (h : g ++ s :: k = g' ++ s' :: k') :
    (g = g' ∧ s = s') ∨ (∃ l, g' = g ++ s :: l ∧ (l ++ [s']) <+: k) ∨
      ∃ l, g = g' ++ s' :: l ∧ (l ++ [s]) <+: k' := by
  rcases List.append_eq_append_iff.mp h with ⟨l, rfl, hl⟩ | ⟨l, rfl, hl⟩
  · cases l with
    | nil =>
        cases hl
        exact .inl ⟨(List.append_nil g).symm, rfl⟩
    | cons u l =>
        cases hl
        exact .inr (.inl ⟨l, rfl, k', by simp⟩)
  · cases l with
    | nil =>
        cases hl
        exact .inl ⟨List.append_nil g', rfl⟩
    | cons u l =>
        cases hl
        exact .inr (.inr ⟨l, rfl, k, by simp⟩)

theorem LastTaken.unique (hm : LastTaken w h m doc) {other : Document}
    (hn : LastTaken w h n other) (hp : m.path = n.path) : m = n ∧ doc = other := by
  obtain ⟨g, s, k, rfl, htakes, hrest⟩ := hm
  obtain ⟨g', s', k', hsplit, htakes', hrest'⟩ := hn
  rcases append_cons_eq_append_cons hsplit with ⟨rfl, rfl⟩ | ⟨l, rfl, hl⟩ | ⟨l, rfl, hl⟩
  · exact htakes.unique htakes' hp
  · exact absurd hp.symm (hrest l s' hl n other htakes')
  · exact absurd hp (hrest' l s hl m doc htakes)

/-- When no step has failed, a record is of the note that was taken up last, and the engine has its
document. -/
theorem lastTaken_of_record (hw : w.IsNew) (hall : w.allReturn h = true) {p : Text} {k : Seen}
    (hk : (w.run h).seen.get? p = some k) :
    ∃ m doc, LastTaken w h m doc ∧ m.path = p ∧ m.digest = k.digest ∧
      (w.run h).engine.get? p = some doc := by
  induction h using List.reverseRecOn generalizing k with
  | nil => cases (hw.2 p).symm.trans hk
  | append_singleton h s ih =>
      rw [allReturn_append, Bool.and_eq_true] at hall
      have hret : (w.run h).returns s = true :=
        returns_of_allReturn (g := []) hall.2 (List.prefix_refl _)
      rw [run_concat] at hk ⊢
      -- A step that takes up a note of this path makes the record; any other keeps it.
      by_cases htakes : ∃ m doc, (w.run h).Takes s m doc ∧ m.path = p
      · obtain ⟨m, doc, htakes, rfl⟩ := htakes
        obtain ⟨hengine, hseen⟩ := next_of_takes hret htakes
        cases hseen.symm.trans hk
        exact ⟨m, doc, htakes.last, rfl, rfl, hengine⟩
      · rcases kept_or_justTaken hret hk with ⟨j, hj, hdigest, hsame⟩ | ⟨n, doc, hn, hp, -⟩
        · obtain ⟨m, doc, hlast, rfl, hm, hdoc⟩ := ih hall.1 hj
          refine ⟨m, doc, hlast.concat ?_, rfl, hm.trans hdigest, hsame.trans hdoc⟩
          intro n other hn hp
          exact htakes ⟨n, other, hn, hp⟩
        · exact absurd ⟨n, doc, hn, hp⟩ htakes

/-- A record that stands for other contents than those of the note, but has its time. -/
def Misleads (k : Seen) (n : NoteFile) : Prop := k.digest ≠ n.digest ∧ sameTime n.time k.time = true

theorem lastTaken_sync (hw : w.IsNew) (hall : w.allReturn (h ++ [.sync]) = true)
    (hn : n ∈ (w.run h).walk) {t : Text} (ht : (w.run h).text n = some t) :
    ∃ m doc, LastTaken w (h ++ [.sync]) m doc ∧ m.path = n.path ∧
      (w.run (h ++ [.sync])).engine.get? n.path = some doc ∧
      (m.digest = n.digest ∨
        ∃ k, (w.run h).seen.get? n.path = some k ∧ k.digest = m.digest ∧ Misleads k n) := by
  have hret := returns_of_allReturn hall (List.prefix_refl _)
  rw [allReturn_append, Bool.and_eq_true] at hall
  rw [run_concat]
  cases hover : Catalog.passesOver ((w.run h).seen.get? n.path) n with
  | false =>
      obtain ⟨doc, hdoc, hread⟩ := read_of_not_passesOver hret hn ht hover
      have htakes : (w.run h).Takes .sync n doc := ⟨hn, hover, hread⟩
      exact ⟨n, doc, htakes.last, rfl, hdoc, .inl rfl⟩
  | true =>
      obtain ⟨k, hk, hsame⟩ := Catalog.passesOver_iff.mp hover
      obtain ⟨m, doc, hlast, hp, hdigest, hdoc⟩ := lastTaken_of_record hw hall.1 hk
      refine ⟨m, doc, hlast.concat ?_, hp, ?_, ?_⟩
      · rintro o other ⟨ho, hnot, -⟩ hpath
        have hon : o = n :=
          List.inj_on_of_nodup_map (walk_nodup_paths (w.run h).named _) ho hn (hpath.trans hp)
        rw [hon, hover] at hnot
        cases hnot
      · rw [engine_of_passesOver hret hn hover, hdoc]
      · by_cases hmn : m.digest = n.digest
        · exact .inl hmn
        · have hkn : k.digest ≠ n.digest := hdigest ▸ hmn
          exact .inr ⟨k, hk, hdigest.symm, hkn, hsame.resolve_right hkn⟩

/-- What was taken up with the digest of a note had its text. -/
theorem LastTaken.reads (hlast : LastTaken w h m doc) (hdiff : DigestsDiffer (w.told h))
    {b : Bytes} (hb : (b, m.digest) ∈ w.told h) {t : Text} (htext : textOf b = some t) :
    ∃ d root, readDocument d root m = .ok (some doc) ∧ readText d root m = some t := by
  obtain ⟨g, s, hprefix, htakes⟩ := hlast.takes_prefix
  obtain ⟨c, hc, hctext⟩ := htakes.told
  have hcb : c = b := hdiff _ (tells_subset_told w hprefix hc) _ hb rfl
  subst hcb
  obtain ⟨t', -, -, ht', -, -⟩ := readDocument_eq_some_iff.mp htakes.read
  have htt : t' = t := Option.some.inj ((hctext t' ht').symm.trans htext)
  exact ⟨_, _, htakes.read, htt ▸ ht'⟩

/-- What a sync after a history leaves of a readable note: the document of the file as it was last
taken up, which is as old as that file was then. -/
structure DatedAt (w : World) (h : List Step) (n : NoteFile) (t : Text) (m : NoteFile)
    (doc : Document) : Prop where
  last : LastTaken w (h ++ [.sync]) m doc
  path : m.path = n.path
  engine : (w.run (h ++ [.sync])).engine.get? n.path = some doc
  contents : m.digest = n.digest ∨
    ∃ k, (w.run h).seen.get? n.path = some k ∧ k.digest = m.digest ∧ Misleads k n
  date : m.digest = n.digest → LeavesDate t n.path → HasFileDate m doc
  current : m.digest = n.digest → ∀ now,
    readDocument (w.run h).disk (w.run h).root n = .ok (some now) →
      (SameDate m n → doc = now) ∧
        (LeavesDate t n.path → (doc.modified = now.modified ↔ SameDate m n))

def Fresh (w : World) (h : List Step) (n : NoteFile) : Prop :=
  ∃ m doc, LastTaken w h m doc ∧ m.path = n.path ∧ m.digest = n.digest ∧ SameDate m n

def Selects (f : Filters) (id : Text) (w : World) : Prop :=
  ∃ doc, w.engine.get? id = some doc ∧ f.admits doc = .ok true

instance (f : Filters) (id : Text) (w : World) : Decidable (Selects f id w) :=
  decidable_of_iff (∃ doc ∈ w.engine.get? id, (f.admits doc).toOption = some true) <| by
    simp [Selects, toOption_eq_some_iff]

theorem datedAt_sync (hw : w.IsNew) (hall : w.allReturn (h ++ [.sync]) = true)
    (hdiff : DigestsDiffer (w.told (h ++ [.sync]))) (hn : n ∈ (w.run h).walk) {t : Text}
    (ht : (w.run h).text n = some t) : ∃ m doc, DatedAt w h n t m doc := by
  obtain ⟨m, doc, hlast, hp, hengine, hcontents⟩ := lastTaken_sync hw hall hn ht
  obtain ⟨b, hb, htext⟩ := told_of_walk hn
  have hnow : (b, n.digest) ∈ w.told (h ++ [.sync]) :=
    tells_subset_told w (List.prefix_refl _) (disk_told_subset_tells _ _ hb)
  have hreads : m.digest = n.digest → ∃ d root, readDocument d root m = .ok (some doc) ∧
      readText d root m = some t := by
    intro hdigest
    rw [← hdigest] at hnow
    exact hlast.reads hdiff hnow (htext t ht)
  refine ⟨m, doc, hlast, hp, hengine, hcontents, ?_, ?_⟩
  · intro hdigest hleaves
    obtain ⟨d, root, hread, htm⟩ := hreads hdigest
    exact hasFileDate_of_readDocument hread htm (hp ▸ hleaves)
  · intro hdigest now hread'
    obtain ⟨d, root, hread, htm⟩ := hreads hdigest
    refine ⟨eq_of_sameDate hread hread' htm ht hp, fun hleaves => ?_⟩
    have hm : HasFileDate m doc := hasFileDate_of_readDocument hread htm (hp ▸ hleaves)
    exact hm.eq_iff (hasFileDate_of_readDocument hread' ht hleaves)

theorem get?_unwalked (hw : w.IsNew) (hall : w.allReturn (h ++ [.sync]) = true)
    (hret : (w.run h).returns .reindex = true) {id : Text}
    (hid : id ∉ (w.run h).walk.map NoteFile.path) :
    ((w.run h).next .sync).engine.get? id = none ∧
      ((w.run h).next .reindex).engine.get? id = none := by
  have hsync := returns_of_allReturn hall (List.prefix_refl _)
  rw [allReturn_append, Bool.and_eq_true] at hall
  constructor
  · have hno := mt (contains_sync_iff hsync hid).mp (hw.not_orphan_run hall.1 id)
    rw [Engine.contains_iff] at hno
    exact Option.eq_none_iff_forall_ne_some.mpr fun doc hdoc => hno ⟨doc, hdoc⟩
  · exact (Catalog.reindex_unwalked (w.run h).named hret hid).1

/-- When no step has failed, a readable note has after a sync the date of its file as it was when it
was last taken up. Filters select the same as after a reindex, but for notes that can not be read
and those that are not fresh. -/
theorem sync_dates (hw : w.IsNew) (h : List Step) (hall : w.allReturn (h ++ [.sync]) = true)
    (hdiff : DigestsDiffer (w.told (h ++ [.sync]))) :
    (∀ n ∈ (w.run h).walk, ∀ t, (w.run h).text n = some t → ∃ m doc, DatedAt w h n t m doc) ∧
      ((w.run h).returns .reindex = true → ∀ id,
        (∀ n ∈ (w.run h).walk, n.path = id →
          (∃ t, (w.run h).text n = some t) ∧ Fresh w (h ++ [.sync]) n) →
        ∀ f, Selects f id (w.run (h ++ [.sync])) ↔ Selects f id (w.run (h ++ [.reindex]))) := by
  refine ⟨fun n hn t ht => datedAt_sync hw hall hdiff hn ht, fun hret id hid f => ?_⟩
  have hsame : (w.run (h ++ [.sync])).engine.get? id =
      (w.run (h ++ [.reindex])).engine.get? id := by
    by_cases hp : id ∈ (w.run h).walk.map NoteFile.path
    · obtain ⟨n, hn, rfl⟩ := List.mem_map.mp hp
      obtain ⟨⟨t, ht⟩, m, doc, hlast, hp, hdigest, hdate⟩ := hid n hn rfl
      obtain ⟨m', doc', hdated⟩ := datedAt_sync hw hall hdiff hn ht
      obtain ⟨now, hnow, hread⟩ := read_of_reindex hn ht hret
      obtain ⟨rfl, rfl⟩ := hdated.last.unique hlast (hdated.path.trans hp.symm)
      rw [hdated.engine, run_concat, hnow, (hdated.current hdigest now hread).1 hdate]
    · rw [run_concat, run_concat]
      obtain ⟨hsync, hreindex⟩ := get?_unwalked hw hall hret hp
      exact hsync.trans hreindex.symm
  rw [Selects, Selects, hsame]

def touched : Step := .edit (Disk.withNote {} "b.md" "one" 1700086400000) (by decide +kernel)

def touchedNote : NoteFile where
  names := ["b.md".toList]
  time := 1700086400
  digest := Bytes.sha256 (Bytes.ofText "one".toList)

theorem sync_dates_touched :
    (oneNote.IsNew ∧ oneNote.allReturn ([.reindex, touched] ++ [.sync]) = true ∧
      DigestsDiffer (oneNote.told ([.reindex, touched] ++ [.sync]))) ∧
      ∃ m doc, DatedAt oneNote [.reindex, touched] touchedNote "one".toList m doc := by
  have hall : oneNote.allReturn ([.reindex, touched] ++ [.sync]) = true := by decide +kernel
  have hdiff : DigestsDiffer (oneNote.told ([.reindex, touched] ++ [.sync])) := by decide +kernel
  have hn : touchedNote ∈ (oneNote.run [.reindex, touched]).walk := by decide +kernel
  have ht : (oneNote.run [.reindex, touched]).text touchedNote = some "one".toList := by
    decide +kernel
  exact ⟨⟨isNew_oneNote, hall, hdiff⟩,
    (sync_dates isNew_oneNote [.reindex, touched] hall hdiff).1 touchedNote hn _ ht⟩

def dayOfTouch : Filters := { modified := (parseDates true "2023-11-15".toList).toOption }

/-- A sync does not see that a note was touched, and leaves it the day before. -/
theorem touched_keeps_date :
    (oneNote.IsNew ∧ oneNote.allReturn [.reindex, touched, .sync] = true ∧
      DigestsDiffer (oneNote.told [.reindex, touched, .sync]) ∧
      (∀ n ∈ oneNote.walk, sameTime touchedNote.time n.time = false) ∧
      touchedNote ∈ (oneNote.run [.reindex, touched]).walk ∧
      (oneNote.run [.reindex, touched]).text touchedNote = some "one".toList ∧
      LeavesDate "one".toList touchedNote.path ∧
      (oneNote.run [.reindex, touched]).returns .reindex = true) ∧
      ((oneNote.run [.reindex, touched, .sync]).engine.get? touchedNote.path).map (·.modified) ≠
        ((oneNote.run [.reindex, touched, .reindex]).engine.get? touchedNote.path).map
          (·.modified) ∧
      ¬Selects dayOfTouch touchedNote.path (oneNote.run [.reindex, touched, .sync]) ∧
      Selects dayOfTouch touchedNote.path (oneNote.run [.reindex, touched, .reindex]) := by
  exact ⟨⟨isNew_oneNote, by decide +kernel⟩, by decide +kernel⟩

end World

end VaultSearch.Vault
