import VaultSearch.Proofs.Vault.Walk

namespace VaultSearch.Vault

open Text Note Time

theorem makeDocument_congr {n m : NoteFile} (hp : n.path = m.path) (ht : n.time = m.time)
    (data : Metadata) (body : Text) : makeDocument n data body = makeDocument m data body := by
  simp only [makeDocument, modifiedAt, hp, ht]

theorem mapError_map_some_ne_none {α ε δ : Type} (x : Except ε α) (f : ε → δ) :
    (x.map some).mapError f ≠ .ok none := by
  cases x <;> simp [Except.map, Except.mapError]

theorem mapError_map_some_eq {α ε δ : Type} {x : Except ε α} {f : ε → δ} {a : α} :
    (x.map some).mapError f = .ok (some a) ↔ x = .ok a := by
  cases x <;> simp [Except.map, Except.mapError]

theorem readDocument_eq_some_iff {d : Disk} {root : Location} {n : NoteFile} {doc : Document} :
    readDocument d root n = .ok (some doc) ↔
      ∃ t m body, readText d root n = some t ∧ readNote t n.path = .ok (m, body) ∧
        makeDocument n m body = .ok doc := by
  constructor
  · intro h
    rw [readDocument] at h
    split at h
    · cases h
    · rename_i t ht
      split at h
      · cases h
      · rename_i m body hn
        exact ⟨t, m, body, ht, hn, mapError_map_some_eq.mp h⟩
  · rintro ⟨t, m, body, ht, hn, hm⟩
    simp only [readDocument, ht, hn]
    exact mapError_map_some_eq.mpr hm

theorem readDocument_eq_none_iff {d : Disk} {root : Location} {n : NoteFile} :
    readDocument d root n = .ok none ↔ readText d root n = none := by
  constructor
  · intro h
    rw [readDocument] at h
    split at h
    · assumption
    · split at h
      · cases h
      · exact absurd h (mapError_map_some_ne_none _ _)
  · intro h
    rw [readDocument, h]

theorem makeDocument_fields {n : NoteFile} {m : Metadata} {body : Text} {doc : Document}
    (h : makeDocument n m body = .ok doc) :
    ∃ modified, modifiedAt m n = .ok modified ∧
      doc = {
        id := n.path
        title := m.title
        content := body
        tags := m.tags
        folder := if m.folder.isEmpty then none else some m.folder
        path := n.path
        created := m.created.map .text
        modified := some modified
        aliases := m.aliases } := by
  rw [makeDocument] at h
  cases hm : modifiedAt m n with
  | error err => simp [hm, Except.map] at h
  | ok modified =>
      rw [hm] at h
      exact ⟨modified, rfl, (Except.ok.inj h).symm⟩

theorem id_of_readDocument {d : Disk} {root : Location} {n : NoteFile} {doc : Document}
    (h : readDocument d root n = .ok (some doc)) : doc.id = n.path := by
  obtain ⟨t, m, body, -, -, hmake⟩ := readDocument_eq_some_iff.mp h
  obtain ⟨modified, -, rfl⟩ := makeDocument_fields hmake
  rfl

/-- The document is what the contents say under a path, with the time of some file. -/
def ReadFrom (b : Bytes) (path : Text) (doc : Document) : Prop :=
  ∃ t m body, ∃ n : NoteFile, textOf b = some t ∧ n.path = path ∧
    readNote t path = .ok (m, body) ∧ makeDocument n m body = .ok doc

theorem readFrom_of_readDocument {d : Disk} {root : Location} {n : NoteFile} {doc : Document}
    (h : readDocument d root n = .ok (some doc)) {b : Bytes}
    (hb : ∀ t, readText d root n = some t → textOf b = some t) : ReadFrom b n.path doc := by
  obtain ⟨t, m, body, ht, hnote, hmake⟩ := readDocument_eq_some_iff.mp h
  exact ⟨t, m, body, n, hb t ht, rfl, hnote, hmake⟩

theorem ReadFrom.content {b : Bytes} {path : Text} {doc : Document} (h : ReadFrom b path doc)
    {t : Text} (hb : textOf b = some t) :
    ∃ m body, readNote t path = .ok (m, body) ∧
      doc.title = m.title ∧ doc.content = body ∧ doc.tags = m.tags := by
  obtain ⟨t', m, body, n, ht', -, hnote, hmake⟩ := h
  cases Option.some.inj (ht'.symm.trans hb)
  obtain ⟨modified, -, rfl⟩ := makeDocument_fields hmake
  exact ⟨m, body, hnote, rfl, rfl, rfl⟩

def Tells (d : Disk) (root : Location) (n : NoteFile) (doc : Document) : Prop :=
  ∃ time, readDocument d root { n with time := time } = .ok (some doc)

theorem ReadFrom.tells {d : Disk} {root : Location} {b : Bytes} {n : NoteFile} {doc : Document}
    (h : ReadFrom b n.path doc) {t : Text} (hb : textOf b = some t)
    (ht : readText d root n = some t) : Tells d root n doc := by
  obtain ⟨t', m, body, o, ht', hpath, hnote, hmake⟩ := h
  cases Option.some.inj (ht'.symm.trans hb)
  have hsame : makeDocument { n with time := o.time } m body = makeDocument o m body :=
    makeDocument_congr (n := { n with time := o.time }) hpath.symm rfl m body
  exact ⟨o.time, readDocument_eq_some_iff.mpr ⟨t, m, body, ht, hnote, hsame.trans hmake⟩⟩

/-- Equal, unless both times of change are times that files had. -/
def AgreeButFileTime (a b : Document) : Prop :=
  a = { b with modified := a.modified } ∧
    (a.modified = b.modified ∨
      ∃ s s', a.modified = some (.stamp s) ∧ b.modified = some (.stamp s'))

theorem modifiedAt_cases {m : Metadata} {n n' : NoteFile} {s s' : Timestamp}
    (h : modifiedAt m n = .ok s) (h' : modifiedAt m n' = .ok s') :
    s = s' ∨ ∃ t t', s = .stamp t ∧ s' = .stamp t' := by
  rw [modifiedAt] at h h'
  split at h
  · left
    rename_i hm
    rw [hm] at h'
    exact Except.ok.inj (h.symm.trans h')
  · rename_i hm
    right
    split at h'
    · rename_i c t heq
      exact absurd heq (hm c t)
    · cases ht : Moment.ofEpochFloat (.finite n.time) with
      | error err => simp [ht, Except.map] at h
      | ok t =>
          cases ht' : Moment.ofEpochFloat (.finite n'.time) with
          | error err => simp [ht', Except.map] at h'
          | ok t' =>
              simp only [ht, ht', Except.map, Except.ok.injEq] at h h'
              exact ⟨_, _, h.symm, h'.symm⟩

theorem Tells.agree {d : Disk} {root : Location} {n : NoteFile} {doc now : Document}
    (h : Tells d root n doc) (hnow : readDocument d root n = .ok (some now)) :
    AgreeButFileTime doc now := by
  obtain ⟨time, h⟩ := h
  obtain ⟨t, m, body, ht, hn, hmake⟩ := readDocument_eq_some_iff.mp h
  obtain ⟨t', m', body', ht', hn', hmake'⟩ := readDocument_eq_some_iff.mp hnow
  have htt : t = t' := Option.some.inj (ht.symm.trans ht')
  subst htt
  have hmm : (m, body) = (m', body') := Except.ok.inj (hn.symm.trans hn')
  cases hmm
  obtain ⟨s, hs, rfl⟩ := makeDocument_fields hmake
  obtain ⟨s', hs', rfl⟩ := makeDocument_fields hmake'
  refine ⟨rfl, ?_⟩
  rcases modifiedAt_cases hs hs' with rfl | ⟨u, u', rfl, rfl⟩
  · exact .inl rfl
  · exact .inr ⟨u, u', rfl, rfl⟩

end VaultSearch.Vault
