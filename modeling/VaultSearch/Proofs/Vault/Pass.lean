import VaultSearch.Proofs.Engine
import VaultSearch.Proofs.Vault.Reading
import VaultSearch.Vault.Catalog

namespace VaultSearch.Vault.Catalog

open Note

variable {d : Disk} {root : Location}

def document? (d : Disk) (root : Location) (n : NoteFile) : Option Document :=
  (readDocument d root n).toOption.join

theorem document?_eq_some_iff {n : NoteFile} {doc : Document} :
    document? d root n = some doc ↔ readDocument d root n = .ok (some doc) := by
  rw [document?]
  cases readDocument d root n with
  | error err => simp [Except.toOption]
  | ok found => cases found <;> simp [Except.toOption]

theorem document?_of_readText {n : NoteFile} (h : readText d root n = none) :
    document? d root n = none := by
  rw [document?, readDocument_eq_none_iff.mpr h]
  rfl

theorem id_of_document? {n : NoteFile} {doc : Document} (h : document? d root n = some doc) :
    doc.id = n.path :=
  id_of_readDocument (document?_eq_some_iff.mp h)

def timeRecorded (known : Option Seen) (n : NoteFile) : Bool :=
  known.any fun k => sameTime n.time k.time

def digestRecorded (known : Option Seen) (n : NoteFile) : Bool :=
  known.any fun k => k.digest = n.digest

def passesOver (known : Option Seen) (n : NoteFile) : Bool :=
  timeRecorded known n || digestRecorded known n

theorem passesOver_iff {known : Option Seen} {n : NoteFile} :
    passesOver known n = true ↔
      ∃ k, known = some k ∧ (sameTime n.time k.time = true ∨ k.digest = n.digest) := by
  cases known with
  | none => simp [passesOver, timeRecorded, digestRecorded]
  | some k => simp [passesOver, timeRecorded, digestRecorded]

/-- What a look at one note can come to. -/
inductive Look (d : Disk) (root : Location) (x : Changes) (n : NoteFile) : Changes → Prop
  | sameTime (ht : timeRecorded (x.seen.get? n.path) n = true) : Look d root x n x
  | sameDigest (ht : timeRecorded (x.seen.get? n.path) n = false)
      (hd : digestRecorded (x.seen.get? n.path) n = true) :
      Look d root x n { x with seen := x.seen.put n.path n.seen }
  | unread (ht : timeRecorded (x.seen.get? n.path) n = false)
      (hd : digestRecorded (x.seen.get? n.path) n = false) (hr : readText d root n = none) :
      Look d root x n x
  | read (ht : timeRecorded (x.seen.get? n.path) n = false)
      (hd : digestRecorded (x.seen.get? n.path) n = false) (doc : Document)
      (hr : readDocument d root n = .ok (some doc)) (added updated : Nat) :
      Look d root x n ⟨x.seen.put n.path n.seen, x.upserts ++ [doc], added, updated⟩

def afterReading (x : Changes) (n : NoteFile) : Option Document → Changes
  | none => x
  | some doc =>
    { seen := x.seen.put n.path n.seen
      upserts := x.upserts ++ [doc]
      added := if (x.seen.get? n.path).isNone then x.added + 1 else x.added
      updated := if (x.seen.get? n.path).isSome then x.updated + 1 else x.updated }

theorem lookAt_eq (x : Changes) (n : NoteFile) :
    lookAt d root x n =
      if timeRecorded (x.seen.get? n.path) n then .ok x
      else if digestRecorded (x.seen.get? n.path) n then
        .ok { x with seen := x.seen.put n.path n.seen }
      else (readDocument d root n).map (afterReading x n) := by
  have hread : afterReading x n = fun
      | none => x
      | some doc => afterReading x n (some doc) := by
    funext found
    cases found <;> rfl
  rw [hread]
  rfl

theorem lookAt_cases {x y : Changes} {n : NoteFile} (h : lookAt d root x n = .ok y) :
    Look d root x n y := by
  rw [lookAt_eq] at h
  cases ht : timeRecorded (x.seen.get? n.path) n with
  | true =>
      rw [ht, if_pos rfl] at h
      cases h
      exact .sameTime ht
  | false =>
      rw [ht, if_neg Bool.false_ne_true] at h
      cases hd : digestRecorded (x.seen.get? n.path) n with
      | true =>
          rw [hd, if_pos rfl] at h
          cases h
          exact .sameDigest ht hd
      | false =>
          rw [hd, if_neg Bool.false_ne_true] at h
          cases hr : readDocument d root n with
          | error err =>
              rw [hr] at h
              cases h
          | ok found =>
              rw [hr] at h
              cases h
              cases found with
              | none => exact .unread ht hd (readDocument_eq_none_iff.mp hr)
              | some doc => exact .read ht hd doc hr _ _

/-- The document that a pass takes up, going by what was recorded before it. -/
def taken (d : Disk) (root : Location) (seen : Table Text Seen) (n : NoteFile) : Option Document :=
  if passesOver (seen.get? n.path) n then none else document? d root n

theorem id_of_taken {seen : Table Text Seen} {n : NoteFile} {doc : Document}
    (h : taken d root seen n = some doc) : doc.id = n.path := by
  rw [taken] at h
  split at h
  · cases h
  · exact id_of_document? h

theorem taken_eq_some_iff {seen : Table Text Seen} {n : NoteFile} {doc : Document} :
    taken d root seen n = some doc ↔
      passesOver (seen.get? n.path) n = false ∧ readDocument d root n = .ok (some doc) := by
  rw [taken]
  cases passesOver (seen.get? n.path) n with
  | true => simp
  | false => simp [document?_eq_some_iff]

def recordAfter (d : Disk) (root : Location) (known : Option Seen) (n : NoteFile) : Option Seen :=
  if timeRecorded known n then known
  else if digestRecorded known n || (document? d root n).isSome then some n.seen
  else known

theorem recordAfter_of_taken {seen : Table Text Seen} {n : NoteFile} {doc : Document}
    (h : taken d root seen n = some doc) :
    document? d root n = some doc ∧ recordAfter d root (seen.get? n.path) n = some n.seen := by
  rw [taken] at h
  split at h
  · cases h
  · rename_i hover
    simp only [passesOver, Bool.or_eq_true, not_or, Bool.not_eq_true] at hover
    exact ⟨h, by simp [recordAfter, hover.1, h]⟩

/-- A note that is not taken up keeps its record, or one of the same digest. -/
theorem recordAfter_of_taken_eq_none {seen : Table Text Seen} {n : NoteFile} {k : Seen}
    (h : taken d root seen n = none)
    (hk : recordAfter d root (seen.get? n.path) n = some k) :
    ∃ j, seen.get? n.path = some j ∧ j.digest = k.digest := by
  rw [recordAfter] at hk
  split at hk
  · exact ⟨k, hk, rfl⟩
  · rename_i ht
    split at hk
    · rename_i hread
      cases hk
      by_cases hd : digestRecorded (seen.get? n.path) n = true
      · obtain ⟨j, hj, heq⟩ := (Option.any_eq_true _ _).mp hd
        exact ⟨j, hj, by simpa [NoteFile.seen] using heq⟩
      · simp [taken, passesOver, ht, hd] at h
        simp [hd, h] at hread
    · exact ⟨k, hk, rfl⟩

theorem recordAfter_eq_none {known : Option Seen} {n : NoteFile}
    (h : recordAfter d root known n = none) : known = none := by
  rw [recordAfter] at h
  split at h
  · exact h
  · split at h
    · cases h
    · exact h

theorem Look.record {x y : Changes} {n : NoteFile} (h : Look d root x n y) :
    y.seen.get? n.path = recordAfter d root (x.seen.get? n.path) n := by
  cases h with
  | sameTime ht => simp [recordAfter, ht]
  | sameDigest ht hd => simp [recordAfter, ht, hd]
  | unread ht hd hr => simp [recordAfter, ht, hd, document?_of_readText hr]
  | read ht hd doc hr => simp [recordAfter, ht, document?_eq_some_iff.mpr hr]

theorem Look.record_of_ne {x y : Changes} {n : NoteFile} (h : Look d root x n y) {p : Text}
    (hp : p ≠ n.path) : y.seen.get? p = x.seen.get? p := by
  cases h with
  | sameTime | unread => rfl
  | sameDigest | read => rw [Table.get?_put, if_neg hp]

theorem Look.record_of_notMem {x y : Changes} {n : NoteFile} (h : Look d root x n y)
    {ns : List NoteFile} (hn : n.path ∉ ns.map NoteFile.path) {m : NoteFile} (hm : m ∈ ns) :
    y.seen.get? m.path = x.seen.get? m.path :=
  h.record_of_ne fun he => hn (he ▸ List.mem_map_of_mem hm)

theorem Look.upserts {x y : Changes} {n : NoteFile} (h : Look d root x n y) :
    y.upserts = x.upserts ++ (taken d root x.seen n).toList := by
  cases h with
  | sameTime ht => simp [taken, passesOver, ht]
  | sameDigest ht hd => simp [taken, passesOver, hd]
  | unread ht hd hr => simp [taken, passesOver, ht, hd, document?_of_readText hr]
  | read ht hd doc hr => simp [taken, passesOver, ht, hd, document?_eq_some_iff.mpr hr]

/-- What is not taken up was passed over, or there was nothing to read. -/
theorem Look.of_taken_eq_none {x y : Changes} {n : NoteFile} (h : Look d root x n y)
    (hnone : taken d root x.seen n = none) :
    passesOver (x.seen.get? n.path) n = true ∨ readText d root n = none := by
  cases h with
  | sameTime ht => exact .inl (by simp [passesOver, ht])
  | sameDigest ht hd => exact .inl (by simp [passesOver, hd])
  | unread ht hd hr => exact .inr hr
  | read ht hd doc hr => simp [taken, passesOver, ht, hd, document?_eq_some_iff.mpr hr] at hnone

theorem Look.mem_keys {x y : Changes} {n : NoteFile} (h : Look d root x n y) {p : Text}
    (hp : p ∈ x.seen.keys) : p ∈ y.seen.keys := by
  cases h with
  | sameTime | unread => exact hp
  | sameDigest | read => exact Table.mem_keys_put.mpr (.inr hp)

/-- Whether or not a pass comes to its end, it writes records of its own notes only. -/
theorem lookAll_record_of_notMem (d : Disk) (root : Location) (x : Changes) {ns : List NoteFile}
    {p : Text} (hp : p ∉ ns.map NoteFile.path) :
    (lookAll d root x ns).1.seen.get? p = x.seen.get? p := by
  induction ns generalizing x with
  | nil => rfl
  | cons n ns ih =>
      rw [List.map_cons, List.mem_cons, not_or] at hp
      rw [lookAll]
      cases hl : lookAt d root x n with
      | error err => rfl
      | ok y => exact (ih y hp.2).trans ((lookAt_cases hl).record_of_ne hp.1)

theorem lookAll_mem_keys (d : Disk) (root : Location) (x : Changes) (ns : List NoteFile) {p : Text}
    (hp : p ∈ x.seen.keys) :
    p ∈ (lookAll d root x ns).1.seen.keys := by
  induction ns generalizing x with
  | nil => exact hp
  | cons n ns ih =>
      rw [lookAll]
      cases hl : lookAt d root x n with
      | error err => exact hp
      | ok y => exact ih y ((lookAt_cases hl).mem_keys hp)

/-- A pass that comes to its end has come past its first note. -/
theorem lookAll_cons {x y : Changes} {n : NoteFile} {ns : List NoteFile}
    (h : lookAll d root x (n :: ns) = (y, none)) :
    ∃ z, lookAt d root x n = .ok z ∧ lookAll d root z ns = (y, none) := by
  rw [lookAll] at h
  cases hl : lookAt d root x n with
  | error err => simp [hl] at h
  | ok z => exact ⟨z, rfl, by simpa only [hl] using h⟩

theorem taken_congr {s t : Table Text Seen} {n : NoteFile} (h : s.get? n.path = t.get? n.path) :
    taken d root s n = taken d root t n := by
  rw [taken, taken, h]

/-- A pass that comes to its end has looked at each note with the records from before the pass. -/
structure Complete (d : Disk) (root : Location) (x : Changes) (ns : List NoteFile) (y : Changes) :
    Prop where
  record : ∀ n ∈ ns, y.seen.get? n.path = recordAfter d root (x.seen.get? n.path) n
  upserts : y.upserts = x.upserts ++ ns.filterMap (taken d root x.seen)
  of_taken_eq_none : ∀ n ∈ ns, taken d root x.seen n = none →
    passesOver (x.seen.get? n.path) n = true ∨ readText d root n = none

theorem lookAll_complete {x y : Changes} {ns : List NoteFile}
    (hnodup : (ns.map NoteFile.path).Nodup) (h : lookAll d root x ns = (y, none)) :
    Complete d root x ns y := by
  induction ns generalizing x with
  | nil =>
      cases h
      exact ⟨by simp, by simp, by simp⟩
  | cons n ns ih =>
      obtain ⟨hn, hns⟩ := List.nodup_cons.mp hnodup
      obtain ⟨z, hl, hla⟩ := lookAll_cons h
      have hlook := lookAt_cases hl
      have hrest := ih hns hla
      -- The first look records nothing of the other notes, whose paths are different ones.
      have hkeep : ∀ m ∈ ns, z.seen.get? m.path = x.seen.get? m.path := fun m hm =>
        hlook.record_of_notMem hn hm
      have hframe := lookAll_record_of_notMem d root z hn
      rw [hla] at hframe
      refine ⟨List.forall_mem_cons.mpr ⟨hframe.trans hlook.record, ?_⟩, ?_,
        List.forall_mem_cons.mpr ⟨hlook.of_taken_eq_none, ?_⟩⟩
      · intro m hm
        rw [hrest.record m hm, hkeep m hm]
      · rw [hrest.upserts, hlook.upserts,
          List.filterMap_congr fun m hm => taken_congr (hkeep m hm)]
        cases ht : taken d root x.seen n <;> simp [ht]
      · intro m hm hnone
        rw [← hkeep m hm]
        exact hrest.of_taken_eq_none m hm ((taken_congr (hkeep m hm)).trans hnone)

end VaultSearch.Vault.Catalog
