import Mathlib.Data.List.Induction
import VaultSearch.Proofs.Vault.Catalog

namespace VaultSearch.Vault

open Note

instance (d : Disk) : Decidable d.Named :=
  inferInstanceAs (Decidable (∀ p ∈ d.entries.keys, ∀ name ∈ p, '/' ∉ name))

structure World where
  disk : Disk
  named : disk.Named
  catalog : Catalog

/-- An edit, which can leave any other disk behind, or a call of the catalog. -/
inductive Step
  | edit (d : Disk) (named : d.Named)
  | reindex
  | sync
  | load (n : NoteFile)
  | forget (path : Text)

def Disk.told (d : Disk) : List (Bytes × Text) := d.contents.map fun b => (b, Bytes.sha256 b)

def DigestsDiffer (told : List (Bytes × Text)) : Prop :=
  ∀ x ∈ told, ∀ y ∈ told, x.2 = y.2 → x.1 = y.1

instance (told : List (Bytes × Text)) : Decidable (DigestsDiffer told) :=
  inferInstanceAs (Decidable (∀ x ∈ told, ∀ y ∈ told, x.2 = y.2 → x.1 = y.1))

def Disk.withNote (d : Disk) (name text : String) (millis : Int) : Disk :=
  d.write [['v'], name.toList] ⟨Bytes.ofText text.toList, mkRat millis 1000⟩

namespace World

abbrev root (w : World) : Location := w.catalog.root

abbrev engine (w : World) : Engine := w.catalog.engine

abbrev seen (w : World) : Table Text Seen := w.catalog.seen

def walk (w : World) : List NoteFile := Vault.walk w.disk w.root

def text (w : World) (n : NoteFile) : Option Text := readText w.disk w.root n

def next (w : World) : Step → World
  | .edit d named => { w with disk := d, named := named }
  | .reindex => { w with catalog := (w.catalog.reindex w.disk).1 }
  | .sync => { w with catalog := (w.catalog.sync w.disk).1 }
  | .load n => { w with catalog := (w.catalog.load w.disk n).1 }
  | .forget p => { w with catalog := w.catalog.forget p }

def returns (w : World) : Step → Bool
  | .edit _ _ | .forget _ => true
  | .reindex => (w.catalog.reindex w.disk).2.isOk
  | .sync => (w.catalog.sync w.disk).2.isOk
  | .load n => (w.catalog.load w.disk n).2.isOk

def run (w : World) (h : List Step) : World := h.foldl next w

def IsNew (w : World) : Prop :=
  (∀ id, w.engine.get? id = none) ∧ ∀ p, w.seen.get? p = none

def allReturn : World → List Step → Bool
  | _, [] => true
  | w, s :: h => w.returns s && allReturn (w.next s) h

/-- The contents, with digests, that a step can get to know: those of the disk, and those of the
file that is loaded, under the digest that the caller gives. -/
def tells (w : World) : Step → List (Bytes × Text)
  | .load n =>
    w.disk.told ++ (w.disk.read (w.root ++ n.names)).toList.map fun f => (f.bytes, n.digest)
  | _ => w.disk.told

def told : World → List Step → List (Bytes × Text)
  | _, [] => []
  | w, s :: h => w.tells s ++ (w.next s).told h

theorem root_next (w : World) (s : Step) : (w.next s).root = w.root := by
  cases s with
  | edit | forget => rfl
  | reindex => exact Catalog.reindex_root
  | sync => exact Catalog.sync_root
  | load n => exact Catalog.load_root

theorem walk_next_sync (w : World) : (w.next .sync).walk = w.walk := by
  rw [walk, walk, root_next]
  rfl

theorem run_append (w : World) (g h : List Step) : w.run (g ++ h) = (w.run g).run h :=
  List.foldl_append

theorem run_concat (w : World) (g : List Step) (s : Step) :
    w.run (g ++ [s]) = (w.run g).next s := by
  rw [run_append]
  rfl

theorem told_append (w : World) (g h : List Step) :
    w.told (g ++ h) = w.told g ++ (w.run g).told h := by
  induction g generalizing w with
  | nil => rfl
  | cons s g ih =>
      rw [List.cons_append, told, told, ih, List.append_assoc]
      rfl

theorem tells_subset_told (w : World) {g h : List Step} {s : Step} (hp : (g ++ [s]) <+: h) :
    (w.run g).tells s ⊆ w.told h := by
  obtain ⟨k, rfl⟩ := hp
  intro x hx
  rw [told_append, told_append]
  exact List.mem_append_left _ (List.mem_append_right _ (List.mem_append_left _ hx))

theorem disk_told_subset_tells (w : World) (s : Step) : w.disk.told ⊆ w.tells s := by
  cases s with
  | load n => exact List.subset_append_left _ _
  | edit | reindex | sync | forget => exact List.Subset.refl _

theorem allReturn_append (w : World) (g h : List Step) :
    w.allReturn (g ++ h) = (w.allReturn g && (w.run g).allReturn h) := by
  induction g generalizing w with
  | nil => rfl
  | cons s g ih =>
      rw [List.cons_append, allReturn, allReturn, ih, Bool.and_assoc]
      rfl

theorem returns_of_allReturn {w : World} {g h : List Step} {s : Step}
    (hall : w.allReturn h = true) (hp : (g ++ [s]) <+: h) : (w.run g).returns s = true := by
  obtain ⟨k, rfl⟩ := hp
  induction g generalizing w with
  | nil => exact ((Bool.and_eq_true _ _).mp hall).1
  | cons t g ih => exact ih ((Bool.and_eq_true _ _).mp hall).2

/-- From some step of one kind on, something else has been the case all the time. -/
def Since (w : World) (h : List Step) (R : World → Step → Prop) (Q : World → Prop) : Prop :=
  ∃ g s k, h = g ++ s :: k ∧ R (w.run g) s ∧ ∀ l, l <+: k → Q (w.run (g ++ s :: l))

theorem Since.now {w : World} {h : List Step} {R : World → Step → Prop} {Q : World → Prop}
    (hs : w.Since h R Q) : Q (w.run h) := by
  obtain ⟨g, s, k, rfl, -, hall⟩ := hs
  exact hall k (List.prefix_refl k)

/-- What is the case now, and was not at first, has been so since some step that it began with. -/
theorem since_of_begins {w : World} {h : List Step} {R : World → Step → Prop} {Q : World → Prop}
    (hfirst : ¬Q w)
    (hbegins : ∀ g s, (g ++ [s]) <+: h → ¬Q (w.run g) → Q ((w.run g).next s) → R (w.run g) s)
    (hnow : Q (w.run h)) : w.Since h R Q := by
  induction h using List.reverseRecOn with
  | nil => exact absurd hnow hfirst
  | append_singleton h s ih =>
      -- If it was the case before the last step, it goes on; else it began with that step.
      by_cases hq : Q (w.run h)
      · have hshort : ∀ g t, (g ++ [t]) <+: h → ¬Q (w.run g) → Q ((w.run g).next t) →
            R (w.run g) t :=
          fun g t hp => hbegins g t (hp.trans (List.prefix_append h [s]))
        obtain ⟨g, t, k, rfl, hr, hall⟩ := ih hshort hq
        refine ⟨g, t, k ++ [s], by simp, hr, fun l hl => ?_⟩
        rcases List.prefix_concat_iff.mp hl with rfl | hl
        · simpa using hnow
        · exact hall l hl
      · rw [run_concat] at hnow
        refine ⟨h, s, [], rfl, hbegins h s (List.prefix_refl _) hq hnow, fun l hl => ?_⟩
        rw [List.prefix_nil.mp hl, run_concat]
        exact hnow

/-- What holds at first, and after each step if before it, holds after a history. -/
theorem run_induction {w : World} {h : List Step} {Q : World → Prop} (hfirst : Q w)
    (hstep : ∀ g s, (g ++ [s]) <+: h → Q (w.run g) → Q ((w.run g).next s)) : Q (w.run h) := by
  induction h using List.reverseRecOn with
  | nil => exact hfirst
  | append_singleton h s ih =>
      rw [run_concat]
      refine hstep h s (List.prefix_refl _) (ih fun g t hp => ?_)
      exact hstep g t (hp.trans (List.prefix_append h [s]))

def oneNote : World :=
  ⟨Disk.withNote {} "b.md" "one" 1700000000000, by decide +kernel, { root := [['v']] }⟩

theorem isNew_oneNote : oneNote.IsNew := ⟨fun _ => rfl, fun _ => rfl⟩

def rewritten : Step := .edit (Disk.withNote {} "b.md" "two" 1700000010000) (by decide +kernel)

def rewrittenNote : NoteFile where
  names := ["b.md".toList]
  time := 1700000010
  digest := Bytes.sha256 (Bytes.ofText "two".toList)

end World

end VaultSearch.Vault
