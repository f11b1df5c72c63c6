import Mathlib.Data.List.Nodup
import VaultSearch.Proofs.Table
import VaultSearch.Proofs.Text
import VaultSearch.Vault.NoteFile

namespace VaultSearch.Vault

open Text Note

namespace Disk

def jump (d : Disk) : Nat → Location → Option Location
  | 0 => fun _ => none
  | links + 1 => d.follow links []

theorem follow_eq_advance (d : Disk) (links : Nat) (done rest : Location) :
    d.follow links done rest = d.advance (d.jump links) done rest := by
  cases links <;> rfl

theorem advance_append {d : Disk} {go : Location → Option Location} {q : Location}
    {After : Location → Prop} {done a b : Location}
    (hjump : ∀ w, go (w ++ b) = some q → ∃ r, go w = some r ∧ After r)
    (hend : ∀ done, d.advance go done b = some q → After done)
    (h : d.advance go done (a ++ b) = some q) : ∃ r, d.advance go done a = some r ∧ After r := by
  induction a generalizing done with
  | nil => exact ⟨done, rfl, hend done h⟩
  | cons name a ih =>
      rw [List.cons_append, advance] at h
      rw [advance]
      split at h
      · exact hjump _ (by simpa using h)
      · exact ih h

/-- A way leads through the end of its first part, and no more links are left from there on. -/
theorem follow_append {d : Disk} {links : Nat} {done a b q : Location}
    (h : d.follow links done (a ++ b) = some q) :
    ∃ r, d.follow links done a = some r ∧ ∃ m, m ≤ links ∧ d.follow m r b = some q := by
  induction links generalizing done a with
  | zero =>
      refine advance_append (fun w hw => by cases hw) ?_ h
      exact fun r hr => ⟨0, Nat.le_refl _, hr⟩
  | succ links ih =>
      refine advance_append (fun w hw => ?_) (fun r hr => ⟨links + 1, Nat.le_refl _, hr⟩) h
      obtain ⟨r, hr, m, hm, hq⟩ := ih hw
      exact ⟨r, hr, m, Nat.le_succ_of_le hm, hq⟩

theorem advance_mono {d : Disk} {go go' : Location → Option Location} {q : Location}
    (hgo : ∀ w, go w = some q → go' w = some q) {done rest : Location}
    (h : d.advance go done rest = some q) : d.advance go' done rest = some q := by
  induction rest generalizing done with
  | nil => exact h
  | cons name rest ih =>
      rw [advance] at h ⊢
      split at h
      · exact hgo _ h
      · exact ih h

theorem follow_mono {d : Disk} {m n : Nat} (hmn : m ≤ n) {done rest q : Location}
    (h : d.follow m done rest = some q) : d.follow n done rest = some q := by
  induction m generalizing n done rest with
  | zero =>
      rw [follow_eq_advance]
      exact advance_mono (fun w hw => by cases hw) h
  | succ m ih =>
      cases n with
      | zero => exact absurd hmn (Nat.not_succ_le_zero m)
      | succ n => exact advance_mono (fun w hw => ih (Nat.le_of_succ_le_succ hmn) hw) h

def Straight (d : Disk) (p : Location) : Prop :=
  ∀ r name, (r ++ [name]) <+: p → ∀ target, d.entries.get? (r ++ [name]) ≠ some (.link target)

theorem straight_nil (d : Disk) : d.Straight [] := by
  intro r name h
  simp at h

theorem advance_straight {d : Disk} {go : Location → Option Location} {q : Location}
    (hgo : ∀ w, go w = some q → d.Straight q) {done rest : Location} (hdone : d.Straight done)
    (h : d.advance go done rest = some q) : d.Straight q := by
  induction rest generalizing done with
  | nil => exact Option.some.inj h ▸ hdone
  | cons name rest ih =>
      rw [advance] at h
      split at h
      · exact hgo _ h
      · rename_i hnot
        refine ih ?_ h
        intro r last hr target hlink
        rcases List.prefix_concat_iff.mp hr with heq | hpre
        · rw [heq] at hlink
          exact hnot target hlink
        · exact hdone r last hpre target hlink

theorem resolve_straight {d : Disk} {p q : Location} (h : d.resolve p = some q) : d.Straight q := by
  -- Behind a link the way starts anew from the top, with one link less.
  have general : ∀ links w, d.jump links w = some q → d.Straight q := by
    intro links
    induction links with
    | zero => intro w hw; cases hw
    | succ links ih =>
        intro w hw
        rw [jump, follow_eq_advance] at hw
        exact advance_straight ih (straight_nil d) hw
  rw [resolve, follow_eq_advance] at h
  exact advance_straight (general linkLimit) (straight_nil d) h

theorem advance_of_straight {d : Disk} (go : Location → Option Location) {done a : Location}
    (h : d.Straight (done ++ a)) (b : Location) :
    d.advance go done (a ++ b) = d.advance go (done ++ a) b := by
  induction a generalizing done with
  | nil => rw [List.append_nil, List.nil_append]
  | cons name a ih =>
      have hpre : (done ++ [name]) <+: (done ++ name :: a) := ⟨a, by simp⟩
      have hrest : d.Straight (done ++ [name] ++ a) := by simpa using h
      rw [List.cons_append, advance]
      split
      · rename_i target hlink
        exact absurd hlink (h done name hpre target)
      · rw [ih hrest, List.append_assoc, List.singleton_append]

/-- What a way leads to, it also leads to from where its first part leads. -/
theorem resolve_append {d : Disk} {a b r q : Location} (hr : d.resolve a = some r)
    (hq : d.resolve (a ++ b) = some q) : d.resolve (r ++ b) = some q := by
  obtain ⟨r', hr', m, hm, hmq⟩ := follow_append hq
  have heq : r' = r := Option.some.inj (hr'.symm.trans hr)
  subst heq
  have hs := resolve_straight hr
  rw [resolve, follow_eq_advance, advance_of_straight (d.jump linkLimit) (by simpa using hs) b,
    List.nil_append, ← follow_eq_advance]
  exact follow_mono hm hmq

theorem read_append {d : Disk} {a b r : Location} (hr : d.resolve a = some r) {f : File}
    (h : d.read (a ++ b) = some f) : d.read (r ++ b) = some f := by
  have hres : d.resolve (r ++ b) = d.resolve (a ++ b) := by
    cases hq : d.resolve (a ++ b) with
    | none => simp [read, look, hq] at h
    | some q => exact resolve_append hr hq
  rw [read, look, hres]
  exact h

def contents (d : Disk) : List Bytes :=
  d.entries.values.filterMap fun
    | .file f => some f.bytes
    | _ => none

theorem mem_contents_of_read {d : Disk} {p : Location} {f : File} (h : d.read p = some f) :
    f.bytes ∈ d.contents := by
  rw [read] at h
  split at h
  · rename_i g hl
    cases h
    rw [look] at hl
    split at hl
    · cases hl
    · cases hl
    · rename_i q _ _
      exact List.mem_filterMap.mpr ⟨.file f, Table.mem_values_iff.mpr ⟨q, hl⟩, rfl⟩
  · cases h

def Named (d : Disk) : Prop := ∀ p ∈ d.entries.keys, ∀ name ∈ p, '/' ∉ name

end Disk

theorem perm_insertNames (a : List Text) (bs : List (List Text)) :
    (insertNames a bs).Perm (a :: bs) := by
  induction bs with
  | nil => exact .refl _
  | cons b bs ih =>
      rw [insertNames]
      split
      · exact .refl _
      · exact (ih.cons b).trans (.swap a b bs)

theorem perm_foldr_insertNames (as : List (List Text)) : (as.foldr insertNames []).Perm as := by
  induction as with
  | nil => exact .refl _
  | cons a as ih => exact (perm_insertNames a _).trans (ih.cons a)

theorem mem_waysBelow {d : Disk} {root : Location} {names : List Text} :
    names ∈ waysBelow d root ↔ names ≠ [] ∧ root ++ names ∈ d.entries.keys := by
  rw [waysBelow, (perm_foldr_insertNames _).mem_iff, List.mem_filterMap]
  constructor
  · rintro ⟨p, hp, hd⟩
    split at hd
    · rename_i hc
      simp only [Bool.and_eq_true, List.isPrefixOf_iff_prefix, decide_eq_true_eq] at hc
      obtain ⟨⟨rest, rfl⟩, hlen⟩ := hc
      rw [Option.some.injEq, List.drop_left] at hd
      subst hd
      refine ⟨?_, hp⟩
      rintro rfl
      simp at hlen
    · cases hd
  · rintro ⟨hne, hk⟩
    refine ⟨root ++ names, hk, ?_⟩
    have hlen : 0 < names.length := List.length_pos_iff.mpr hne
    simp [List.isPrefixOf_iff_prefix, hlen]

theorem nodup_waysBelow (d : Disk) (root : Location) : (waysBelow d root).Nodup := by
  rw [waysBelow, (perm_foldr_insertNames _).nodup_iff]
  refine List.Nodup.filterMap ?_ d.entries.nodup_keys
  intro p q names hp hq
  simp only [Option.mem_def, Option.ite_none_right_eq_some, Bool.and_eq_true,
    List.isPrefixOf_iff_prefix, Option.some.injEq] at hp hq
  rw [← List.prefix_iff_eq_append.mp hp.1.1, ← List.prefix_iff_eq_append.mp hq.1.1, hp.2, hq.2]

/-- A note is walked when it is below the place that the root stands for, with what is there now. -/
theorem walk_cases {d : Disk} {root : Location} {n : NoteFile} (h : n ∈ walk d root) :
    ∃ real f, d.resolve root = some real ∧ n.names ∈ waysBelow d real ∧
      d.read (real ++ n.names) = some f ∧ n = ⟨n.names, f.time, Bytes.sha256 f.bytes⟩ := by
  rw [walk] at h
  split at h
  · cases h
  · rename_i real hreal
    split at h
    · obtain ⟨names, hnames, hn⟩ := List.mem_filterMap.mp h
      split at hn
      · obtain ⟨f, hf, rfl⟩ := Option.map_eq_some_iff.mp hn
        exact ⟨real, f, hreal, hnames, hf, rfl⟩
      · cases hn
    · cases h

theorem walk_ext {d : Disk} {root : Location} {n m : NoteFile} (hn : n ∈ walk d root)
    (hm : m ∈ walk d root) (h : n.names = m.names) : n = m := by
  obtain ⟨real, f, hreal, -, hf, hnf⟩ := walk_cases hn
  obtain ⟨real', g, hreal', -, hg, hmg⟩ := walk_cases hm
  have hr : real = real' := Option.some.inj (hreal.symm.trans hreal')
  subst hr
  rw [h] at hf
  have hfg : f = g := Option.some.inj (hf.symm.trans hg)
  rw [hnf, hmg, h, hfg]

theorem walk_nodup (d : Disk) (root : Location) : (walk d root).Nodup := by
  rw [walk]
  split
  · exact List.nodup_nil
  · split
    · refine List.Nodup.filterMap ?_ (nodup_waysBelow d _)
      intro a b n ha hb
      simp only [Option.mem_def, Option.ite_none_right_eq_some, Option.map_eq_some_iff] at ha hb
      obtain ⟨-, f, -, rfl⟩ := ha
      obtain ⟨-, g, -, hg⟩ := hb
      exact (congrArg NoteFile.names hg).symm
    · exact List.nodup_nil

theorem walk_path_injective {d : Disk} (hd : d.Named) {root : Location} {n m : NoteFile}
    (hn : n ∈ walk d root) (hm : m ∈ walk d root) (h : n.path = m.path) : n = m := by
  obtain ⟨real, -, -, hnw, -, -⟩ := walk_cases hn
  obtain ⟨real', -, -, hmw, -, -⟩ := walk_cases hm
  obtain ⟨hne, hnk⟩ := mem_waysBelow.mp hnw
  obtain ⟨hme, hmk⟩ := mem_waysBelow.mp hmw
  refine walk_ext hn hm (joinWith_injective hne hme ?_ ?_ h)
  · exact fun name hname => hd _ hnk name (List.mem_append_right real hname)
  · exact fun name hname => hd _ hmk name (List.mem_append_right real' hname)

theorem walk_nodup_paths {d : Disk} (hd : d.Named) (root : Location) :
    ((walk d root).map NoteFile.path).Nodup :=
  (walk_nodup d root).map_on fun _ hn _ hm h => walk_path_injective hd hn hm h

def textOf (contents : Bytes) : Option Text := (Bytes.toText? contents).map unifyBreaks

theorem read_of_readText {d : Disk} {root : Location} {n : NoteFile} {t : Text}
    (h : readText d root n = some t) :
    ∃ f, d.read (root ++ n.names) = some f ∧ textOf f.bytes = some t := by
  rw [readText] at h
  split at h
  · cases hf : d.read (root ++ n.names) with
    | none => simp [hf] at h
    | some f =>
        rw [hf] at h
        exact ⟨f, rfl, h⟩
  · cases h

/-- The text of a walked note is that of the contents its digest was taken of. -/
theorem contents_of_walk {d : Disk} {root : Location} {n : NoteFile} (hn : n ∈ walk d root) :
    ∃ b ∈ d.contents, n.digest = Bytes.sha256 b ∧
      ∀ t, readText d root n = some t → textOf b = some t := by
  obtain ⟨real, f, hreal, -, hf, hnf⟩ := walk_cases hn
  refine ⟨f.bytes, Disk.mem_contents_of_read hf, congrArg NoteFile.digest hnf, fun t ht => ?_⟩
  obtain ⟨g, hg, htext⟩ := read_of_readText ht
  have hfg : f = g := Option.some.inj (hf.symm.trans (Disk.read_append hreal hg))
  exact hfg ▸ htext

end VaultSearch.Vault
