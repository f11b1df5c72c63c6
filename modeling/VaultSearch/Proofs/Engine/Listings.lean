import Mathlib.Data.List.Sort
import VaultSearch.Proofs.Engine.Batch
import VaultSearch.Proofs.Note.Terms

namespace VaultSearch.Engine

open Text Note Filtering

/-- Each name that some document goes by, with the number of documents that do; the most frequent
first, then by name. -/
def tally (names : Document → List Text) (ds : List Document) : List (Text × Nat) :=
  ((ds.flatMap names).dedup.map fun name => (name, ds.countP fun d => (names d).elem name)).mergeSort
    Index.countLe

def tagNames (d : Document) : List Text := lowered d.tags

def folderNames (d : Document) : List Text :=
  if d.effectiveFolder.isEmpty then [] else [lower d.effectiveFolder]

section Tallies

variable {f g : Document → List Text} {ds : List Document} {name : Text} {n : Nat}

theorem mem_tally_iff : (name, n) ∈ tally f ds ↔
    (∃ d ∈ ds, name ∈ f d) ∧ n = ds.countP fun d => (f d).elem name := by
  rw [tally, List.mem_mergeSort, List.mem_map]
  simp only [List.mem_dedup, List.mem_flatMap, Prod.mk.injEq]
  constructor
  · rintro ⟨_, hname, rfl, rfl⟩
    exact ⟨hname, rfl⟩
  · rintro ⟨hname, rfl⟩
    exact ⟨name, hname, rfl, rfl⟩

theorem nodup_names_tally (f : Document → List Text) (ds : List Document) :
    ((tally f ds).map Prod.fst).Nodup := by
  rw [tally, ((List.mergeSort_perm _ _).map Prod.fst).nodup_iff, List.map_map]
  exact (List.map_id _).symm ▸ List.nodup_dedup _

theorem sorted_tally (f : Document → List Text) (ds : List Document) :
    (tally f ds).Pairwise Index.Ahead :=
  Index.ahead_of_sorted (List.pairwise_mergeSort Index.countLe_trans Index.countLe_total _)
    (nodup_names_tally f ds)

/-- Only one list in that order has these entries. -/
theorem eq_of_ahead {es fs : List (Text × Nat)} (hes : es.Pairwise Index.Ahead)
    (hfs : fs.Pairwise Index.Ahead) (h : ∀ name n, (name, n) ∈ es ↔ (name, n) ∈ fs) : es = fs := by
  have hirrefl : Std.Irrefl Index.Ahead := ⟨by simp [Index.Ahead]⟩
  have hantisymm : Std.Antisymm Index.Ahead := by
    refine ⟨fun a b hab hba => ?_⟩
    rcases hab with hab | ⟨heq, hne, hab⟩
    · rcases hba with hba | ⟨heq, -⟩ <;> omega
    · rcases hba with hba | ⟨-, -, hba⟩
      · omega
      · exact absurd (le_antisymm hab hba) hne
  exact hes.eq_of_mem_iff hfs fun e => h e.1 e.2

theorem eq_of_countP_eq {α : Type} {p q : α → Bool} {xs : List α}
    (himp : ∀ x ∈ xs, p x = true → q x = true) (h : xs.countP q = xs.countP p) :
    ∀ x ∈ xs, q x = true → p x = true := by
  have hboth : (xs.filter q).countP p = (xs.filter q).length := by
    rw [List.countP_filter, ← List.countP_eq_length_filter, h]
    refine List.countP_congr fun x hx => ?_
    rw [Bool.and_eq_true]
    exact ⟨And.left, fun hp => ⟨hp, himp x hx hp⟩⟩
  intro x hx hq
  exact List.countP_eq_length.mp hboth x (List.mem_filter.mpr ⟨hx, hq⟩)

/-- Names that a document does not go by show in a tally, as entries or in the numbers. -/
theorem tally_eq_iff (h : ∀ d ∈ ds, g d ⊆ f d) : tally f ds = tally g ds ↔ ∀ d ∈ ds, f d ⊆ g d := by
  constructor
  · intro heq d hd name hname
    have hmem : (name, _) ∈ tally f ds := mem_tally_iff.mpr ⟨⟨d, hd, hname⟩, rfl⟩
    rw [heq] at hmem
    have hsame := eq_of_countP_eq (fun c hc hg => by simpa using h c hc (by simpa using hg))
      (mem_tally_iff.mp hmem).2 d hd
    simpa [hname] using hsame
  · intro hall
    have hsame : ∀ name, ∀ d ∈ ds, name ∈ f d ↔ name ∈ g d := fun name d hd =>
      ⟨fun hname => hall d hd hname, fun hname => h d hd hname⟩
    refine eq_of_ahead (sorted_tally f ds) (sorted_tally g ds) fun name n => ?_
    have hcount : (ds.countP fun d => (f d).elem name) = ds.countP fun d => (g d).elem name :=
      List.countP_congr fun d hd => by simpa using hsame name d hd
    rw [mem_tally_iff, mem_tally_iff, hcount]
    exact and_congr_left' (exists_congr fun d => and_congr_right fun hd => hsame name d hd)

end Tallies

/-- A tag of the document starts with the mark, in any case, and what follows is no name of the
document: it looks like an index term for one. -/
def Disguised (mark : Text) (names : Document → List Text) (d : Document) : Prop :=
  ∃ name, mark ++ name ∈ tagNames d ∧ name ∉ names d

section Listing

variable {e : Engine} {mark : Text} {names : Document → List Text} {d : Document} {name : Text}

def listed (mark : Text) (d : Document) : List Text :=
  (d.terms.filter (startsWith mark)).map (·.drop mark.length)

theorem mem_listed_iff : name ∈ listed mark d ↔ mark ++ name ∈ d.terms := by
  rw [listed, List.mem_map]
  constructor
  · rintro ⟨t, ht, rfl⟩
    obtain ⟨hterm, hstarts⟩ := List.mem_filter.mp ht
    obtain ⟨rest, rfl⟩ := Index.startsWith_iff.mp hstarts
    rwa [List.drop_left]
  · intro hterm
    exact ⟨mark ++ name, List.mem_filter.mpr ⟨hterm, Index.startsWith_iff.mpr ⟨name, rfl⟩⟩,
      List.drop_left⟩

/-- A list of the index counts the documents that it has under a mark, whatever put them there. -/
theorem Consistent.termCounts_eq_tally (he : e.Consistent) (mark : Text) :
    e.index.termCounts mark = tally (listed mark) e.toList := by
  refine eq_of_ahead (Index.sorted_termCounts e.index mark) (sorted_tally _ _) fun name n => ?_
  rw [he.mirrors.mem_termCounts_iff, he.mirrors.mem_terms_iff, mem_tally_iff]
  simp only [List.elem_eq_mem, mem_listed_iff]
  refine and_congr_left' ⟨?_, ?_⟩
  · rintro ⟨id, d, hd, hterm⟩
    exact ⟨d, Table.mem_values_iff.mpr ⟨id, hd⟩, hterm⟩
  · rintro ⟨d, hd, hterm⟩
    obtain ⟨id, hid⟩ := Table.mem_values_iff.mp hd
    exact ⟨id, d, hid, hterm⟩

theorem Consistent.termCounts_eq_tally_iff (he : e.Consistent)
    (hterms : ∀ d name, mark ++ name ∈ d.terms ↔ name ∈ names d ∨ mark ++ name ∈ tagNames d) :
    e.index.termCounts mark = tally names e.toList ↔ ∀ d ∈ e.toList, ¬Disguised mark names d := by
  have hnames : ∀ d ∈ e.toList, names d ⊆ listed mark d := fun d _ name hname =>
    mem_listed_iff.mpr ((hterms d name).mpr (.inl hname))
  rw [he.termCounts_eq_tally, tally_eq_iff hnames]
  refine forall₂_congr fun d _ => ?_
  constructor
  · rintro hall ⟨name, hspelled, hnot⟩
    exact hnot (hall (mem_listed_iff.mpr ((hterms d name).mpr (.inr hspelled))))
  · intro hnone name hname
    rcases (hterms d name).mp (mem_listed_iff.mp hname) with hown | hspelled
    · exact hown
    · exact Classical.byContradiction fun hnot => hnone ⟨name, hspelled, hnot⟩

theorem tagMark_term_iff (d : Document) (name : Text) :
    tagMark ++ name ∈ d.terms ↔ name ∈ tagNames d ∨ tagMark ++ name ∈ tagNames d := by
  rw [Document.tagMark_mem_terms_iff, tagNames, lowered, List.mem_map, List.mem_map, ← exists_or]
  simp only [and_or_left]

theorem folderMark_term_iff (d : Document) (name : Text) :
    folderMark ++ name ∈ d.terms ↔ name ∈ folderNames d ∨ folderMark ++ name ∈ tagNames d := by
  rw [Document.folderMark_mem_terms_iff, tagNames, lowered, List.mem_map, folderNames]
  refine or_congr_left ?_
  split
  · rename_i hempty
    simp [List.isEmpty_iff.mp hempty]
  · rename_i hset
    simp [List.isEmpty_iff.not.mp hset, eq_comm]

theorem not_disguised (h : (tagNames d).all (!startsWith mark ·) = true) : ¬Disguised mark names d := by
  rintro ⟨name, hspelled, -⟩
  have hstarts : startsWith mark (mark ++ name) = true := Index.startsWith_iff.mpr ⟨name, rfl⟩
  simpa [hstarts] using List.all_eq_true.mp h _ hspelled

/-- The lists of tags and of folders count documents by their tags and by their folder exactly if no
document has a tag that looks like an index term for another. -/
theorem listings_count_iff (he : e.Reachable) :
    (e.tags = tally tagNames e.toList ↔ ∀ d ∈ e.toList, ¬Disguised tagMark tagNames d) ∧
      (e.folders = tally folderNames e.toList ↔
        ∀ d ∈ e.toList, ¬Disguised folderMark folderNames d) :=
  ⟨he.consistent.termCounts_eq_tally_iff tagMark_term_iff,
    he.consistent.termCounts_eq_tally_iff folderMark_term_iff⟩

end Listing

def shelvedNotes : Engine :=
  [Command.add { id := ['a'], tags := ["Rust".toList], folder := some "Work".toList },
    .add { id := ['b'], tags := ["RUST".toList, "rust".toList, "old".toList], path := "work/b".toList },
    .add { id := ['c'], tags := ["old".toList], folder := some "Home".toList },
    .remove ['c']].foldl perform {}

theorem listings_count_shelvedNotes :
    (shelvedNotes.Reachable ∧ shelvedNotes.tags = tally tagNames shelvedNotes.toList ∧
        shelvedNotes.folders = tally folderNames shelvedNotes.toList) ∧
      tally tagNames shelvedNotes.toList = [("rust".toList, 2), ("old".toList, 1)] ∧
      tally folderNames shelvedNotes.toList = [("work".toList, 2)] := by
  have he : shelvedNotes.Reachable := (Reachable.empty _ false).foldl _
  have hplain : ∀ d ∈ shelvedNotes.toList, (tagNames d).all (!startsWith tagMark ·) = true ∧
      (tagNames d).all (!startsWith folderMark ·) = true := by
    decide +kernel
  have h := listings_count_iff he
  refine ⟨⟨he, h.1.mpr fun d hd => not_disguised (hplain d hd).1,
    h.2.mpr fun d hd => not_disguised (hplain d hd).2⟩, ?_, ?_⟩
  · exact (List.mergeSort_of_pairwise (by decide +kernel)).trans (by decide +kernel)
  · exact (List.mergeSort_of_pairwise (by decide +kernel)).trans (by decide +kernel)

def spelledNotes : Engine :=
  [Command.add { id := ['a'], tags := ["folder:home".toList, "tag:work".toList] }].foldl perform {}

theorem listings_miscount_spelledNotes :
    spelledNotes.Reachable ∧
      spelledNotes.tags = [("folder:home".toList, 1), ("tag:work".toList, 1), ("work".toList, 1)] ∧
      tally tagNames spelledNotes.toList = [("folder:home".toList, 1), ("tag:work".toList, 1)] ∧
      spelledNotes.folders = [("home".toList, 1)] ∧ tally folderNames spelledNotes.toList = [] := by
  refine ⟨(Reachable.empty _ false).foldl _, ?_, ?_, ?_, ?_⟩
  · exact (List.mergeSort_of_pairwise (by decide +kernel)).trans (by decide +kernel)
  · exact (List.mergeSort_of_pairwise (by decide +kernel)).trans (by decide +kernel)
  · exact (List.mergeSort_of_pairwise (by decide +kernel)).trans (by decide +kernel)
  · exact (List.mergeSort_of_pairwise (by decide +kernel)).trans (by decide +kernel)

end VaultSearch.Engine
