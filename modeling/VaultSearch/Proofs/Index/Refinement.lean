import VaultSearch.Proofs.Index
import VaultSearch.Proofs.Text

namespace VaultSearch.Index

open Note

inductive Command
  | add (d : Document)
  | update (d : Document)
  | remove (id : Text)
  | clear

def perform (x : Index) : Command → Index
  | .add d => x.add d
  | .update d => x.update d
  | .remove id => x.remove id
  | .clear => x.clear

def run (commands : List Command) : Index := commands.foldl perform {}

def Command.keep (m : Table Text Document) : Command → Table Text Document
  | .add d => m.put d.id d
  | .update d => m.put d.id d
  | .remove id => m.erase id
  | .clear => {}

def live (commands : List Command) : Table Text Document := commands.foldl Command.keep {}

structure Mirrors (x : Index) (m : Table Text Document) : Prop where
  lockstep : x.Lockstep
  termsOf : ∀ id, x.termsOf.get? id = (m.get? id).map Document.terms

theorem mirrors_empty : Mirrors {} {} := ⟨lockstep_empty, fun _ => rfl⟩

theorem termsOf_update (x : Index) (d : Document) (j : Text) :
    (x.update d).termsOf.get? j = if j = d.id then some d.terms else x.termsOf.get? j := by
  rw [update, termsOf_add, termsOf_remove]
  by_cases hj : j = d.id <;> simp [hj]

theorem Mirrors.perform {x : Index} {m : Table Text Document} (h : x.Mirrors m) (c : Command) :
    (x.perform c).Mirrors (c.keep m) := by
  cases c with
  | add d =>
      refine ⟨h.lockstep.add d, fun id => ?_⟩
      rw [Index.perform, termsOf_add, h.termsOf, Command.keep, Table.get?_put]
      by_cases hid : id = d.id <;> simp [hid]
  | update d =>
      refine ⟨(h.lockstep.remove d.id).add d, fun id => ?_⟩
      rw [Index.perform, termsOf_update, h.termsOf, Command.keep, Table.get?_put]
      by_cases hid : id = d.id <;> simp [hid]
  | remove id =>
      refine ⟨h.lockstep.remove id, fun j => ?_⟩
      rw [Index.perform, termsOf_remove, h.termsOf, Command.keep, Table.get?_erase]
      by_cases hj : j = id <;> simp [hj]
  | clear => exact mirrors_empty

theorem mirrors_run (commands : List Command) : (run commands).Mirrors (live commands) := by
  have hall : ∀ {x m}, Mirrors x m → (commands.foldl Index.perform x).Mirrors
      (commands.foldl Command.keep m) := by
    induction commands with
    | nil => exact id
    | cons c commands ih => exact fun h => ih (h.perform c)
  exact hall mirrors_empty

variable {x : Index} {m : Table Text Document}

theorem Mirrors.termsFor_eq (h : x.Mirrors m) (id : Text) :
    x.termsFor id = ((m.get? id).map Document.terms).getD [] := by
  rw [termsFor, h.termsOf]

theorem Mirrors.mem_lookup_iff (h : x.Mirrors m) {t id : Text} :
    id ∈ x.lookup t ↔ ∃ d, m.get? id = some d ∧ t ∈ d.terms := by
  rw [h.lockstep.mem_lookup, h.termsFor_eq]
  cases m.get? id <;> simp

theorem Mirrors.mem_documentIds_iff (h : x.Mirrors m) {id : Text} :
    id ∈ x.documentIds ↔ id ∈ m.keys := by
  rw [documentIds, Table.mem_keys_iff, Table.mem_keys_iff, ← Option.isSome_iff_exists,
    ← Option.isSome_iff_exists, h.termsOf, Option.isSome_map]

theorem Lockstep.bucket_eq (h : x.Lockstep) {t : Text} {ids : List Text} :
    x.buckets.get? t = some ids ↔ ids = x.lookup t ∧ ids ≠ [] := by
  rw [lookup]
  cases hb : x.buckets.get? t with
  | none => simp
  | some bucket =>
      have hne := (h.tidy t bucket hb).1
      rw [Option.some.injEq, Option.getD_some]
      constructor
      · rintro rfl
        exact ⟨rfl, hne⟩
      · rintro ⟨rfl, -⟩
        rfl

theorem Mirrors.mem_terms_iff (h : x.Mirrors m) {t : Text} :
    t ∈ x.terms ↔ ∃ id d, m.get? id = some d ∧ t ∈ d.terms := by
  rw [Index.terms, Table.mem_keys_iff]
  simp only [h.lockstep.bucket_eq]
  constructor
  · rintro ⟨ids, rfl, hne⟩
    obtain ⟨id, hid⟩ := List.exists_mem_of_ne_nil _ hne
    exact ⟨id, h.mem_lookup_iff.mp hid⟩
  · rintro ⟨id, hid⟩
    exact ⟨_, rfl, List.ne_nil_of_mem (h.mem_lookup_iff.mpr hid)⟩

theorem Lockstep.nodup_lookup (h : x.Lockstep) (t : Text) : (x.lookup t).Nodup :=
  h.tidy.bucket_nodup t

theorem nodup_narrow_some (x : Index) {ids : List Text} (hids : ids.Nodup) (ts : List Text) :
    (x.narrow (some ids) ts).Nodup := by
  induction ts generalizing ids with
  | nil => exact hids
  | cons t ts ih =>
      rw [narrow]
      cases x.buckets.get? t with
      | none => exact List.nodup_nil
      | some bucket =>
          by_cases he : (ids.filter bucket.elem).isEmpty = true
          · simp only [he, if_true, List.nodup_nil]
          · simp only [he, Bool.false_eq_true, if_false]
            exact ih (hids.filter _)

theorem Lockstep.nodup_candidates (h : x.Lockstep) (ts : List Text) : (x.candidates ts).Nodup := by
  cases ts with
  | nil => exact x.termsOf.nodup_keys
  | cons t ts =>
      rw [candidates, narrow]
      cases hb : x.buckets.get? t with
      | none => exact List.nodup_nil
      | some bucket =>
          by_cases he : bucket.isEmpty = true
          · simp only [he, if_true, List.nodup_nil]
          · simp only [he, Bool.false_eq_true, if_false]
            exact nodup_narrow_some x (h.tidy t bucket hb).2 ts

/-- Without terms all live documents are candidates, and otherwise those that have every term. -/
theorem Mirrors.mem_candidates (h : x.Mirrors m) {ts : List Text} {id : Text} :
    id ∈ x.candidates ts ↔ ∃ d, m.get? id = some d ∧ ∀ t ∈ ts, t ∈ d.terms := by
  cases ts with
  | nil =>
      have hids : id ∈ x.candidates [] ↔ id ∈ m.keys := h.mem_documentIds_iff
      rw [hids, Table.mem_keys_iff]
      simp
  | cons t ts =>
      rw [mem_candidates_iff x (List.cons_ne_nil t ts)]
      simp only [h.mem_lookup_iff]
      constructor
      · intro hall
        obtain ⟨d, hd, -⟩ := hall t List.mem_cons_self
        refine ⟨d, hd, fun s hs => ?_⟩
        obtain ⟨d', hd', hterm⟩ := hall s hs
        cases hd.symm.trans hd'
        exact hterm
      · rintro ⟨d, hd, hall⟩ s hs
        exact ⟨d, hd, hall s hs⟩

/-- The size of a bucket is the number of documents that have the term. -/
theorem Mirrors.length_lookup (h : x.Mirrors m) (t : Text) :
    (x.lookup t).length = m.values.countP (t ∈ ·.terms) := by
  have hperm : (x.lookup t).Perm ((m.entries.filter (t ∈ ·.2.terms)).map Prod.fst) := by
    rw [List.perm_ext_iff_of_nodup (h.lockstep.nodup_lookup t)
      (m.nodup.sublist (List.filter_sublist.map _))]
    intro id
    rw [h.mem_lookup_iff]
    simp [Table.get?_eq_some_iff]
  rw [hperm.length_eq, List.length_map, Table.values, List.countP_map, List.countP_eq_length_filter]
  rfl

theorem countLe_trans (a b c : Text × Nat) (hab : countLe a b = true) (hbc : countLe b c = true) :
    countLe a c = true := by
  simp only [countLe, Bool.or_eq_true, Bool.and_eq_true, decide_eq_true_eq] at *
  rcases hab with hab | ⟨hab, hle⟩
  · rcases hbc with hbc | ⟨hbc, -⟩ <;> omega
  · rcases hbc with hbc | ⟨hbc, hle'⟩
    · omega
    · exact Or.inr ⟨hab.trans hbc, Text.le_trans hle hle'⟩

theorem countLe_total (a b : Text × Nat) : (countLe a b || countLe b a) = true := by
  simp only [countLe, Bool.or_eq_true, Bool.and_eq_true, decide_eq_true_eq]
  rcases Nat.lt_trichotomy a.2 b.2 with hlt | heq | hlt
  · exact Or.inr (Or.inl hlt)
  · rcases Text.le_total a.1 b.1 with hle | hle
    · exact Or.inl (Or.inr ⟨heq, hle⟩)
    · exact Or.inr (Or.inr ⟨heq.symm, hle⟩)
  · exact Or.inl (Or.inl hlt)

theorem startsWith_iff {mark t : Text} :
    Text.startsWith mark t = true ↔ ∃ name, t = mark ++ name := by
  rw [Text.startsWith, List.isPrefixOf_iff_prefix]
  exact ⟨fun ⟨name, h⟩ => ⟨name, h.symm⟩, fun ⟨name, h⟩ => ⟨name, h.symm⟩⟩

def countOf? (mark : Text) (e : Text × List Text) : Option (Text × Nat) :=
  if Text.startsWith mark e.1 then some (e.1.drop mark.length, e.2.length) else none

theorem perm_termCounts (x : Index) (mark : Text) :
    (x.termCounts mark).Perm (x.buckets.entries.filterMap (countOf? mark)) :=
  List.mergeSort_perm _ _

theorem countOf?_eq_some_iff {mark name : Text} {n : Nat} {e : Text × List Text} :
    countOf? mark e = some (name, n) ↔ e.1 = mark ++ name ∧ e.2.length = n := by
  rw [countOf?]
  split
  · rename_i hs
    obtain ⟨rest, hrest⟩ := startsWith_iff.mp hs
    simp [hrest]
  · rename_i hs
    simp only [false_iff, not_and, reduceCtorEq]
    intro he
    exact absurd (startsWith_iff.mpr ⟨name, he⟩) hs

theorem marked_names (mark : Text) (es : List (Text × List Text)) :
    (es.filterMap (countOf? mark)).map (fun c => mark ++ c.1) =
      (es.map Prod.fst).filter (Text.startsWith mark) := by
  induction es with
  | nil => rfl
  | cons e es ih =>
      cases hc : countOf? mark e with
      | none =>
          have hs : Text.startsWith mark e.1 = false := by
            simpa [countOf?] using hc
          rw [List.filterMap_cons_none hc, ih, List.map_cons, List.filter_cons_of_neg (by simp [hs])]
      | some c =>
          obtain ⟨he, -⟩ := countOf?_eq_some_iff.mp hc
          rw [List.filterMap_cons_some hc, List.map_cons, ih, List.map_cons,
            List.filter_cons_of_pos (startsWith_iff.mpr ⟨_, he⟩), he]

theorem nodup_names_termCounts (x : Index) (mark : Text) :
    ((x.termCounts mark).map Prod.fst).Nodup := by
  rw [((perm_termCounts x mark).map Prod.fst).nodup_iff]
  have hmarked := x.buckets.nodup.sublist (List.filter_sublist (p := Text.startsWith mark))
  rw [← marked_names, ← Function.comp_def (mark ++ ·), ← List.map_map] at hmarked
  exact List.Pairwise.of_map (mark ++ ·) (fun _ _ hne he => hne (congrArg (mark ++ ·) he)) hmarked

theorem Mirrors.mem_termCounts_iff (h : x.Mirrors m) {mark name : Text} {n : Nat} :
    (name, n) ∈ x.termCounts mark ↔
      mark ++ name ∈ x.terms ∧ n = m.values.countP (mark ++ name ∈ ·.terms) := by
  rw [(perm_termCounts x mark).mem_iff, List.mem_filterMap, Index.terms, Table.mem_keys_iff,
    ← h.length_lookup]
  simp only [countOf?_eq_some_iff]
  constructor
  · rintro ⟨⟨t, ids⟩, hm, rfl, rfl⟩
    have hids := Table.get?_eq_some_iff.mpr hm
    exact ⟨⟨ids, hids⟩, congrArg List.length (h.lockstep.bucket_eq.mp hids).1⟩
  · rintro ⟨⟨ids, hids⟩, rfl⟩
    obtain ⟨rfl, -⟩ := h.lockstep.bucket_eq.mp hids
    exact ⟨_, Table.get?_eq_some_iff.mp hids, rfl, rfl⟩

/-- More documents, or as many and an earlier name. -/
def Ahead (a b : Text × Nat) : Prop :=
  b.2 < a.2 ∨ a.2 = b.2 ∧ a.1 ≠ b.1 ∧ Text.le a.1 b.1 = true

/-- Where no two entries have one name, the order is strict. -/
theorem ahead_of_sorted {es : List (Text × Nat)} (hsorted : es.Pairwise fun a b => countLe a b = true)
    (hnames : (es.map Prod.fst).Nodup) : es.Pairwise Ahead := by
  refine (hsorted.and (List.pairwise_map.mp hnames)).imp fun ⟨hab, hne⟩ => ?_
  simp only [countLe, Bool.or_eq_true, Bool.and_eq_true, decide_eq_true_eq] at hab
  rcases hab with hlt | ⟨heq, hle⟩
  · exact Or.inl hlt
  · exact Or.inr ⟨heq, hne, hle⟩

theorem sorted_termCounts (x : Index) (mark : Text) :
    (x.termCounts mark).Pairwise fun a b =>
      b.2 < a.2 ∨ a.2 = b.2 ∧ a.1 ≠ b.1 ∧ Text.le a.1 b.1 = true :=
  ahead_of_sorted (List.pairwise_mergeSort countLe_trans countLe_total _)
    (nodup_names_termCounts x mark)

structure Answers (x : Index) (m : Table Text Document) : Prop where
  lookup : ∀ t, (x.lookup t).Nodup ∧
    ∀ id, id ∈ x.lookup t ↔ ∃ d, m.get? id = some d ∧ t ∈ d.terms
  termsFor : ∀ id, x.termsFor id = ((m.get? id).map Document.terms).getD []
  terms : x.terms.Nodup ∧ ∀ t, t ∈ x.terms ↔ ∃ id d, m.get? id = some d ∧ t ∈ d.terms
  documentIds : x.documentIds.Nodup ∧ ∀ id, id ∈ x.documentIds ↔ id ∈ m.keys
  candidates : ∀ ts, (x.candidates ts).Nodup ∧
    ∀ id, id ∈ x.candidates ts ↔ ∃ d, m.get? id = some d ∧ ∀ t ∈ ts, t ∈ d.terms
  termCounts : ∀ mark, ((x.termCounts mark).map Prod.fst).Nodup ∧
    (∀ name n, (name, n) ∈ x.termCounts mark ↔
      mark ++ name ∈ x.terms ∧ n = m.values.countP (mark ++ name ∈ ·.terms)) ∧
    (x.termCounts mark).Pairwise fun a b =>
      b.2 < a.2 ∨ a.2 = b.2 ∧ a.1 ≠ b.1 ∧ Text.le a.1 b.1 = true

theorem answers_run (commands : List Command) : (run commands).Answers (live commands) := by
  have h := mirrors_run commands
  refine ⟨fun t => ⟨h.lockstep.nodup_lookup t, fun _ => h.mem_lookup_iff⟩, h.termsFor_eq,
    ⟨Table.nodup_keys _, fun _ => h.mem_terms_iff⟩,
    ⟨Table.nodup_keys _, fun _ => h.mem_documentIds_iff⟩,
    fun ts => ⟨h.lockstep.nodup_candidates ts, fun _ => h.mem_candidates⟩,
    fun mark => ⟨nodup_names_termCounts _ mark, fun _ _ => h.mem_termCounts_iff,
      sorted_termCounts _ mark⟩⟩

end VaultSearch.Index
