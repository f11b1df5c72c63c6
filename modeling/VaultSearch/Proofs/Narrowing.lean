import VaultSearch.Proofs.Engine
import VaultSearch.Proofs.Filtering.Dates
import VaultSearch.Proofs.Note.Terms
import VaultSearch.Proofs.Text.Steady

namespace VaultSearch.Engine

open Text Note Filtering Search

/-- Thinning a list out beforehand by a weaker condition changes nothing, and fails no more often. -/
theorem keep_filter {α ε : Type} {p : α → Except ε Bool} {q : α → Bool} {xs ys : List α}
    (h : keep p xs = .ok ys) (hq : ∀ x ∈ xs, p x = .ok true → q x = true) :
    keep p (xs.filter q) = .ok ys := by
  induction xs generalizing ys with
  | nil => exact h
  | cons x xs ih =>
      obtain ⟨hx, hxs⟩ := List.forall_mem_cons.mp hq
      rw [keep] at h
      cases hp : p x with
      | error err => simp [hp] at h
      | ok b =>
          cases hk : keep p xs with
          | error err => simp [hp, hk, Except.map] at h
          | ok zs =>
              have hrest := ih hk hxs
              cases hqx : q x with
              | true =>
                  rw [List.filter_cons_of_pos hqx, keep, hp, hrest]
                  simpa [hp, hk] using h
              | false =>
                  have hb : b = false := by
                    cases b with
                    | false => rfl
                    | true => exact absurd (hx hp) (by simp [hqx])
                  rw [List.filter_cons_of_neg (by simp [hqx]), hrest]
                  simpa [hp, hk, hb, Except.map] using h

theorem mem_terms_of_tag {d : Document} {tag : Text} (h : lower tag ∈ lowered d.tags) :
    tagMark ++ lower tag ∈ d.terms := by
  obtain ⟨own, hown, hsame⟩ := List.mem_map.mp h
  exact Document.tagMark_mem_terms_iff.mpr ⟨own, hown, .inl hsame⟩

theorem mem_terms_of_folder {d : Document} {c : Char} {t : Text}
    (h : lower d.effectiveFolder = lower (c :: t)) : folderMark ++ lower (c :: t) ∈ d.terms := by
  have hne : d.effectiveFolder ≠ [] := by
    intro hnil
    rw [hnil] at h
    exact lower_ne_nil (List.cons_ne_nil c t) h.symm
  exact Document.folderMark_mem_terms_iff.mpr (.inl ⟨hne, h⟩)

theorem mem_terms_of_admits {f : Filters} {d : Document} (h : f.admits d = .ok true) :
    ∀ t ∈ requiredTerms f, t ∈ d.terms := by
  have hshape := (admits_iff.mp h).2
  simp only [Filters.admitsShape, Bool.and_eq_true] at hshape
  obtain ⟨⟨⟨⟨⟨⟨htags, -⟩, -⟩, -⟩, -⟩, hfolder⟩, -⟩ := hshape
  intro t ht
  rw [requiredTerms, List.mem_append] at ht
  rcases ht with ht | ht
  · obtain ⟨tag, hmem, rfl⟩ := List.mem_map.mp ht
    cases hf : f.tags with
    | none => simp [hf] at hmem
    | some tags =>
        simp only [hf, Option.getD_some] at hmem
        simp only [hf, Option.all_some, tagsAdmit, List.all_eq_true, lowered, List.mem_map,
          forall_exists_index, and_imp, forall_apply_eq_imp_iff₂, List.elem_eq_mem,
          decide_eq_true_eq] at htags
        exact mem_terms_of_tag (by simpa [lowered] using htags tag hmem)
  · split at ht
    · rename_i c u hf
      rw [List.mem_singleton] at ht
      subst ht
      exact mem_terms_of_folder (by simpa [hf, folderAdmits] using hfolder)
    · cases ht

theorem requiredTerms_of_isEmpty {f : Filters} (h : f.isEmpty = true) : requiredTerms f = [] := by
  have hf : f = {} := by simpa [Filters.isEmpty] using h
  rw [hf]
  rfl

theorem Consistent.apply_candidates {e : Engine} (h : e.Consistent) {f : Filters}
    {ds : List Document} (hd : f.apply e.toList = .ok ds) : f.apply (e.candidates f) = .ok ds := by
  rw [candidates, h.under_eq_filter]
  by_cases hf : f.isEmpty = true
  · rw [requiredTerms_of_isEmpty hf]
    rwa [List.filter_eq_self.mpr (by simp)]
  · rw [Filters.apply, if_neg hf] at hd ⊢
    refine keep_filter hd fun d _ had => ?_
    simpa using mem_terms_of_admits had

theorem Consistent.find_eq_scan {e : Engine} (he : e.Consistent) {o : Options} {rs : List Result}
    (h : Search.search e.toList o = .ok rs) : e.find o = .ok rs := by
  rw [Search.search] at h
  rw [find]
  cases hr : resolve o with
  | error err => simp [hr] at h
  | ok resolved =>
      obtain ⟨text, filters⟩ := resolved
      simp only [hr, run] at h ⊢
      cases ha : filters.apply e.toList with
      | error err => simp [ha] at h
      | ok ds => simpa [ha, he.apply_candidates ha] using h

/-- A search through the index finds what a search through all documents finds, whatever the
changes that made the engine, and also with the same scores and spans in the same order. -/
theorem search_eq_scan {e : Engine} (he : Reachable e) {r : Request} {rs : List Result}
    (h : Search.search e.toList (e.options r) = .ok rs) : e.search r = .ok rs :=
  he.consistent.find_eq_scan h

def twoNotes : Engine :=
  [Command.add { id := ['a'], title := "Rust".toList, path := "Work/a.md".toList },
    .add { id := ['b'], content := "Rust".toList, tags := ["systems".toList, "old".toList] },
    .update { id := ['a'], title := "Rust".toList, tags := ["Systems".toList],
              path := "Work/a.md".toList }].foldl perform { strict := true }

def taggedInFolder : Request where
  query := "tag:SYSTEMS folder:work rust".toList

def titleHit : Result where
  id := ['a']
  title := "Rust".toList
  score := 10
  mode := some .exact

theorem search_eq_scan_twoNotes :
    (Reachable twoNotes ∧
        Search.search twoNotes.toList (twoNotes.options taggedInFolder) = .ok [titleHit]) ∧
      twoNotes.search taggedInFolder = .ok [titleHit] := by
  have hr : Reachable twoNotes := (Reachable.empty _ true).foldl _
  have hs : Search.search twoNotes.toList (twoNotes.options taggedInFolder) = .ok [titleHit] :=
    eq_ok_of_toOption (by decide +kernel)
  exact ⟨⟨hr, hs⟩, search_eq_scan hr hs⟩

end VaultSearch.Engine
