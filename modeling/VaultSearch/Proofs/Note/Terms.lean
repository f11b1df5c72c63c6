import VaultSearch.Note.Terms
import VaultSearch.Proofs.Text.Words

namespace VaultSearch.Note

open Text

variable {t w y : Text} {d : Document}

section Tokens

theorem mem_tokens_iff : w ∈ tokens t ↔ w ∈ words (cleaned (lower t)) ∧ minTermLength ≤ w.length := by
  rw [tokens, List.mem_eraseDups, List.mem_filter, decide_eq_true_eq]

/-- What cleaning takes out becomes blank, so that words come through as they were. -/
theorem infix_of_infix_cleaned (h : w <:+: cleaned t) (hw : ∀ c ∈ w, isBlank c = false) : w <:+: t := by
  obtain ⟨v, hv, rfl⟩ := List.infix_map_iff.mp h
  have hsame : v.map (fun c => if isWordChar c || isBlank c || c == '-' then c else ' ') = v := by
    refine (List.map_congr_left fun c hc => ?_).trans (List.map_id v)
    have hfull := hw _ (List.mem_map_of_mem hc)
    split
    · rfl
    · rename_i hgone
      rw [if_neg hgone] at hfull
      exact absurd hfull (by decide)
  rwa [hsame]

theorem infix_of_mem_tokens (h : w ∈ tokens t) : w <:+: lower t := by
  have hword := (mem_tokens_iff.mp h).1
  exact infix_of_infix_cleaned (infix_of_mem_words hword) (isBlank_of_mem_words hword)

theorem ne_nil_of_mem_tokens (h : w ∈ tokens t) : w ≠ [] := mem_words (mem_tokens_iff.mp h).1

theorem isBlank_of_mem_tokens (h : w ∈ tokens t) : ∀ c ∈ w, isBlank c = false :=
  isBlank_of_mem_words (mem_tokens_iff.mp h).1

/-- Nothing but word characters and hyphens gets into a token. -/
theorem notMem_of_mem_tokens {c : Char} (hc : isWordChar c = false ∧ c ≠ '-') (h : w ∈ tokens t) :
    c ∉ w := by
  intro hmem
  have hfull := isBlank_of_mem_tokens h c hmem
  obtain ⟨b, -, hb⟩ := List.mem_map.mp ((infix_of_mem_words (mem_tokens_iff.mp h).1).subset hmem)
  split at hb
  · rename_i hkept
    simp [hb, hc.1, hc.2, hfull] at hkept
  · rw [← hb] at hfull
    exact absurd hfull (by decide)

theorem colon_notMem_tokens (h : w ∈ tokens t) : ':' ∉ w := notMem_of_mem_tokens (by decide) h

end Tokens

theorem tagMark_append_ne (y z : Text) : tagMark ++ y ≠ folderMark ++ z := by
  intro h
  have hheads : some 't' = some 'f' := congrArg List.head? h
  exact absurd hheads (by decide)

namespace Document

theorem effectiveFolder_of_given (h : d.folder.getD [] ≠ []) :
    d.effectiveFolder = d.folder.getD [] := by
  rw [effectiveFolder]
  cases hfolder : d.folder with
  | none => simp [hfolder] at h
  | some f =>
      rw [hfolder] at h
      exact if_neg (by simpa using h)

theorem effectiveFolder_of_not_given (h : d.folder.getD [] = []) :
    d.effectiveFolder = topFolder d.path := by
  rw [effectiveFolder]
  cases hfolder : d.folder with
  | none => rfl
  | some f =>
      rw [hfolder] at h
      exact if_pos (by simpa using h)

theorem mem_terms_iff : w ∈ d.terms ↔ w ∈ tokens d.title ∨ w ∈ tokens d.content ∨
    (∃ a ∈ d.aliases, w ∈ tokens a) ∨ (∃ tag ∈ d.tags, w ∈ tagTerms tag) ∨
    w ∈ folderTerms d.effectiveFolder := by
  simp only [Document.terms, List.mem_eraseDups, List.mem_append, List.mem_flatMap, or_assoc]

/-- Only what a document is tagged with can be found under a mark for tags; a tag that itself
starts with the mark is found there too. -/
theorem tagMark_mem_terms_iff :
    tagMark ++ y ∈ d.terms ↔ ∃ tag ∈ d.tags, lower tag = y ∨ lower tag = tagMark ++ y := by
  have hcolon : ':' ∈ tagMark ++ y := List.mem_append_left y (by decide)
  have htoken : ∀ t, tagMark ++ y ∉ tokens t := fun t h => colon_notMem_tokens h hcolon
  have hfolder : tagMark ++ y ∉ folderTerms d.effectiveFolder := by
    rw [folderTerms]
    split
    · exact List.not_mem_nil
    · rw [List.mem_cons, not_or]
      exact ⟨tagMark_append_ne _ _, htoken _⟩
  simp [mem_terms_iff, htoken, hfolder, tagTerms, eq_comm]

theorem folderMark_mem_terms_iff : folderMark ++ y ∈ d.terms ↔
    (d.effectiveFolder ≠ [] ∧ lower d.effectiveFolder = y) ∨
      ∃ tag ∈ d.tags, lower tag = folderMark ++ y := by
  have hcolon : ':' ∈ folderMark ++ y := List.mem_append_left y (by decide)
  have htoken : ∀ t, folderMark ++ y ∉ tokens t := fun t h => colon_notMem_tokens h hcolon
  have htag : ∀ tag, folderMark ++ y ∈ tagTerms tag ↔ lower tag = folderMark ++ y := by
    intro tag
    simp [tagTerms, (tagMark_append_ne _ _).symm, eq_comm]
  have hfolder : folderMark ++ y ∈ folderTerms d.effectiveFolder ↔
      d.effectiveFolder ≠ [] ∧ lower d.effectiveFolder = y := by
    rw [folderTerms]
    split
    · rename_i hempty
      simp [List.isEmpty_iff.mp hempty]
    · rename_i hset
      simp [htoken, List.isEmpty_iff.not.mp hset, eq_comm]
  simp only [mem_terms_iff, htoken, hfolder, htag, false_or, and_false, exists_false]
  exact or_comm

end Document

end VaultSearch.Note
