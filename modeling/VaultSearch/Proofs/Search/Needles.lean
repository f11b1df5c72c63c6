import VaultSearch.Proofs.Text.Lower
import VaultSearch.Proofs.Text.Words
import VaultSearch.Search.Exact

namespace VaultSearch.Search

open Text Note

section Parts

theorem needleParts_nil : needleParts [] = [] := by rw [needleParts]

theorem needleParts_of_isBlank {c : Char} (hc : isBlank c = true) (t : Text) :
    needleParts (c :: t) = needleParts t := by
  rw [needleParts, if_neg, if_pos hc]
  rintro rfl
  simp [isBlank] at hc

theorem not_isBlank_of_inNeedle {c : Char} (h : inNeedle c = true) : isBlank c = false := by
  rw [inNeedle, Bool.and_eq_true, Bool.not_eq_true'] at h
  exact h.1

theorem needleParts_append {w t : Text} (hne : w ≠ []) (hw : ∀ c ∈ w, inNeedle c = true)
    (ht : ∀ c ∈ t.head?, inNeedle c = false) : needleParts (w ++ t) = w :: needleParts t := by
  cases w with
  | nil => exact absurd rfl hne
  | cons c w =>
      obtain ⟨hc, hw⟩ := List.forall_mem_cons.mp hw
      simp only [inNeedle, Bool.and_eq_true, Bool.not_eq_true', bne_iff_ne] at hc
      rw [List.cons_append, needleParts, if_neg hc.2, if_neg (by simp [hc.1]),
        takeWhile_append_run hw ht, dropWhile_append_run hw ht]

theorem needleParts_joinWith {ws : List Text} (h : ∀ w ∈ ws, w ≠ [] ∧ ∀ c ∈ w, inNeedle c = true) :
    needleParts (joinWith [' '] ws) = ws := by
  induction ws with
  | nil => exact needleParts_nil
  | cons w ws ih =>
      obtain ⟨⟨hne, hw⟩, hws⟩ := List.forall_mem_cons.mp h
      cases ws with
      | nil =>
          have hlast := needleParts_append hne hw (t := []) (by simp)
          rwa [List.append_nil, needleParts_nil] at hlast
      | cons v ws =>
          rw [joinWith_cons_cons, List.append_assoc, List.singleton_append,
            needleParts_append hne hw (by simp [inNeedle, isBlank]),
            needleParts_of_isBlank (by decide), ih hws]

/-- A quote that is not closed is no part of a needle. -/
theorem needleParts_unclosed {t : Text} (h : '"' ∉ t) : needleParts ('"' :: t) = needleParts t := by
  have hrest : t.dropWhile (· != '"') = [] := List.dropWhile_eq_nil_iff.mpr (bne_of_notMem h)
  rw [needleParts, if_pos rfl, hrest]

def inQuotes (p : Text) : Text := '"' :: (p ++ ['"'])

theorem needleParts_inQuotes {p : Text} (h : '"' ∉ p) : needleParts (inQuotes p) = [p] := by
  have hrun := bne_of_notMem h
  rw [inQuotes, needleParts, if_pos rfl, dropWhile_append_run hrun (by simp),
    takeWhile_append_run hrun (by simp)]
  dsimp only
  rw [List.drop_one, List.tail_cons, needleParts_nil]

theorem infix_of_mem_needleParts {t w : Text} (h : w ∈ needleParts t) : w <:+: t := by
  induction t using needleParts.induct with
  | case1 => simp [needleParts] at h
  | case2 u hclose ih =>
      rw [needleParts, if_pos rfl, hclose] at h
      exact (ih h).trans (List.suffix_cons '"' u).isInfix
  | case3 u d v hclose ih =>
      rw [needleParts, if_pos rfl, hclose] at h
      rcases List.mem_cons.mp h with rfl | h
      · exact (List.takeWhile_prefix _).isInfix.trans (List.suffix_cons '"' u).isInfix
      · rw [hclose] at ih
        have hrest := (List.drop_suffix 1 (d :: v)).trans (hclose ▸ List.dropWhile_suffix _)
        exact (ih h).trans (hrest.trans (List.suffix_cons '"' u)).isInfix
  | case4 c u hquote hc ih =>
      rw [needleParts_of_isBlank hc] at h
      exact (ih h).trans (List.suffix_cons c u).isInfix
  | case5 c u hquote hc ih =>
      rw [needleParts, if_neg hquote, if_neg hc] at h
      rcases List.mem_cons.mp h with rfl | h
      · exact (List.prefix_cons_inj c).mpr (List.takeWhile_prefix _) |>.isInfix
      · exact (ih h).trans ((List.dropWhile_suffix _).trans (List.suffix_cons c u)).isInfix

end Parts

section Needles

variable {n t : Text}

def trimmedParts (t : Text) : List Text := ((needleParts t).map trim).filter (!·.isEmpty)

theorem needles_eq (t : Text) :
    needles t = if (trimmedParts t).eraseDups = [] then [t] else (trimmedParts t).eraseDups := by
  rw [needles, ← trimmedParts]
  simp only [List.isEmpty_iff]

theorem eraseDups_eq_nil_iff {ws : List Text} : ws.eraseDups = [] ↔ ws = [] := by
  cases ws <;> simp [List.eraseDups_cons]

theorem mem_needles_iff : n ∈ needles t ↔ n ∈ trimmedParts t ∨ trimmedParts t = [] ∧ n = t := by
  rw [needles_eq]
  by_cases h : trimmedParts t = []
  · simp [h]
  · rw [if_neg (eraseDups_eq_nil_iff.not.mpr h), List.mem_eraseDups]
    simp [h]

theorem needles_ne_nil (t : Text) : needles t ≠ [] := by
  rw [needles_eq]
  split
  · exact List.cons_ne_nil t []
  · assumption

theorem mem_trimmedParts (h : n ∈ trimmedParts t) : n ≠ [] ∧ n <:+: t := by
  obtain ⟨hpart, hne⟩ := List.mem_filter.mp h
  obtain ⟨w, hw, rfl⟩ := List.mem_map.mp hpart
  exact ⟨by simpa using hne, (trim_infix_self w).trans (infix_of_mem_needleParts hw)⟩

theorem needles_eq_eraseDups (h : trimmedParts t ≠ []) : needles t = (trimmedParts t).eraseDups := by
  rw [needles_eq, if_neg (eraseDups_eq_nil_iff.not.mpr h)]

theorem trimmedParts_joinWith {ws : List Text}
    (h : ∀ w ∈ ws, w ≠ [] ∧ ∀ c ∈ w, inNeedle c = true) :
    trimmedParts (joinWith [' '] ws) = ws := by
  have htrim : ws.map trim = ws := by
    refine (List.map_congr_left fun w hw => ?_).trans (List.map_id ws)
    have hword : ∀ v ∈ [w], v ≠ [] ∧ ∀ c ∈ v, isBlank c = false := by
      rintro v hv
      obtain rfl := List.mem_singleton.mp hv
      exact ⟨(h v hw).1, fun c hc => not_isBlank_of_inNeedle ((h v hw).2 c hc)⟩
    exact trim_joinWith [] hword
  rw [trimmedParts, needleParts_joinWith h, htrim]
  exact List.filter_eq_self.mpr fun w hw => by simpa using (h w hw).1

theorem needles_inQuotes {p : Text} (hne : p ≠ []) (hquote : '"' ∉ p) (htrim : trim p = p) :
    needles (inQuotes p) = [p] := by
  have hparts : trimmedParts (inQuotes p) = [p] := by
    rw [trimmedParts, needleParts_inQuotes hquote, List.map_singleton, htrim]
    exact List.filter_eq_self.mpr fun w hw => by simpa [List.mem_singleton.mp hw] using hne
  rw [needles_eq_eraseDups (by simp [hparts]), hparts]
  rfl

/-- A needle is a part of the query, and only an empty query has an empty one. -/
theorem mem_needles (ht : t ≠ []) (h : n ∈ needles t) : n ≠ [] ∧ n <:+: t := by
  rcases mem_needles_iff.mp h with h | ⟨-, rfl⟩
  · exact mem_trimmedParts h
  · exact ⟨ht, List.infix_rfl⟩

end Needles

end VaultSearch.Search
