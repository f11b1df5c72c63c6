import Mathlib.Data.List.TakeWhile
import VaultSearch.Proofs.Text
import VaultSearch.Query.Token

namespace VaultSearch.Query

open Text

def operatorWords : List Text := [andWord, orWord, notWord]

theorem operatorWord?_eq_none_iff {w : Text} :
    operatorWord? w = none ↔ w.map Char.toUpper ∉ operatorWords := by
  simp [operatorWord?, operatorWords, not_or, and_assoc]

theorem mem_operatorWords_of_eq_some {w u : Text} (h : operatorWord? w = some u) :
    u ∈ operatorWords := by
  simp only [operatorWord?] at h
  split at h
  · rename_i hop
    cases h
    simpa [operatorWords, or_assoc] using hop
  · cases h

theorem not_inWord_of_isBlank {c : Char} (h : isBlank c = true) : inWord c = false := by
  simp [inWord, h]

namespace Token

/-- A token as it stands in a text: a term is a whole word and no operator in any case, a phrase
holds no double quote, and any other token is spelled out. -/
def Plain : Token → Prop
  | ⟨.term, v⟩ => v ≠ [] ∧ v.all inWord = true ∧ v.map Char.toUpper ∉ operatorWords
  | ⟨.phrase, v⟩ => '"' ∉ v
  | ⟨.operator, v⟩ => v ∈ operatorWords
  | ⟨.lparen, v⟩ => v = ['(']
  | ⟨.rparen, v⟩ => v = [')']

instance : DecidablePred Plain
  | ⟨.term, v⟩ =>
    inferInstanceAs (Decidable (v ≠ [] ∧ v.all inWord = true ∧
      v.map Char.toUpper ∉ operatorWords))
  | ⟨.phrase, v⟩ => inferInstanceAs (Decidable ('"' ∉ v))
  | ⟨.operator, v⟩ => inferInstanceAs (Decidable (v ∈ operatorWords))
  | ⟨.lparen, v⟩ => inferInstanceAs (Decidable (v = ['(']))
  | ⟨.rparen, v⟩ => inferInstanceAs (Decidable (v = [')']))

theorem Plain.quote_notMem {k : Token} (h : k.Plain) (hk : k.kind = .term ∨ k.kind = .phrase) :
    '"' ∉ k.value := by
  obtain ⟨kind, v⟩ := k
  rcases hk with hk | hk
  · cases hk
    intro hmem
    exact absurd (List.all_eq_true.mp h.2.1 _ hmem) (by decide)
  · cases hk
    exact h

theorem scan_nil : scan [] = [] := by rw [scan.eq_def]

theorem scan_cons (c : Char) (t : Text) : scan (c :: t) =
    if isBlank c then scan t
    else if c = '"' then ⟨.phrase, t.takeWhile (· != '"')⟩ :: scan ((t.dropWhile (· != '"')).drop 1)
    else if c = '(' then ⟨.lparen, ['(']⟩ :: scan t
    else if c = ')' then ⟨.rparen, [')']⟩ :: scan t
    else if c = '\'' then scan t
    else ofWord (c :: t.takeWhile inWord) :: scan (t.dropWhile inWord) := by
  rw [scan.eq_def]

theorem scan_of_isBlank {c : Char} (hc : isBlank c = true) (t : Text) : scan (c :: t) = scan t := by
  rw [scan_cons, if_pos hc]

theorem scan_phrase {v : Text} (hv : '"' ∉ v) (t : Text) :
    scan ('"' :: (v ++ '"' :: t)) = ⟨.phrase, v⟩ :: scan t := by
  have hfree := bne_of_notMem hv
  have hquote : ∀ c ∈ ('"' :: t).head?, (c != '"') = false := by simp
  rw [scan_cons, if_neg (by decide), if_pos rfl, takeWhile_append_run hfree hquote,
    dropWhile_append_run hfree hquote, List.drop_one, List.tail_cons]

theorem scan_lparen (t : Text) : scan ('(' :: t) = ⟨.lparen, ['(']⟩ :: scan t := by
  rw [scan_cons, if_neg (by decide), if_neg (by decide), if_pos rfl]

theorem scan_rparen (t : Text) : scan (')' :: t) = ⟨.rparen, [')']⟩ :: scan t := by
  rw [scan_cons, if_neg (by decide), if_neg (by decide), if_neg (by decide), if_pos rfl]

theorem scan_word {w t : Text} (hne : w ≠ []) (hw : w.all inWord = true)
    (ht : ∀ c ∈ t.head?, inWord c = false) : scan (w ++ t) = ofWord w :: scan t := by
  cases w with
  | nil => exact absurd rfl hne
  | cons c w =>
      obtain ⟨hc, hw⟩ := List.forall_mem_cons.mp (List.all_eq_true.mp hw)
      simp only [inWord, Bool.not_eq_true', Bool.or_eq_false_iff, beq_eq_false_iff_ne] at hc
      obtain ⟨⟨⟨⟨hblank, hl⟩, hr⟩, hq⟩, ha⟩ := hc
      rw [List.cons_append, scan_cons, if_neg (by simp [hblank]), if_neg hq, if_neg hl, if_neg hr,
        if_neg ha, takeWhile_append_run hw ht, dropWhile_append_run hw ht]

theorem ofWord_of_mem {v : Text} (h : v ∈ operatorWords) : ofWord v = ⟨.operator, v⟩ := by
  simp only [operatorWords, List.mem_cons, List.not_mem_nil, or_false] at h
  rcases h with rfl | rfl | rfl <;> rfl

theorem ofWord_of_notMem {v : Text} (h : v.map Char.toUpper ∉ operatorWords) :
    ofWord v = ⟨.term, v⟩ := by
  rw [ofWord, operatorWord?_eq_none_iff.mpr h]

theorem inWord_of_mem_operatorWords {v : Text} (h : v ∈ operatorWords) :
    v ≠ [] ∧ v.all inWord = true := by
  simp only [operatorWords, List.mem_cons, List.not_mem_nil, or_false] at h
  rcases h with rfl | rfl | rfl <;> exact ⟨List.cons_ne_nil _ _, rfl⟩

theorem Plain.scan_text {k : Token} (h : k.Plain) {t : Text}
    (ht : ∀ c ∈ t.head?, isBlank c = true) : scan (k.text ++ t) = k :: scan t := by
  have hend : ∀ c ∈ t.head?, inWord c = false := fun c hc => not_inWord_of_isBlank (ht c hc)
  obtain ⟨kind, v⟩ := k
  cases kind with
  | term =>
      obtain ⟨hne, hword, hop⟩ := h
      rw [text, scan_word hne hword hend, ofWord_of_notMem hop]
  | phrase =>
      have hsplit : ('"' :: v ++ ['"']) ++ t = '"' :: (v ++ '"' :: t) := by simp
      rw [text, hsplit, scan_phrase h]
  | operator =>
      obtain ⟨hne, hword⟩ := inWord_of_mem_operatorWords h
      rw [text, scan_word hne hword hend, ofWord_of_mem h]
  | lparen =>
      cases h
      exact scan_lparen t
  | rparen =>
      cases h
      exact scan_rparen t

theorem scan_render {ks : List Token} (h : ∀ k ∈ ks, k.Plain) : scan (render ks) = ks := by
  induction ks with
  | nil => exact scan_nil
  | cons k ks ih =>
      obtain ⟨hk, hks⟩ := List.forall_mem_cons.mp h
      cases ks with
      | nil =>
          have hlast := hk.scan_text (t := []) (by simp)
          rwa [List.append_nil, scan_nil] at hlast
      | cons l ks =>
          have hsplit : render (k :: l :: ks) = k.text ++ ' ' :: render (l :: ks) := by
            simp [render, joinWith_cons_cons]
          rw [hsplit, hk.scan_text (by simp [isBlank]), scan_of_isBlank (by decide), ih hks]

theorem plain_ofWord {w : Text} (hne : w ≠ []) (hw : w.all inWord = true) :
    (ofWord w).Plain := by
  cases ho : operatorWord? w with
  | none =>
      rw [ofWord, ho]
      exact ⟨hne, hw, operatorWord?_eq_none_iff.mp ho⟩
  | some u =>
      rw [ofWord, ho]
      exact mem_operatorWords_of_eq_some ho

theorem plain_of_mem_scan (q : Text) : ∀ k ∈ scan q, k.Plain := by
  fun_induction scan q with
  | case1 => exact List.forall_mem_nil _
  | case2 c t _ ih => exact ih
  | case3 t _ ih =>
      refine List.forall_mem_cons.mpr ⟨fun hmem => ?_, ih⟩
      simpa using List.mem_takeWhile_imp hmem
  | case4 t _ _ ih => exact List.forall_mem_cons.mpr ⟨rfl, ih⟩
  | case5 t _ _ _ ih => exact List.forall_mem_cons.mpr ⟨rfl, ih⟩
  | case6 t _ _ _ _ ih => exact ih
  | case7 c t hblank hq hl hr ha ih =>
      have hc : inWord c = true := by simp [inWord, hblank, hq, hl, hr, ha]
      have hword : (c :: t.takeWhile inWord).all inWord = true :=
        List.all_eq_true.mpr (List.forall_mem_cons.mpr ⟨hc, fun d hd => List.mem_takeWhile_imp hd⟩)
      exact List.forall_mem_cons.mpr ⟨plain_ofWord (List.cons_ne_nil _ _) hword, ih⟩

/-- Rendering keeps just the token lists that can be read off a text, and reading them off the
rendered text gives them back; what a query is read as is such a list. -/
theorem scan_render_inverse :
    (∀ ks, scan (render ks) = ks ↔ ∀ k ∈ ks, k.Plain) ∧
      ∀ q, (∀ k ∈ scan q, k.Plain) ∧ scan (render (scan q)) = scan q := by
  refine ⟨fun ks => ⟨fun h => ?_, scan_render⟩, fun q => ?_⟩
  · rw [← h]
    exact plain_of_mem_scan _
  · exact ⟨plain_of_mem_scan q, scan_render (plain_of_mem_scan q)⟩

def groupedTokens : List Token :=
  [⟨.operator, notWord⟩, ⟨.lparen, ['(']⟩, ⟨.term, "tag:and".toList⟩, ⟨.operator, orWord⟩,
    ⟨.phrase, " it's (AND) ".toList⟩, ⟨.phrase, []⟩, ⟨.rparen, [')']⟩]

theorem scan_render_inverse_groupedTokens :
    (∀ k ∈ groupedTokens, k.Plain) ∧ scan (render groupedTokens) = groupedTokens := by
  have hplain : ∀ k ∈ groupedTokens, k.Plain := by decide +kernel
  exact ⟨hplain, (scan_render_inverse.1 groupedTokens).mpr hplain⟩

end Token

end VaultSearch.Query
