import VaultSearch.Proofs.Query.Rendering
import VaultSearch.Proofs.Text.Lower
import VaultSearch.Search.Pipeline

namespace VaultSearch.Query

open Text

/-- The words outside quotes as they are written, from one blank, parenthesis or apostrophe to the
next. -/
def bareWords : Text → List Text
  | [] => []
  | c :: t =>
    if c = '"' then bareWords ((t.dropWhile (· != '"')).drop 1)
    else if inWord c then (c :: t.takeWhile inWord) :: bareWords (t.dropWhile inWord)
    else bareWords t
  termination_by t => t.length
  decreasing_by
    all_goals simp only [List.length_cons, List.length_drop]
    · have := (List.dropWhile_sublist (l := t) (· != '"')).length_le
      omega
    · have := (List.dropWhile_sublist (l := t) inWord).length_le
      omega
    · omega

section Words

variable {c : Char} {q t u w : Text}

theorem bareWords_nil : bareWords [] = [] := by rw [bareWords.eq_def]

theorem bareWords_quote (t : Text) :
    bareWords ('"' :: t) = bareWords ((t.dropWhile (· != '"')).drop 1) := by
  rw [bareWords.eq_def]
  exact if_pos rfl

theorem bareWords_word (hc : inWord c = true) (t : Text) :
    bareWords (c :: t) = (c :: t.takeWhile inWord) :: bareWords (t.dropWhile inWord) := by
  have hquote : c ≠ '"' := by
    rintro rfl
    exact absurd hc (by decide)
  rw [bareWords.eq_def]
  exact (if_neg hquote).trans (if_pos hc)

theorem bareWords_skip (hc : inWord c = false) (hquote : c ≠ '"') (t : Text) :
    bareWords (c :: t) = bareWords t := by
  rw [bareWords.eq_def]
  exact (if_neg hquote).trans (if_neg (by simp [hc]))

/-- A query is empty, or starts with a quote, with a word, or with what parts words. -/
theorem query_induction {motive : Text → Prop} (nil : motive [])
    (quote : ∀ t, motive ((t.dropWhile (· != '"')).drop 1) → motive ('"' :: t))
    (word : ∀ c t, inWord c = true → motive (t.dropWhile inWord) → motive (c :: t))
    (skip : ∀ c t, inWord c = false → c ≠ '"' → motive t → motive (c :: t))
    (q : Text) : motive q := by
  induction q using bareWords.induct with
  | case1 => exact nil
  | case2 t ih => exact quote t ih
  | case3 c t _ hc ih => exact word c t hc ih
  | case4 c t hquote hc ih => exact skip c t (by simpa using hc) hquote ih

theorem inWord_of_mem_bareWords (h : w ∈ bareWords q) : ∀ c ∈ w, inWord c = true := by
  induction q using query_induction with
  | nil => simp [bareWords_nil] at h
  | quote t ih => exact ih (by rwa [bareWords_quote] at h)
  | word c t hc ih =>
      rw [bareWords_word hc, List.mem_cons] at h
      rcases h with rfl | h
      · exact List.forall_mem_cons.mpr ⟨hc, fun d hd => List.mem_takeWhile_imp hd⟩
      · exact ih h
  | skip c t hc hquote ih => exact ih (by rwa [bareWords_skip hc hquote] at h)

end Words

section Operators

variable {c : Char} {t u w : Text} {b : Option Char}

theorem gluesWord_of_mem_operatorWords {op : Text} (hop : op ∈ operatorWords) :
    op ≠ [] ∧ ∀ c ∈ op, gluesWord c = true := by
  have hall : operatorWords.all (fun op => !op.isEmpty && op.all gluesWord) = true := by decide
  simpa using List.all_eq_true.mp hall op hop

theorem not_any_gluesWord {o : Option Char} :
    (!o.any gluesWord) = true ↔ ∀ c ∈ o, gluesWord c = false := by
  cases o <;> simp

/-- What parts words stands next to a bare operator, as far as it is no quote. -/
theorem gluesWord_of_not_inWord (hc : inWord c = false) (hquote : c ≠ '"') : gluesWord c = false := by
  simp only [inWord, Bool.not_eq_false', Bool.or_eq_true, beq_iff_eq] at hc
  rcases hc with (((hblank | rfl) | rfl) | rfl) | rfl
  · simp [gluesWord, isWordChar_blank hblank, hquote]
  · decide
  · decide
  · exact absurd rfl hquote
  · decide

theorem startsOperator_iff : startsOperator t = true ↔
    ∃ op ∈ operatorWords, ∃ u, t = op ++ u ∧ ∀ c ∈ u.head?, gluesWord c = false := by
  rw [startsOperator, List.any_eq_true]
  refine exists_congr fun op => and_congr_right fun _ => ?_
  rw [Bool.and_eq_true, startsWith_iff_prefix, not_any_gluesWord]
  constructor
  · rintro ⟨⟨u, rfl⟩, hend⟩
    exact ⟨u, rfl, by rwa [List.drop_left] at hend⟩
  · rintro ⟨u, rfl, hend⟩
    exact ⟨List.prefix_append op u, by rwa [List.drop_left]⟩

/-- An operator cannot reach across a character that may stand next to it. -/
theorem startsOperator_append (hc : gluesWord c = false) (w s : Text) :
    startsOperator (w ++ c :: s) = startsOperator w := by
  rw [Bool.eq_iff_iff, startsOperator_iff, startsOperator_iff]
  refine exists_congr fun op => and_congr_right fun hop => ?_
  constructor
  · rintro ⟨u, hsplit, hend⟩
    rcases List.append_eq_append_iff.mp hsplit with ⟨rest, rfl, hrest⟩ | ⟨rest, rfl, rfl⟩
    · cases rest with
      | nil => exact ⟨[], by simp, by simp⟩
      | cons d rest =>
          obtain ⟨rfl, -⟩ := List.cons_eq_cons.mp hrest
          have hglues := (gluesWord_of_mem_operatorWords hop).2 c (by simp)
          rw [hc] at hglues
          cases hglues
    · refine ⟨rest, rfl, fun d hd => hend d ?_⟩
      cases rest with
      | nil => cases hd
      | cons e rest => exact hd
  · rintro ⟨u, rfl, hend⟩
    refine ⟨u ++ c :: s, by simp, fun d hd => ?_⟩
    cases u with
    | nil =>
        cases hd
        exact hc
    | cons e u => exact hend d hd

/-- No operator starts at a character that may stand next to one. -/
theorem bareOperatorAfter_skip (hc : gluesWord c = false) (b : Option Char) (t : Text) :
    bareOperatorAfter b (c :: t) = bareOperatorAfter none t := by
  have hhead : startsOperator (c :: t) = false :=
    (startsOperator_append hc [] t).trans (by decide)
  rw [bareOperatorAfter, hhead, Bool.and_false, Bool.false_or]
  cases t with
  | nil => rfl
  | cons d t => simp [bareOperatorAfter, hc]

/-- Where a word ends, the operators within it and those behind it are looked for one by one. -/
theorem bareOperatorAfter_append (ht : ∀ c ∈ t.head?, gluesWord c = false) (b : Option Char)
    (w : Text) :
    bareOperatorAfter b (w ++ t) = (bareOperatorAfter b w || bareOperatorAfter none t) := by
  cases t with
  | nil => simp [bareOperatorAfter]
  | cons c t =>
      have hc := ht c rfl
      induction w generalizing b with
      | nil =>
          rw [List.nil_append, bareOperatorAfter_skip hc, bareOperatorAfter_skip hc,
            bareOperatorAfter, Bool.false_or]
      | cons d w ih =>
          have hsame := startsOperator_append hc (d :: w) t
          rw [List.cons_append] at hsame ⊢
          rw [bareOperatorAfter, bareOperatorAfter, hsame, ih, Bool.or_assoc]

theorem bareOperatorAfter_iff : bareOperatorAfter b t = true ↔
    ∃ s op u, t = s ++ (op ++ u) ∧ op ∈ operatorWords ∧
      (∀ c ∈ s.getLast?.or b, gluesWord c = false) ∧ ∀ c ∈ u.head?, gluesWord c = false := by
  induction t generalizing b with
  | nil =>
      simp only [bareOperatorAfter, Bool.false_eq_true, false_iff]
      rintro ⟨s, op, u, hnil, hop, -, -⟩
      have hop' := (gluesWord_of_mem_operatorWords hop).1
      simp [hop'] at hnil
  | cons c t ih =>
      have hlast (s : Text) : (c :: s).getLast?.or b = s.getLast?.or (some c) := by
        rw [List.getLast?_cons]
        cases s.getLast? <;> rfl
      rw [bareOperatorAfter, Bool.or_eq_true, Bool.and_eq_true, not_any_gluesWord,
        startsOperator_iff, ih]
      constructor
      · rintro (⟨hb, op, hop, u, ht, hend⟩ | ⟨s, op, u, rfl, hop, hbefore, hend⟩)
        · exact ⟨[], op, u, ht, hop, hb, hend⟩
        · exact ⟨c :: s, op, u, rfl, hop, hlast s ▸ hbefore, hend⟩
      · rintro ⟨s, op, u, ht, hop, hbefore, hend⟩
        cases s with
        | nil => exact .inl ⟨hbefore, op, hop, u, ht, hend⟩
        | cons d s =>
            obtain ⟨rfl, rfl⟩ := List.cons_eq_cons.mp ht
            exact .inr ⟨s, op, u, rfl, hop, hlast s ▸ hbefore, hend⟩

/-- An operator in capitals stands in the text, and no word character stands next to it. -/
def HoldsOperator (t : Text) : Prop :=
  ∃ before op after, t = before ++ (op ++ after) ∧ op ∈ operatorWords ∧
    (∀ c ∈ before.getLast?, isWordChar c = false) ∧ ∀ c ∈ after.head?, isWordChar c = false

theorem bareOperatorAfter_none_iff (hquote : '"' ∉ t) :
    bareOperatorAfter none t = true ↔ HoldsOperator t := by
  have hsame : ∀ c ∈ t, gluesWord c = isWordChar c := by
    intro c hc
    have hne : c ≠ '"' := by
      rintro rfl
      exact hquote hc
    simp [gluesWord, hne]
  rw [bareOperatorAfter_iff, HoldsOperator]
  refine exists₃_congr fun s op u => and_congr_right ?_
  rintro rfl
  simp only [Option.or_none]
  refine and_congr_right fun _ => and_congr ?_ ?_
  · refine forall₂_congr fun c hc => ?_
    rw [hsame c (List.mem_append_left _ (List.mem_of_getLast? hc))]
  · refine forall₂_congr fun c hc => ?_
    rw [hsame c (List.mem_append_right _ (List.mem_append_right _ (List.mem_of_head? hc)))]

theorem holdsOperator_of_mem (h : w ∈ operatorWords) : HoldsOperator w :=
  ⟨[], w, [], by simp, h, by simp, by simp⟩

end Operators

section Queries

variable {c : Char} {q t w : Text}

theorem unquote_nil : unquote [] = [] := by rw [unquote.eq_def]

theorem unquote_quote (t : Text) :
    unquote ('"' :: t) = ' ' :: unquote ((t.dropWhile (· != '"')).drop 1) := by
  rw [unquote.eq_def]
  exact if_pos rfl

theorem unquote_cons (hc : c ≠ '"') (t : Text) : unquote (c :: t) = c :: unquote t := by
  rw [unquote.eq_def]
  exact if_neg hc

theorem unquote_append (hw : '"' ∉ w) (t : Text) : unquote (w ++ t) = w ++ unquote t := by
  induction w with
  | nil => rfl
  | cons c w ih =>
      rw [List.mem_cons, not_or] at hw
      rw [List.cons_append, unquote_cons (Ne.symm hw.1), ih hw.2, List.cons_append]

theorem head?_unquote (ht : ∀ c ∈ t.head?, inWord c = false) :
    ∀ c ∈ (unquote t).head?, gluesWord c = false := by
  cases t with
  | nil => simp [unquote_nil]
  | cons c t =>
      by_cases hquote : c = '"'
      · subst hquote
        rw [unquote_quote]
        rintro d hd
        cases hd
        decide
      · rw [unquote_cons hquote]
        rintro d hd
        cases hd
        exact gluesWord_of_not_inWord (ht c rfl) hquote

/-- An operator is found in a query if it is found in one of its words. -/
theorem hasOperator_eq_any (q : Text) :
    hasOperator q = (bareWords q).any (bareOperatorAfter none) := by
  rw [hasOperator]
  induction q using query_induction with
  | nil => rw [unquote_nil, bareWords_nil]; rfl
  | quote t ih => rw [unquote_quote, bareOperatorAfter_skip (by decide), bareWords_quote, ih]
  | word c t hc ih =>
      have hend : ∀ d ∈ (t.dropWhile inWord).head?, inWord d = false := by
        intro d hd
        have hdrop := List.head?_dropWhile_not inWord t
        rw [Option.mem_def] at hd
        simpa [hd] using hdrop
      have hword := inWord_of_mem_bareWords (bareWords_word hc t ▸ List.mem_cons_self)
      have hquote : '"' ∉ c :: t.takeWhile inWord := fun hmem => absurd (hword _ hmem) (by decide)
      have hsplit := unquote_append hquote (t.dropWhile inWord)
      rw [List.cons_append, List.takeWhile_append_dropWhile] at hsplit
      rw [hsplit, bareOperatorAfter_append (head?_unquote hend), ih, bareWords_word hc,
        List.any_cons]
  | skip c t hc hquote ih =>
      rw [unquote_cons hquote, bareOperatorAfter_skip (gluesWord_of_not_inWord hc hquote),
        bareWords_skip hc hquote, ih]

theorem hasOperator_iff_exists (q : Text) :
    hasOperator q = true ↔ ∃ w ∈ bareWords q, HoldsOperator w := by
  rw [hasOperator_eq_any, List.any_eq_true]
  refine exists_congr fun w => and_congr_right fun hw => bareOperatorAfter_none_iff fun hmem => ?_
  exact absurd (inWord_of_mem_bareWords hw _ hmem) (by decide)

theorem hasOperator_of_spaced {w op : Text} (hw : '"' ∉ w) (hop : op ∈ operatorWords)
    (rest : Text) : hasOperator (w ++ ' ' :: (op ++ ' ' :: rest)) = true := by
  have hquote : '"' ∉ w ++ ' ' :: (op ++ [' ']) := by
    have hin := (Token.inWord_of_mem_operatorWords hop).2
    have hop' : '"' ∉ op := fun hmem => absurd (List.all_eq_true.mp hin _ hmem) (by decide)
    simp [hw, hop']
  have hsplit : w ++ ' ' :: (op ++ ' ' :: rest) = (w ++ ' ' :: (op ++ [' '])) ++ rest := by simp
  rw [hasOperator, hsplit, unquote_append hquote, bareOperatorAfter_iff]
  refine ⟨w ++ [' '], op, ' ' :: unquote rest, by simp, hop, ?_, ?_⟩
  · rw [List.getLast?_concat]
    rintro c ⟨⟩
    decide
  · rintro c ⟨⟩
    decide

namespace Token

def isWord (k : Token) : Bool := k.kind = .term || k.kind = .operator

theorem isWord_ofWord (w : Text) : (ofWord w).isWord = true := by
  rw [ofWord]
  cases operatorWord? w <;> rfl

/-- A word is read as an operator, and spelled as one, exactly if it is one in capitals. -/
theorem ofWord_eq_self_iff : ofWord w = ⟨.operator, w⟩ ↔ w ∈ operatorWords := by
  refine ⟨fun h => ?_, ofWord_of_mem⟩
  rw [ofWord] at h
  cases hop : operatorWord? w with
  | none => simp [hop] at h
  | some u =>
      obtain rfl : u = w := by simpa [hop] using h
      exact mem_operatorWords_of_eq_some hop

/-- The terms and operators of a query are what its words are read as. -/
theorem filter_scan (q : Text) : (scan q).filter isWord = (bareWords q).map ofWord := by
  fun_induction scan q with
  | case1 => rw [bareWords_nil]; rfl
  | case2 c t hblank ih =>
      have hquote : c ≠ '"' := by
        rintro rfl
        exact absurd hblank (by decide)
      rw [bareWords_skip (not_inWord_of_isBlank hblank) hquote, ih]
  | case3 t _ ih => rw [bareWords_quote, ← ih]; rfl
  | case4 t _ _ ih => rw [bareWords_skip (by decide) (by decide), ← ih]; rfl
  | case5 t _ _ _ ih => rw [bareWords_skip (by decide) (by decide), ← ih]; rfl
  | case6 t _ _ _ _ ih => rw [bareWords_skip (by decide) (by decide), ih]
  | case7 c t hblank hq hl hr ha ih =>
      have hc : inWord c = true := by simp [inWord, hblank, hq, hl, hr, ha]
      rw [bareWords_word hc, List.map_cons, ← ih, List.filter_cons_of_pos (isWord_ofWord _)]

end Token

/-- A query is taken for a boolean one if an operator in capitals stands in one of its words, with
no word character next to it. A word that is read as an operator and written as one does so; where
no other word does, the queries taken for boolean ones are just those with such an operator. -/
theorem hasOperator_word_by_word (q : Text) :
    (Token.scan q).filter Token.isWord = (bareWords q).map Token.ofWord ∧
      (hasOperator q = true ↔ ∃ w ∈ bareWords q, HoldsOperator w) ∧
      (∀ o : Search.Options, (Search.smart { o with query := q }).mode = .boolean ↔
        ∃ w ∈ bareWords q, HoldsOperator w) ∧
      ((∃ w ∈ bareWords q, Token.ofWord w = ⟨.operator, w⟩) →
        ∃ w ∈ bareWords q, HoldsOperator w) ∧
      ((hasOperator q = true ↔ ∃ w ∈ bareWords q, Token.ofWord w = ⟨.operator, w⟩) ↔
        ((∃ w ∈ bareWords q, HoldsOperator w) → ∃ w ∈ bareWords q, w ∈ operatorWords)) := by
  have hwhole : (∃ w ∈ bareWords q, w ∈ operatorWords) → ∃ w ∈ bareWords q, HoldsOperator w :=
    fun ⟨w, hw, hop⟩ => ⟨w, hw, holdsOperator_of_mem hop⟩
  simp only [Token.ofWord_eq_self_iff]
  refine ⟨Token.filter_scan q, hasOperator_iff_exists q, fun o => ?_, hwhole, ?_⟩
  · rw [← hasOperator_iff_exists]
    cases hop : hasOperator q <;> simp [Search.smart, Search.Options.mode, hop]
  · rw [hasOperator_iff_exists]
    exact ⟨fun h => h.mp, fun h => ⟨h, hwhole⟩⟩

def hyphened : Text := "rock-AND-roll".toList

/-- For the reader of the query this is a single term. -/
theorem hyphened_hasOperator :
    Token.scan hyphened = [⟨.term, hyphened⟩] ∧
      ¬(hasOperator hyphened = true ↔
        ∃ w ∈ bareWords hyphened, Token.ofWord w = ⟨.operator, w⟩) := by
  have hscan : Token.scan hyphened = [⟨.term, hyphened⟩] := by decide +kernel
  have hfound : hasOperator hyphened = true := by decide +kernel
  have hnone : ¬∃ w ∈ bareWords hyphened, Token.ofWord w = ⟨.operator, w⟩ := by decide +kernel
  exact ⟨hscan, fun h => hnone (h.mp hfound)⟩

end Queries

end VaultSearch.Query
