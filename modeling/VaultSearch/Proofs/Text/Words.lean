import Mathlib.Data.List.Basic
import Mathlib.Data.List.DropRight
import Mathlib.Data.List.TakeWhile
import VaultSearch.Proofs.Text
import VaultSearch.Text.Blank

namespace VaultSearch.Text

theorem not_isBlank_of_isDigit {c : Char} (h : c.isDigit = true) : isBlank c = false := by
  rw [Char.isDigit, Bool.and_eq_true, decide_eq_true_eq, decide_eq_true_eq] at h
  have hlow : 48 ≤ c.val.toNat := UInt32.le_iff_toNat_le.mp h.1
  have hhigh : c.val.toNat ≤ 57 := UInt32.le_iff_toNat_le.mp h.2
  rw [← Bool.not_eq_true]
  simp only [isBlank, Bool.or_eq_true, Bool.and_eq_true, decide_eq_true_eq, beq_iff_eq]
  omega

theorem words_of_isBlank {c : Char} (hc : isBlank c = true) (t : Text) :
    words (c :: t) = words t := by
  rw [words, pieces, if_pos hc, List.filter_cons_of_neg (by simp)]
  rfl

theorem words_append_blank {c : Char} (hc : isBlank c = true) (s t : Text) :
    words (s ++ c :: t) = words s ++ words t := by
  rw [words, pieces_append_sep hc, List.filter_append]
  rfl

theorem words_append {w t : Text} (hne : w ≠ []) (hw : ∀ c ∈ w, isBlank c = false)
    (ht : ∀ c ∈ t.head?, isBlank c = true) : words (w ++ t) = w :: words t := by
  have hkept : (!w.isEmpty) = true := by simpa using hne
  cases t with
  | nil => rw [List.append_nil, words, pieces_of_forall hw, List.filter_cons, if_pos hkept]; rfl
  | cons c t =>
      have hc := ht c rfl
      rw [words_of_isBlank hc, words, pieces_append_cons hw hc, List.filter_cons, if_pos hkept]
      rfl

theorem words_of_forall {w : Text} (hne : w ≠ []) (hw : ∀ c ∈ w, isBlank c = false) : words w = [w] := by
  have hall := words_append hne hw (t := []) (by simp)
  rwa [List.append_nil] at hall

theorem split_first (t : Text) : (∀ c ∈ t, isBlank c = false) ∨
    ∃ w c u, t = w ++ c :: u ∧ (∀ d ∈ w, isBlank d = false) ∧ isBlank c = true := by
  induction t using pieces_induction (p := isBlank) with
  | last w hw => exact .inl hw
  | next w c t hw hc _ => exact .inr ⟨w, c, t, rfl, hw, hc⟩

theorem split_last (t : Text) : (∀ c ∈ t, isBlank c = false) ∨
    ∃ s c w, t = s ++ c :: w ∧ (∀ d ∈ w, isBlank d = false) ∧ isBlank c = true := by
  induction t using pieces_induction (p := isBlank) with
  | last w hw => exact .inl hw
  | next w c t hw hc ih =>
      right
      rcases ih with ht | ⟨s, b, v, rfl, hv, hb⟩
      · exact ⟨w, c, t, rfl, ht, hc⟩
      · exact ⟨w ++ c :: s, b, v, by simp, hv, hb⟩

theorem infix_of_mem_words {t w : Text} (h : w ∈ words t) : w <:+: t :=
  infix_of_mem_pieces (List.mem_filter.mp h).1

/-- A text is empty, or starts with a blank, or with a word that runs to a blank or the end. -/
theorem words_induction {motive : Text → Prop} (nil : motive [])
    (blank : ∀ c t, isBlank c = true → motive t → motive (c :: t))
    (word : ∀ w t, w ≠ [] → (∀ c ∈ w, isBlank c = false) → (∀ c ∈ t.head?, isBlank c = true) →
      motive t → motive (w ++ t))
    (t : Text) : motive t :=
  runs_induction nil blank word t

theorem isBlank_of_mem_words {t w : Text} (h : w ∈ words t) : ∀ c ∈ w, isBlank c = false :=
  forall_of_mem_pieces (List.mem_filter.mp h).1

/-- A text without blanks cannot reach from the end of a word into what follows it. -/
theorem startsWith_append_of_isBlank {needle w t : Text} (hn : ∀ c ∈ needle, isBlank c = false)
    (ht : ∀ c ∈ t.head?, isBlank c = true) : startsWith needle (w ++ t) = startsWith needle w := by
  induction w generalizing needle with
  | nil =>
      cases needle with
      | nil => simp [startsWith]
      | cons c needle =>
          cases t with
          | nil => rfl
          | cons d t =>
              have hcd : c ≠ d := by
                rintro rfl
                simpa [hn c (List.mem_cons_self ..)] using ht c rfl
              simp [startsWith, List.isPrefixOf, hcd]
  | cons d w ih =>
      cases needle with
      | nil => simp [startsWith]
      | cons c needle =>
          have hrest := ih fun e he => hn e (List.mem_cons_of_mem c he)
          simp only [startsWith] at hrest
          simp [startsWith, List.isPrefixOf, hrest]

theorem words_joinWith_flatMap (ts : List Text) : words (joinWith [' '] ts) = ts.flatMap words := by
  induction ts with
  | nil => rfl
  | cons t ts ih =>
      cases ts with
      | nil => simp [joinWith]
      | cons u ts =>
          rw [joinWith_cons_cons, List.append_assoc, List.singleton_append,
            words_append_blank (by decide), ih, ← List.flatMap_cons]

theorem words_joinWith {ws : List Text} (h : ∀ w ∈ ws, w ≠ [] ∧ ∀ c ∈ w, isBlank c = false) :
    words (joinWith [' '] ws) = ws := by
  have hwords : ws.flatMap words = ws.flatMap ([·]) :=
    List.flatMap_congr fun w hw => words_of_forall (h w hw).1 (h w hw).2
  rw [words_joinWith_flatMap, hwords, List.flatMap_singleton']

theorem trim_eq_self {t : Text} (hfirst : ∀ c ∈ t.head?, isBlank c = false)
    (hlast : ∀ c ∈ t.getLast?, isBlank c = false) : trim t = t := by
  have hdrop : ∀ s : Text, (∀ c ∈ s.head?, isBlank c = false) → s.dropWhile isBlank = s :=
    fun s hs => dropWhile_append_run (w := []) (by simp) hs
  rw [trim, trimStart, trimEnd, hdrop t hfirst, hdrop t.reverse (by rwa [List.head?_reverse]),
    List.reverse_reverse]

theorem trim_prefix_trimStart (t : Text) : trim t <+: trimStart isBlank t := by
  rw [trim, trimEnd, ← List.reverse_suffix, List.reverse_reverse]
  exact List.dropWhile_suffix isBlank

theorem head?_trim (t : Text) : ∀ c ∈ (trim t).head?, isBlank c = false := by
  intro c hc
  obtain ⟨rest, hrest⟩ := trim_prefix_trimStart t
  cases htrim : trim t with
  | nil => simp [htrim] at hc
  | cons d u =>
      have hfirst := List.head?_dropWhile_not isBlank t
      rw [htrim] at hrest hc
      rw [← trimStart, ← hrest] at hfirst
      cases hc
      simpa using hfirst

theorem getLast?_trim (t : Text) : ∀ c ∈ (trim t).getLast?, isBlank c = false := by
  intro c hc
  have hlast := List.head?_dropWhile_not isBlank (t.dropWhile isBlank).reverse
  rw [trim, trimEnd, trimStart, List.getLast?_reverse, Option.mem_def] at hc
  simpa [hc] using hlast

theorem trim_infix_self (t : Text) : trim t <:+: t :=
  (trim_prefix_trimStart t).isInfix.trans (List.dropWhile_suffix isBlank).isInfix

theorem isBlank_of_trim_eq_nil {t : Text} (h : trim t = []) : ∀ c ∈ t, isBlank c = true := by
  rw [trim, trimEnd, trimStart, List.reverse_eq_nil_iff, List.dropWhile_eq_nil_iff] at h
  intro c hc
  rw [← List.takeWhile_append_dropWhile (p := isBlank) (l := t), List.mem_append] at hc
  rcases hc with hc | hc
  · exact List.mem_takeWhile_imp hc
  · exact h c (List.mem_reverse.mpr hc)

section Ends

variable {p : Char → Bool} {s t : Text}

theorem trimEnd_cons (p : Char → Bool) (c : Char) (t : Text) :
    trimEnd p (c :: t) = if p c = true ∧ trimEnd p t = [] then [] else c :: trimEnd p t := by
  rw [trimEnd, trimEnd, List.reverse_cons, List.dropWhile_append]
  cases hrest : t.reverse.dropWhile p with
  | nil => cases hc : p c <;> simp [hc]
  | cons d u => simp

theorem trimEnd_eq_nil_iff : trimEnd p t = [] ↔ ∀ c ∈ t, p c = true := List.rdropWhile_eq_nil_iff

theorem trimEnd_trimEnd (p : Char → Bool) (t : Text) : trimEnd p (trimEnd p t) = trimEnd p t :=
  List.rdropWhile_idempotent p t

theorem trimEnd_append_trimmed (p : Char → Bool) (t : Text) :
    ∃ u, t = trimEnd p t ++ u ∧ ∀ c ∈ u, p c = true :=
  ⟨List.rtakeWhile p t, List.rdropWhile_append_rtakeWhile.symm,
    fun _ => List.mem_rtakeWhile_imp⟩

theorem trimEnd_append_of_forall (h : ∀ c ∈ t, p c = true) (s : Text) :
    trimEnd p (s ++ t) = trimEnd p s := by
  rw [trimEnd, trimEnd, List.reverse_append, List.dropWhile_append_of_pos]
  exact fun c hc => h c (List.mem_reverse.mp hc)

theorem trimEnd_append_of_ne_nil (hne : trimEnd p t ≠ []) (s : Text) :
    trimEnd p (s ++ t) = s ++ trimEnd p t := by
  induction s with
  | nil => rfl
  | cons c s ih =>
      have hkept : s ++ trimEnd p t ≠ [] := by simp [hne]
      rw [List.cons_append, trimEnd_cons, ih, if_neg fun h => hkept h.2, List.cons_append]

theorem trimStart_cons_of_not {c : Char} (hc : p c = false) (t : Text) :
    trimStart p (c :: t) = c :: t :=
  List.dropWhile_cons_of_neg (by simp [hc])

end Ends

theorem joinWith_ne_nil (sep : Text) {ws : List Text} (hne : ws ≠ []) (h : ∀ w ∈ ws, w ≠ []) :
    joinWith sep ws ≠ [] := by
  match ws with
  | [] => exact absurd rfl hne
  | [w] => exact h w List.mem_cons_self
  | w :: v :: ws => simp [joinWith_cons_cons, h w]

theorem infix_joinWith (sep : Text) {ws : List Text} {w : Text} (h : w ∈ ws) :
    w <:+: joinWith sep ws := by
  induction ws with
  | nil => cases h
  | cons v ws ih =>
      cases ws with
      | nil => rw [List.mem_singleton.mp h]; exact List.infix_rfl
      | cons u ws =>
          rw [joinWith_cons_cons]
          rcases List.mem_cons.mp h with rfl | h
          · exact ((List.prefix_append w sep).trans (List.prefix_append _ _)).isInfix
          · exact (ih h).trans (List.suffix_append _ _).isInfix

theorem joinWith_cons_char (sep : Text) (c : Char) (w : Text) (ws : List Text) :
    joinWith sep ((c :: w) :: ws) = c :: joinWith sep (w :: ws) := by
  cases ws <;> rfl

theorem joinWith_concat_append (sep : Text) (ws : List Text) (w s : Text) :
    joinWith sep (ws ++ [w ++ s]) = joinWith sep (ws ++ [w]) ++ s := by
  induction ws with
  | nil => rfl
  | cons v ws ih =>
      cases ws with
      | nil => simp [joinWith]
      | cons u ws =>
          rw [List.cons_append, List.cons_append, List.cons_append, List.cons_append,
            joinWith_cons_cons, joinWith_cons_cons, ← List.cons_append, ← List.cons_append, ih,
            ← List.append_assoc]

/-- Pieces that are joined already can be joined to more in one go. -/
theorem joinWith_joinWith_cons (sep : Text) {xs : List Text} (hne : xs ≠ []) (ys : List Text) :
    joinWith sep (joinWith sep xs :: ys) = joinWith sep (xs ++ ys) := by
  induction xs with
  | nil => exact absurd rfl hne
  | cons x xs ih =>
      cases xs with
      | nil => rfl
      | cons z xs =>
          have hrest := ih (List.cons_ne_nil z xs)
          rw [List.cons_append, List.cons_append, joinWith_cons_cons, joinWith_cons_cons,
            ← List.cons_append, ← hrest]
          cases ys with
          | nil => rfl
          | cons y ys => simp [joinWith_cons_cons]

theorem mem_joinWith {sep : Text} {ws : List Text} {c : Char} (h : c ∈ joinWith sep ws) :
    c ∈ sep ∨ ∃ w ∈ ws, c ∈ w := by
  induction ws with
  | nil => cases h
  | cons w ws ih =>
      cases ws with
      | nil => exact .inr ⟨w, List.mem_cons_self, h⟩
      | cons v ws =>
          rw [joinWith_cons_cons, List.mem_append, List.mem_append] at h
          rcases h with (h | h) | h
          · exact .inr ⟨w, List.mem_cons_self, h⟩
          · exact .inl h
          · exact (ih h).imp_right fun ⟨u, hu, hc⟩ => ⟨u, List.mem_cons_of_mem w hu, hc⟩

/-- Whatever is put between words, there is no blank at either end. -/
theorem trim_joinWith (sep : Text) {ws : List Text}
    (h : ∀ w ∈ ws, w ≠ [] ∧ ∀ c ∈ w, isBlank c = false) :
    trim (joinWith sep ws) = joinWith sep ws := by
  apply trim_eq_self
  · cases ws with
    | nil => simp [joinWith]
    | cons w ws =>
        obtain ⟨⟨hne, hw⟩, -⟩ := List.forall_mem_cons.mp h
        cases w with
        | nil => exact absurd rfl hne
        | cons c w => cases ws <;> simpa [joinWith] using hw c List.mem_cons_self
  · induction ws with
    | nil => simp [joinWith]
    | cons w ws ih =>
        obtain ⟨⟨-, hw⟩, hws⟩ := List.forall_mem_cons.mp h
        cases ws with
        | nil => exact fun c hc => hw c (List.mem_of_getLast? hc)
        | cons v ws =>
            have hrest := joinWith_ne_nil sep (List.cons_ne_nil v ws) fun w hw => (hws w hw).1
            intro c hc
            rw [joinWith_cons_cons, List.getLast?_append_of_ne_nil _ hrest] at hc
            exact ih hws c hc

end VaultSearch.Text
