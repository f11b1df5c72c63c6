import Mathlib.Data.List.TakeWhile
import VaultSearch.Text.Basic

namespace VaultSearch.Text

theorem takeWhile_append_run {p : Char → Bool} {w t : Text} (hw : ∀ c ∈ w, p c = true)
    (ht : ∀ c ∈ t.head?, p c = false) : (w ++ t).takeWhile p = w := by
  rw [List.takeWhile_append_of_pos hw]
  cases t with
  | nil => exact List.append_nil w
  | cons c t => rw [List.takeWhile_cons_of_neg (by simp [ht c rfl]), List.append_nil]

theorem dropWhile_append_run {p : Char → Bool} {w t : Text} (hw : ∀ c ∈ w, p c = true)
    (ht : ∀ c ∈ t.head?, p c = false) : (w ++ t).dropWhile p = t := by
  rw [List.dropWhile_append_of_pos hw]
  cases t with
  | nil => rfl
  | cons c t => exact List.dropWhile_cons_of_neg (by simp [ht c rfl])

theorem bne_of_notMem {c : Char} {t : Text} (h : c ∉ t) : ∀ d ∈ t, (d != c) = true := by
  intro d hd
  rw [bne_iff_ne]
  rintro rfl
  exact h hd

theorem pieces_of_forall {p : Char → Bool} {w : Text} (h : ∀ c ∈ w, p c = false) :
    pieces p w = [w] := by
  induction w with
  | nil => rfl
  | cons c w ih =>
      obtain ⟨hc, hw⟩ := List.forall_mem_cons.mp h
      rw [pieces, hc, ih hw]
      rfl

/-- What parts a text before a separator and behind it parts the whole. -/
theorem pieces_append_sep {p : Char → Bool} {c : Char} (hc : p c = true) (s t : Text) :
    pieces p (s ++ c :: t) = pieces p s ++ pieces p t := by
  induction s with
  | nil =>
      change pieces p (c :: t) = [] :: pieces p t
      rw [pieces, if_pos hc]
  | cons d s ih =>
      rw [List.cons_append, pieces, pieces, ih]
      split
      · rfl
      · cases hs : pieces p s with
        | nil => exact absurd hs (pieces_ne_nil p s)
        | cons w ws => rfl

theorem pieces_append_cons {p : Char → Bool} {w : Text} (h : ∀ c ∈ w, p c = false) {c : Char}
    (hc : p c = true) (t : Text) : pieces p (w ++ c :: t) = w :: pieces p t := by
  rw [pieces_append_sep hc, pieces_of_forall h, List.singleton_append]

/-- A text has no separator, or a piece without any stands before its first. -/
theorem pieces_induction {p : Char → Bool} {motive : Text → Prop}
    (last : ∀ w, (∀ c ∈ w, p c = false) → motive w)
    (next : ∀ w c t, (∀ d ∈ w, p d = false) → p c = true → motive t → motive (w ++ c :: t))
    (t : Text) : motive t := by
  have hfree : ∀ d ∈ t.takeWhile (!p ·), p d = false := fun d hd => by
    simpa using List.mem_takeWhile_imp hd
  have hsplit := List.takeWhile_append_dropWhile (p := (!p ·)) (l := t)
  match hrest : t.dropWhile (!p ·) with
  | [] =>
      rw [hrest, List.append_nil] at hsplit
      exact last t (hsplit ▸ hfree)
  | c :: u =>
      have hc : p c = true := by simpa [hrest] using List.head?_dropWhile_not (!p ·) t
      have hlength : u.length < t.length := by
        have hle := (List.dropWhile_sublist (l := t) (!p ·)).length_le
        rw [hrest, List.length_cons] at hle
        omega
      rw [hrest] at hsplit
      rw [← hsplit]
      exact next _ c u hfree hc (pieces_induction last next u)
  termination_by t.length

theorem infix_of_mem_pieces {p : Char → Bool} {t w : Text} (h : w ∈ pieces p t) : w <:+: t := by
  induction t using pieces_induction (p := p) with
  | last v hv =>
      rw [pieces_of_forall hv, List.mem_singleton] at h
      obtain rfl := h
      exact List.infix_rfl
  | next v c t hv hc ih =>
      rw [pieces_append_cons hv hc, List.mem_cons] at h
      rcases h with rfl | h
      · exact (List.prefix_append _ _).isInfix
      · exact (ih h).trans ((List.suffix_cons c t).trans (List.suffix_append v _)).isInfix

theorem forall_of_mem_pieces {p : Char → Bool} {t w : Text} (h : w ∈ pieces p t) :
    ∀ c ∈ w, p c = false := by
  induction t using pieces_induction (p := p) with
  | last v hv =>
      rw [pieces_of_forall hv, List.mem_singleton] at h
      exact h ▸ hv
  | next v c t hv hc ih =>
      rw [pieces_append_cons hv hc, List.mem_cons] at h
      rcases h with rfl | h
      · exact hv
      · exact ih h

/-- A text is empty, or starts with a separator, or with a run that goes to a separator or the end. -/
theorem runs_induction {p : Char → Bool} {motive : Text → Prop} (nil : motive [])
    (skip : ∀ c t, p c = true → motive t → motive (c :: t))
    (run : ∀ w t, w ≠ [] → (∀ c ∈ w, p c = false) → (∀ c ∈ t.head?, p c = true) →
      motive t → motive (w ++ t))
    (t : Text) : motive t := by
  match t with
  | [] => exact nil
  | c :: t =>
      cases hc : p c with
      | true => exact skip c t hc (runs_induction nil skip run t)
      | false =>
          have hsplit := List.takeWhile_append_dropWhile (p := (!p ·)) (l := t)
          have hend := List.head?_dropWhile_not (!p ·) t
          have hlength := (List.dropWhile_sublist (l := t) (!p ·)).length_le
          rw [← hsplit, ← List.cons_append]
          refine run _ _ (List.cons_ne_nil _ _) ?_ ?_ (runs_induction nil skip run _)
          · refine List.forall_mem_cons.mpr ⟨hc, fun d hd => ?_⟩
            simpa using List.mem_takeWhile_imp hd
          · intro d hd
            rw [Option.mem_def] at hd
            simpa [hd] using hend
  termination_by t.length

/-- Texts that are free of separators come back as they were joined. -/
theorem pieces_joinWith {p : Char → Bool} {c : Char} (hc : p c = true) {ws : List Text}
    (hne : ws ≠ []) (h : ∀ w ∈ ws, ∀ d ∈ w, p d = false) : pieces p (joinWith [c] ws) = ws := by
  induction ws with
  | nil => exact absurd rfl hne
  | cons w ws ih =>
      obtain ⟨hw, hws⟩ := List.forall_mem_cons.mp h
      cases ws with
      | nil => exact pieces_of_forall hw
      | cons v ws =>
          rw [joinWith_cons_cons, List.append_assoc, List.singleton_append,
            pieces_append_cons hw hc, ih (List.cons_ne_nil v ws) hws]

/-- A text with one kind of separator is its pieces joined. -/
theorem joinWith_pieces {p : Char → Bool} {c : Char} {t : Text}
    (h : ∀ d ∈ t, p d = true → d = c) : joinWith [c] (pieces p t) = t := by
  induction t using pieces_induction (p := p) with
  | last w hw => rw [pieces_of_forall hw]; rfl
  | next w d t hw hd ih =>
      have hrest := ih fun e he => h e (List.mem_append_right w (List.mem_cons_of_mem d he))
      obtain rfl := h d (List.mem_append_right w List.mem_cons_self) hd
      rw [pieces_append_cons hw hd]
      cases hpieces : pieces p t with
      | nil => exact absurd hpieces (pieces_ne_nil p t)
      | cons v vs =>
          rw [hpieces] at hrest
          rw [joinWith_cons_cons, hrest, List.append_assoc, List.singleton_append]

theorem splitOn_joinWith {c : Char} {ws : List Text} (hne : ws ≠ []) (h : ∀ w ∈ ws, c ∉ w) :
    splitOn c (joinWith [c] ws) = ws :=
  pieces_joinWith (p := (· == c)) (beq_self_eq_true c) hne fun w hw d hd => by
    rw [beq_eq_false_iff_ne]
    rintro rfl
    exact h w hw hd

theorem joinWith_injective {c : Char} {vs ws : List Text} (hv : vs ≠ []) (hw : ws ≠ [])
    (hvs : ∀ w ∈ vs, c ∉ w) (hws : ∀ w ∈ ws, c ∉ w) (h : joinWith [c] vs = joinWith [c] ws) :
    vs = ws := by
  rw [← splitOn_joinWith hv hvs, h, splitOn_joinWith hw hws]

theorem le_cons_iff {c d : Char} {a b : Text} :
    le (c :: a) (d :: b) = true ↔ c.toNat < d.toNat ∨ c = d ∧ le a b = true := by
  rw [le]
  by_cases hc : c = d <;> simp [hc, UInt32.lt_iff_toNat_lt]

theorem le_total (a b : Text) : le a b = true ∨ le b a = true := by
  induction a generalizing b with
  | nil => exact Or.inl rfl
  | cons c a ih =>
      cases b with
      | nil => exact Or.inr rfl
      | cons d b =>
          rw [le_cons_iff, le_cons_iff]
          rcases Nat.lt_trichotomy c.toNat d.toNat with hlt | heq | hlt
          · exact Or.inl (Or.inl hlt)
          · have hc := Char.ext (UInt32.toNat_inj.mp heq)
            rcases ih b with hab | hba
            · exact Or.inl (Or.inr ⟨hc, hab⟩)
            · exact Or.inr (Or.inr ⟨hc.symm, hba⟩)
          · exact Or.inr (Or.inl hlt)

theorem le_trans {a b c : Text} (hab : le a b = true) (hbc : le b c = true) : le a c = true := by
  induction a generalizing b c with
  | nil => rfl
  | cons x a ih =>
      cases b with
      | nil => cases hab
      | cons y b =>
          cases c with
          | nil => cases hbc
          | cons z c =>
              rw [le_cons_iff] at hab hbc ⊢
              rcases hab with hxy | ⟨rfl, hab⟩
              · rcases hbc with hyz | ⟨rfl, -⟩
                · exact Or.inl (Nat.lt_trans hxy hyz)
                · exact Or.inl hxy
              · rcases hbc with hyz | ⟨rfl, hbc⟩
                · exact Or.inl hyz
                · exact Or.inr ⟨rfl, ih hab hbc⟩

theorem le_antisymm {a b : Text} (hab : le a b = true) (hba : le b a = true) : a = b := by
  induction a generalizing b with
  | nil =>
      cases b with
      | nil => rfl
      | cons d b => cases hba
  | cons c a ih =>
      cases b with
      | nil => cases hab
      | cons d b =>
          rw [le_cons_iff] at hab hba
          rcases hab with hlt | ⟨rfl, hab⟩
          · rcases hba with hgt | ⟨rfl, -⟩
            · exact absurd hgt (Nat.lt_asymm hlt)
            · exact absurd hlt (Nat.lt_irrefl _)
          · rcases hba with hlt | ⟨-, hba⟩
            · exact absurd hlt (Nat.lt_irrefl _)
            · rw [ih hab hba]

end VaultSearch.Text
