import Mathlib
import VaultSearch.Proofs.Text
import VaultSearch.Text.Blank
import VaultSearch.Text.Case
import VaultSearch.Text.Word

namespace VaultSearch.Text

section Runs

def CodeMap.all (p : Shift → Bool) : CodeMap → Bool
  | empty => true
  | node left run right => left.all p && p run && right.all p

theorem CodeMap.of_find? {p : Shift → Bool} {m : CodeMap} (hm : m.all p = true) {n : Nat}
    {run : Shift} (h : m.find? n = some run) : p run = true ∧ run.lo ≤ n := by
  induction m with
  | empty => cases h
  | node left r right ihl ihr =>
      simp only [all, Bool.and_eq_true] at hm
      obtain ⟨⟨hleft, hr⟩, hright⟩ := hm
      rw [find?] at h
      split at h
      · exact ihl hleft h
      · rename_i hlo
        split at h
        · cases h
          exact ⟨hr, Nat.le_of_not_lt hlo⟩
        · exact ihr hright h

def Shift.all (p : Char → Bool) (run : Shift) : Bool :=
  (List.range (run.hi - run.lo + 1)).all fun k =>
    k % run.stride ≠ 0 || p (Char.ofNat ((run.lo + k : Nat) + run.shift).toNat)

theorem CodeMap.le_hi_of_find? {m : CodeMap} {n : Nat} {run : Shift} (h : m.find? n = some run) :
    n ≤ run.hi := by
  induction m with
  | empty => cases h
  | node left r right ihl ihr =>
      rw [find?] at h
      split at h
      · exact ihl h
      · split at h
        · cases h
          assumption
        · exact ihr h

/-- A code point stays where it is, or is led to a character that satisfies `p`. -/
theorem CodeMap.apply_cases {p : Char → Bool} {m : CodeMap} (hm : m.all (Shift.all p) = true)
    (n : Nat) : m.apply n = n ∨ p (Char.ofNat (m.apply n)) = true := by
  rw [apply]
  cases hfind : m.find? n with
  | none => exact .inl rfl
  | some run =>
      obtain ⟨hall, hlo⟩ := of_find? hm hfind
      have hhi := le_hi_of_find? hfind
      dsimp only
      split
      · rename_i hstride
        right
        have hk := List.all_eq_true.mp hall (n - run.lo) (List.mem_range.mpr (by omega))
        have hn : run.lo + (n - run.lo) = n := by omega
        simpa [hstride, hn] using hk
      · exact .inl rfl

end Runs

section Characters

variable {c : Char}

theorem toLower_of_le (h : 0x80 ≤ c.val) : c.toLower = c := by
  refine dif_neg fun hcapital => ?_
  have hlow : 0x80 ≤ c.val.toNat := UInt32.le_iff_toNat_le.mp h
  have hhigh : c.val.toNat ≤ 0x5A := UInt32.le_iff_toNat_le.mp hcapital.2
  omega

theorem forall_ascii {r : Char → Prop} (h : ∀ n < 0x80, r (Char.ofNat n)) (hc : c.val < 0x80) :
    r c := by
  have hr := h c.toNat (UInt32.lt_iff_toNat_lt.mp hc)
  rwa [Char.ofNat_toNat] at hr

/-- Whatever holds of equal characters, and can be seen to hold in the ASCII block, holds of any
character and what `Char.toLower` makes of it. -/
theorem toLower_cases {r : Char → Char → Prop} (hsame : ∀ c, r c c)
    (hascii : ∀ n < 0x80, r (Char.ofNat n) (Char.ofNat n).toLower) (c : Char) : r c c.toLower := by
  by_cases hc : c.val < 0x80
  · exact forall_ascii (r := fun c => r c c.toLower) hascii hc
  · rw [toLower_of_le (UInt32.not_lt.mp hc)]
    exact hsame c

theorem isBlank_toLower (c : Char) : isBlank c.toLower = isBlank c :=
  toLower_cases (r := fun c d => isBlank d = isBlank c) (fun _ => rfl) (by decide) c

end Characters

section Blanks

variable {c : Char}

def blanks : List Char :=
  [0x09, 0x0A, 0x0B, 0x0C, 0x0D, 0x1C, 0x1D, 0x1E, 0x1F, 0x20, 0x85, 0xA0, 0x1680, 0x2000, 0x2001,
    0x2002, 0x2003, 0x2004, 0x2005, 0x2006, 0x2007, 0x2008, 0x2009, 0x200A, 0x2028, 0x2029, 0x202F,
    0x205F, 0x3000].map Char.ofNat

theorem mem_blanks (h : isBlank c = true) : c ∈ blanks := by
  rw [← Char.ofNat_toNat c]
  refine List.mem_map_of_mem ?_
  have hcode : c.toNat = c.val.toNat := rfl
  simp only [isBlank, Bool.or_eq_true, Bool.and_eq_true, decide_eq_true_eq, beq_iff_eq] at h
  simp only [List.mem_cons, List.not_mem_nil, or_false, hcode]
  omega

theorem isWordChar_blank (h : isBlank c = true) : isWordChar c = false := by
  have hall : (blanks.all (!isWordChar ·)) = true := by decide +kernel
  simpa using List.all_eq_true.mp hall c (mem_blanks h)

end Blanks

/-- Characters that the lower case of a text has just where the text has them: each stands for
itself, nothing else becomes one of them, and no neighbour looks through them. -/
structure Apart (p : Char → Bool) : Prop where
  stands : ∀ c, p c = true →
    isCaseIgnorable c = false ∧ isCased c = false ∧ lowerChar c = [c] ∧ c.val ≠ 0x3A3
  targets : lowerMap.all (Shift.all (!p ·)) = true
  ascii : ∀ n < 0x80, p (Char.ofNat n).toLower = p (Char.ofNat n)
  special : ∀ n ∈ [0x69, 0x307, 0x3C2, 0x3C3], p (Char.ofNat n) = false

namespace Apart

variable {p : Char → Bool} {c : Char} (hp : Apart p)

include hp

theorem lowerChar_eq_false (h : p c = false) : ∀ d ∈ lowerChar c, p d = false := by
  intro d hd
  rw [lowerChar] at hd
  split at hd
  · rw [List.mem_singleton.mp hd,
      toLower_cases (r := fun c d => p d = p c) (fun _ => rfl) hp.ascii c]
    exact h
  · split at hd
    · rcases List.mem_pair.mp hd with rfl | rfl
      · exact hp.special 0x69 (by decide)
      · exact hp.special 0x307 (by decide)
    · rw [List.mem_singleton.mp hd]
      rcases CodeMap.apply_cases hp.targets c.val.toNat with hsame | hmoved
      · rw [hsame]
        exact (congrArg p (Char.ofNat_toNat c)).trans h
      · simpa using hmoved

theorem mem_of_mem_lower {t : Text} (hc : p c = true) (h : c ∈ lower t) : c ∈ t := by
  rw [lower] at h
  generalize ([] : Text) = before at h
  induction t generalizing before with
  | nil => exact h
  | cons d t ih =>
      rw [lowerAfter, List.mem_append] at h
      rcases h with h | h
      · cases hd : p d with
        | false =>
            have hnone : p c = false := by
              split at h
              · rw [List.mem_singleton.mp h]
                split
                · exact hp.special 0x3C2 (by decide)
                · exact hp.special 0x3C3 (by decide)
              · exact hp.lowerChar_eq_false hd c h
            rw [hnone] at hc
            cases hc
        | true =>
            obtain ⟨-, -, hlow, hsigma⟩ := hp.stands d hd
            rw [if_neg hsigma, hlow, List.mem_singleton] at h
            rw [h]
            exact List.mem_cons_self
      · exact List.mem_cons_of_mem d (ih _ h)

theorem meetsCased_append (hc : p c = true) (s t : Text) :
    meetsCased (s ++ c :: t) = meetsCased s := by
  obtain ⟨hstop, hcased, -⟩ := hp.stands c hc
  simp only [meetsCased, List.find?_append]
  cases List.find? (!isCaseIgnorable ·) s with
  | none => simp [hstop, hcased]
  | some d => rfl

theorem lowerAfter_append (hc : p c = true) (before rest t : Text) :
    lowerAfter (before ++ c :: rest) t = lowerAfter before t := by
  induction t generalizing before with
  | nil => rfl
  | cons d t ih =>
      rw [lowerAfter, lowerAfter, hp.meetsCased_append hc, ← List.cons_append, ih]

theorem lowerAfter_cons (hc : p c = true) (before t : Text) :
    lowerAfter before (c :: t) = c :: lower t := by
  obtain ⟨-, -, hlow, hsigma⟩ := hp.stands c hc
  rw [lowerAfter, if_neg hsigma, hlow, ← List.nil_append (c :: before),
    hp.lowerAfter_append hc, List.singleton_append, lower]

/-- What stands on one side of such a character has no bearing on the lower case of the other. -/
theorem lower_append (hc : p c = true) (s t : Text) :
    lower (s ++ c :: t) = lower s ++ c :: lower t := by
  rw [lower, lower]
  generalize ([] : Text) = before
  induction s generalizing before with
  | nil => exact hp.lowerAfter_cons hc before t
  | cons d s ih =>
      rw [List.cons_append, lowerAfter, lowerAfter, hp.meetsCased_append hc, ih,
        List.append_assoc]

theorem mem_lower_iff {t : Text} (hc : p c = true) : c ∈ lower t ↔ c ∈ t := by
  refine ⟨hp.mem_of_mem_lower hc, fun h => ?_⟩
  obtain ⟨left, right, rfl⟩ := List.mem_iff_append.mp h
  rw [hp.lower_append hc]
  exact List.mem_append_right _ List.mem_cons_self

end Apart

theorem apart_isBlank : Apart isBlank where
  stands c h := by
    have hall : (blanks.all fun c => !isCaseIgnorable c && !isCased c && lowerChar c = [c] &&
        c.val ≠ 0x3A3) = true := by decide +kernel
    simpa [and_assoc] using List.all_eq_true.mp hall c (mem_blanks h)
  targets := by decide +kernel
  ascii n _ := isBlank_toLower (Char.ofNat n)
  special := by decide

theorem apart_mark {m : Char} (hm : m = ',' ∨ m = '"') : Apart (· == m) := by
  rcases hm with rfl | rfl
  all_goals
    refine ⟨fun c h => ?_, by decide +kernel, by decide, by decide⟩
    rw [beq_iff_eq] at h
    subst h
    decide +kernel

theorem apart_comma : Apart (· == ',') := apart_mark (.inl rfl)

theorem apart_quote : Apart (· == '"') := apart_mark (.inr rfl)

section Blanks

variable {c : Char}

theorem mem_of_mem_lower {t : Text} (hc : isBlank c = true) (h : c ∈ lower t) : c ∈ t :=
  apart_isBlank.mem_of_mem_lower hc h

theorem lower_append_blank (hc : isBlank c = true) (s t : Text) :
    lower (s ++ c :: t) = lower s ++ c :: lower t :=
  apart_isBlank.lower_append hc s t

theorem lower_joinWith (hc : isBlank c = true) (ws : List Text) :
    lower (joinWith [c] ws) = joinWith [c] (ws.map lower) := by
  induction ws with
  | nil => rfl
  | cons w ws ih =>
      cases ws with
      | nil => rfl
      | cons v ws =>
          rw [List.map_cons, List.map_cons, joinWith_cons_cons, joinWith_cons_cons, ← List.map_cons,
            ← ih, List.append_assoc, List.append_assoc]
          exact lower_append_blank hc w _

theorem mem_lower_iff {t : Text} (hc : isBlank c = true) : c ∈ lower t ↔ c ∈ t :=
  apart_isBlank.mem_lower_iff hc

end Blanks

theorem startsWith_iff_prefix {needle t : Text} : startsWith needle t = true ↔ needle <+: t :=
  List.isPrefixOf_iff_prefix

theorem contains_iff_infix {needle t : Text} : contains needle t = true ↔ needle <:+: t := by
  induction t with
  | nil => simp [contains, find?]
  | cons c t ih =>
      rw [List.infix_cons_iff, ← ih, ← startsWith_iff_prefix, contains, contains, find?]
      split
      · rename_i hstart
        simp [hstart]
      · rename_i hstart
        simp [hstart]

/-- A text cannot reach across a character that it does not have. -/
theorem infix_append_cons_iff {needle : Text} {c : Char} (h : c ∉ needle) (s t : Text) :
    needle <:+: s ++ c :: t ↔ needle <:+: s ∨ needle <:+: t := by
  rw [List.infix_append_iff]
  constructor
  · -- In the second case the needle may start at the separator, in the third it may reach it.
    rintro (hs | ht | ⟨front, back, rfl, hfront, hback⟩)
    · exact .inl hs
    · rcases List.infix_cons_iff.mp ht with hprefix | ht
      · cases needle with
        | nil => exact .inl (List.nil_infix)
        | cons d needle =>
            obtain ⟨rfl, -⟩ := List.cons_prefix_cons.mp hprefix
            exact absurd List.mem_cons_self h
      · exact .inr ht
    · cases back with
      | nil =>
          rw [List.append_nil]
          exact .inl hfront.isInfix
      | cons d back =>
          obtain ⟨rfl, -⟩ := List.cons_prefix_cons.mp hback
          exact absurd (List.mem_append_right front List.mem_cons_self) h
  · rintro (hs | ht)
    · exact .inl hs
    · exact .inr (.inl (List.infix_cons_iff.mpr (.inr ht)))

theorem contains_append_cons {needle : Text} {c : Char} (h : c ∉ needle) (s t : Text) :
    contains needle (s ++ c :: t) = (contains needle s || contains needle t) := by
  rw [Bool.eq_iff_iff, Bool.or_eq_true, contains_iff_infix, contains_iff_infix, contains_iff_infix,
    infix_append_cons_iff h]

section Pieces

variable {p : Char → Bool}

/-- Lower case leaves a text in the pieces that it has, if blanks are what parts them. -/
theorem pieces_lower (hp : ∀ c, p c = true → isBlank c = true) (t : Text) :
    pieces p (lower t) = (pieces p t).map lower := by
  have hfree : ∀ w : Text, (∀ c ∈ w, p c = false) → ∀ c ∈ lower w, p c = false := by
    intro w hw c hc
    cases hpc : p c with
    | false => rfl
    | true => rw [hw c (mem_of_mem_lower (hp c hpc) hc)] at hpc; cases hpc
  induction t using pieces_induction (p := p) with
  | last w hw => rw [pieces_of_forall hw, pieces_of_forall (hfree w hw), List.map_singleton]
  | next w c t hw hc ih =>
      rw [lower_append_blank (hp c hc), pieces_append_cons hw hc,
        pieces_append_cons (hfree w hw) hc, ih, List.map_cons]

/-- What has no separator and stands in a text stands in a piece of it. -/
theorem infix_piece {needle t : Text} (hneedle : ∀ c ∈ needle, p c = false) (h : needle <:+: t) :
    ∃ w ∈ pieces p t, needle <:+: w := by
  induction t using pieces_induction (p := p) with
  | last w hw => exact ⟨w, by rw [pieces_of_forall hw]; exact List.mem_singleton_self w, h⟩
  | next w c t hw hc ih =>
      have hcut : c ∉ needle := fun hmem => by simp [hneedle c hmem] at hc
      rw [pieces_append_cons hw hc]
      rcases (infix_append_cons_iff hcut w t).mp h with h | h
      · exact ⟨w, List.mem_cons_self, h⟩
      · obtain ⟨v, hv, h⟩ := ih h
        exact ⟨v, List.mem_cons_of_mem w hv, h⟩

end Pieces

end VaultSearch.Text
