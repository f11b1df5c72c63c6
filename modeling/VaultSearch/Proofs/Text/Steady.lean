import VaultSearch.Proofs.Text.Lower

namespace VaultSearch.Text

/-- The one character that becomes two. -/
def dottedI : Char := Char.ofNat 0x130

/-- The one character whose lower case depends on what stands around it. -/
def sigma : Char := Char.ofNat 0x3A3

theorem eq_dottedI {c : Char} (h : c.val = 0x130) : c = dottedI := Char.ext h

theorem eq_sigma {c : Char} (h : c.val = 0x3A3) : c = sigma := Char.ext h

theorem lower_dottedI : lower [dottedI] = ['i', Char.ofNat 0x307] := by decide

def lowerHere (before : Text) (c : Char) (t : Text) : Text :=
  if c.val = 0x3A3 then [Char.ofNat (if meetsCased before && !meetsCased t then 0x3C2 else 0x3C3)]
  else lowerChar c

theorem lowerAfter_cons (before : Text) (c : Char) (t : Text) :
    lowerAfter before (c :: t) = lowerHere before c t ++ lowerAfter (c :: before) t := rfl

theorem lowerHere_of_ne {c : Char} (h : c.val ≠ 0x3A3) (before t : Text) :
    lowerHere before c t = lowerChar c :=
  if_neg h

theorem lowerHere_sigma (before t : Text) : lowerHere before sigma t =
    [Char.ofNat (if meetsCased before && !meetsCased t then 0x3C2 else 0x3C3)] :=
  if_pos (by rfl)

section Idempotence

def isLow (c : Char) : Bool := lowerChar c = [c] && c.val ≠ 0x3A3

theorem isLow_iff {c : Char} : isLow c = true ↔ lowerChar c = [c] ∧ c.val ≠ 0x3A3 := by
  simp [isLow]

theorem isLow_of_lowerChar {c : Char} (hs : c.val ≠ 0x3A3) (h : lowerChar c = [c]) :
    isLow c = true :=
  isLow_iff.mpr ⟨h, hs⟩

/-- What the dotted capital I and the sigma become. -/
theorem isLow_special : isLow (Char.ofNat 0x307) = true ∧ isLow (Char.ofNat 0x3C2) = true ∧
    isLow (Char.ofNat 0x3C3) = true := by
  decide +kernel

theorem all_isLow_lowerMap : lowerMap.all (Shift.all isLow) = true := by decide +kernel

theorem isLow_toLower {c : Char} (h : c.val < 0x80) : isLow c.toLower = true :=
  forall_ascii (r := fun c => isLow c.toLower = true) (by decide) h

theorem isLow_of_mem_lowerChar {c d : Char} (hc : c.val ≠ 0x3A3) (h : d ∈ lowerChar c) :
    isLow d = true := by
  have hdef := h
  rw [lowerChar] at hdef
  split at hdef
  · rename_i hascii
    rw [List.mem_singleton] at hdef
    rw [hdef]
    exact isLow_toLower hascii
  · rename_i hlarge
    split at hdef
    · rcases List.mem_pair.mp hdef with rfl | rfl
      · exact isLow_toLower (c := 'i') (by decide)
      · exact isLow_special.1
    · rename_i hdotted
      rw [List.mem_singleton] at hdef
      rcases CodeMap.apply_cases all_isLow_lowerMap c.val.toNat with hsame | hlow
      · -- A character that is not moved is in lower case already.
        have hself : Char.ofNat (lowerMap.apply c.val.toNat) = c := by
          rw [hsame]
          exact Char.ofNat_toNat c
        rw [hdef, hself]
        refine isLow_of_lowerChar hc ?_
        rw [lowerChar, if_neg hlarge, if_neg hdotted, hself]
      · rw [hdef]
        exact hlow

theorem isLow_of_mem_lowerHere {before t : Text} {c d : Char} (h : d ∈ lowerHere before c t) :
    isLow d = true := by
  rw [lowerHere] at h
  split at h
  · rw [List.mem_singleton] at h
    rw [h]
    split
    · exact isLow_special.2.1
    · exact isLow_special.2.2
  · rename_i hc
    exact isLow_of_mem_lowerChar hc h

theorem isLow_of_mem_lower {t : Text} {d : Char} (h : d ∈ lower t) : isLow d = true := by
  rw [lower] at h
  generalize ([] : Text) = before at h
  induction t generalizing before with
  | nil => cases h
  | cons c t ih =>
      rw [lowerAfter_cons, List.mem_append] at h
      rcases h with h | h
      · exact isLow_of_mem_lowerHere h
      · exact ih _ h

theorem lower_of_isLow {t : Text} (h : ∀ c ∈ t, isLow c = true) : lower t = t := by
  rw [lower]
  generalize ([] : Text) = before
  induction t generalizing before with
  | nil => rfl
  | cons c t ih =>
      obtain ⟨hc, ht⟩ := List.forall_mem_cons.mp h
      obtain ⟨hlow, hsigma⟩ := isLow_iff.mp hc
      rw [lowerAfter_cons, lowerHere_of_ne hsigma, hlow, ih ht, List.singleton_append]

/-- Lower case has no lower case of its own, and neither have its parts. -/
theorem lower_of_infix {t u : Text} (h : u <:+: lower t) : lower u = u :=
  lower_of_isLow fun _ hc => isLow_of_mem_lower (h.subset hc)

end Idempotence

section Lengths

theorem length_lowerChar {c : Char} (h : c ≠ dottedI) : (lowerChar c).length = 1 := by
  rw [lowerChar]
  split
  · rfl
  · split
    · rename_i hdotted
      exact absurd (eq_dottedI hdotted) h
    · rfl

theorem length_lowerHere {c : Char} (h : c ≠ dottedI) (before t : Text) :
    (lowerHere before c t).length = 1 := by
  rw [lowerHere]
  split
  · rfl
  · exact length_lowerChar h

theorem lowerHere_dottedI (before t : Text) : lowerHere before dottedI t = lower [dottedI] := by
  rw [lowerHere_of_ne (by decide)]
  rfl

theorem length_lower (t : Text) : (lower t).length = t.length + t.count dottedI := by
  rw [lower]
  generalize ([] : Text) = before
  induction t generalizing before with
  | nil => rfl
  | cons c t ih =>
      rw [lowerAfter_cons, List.length_append, ih, List.length_cons, List.count_cons]
      by_cases hc : c = dottedI
      · rw [hc, lowerHere_dottedI, lower_dottedI, beq_self_eq_true, if_pos rfl, List.length_cons,
          List.length_singleton]
        omega
      · rw [length_lowerHere hc, beq_eq_false_iff_ne.mpr hc, if_neg Bool.false_ne_true]
        omega

theorem lower_ne_nil {t : Text} (h : t ≠ []) : lower t ≠ [] := by
  have hlength := length_lower t
  have hpos := List.length_pos_iff.mpr h
  exact List.length_pos_iff.mp (by omega)

theorem length_lower_of_notMem {t : Text} (h : dottedI ∉ t) : (lower t).length = t.length := by
  rw [length_lower, List.count_eq_zero.mpr h]
  rfl

theorem length_lower_lt_of_mem {t : Text} (h : dottedI ∈ t) : t.length < (lower t).length := by
  rw [length_lower]
  have hcount := List.count_pos_iff.mpr h
  omega

/-- Where no character grows, what follows a part has its lower case right after it. -/
theorem lowerAfter_append {s : Text} (h : dottedI ∉ s) (before t : Text) :
    ∃ front, front.length = s.length ∧
      lowerAfter before (s ++ t) = front ++ lowerAfter (s.reverse ++ before) t := by
  induction s generalizing before with
  | nil => exact ⟨[], rfl, rfl⟩
  | cons c s ih =>
      rw [List.mem_cons, not_or] at h
      obtain ⟨front, hlength, hfront⟩ := ih h.2 (c :: before)
      refine ⟨lowerHere before c (s ++ t) ++ front, ?_, ?_⟩
      · rw [List.length_append, length_lowerHere (Ne.symm h.1), hlength, List.length_cons]
        omega
      · rw [List.cons_append, lowerAfter_cons, hfront, List.reverse_cons, List.append_assoc,
          List.append_assoc, List.singleton_append]

/-- A capital sigma in the middle of a text is final or not. -/
theorem lower_append_sigma {left : Text} (h : dottedI ∉ left) (right : Text) :
    ∃ front rest, front.length = left.length ∧ lower (left ++ sigma :: right) =
      front ++ lowerHere left.reverse sigma right ++ rest := by
  obtain ⟨front, hlength, hfront⟩ := lowerAfter_append h [] (sigma :: right)
  refine ⟨front, lowerAfter (sigma :: left.reverse) right, hlength, ?_⟩
  rw [lower, hfront, lowerAfter_cons, List.append_nil, List.append_assoc]

/-- A dotted capital I shows in the lower case of a text. -/
theorem infix_lower_of_mem {t : Text} (h : dottedI ∈ t) : lower [dottedI] <:+: lower t := by
  have key : ∀ before, lower [dottedI] <:+: lowerAfter before t := by
    intro before
    induction t generalizing before with
    | nil => cases h
    | cons c t ih =>
        rw [lowerAfter_cons]
        rcases List.mem_cons.mp h with rfl | h
        · rw [lowerHere_dottedI]
          exact (List.prefix_append _ _).isInfix
        · exact (ih h _).trans (List.suffix_append _ _).isInfix
  exact key []

end Lengths

section Steady

/-- No capital sigma stands behind a cased letter, so that none is final. -/
def SigmasLead (t : Text) : Prop :=
  ∀ left right, t = left ++ sigma :: right → meetsCased left.reverse = false

/-- The lower case of a text, and of all its parts, is that of its characters one by one, and there
is no `i` with a dot mark in it, which a single capital could stand for. -/
structure Steady (t : Text) : Prop where
  undotted : ¬lower [dottedI] <:+: lower t
  sigmas : SigmasLead t

theorem meetsCased_of_append {s t : Text} (h : meetsCased (s ++ t) = false) :
    meetsCased s = false := by
  rw [meetsCased, List.find?_append] at h
  rw [meetsCased]
  cases hs : List.find? (!isCaseIgnorable ·) s with
  | none => rfl
  | some c =>
      rw [hs] at h
      exact h

theorem SigmasLead.part {t u : Text} (h : SigmasLead t) (hu : u <:+: t) : SigmasLead u := by
  obtain ⟨front, back, rfl⟩ := hu
  rintro left right rfl
  have hlong := h (front ++ left) (right ++ back) (by simp)
  rw [List.reverse_append] at hlong
  exact meetsCased_of_append hlong

theorem SigmasLead.lower_eq {t : Text} (h : SigmasLead t) : lower t = t.flatMap lowerChar := by
  have key : ∀ before, (∀ left right, t = left ++ sigma :: right →
      meetsCased (left.reverse ++ before) = false) → lowerAfter before t = t.flatMap lowerChar := by
    clear h
    induction t with
    | nil => exact fun _ _ => rfl
    | cons c t ih =>
        intro before h
        have hrest : lowerAfter (c :: before) t = t.flatMap lowerChar := by
          refine ih _ fun left right heq => ?_
          have hlong := h (c :: left) right (by rw [heq, List.cons_append])
          rwa [List.reverse_cons, List.append_assoc] at hlong
        rw [lowerAfter_cons, List.flatMap_cons, hrest]
        by_cases hc : c.val = 0x3A3
        · obtain rfl := eq_sigma hc
          have hfirst : meetsCased before = false := h [] t rfl
          have hlow : lowerChar sigma = [Char.ofNat 0x3C3] := by decide +kernel
          rw [lowerHere_sigma, hfirst, hlow, Bool.false_and, if_neg Bool.false_ne_true]
        · rw [lowerHere_of_ne hc]
  exact key [] fun left right heq => by simpa using h left right heq

theorem lowerChar_eq_singleton {c : Char} (h : c ≠ dottedI) :
    lowerChar c = [(lowerChar c).headD c] := by
  obtain ⟨d, hd⟩ := List.length_eq_one_iff.mp (length_lowerChar h)
  rw [hd]
  rfl

theorem flatMap_lowerChar {t : Text} (h : dottedI ∉ t) :
    t.flatMap lowerChar = t.map fun c => (lowerChar c).headD c := by
  rw [List.map_eq_flatMap]
  refine List.flatMap_congr fun c hc => lowerChar_eq_singleton ?_
  rintro rfl
  exact h hc

/-- Where no character grows, parts of the lower case are lower cases of parts. -/
theorem SigmasLead.lower_slice {t : Text} (h : SigmasLead t) (hdot : dottedI ∉ t)
    (start stop : Nat) : lower (slice t start stop) = slice (lower t) start stop := by
  have hpart : slice t start stop <:+: t :=
    (List.drop_suffix _ _).isInfix.trans (List.take_prefix _ _).isInfix
  have hdotPart : dottedI ∉ slice t start stop := fun hmem => hdot (hpart.subset hmem)
  rw [(h.part hpart).lower_eq, h.lower_eq, flatMap_lowerChar hdot, flatMap_lowerChar hdotPart]
  simp only [slice, List.map_drop, List.map_take]

end Steady

end VaultSearch.Text
