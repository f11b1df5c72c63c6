import VaultSearch.Note.Frontmatter
import VaultSearch.Proofs.Except
import VaultSearch.Proofs.Text.Words

namespace VaultSearch.Note

open Text

variable {t : Text}

section Closing

def trimClose (t : Text) : Text := trimEnd isBlank (trimEnd (· == '#') (trimEnd isBlank t))

/-- Each step of trimming keeps a character in front, unless it is left with nothing. -/
theorem trimClose_cons (c : Char) (t : Text) : trimClose (c :: t) = c :: trimClose t ∨
    trimClose t = [] ∧ trimClose (c :: t) = [] := by
  have hstep : ∀ (p : Char → Bool) (u v : Text), u = c :: v ∨ v = [] ∧ u = [] →
      trimEnd p u = c :: trimEnd p v ∨ trimEnd p v = [] ∧ trimEnd p u = [] := by
    rintro p u v (rfl | ⟨rfl, rfl⟩)
    · rw [trimEnd_cons]
      split
      · rename_i h
        exact .inr ⟨h.2, rfl⟩
      · exact .inl rfl
    · exact .inr ⟨rfl, rfl⟩
  exact hstep _ _ _ (hstep _ _ _ (hstep _ _ _ (.inl rfl)))

def Closes (t : Text) : Prop :=
  ∃ b s b', t = b ++ s ++ b' ∧ (∀ c ∈ b, isBlank c = true) ∧ (∀ c ∈ s, (c == '#') = true) ∧
    ∀ c ∈ b', isBlank c = true

theorem closesHeading_iff : closesHeading t = true ↔ Closes t := by
  constructor
  · intro h
    rw [closesHeading, List.all_eq_true] at h
    refine ⟨t.takeWhile isBlank, (t.dropWhile isBlank).takeWhile (· == '#'), _, ?_,
      fun c => List.mem_takeWhile_imp, fun c => List.mem_takeWhile_imp, h⟩
    rw [List.append_assoc, trimStart, List.takeWhile_append_dropWhile,
      List.takeWhile_append_dropWhile]
  · rintro ⟨b, s, b', rfl, hb, hs, hb'⟩
    rw [closesHeading, List.append_assoc, trimStart, List.dropWhile_append_of_pos hb,
      List.all_eq_true]
    cases s with
    | nil =>
        intro c hc
        exact hb' c ((List.dropWhile_suffix _).subset ((List.dropWhile_suffix _).subset hc))
    | cons d s =>
        have hd : isBlank d = false := by
          rw [beq_iff_eq.mp (hs d List.mem_cons_self)]
          rfl
        rw [List.cons_append, List.dropWhile_cons_of_neg (by simp [hd]), ← List.cons_append,
          List.dropWhile_append_of_pos hs]
        exact fun c hc => hb' c ((List.dropWhile_suffix _).subset hc)

theorem trimClose_eq_nil_iff : trimClose t = [] ↔ Closes t := by
  constructor
  · intro h
    obtain ⟨b', hb', hblank'⟩ := trimEnd_append_trimmed isBlank t
    obtain ⟨s, hs, hsigns⟩ := trimEnd_append_trimmed (· == '#') (trimEnd isBlank t)
    exact ⟨_, s, b', by rw [← hs, ← hb'], trimEnd_eq_nil_iff.mp h, hsigns, hblank'⟩
  · rintro ⟨b, s, b', rfl, hb, hs, hb'⟩
    rw [trimClose, trimEnd_append_of_forall hb']
    cases s using List.reverseRecOn with
    | nil =>
        rw [List.append_nil, trimEnd_eq_nil_iff.mpr hb]
        rfl
    | append_singleton s d =>
        have hd : trimEnd isBlank [d] = [d] := by
          rw [beq_iff_eq.mp (hs d (List.mem_append_right s List.mem_cons_self))]
          rfl
        have hkept : trimEnd isBlank (b ++ (s ++ [d])) = b ++ (s ++ [d]) := by
          rw [← List.append_assoc, trimEnd_append_of_ne_nil (by simp [hd]), hd]
        rw [hkept, trimEnd_append_of_forall hs, trimEnd_eq_nil_iff]
        intro c hc
        exact hb c ((List.rdropWhile_prefix _ b).subset hc)

end Closing

section Line

def unclosed (t : Text) : Text := trim (trimEnd (· == '#') (trim t))

/-- The title that a text is read as: of number signs alone, one is left. -/
def titleOf (t : Text) : Text := if unclosed t = [] then ['#'] else unclosed t

def hasText (t : Text) : Bool := t.any (!isBlank ·)

variable {c : Char}

/-- Where a text does not start with a blank, there is something to trim at its end only. -/
theorem unclosed_cons (hc : isBlank c = false) (t : Text) : unclosed (c :: t) = trimClose (c :: t) := by
  have hfront : ∀ p u, trimStart isBlank (trimEnd p (c :: u)) = trimEnd p (c :: u) := by
    intro p u
    rw [trimEnd_cons]
    split
    · rfl
    · exact trimStart_cons_of_not hc _
  have hline : trim (c :: t) = trimEnd isBlank (c :: t) := by
    rw [trim, trimStart_cons_of_not hc]
  rw [unclosed, hline, trimClose, trim, trimEnd_cons isBlank c t]
  split
  · rfl
  · rw [hfront]

theorem unclosed_append {b : Text} (hb : ∀ d ∈ b, isBlank d = true) (t : Text) :
    unclosed (b ++ t) = unclosed t := by
  have htrim : trim (b ++ t) = trim t := by
    rw [trim, trimStart, List.dropWhile_append_of_pos hb]
    rfl
  rw [unclosed, htrim, unclosed]

theorem titleOf_append {b : Text} (hb : ∀ d ∈ b, isBlank d = true) (t : Text) :
    titleOf (b ++ t) = titleOf t := by
  rw [titleOf, titleOf, unclosed_append hb]

/-- The characters that are taken as the title are those before the close. -/
theorem trimEnd_headingText (h : trimClose t ≠ []) : trimEnd isBlank (headingText t) = trimClose t := by
  induction t with
  | nil => exact absurd rfl h
  | cons c t ih =>
      have hcons : trimClose (c :: t) = c :: trimClose t :=
        (trimClose_cons c t).resolve_right fun hnil => h hnil.2
      have hlast : trimEnd isBlank (trimClose (c :: t)) = trimClose (c :: t) := trimEnd_trimEnd _ _
      rw [headingText]
      split
      · rename_i hcloses
        rw [trimClose_eq_nil_iff.mpr (closesHeading_iff.mp hcloses)] at hcons
        rwa [hcons] at hlast ⊢
      · rename_i hopen
        rw [closesHeading_iff, ← trimClose_eq_nil_iff] at hopen
        have hrest := ih hopen
        rw [trimEnd_cons, if_neg fun hnil => hopen (hrest ▸ hnil.2), hrest, hcons]

theorem headingText_of_closes (h : Closes (c :: t)) : headingText (c :: t) = [c] := by
  have hnil := trimClose_eq_nil_iff.mpr h
  have hrest : trimClose t = [] := by
    rcases trimClose_cons c t with hcons | hboth
    · rw [hnil] at hcons
      cases hcons
    · exact hboth.1
  rw [headingText, if_pos (closesHeading_iff.mpr (trimClose_eq_nil_iff.mp hrest))]

theorem eq_sign_of_closes (hc : isBlank c = false) (h : Closes (c :: t)) : c = '#' := by
  obtain ⟨b, s, b', heq, hb, hs, hb'⟩ := h
  have hmem : c ∈ b ++ s ++ b' := heq ▸ List.mem_cons_self
  rw [List.append_assoc] at heq
  cases b with
  | cons d b =>
      cases heq
      rw [hb c List.mem_cons_self] at hc
      cases hc
  | nil =>
      cases s with
      | nil =>
          rw [hb' c (by simpa using hmem)] at hc
          cases hc
      | cons d s =>
          cases heq
          exact beq_iff_eq.mp (hs c List.mem_cons_self)

theorem trim_headingText (hc : isBlank c = false) (t : Text) :
    trim (headingText (c :: t)) = titleOf (c :: t) := by
  have hfirst : ∃ u, headingText (c :: t) = c :: u := by
    rw [headingText]
    split
    · exact ⟨[], rfl⟩
    · exact ⟨_, rfl⟩
  have hstart : trim (headingText (c :: t)) = trimEnd isBlank (headingText (c :: t)) := by
    obtain ⟨u, hu⟩ := hfirst
    rw [hu, trim, trimStart_cons_of_not hc]
  rw [hstart, titleOf, unclosed_cons hc]
  split
  · rename_i hnil
    have hcloses := trimClose_eq_nil_iff.mp hnil
    rw [headingText_of_closes hcloses, eq_sign_of_closes hc hcloses]
    rfl
  · rename_i hne
    exact trimEnd_headingText hne

example : trim (headingText "C# ## #".toList) = "C# ##".toList := by decide

end Line

section Behind

variable {l r : Text} {after : List Text}

theorem hasText_eq_false_iff : hasText t = false ↔ ∀ c ∈ t, isBlank c = true := by
  simp [hasText]

theorem exists_first_of_hasText (h : hasText l = true) :
    ∃ b c u, l = b ++ c :: u ∧ (∀ d ∈ b, isBlank d = true) ∧ isBlank c = false := by
  have hsplit := List.takeWhile_append_dropWhile (p := isBlank) (l := l)
  cases hrest : l.dropWhile isBlank with
  | nil =>
      rw [List.dropWhile_eq_nil_iff, ← hasText_eq_false_iff, h] at hrest
      cases hrest
  | cons c u =>
      rw [hrest] at hsplit
      have hc := List.head?_dropWhile_not isBlank l
      rw [hrest] at hc
      exact ⟨_, c, u, hsplit.symm, fun d => List.mem_takeWhile_imp, by simpa using hc⟩

/-- The first line with text starts behind blanks, and runs to the end of the line. -/
theorem split_of_find?_lines (h : (lines t).find? hasText = some l) :
    ∃ b c w u, t = b ++ c :: (w ++ u) ∧ (∀ d ∈ b, isBlank d = true) ∧ isBlank c = false ∧
      '\n' ∉ w ∧ (∀ d ∈ u.head?, d = '\n') ∧ titleOf l = titleOf (c :: w) := by
  induction t using pieces_induction (p := (· == '\n')) with
  | last v hv =>
      rw [lines, splitOn, pieces_of_forall hv, List.find?_singleton] at h
      split at h
      · cases h
        obtain ⟨b, c, w, rfl, hb, hc⟩ := exists_first_of_hasText ‹_›
        refine ⟨b, c, w, [], by simp, hb, hc, fun hmem => ?_, by simp, titleOf_append hb _⟩
        simpa using hv '\n' (List.mem_append_right b (List.mem_cons_of_mem c hmem))
      · cases h
  | next v e t hv he ih =>
      rw [lines, splitOn, pieces_append_cons hv he, List.find?_cons] at h
      split at h
      · cases h
        obtain ⟨b, c, w, rfl, hb, hc⟩ := exists_first_of_hasText ‹_›
        refine ⟨b, c, w, e :: t, by simp, hb, hc, fun hmem => ?_, by simpa using he,
          titleOf_append hb _⟩
        simpa using hv '\n' (List.mem_append_right b (List.mem_cons_of_mem c hmem))
      · rename_i hblank
        obtain ⟨b, c, w, u, rfl, hb, hrest⟩ := ih h
        refine ⟨v ++ e :: b, c, w, u, by simp, fun d hd => ?_, hrest⟩
        rcases List.mem_append.mp hd with hd | hd
        · exact hasText_eq_false_iff.mp hblank d hd
        · rcases List.mem_cons.mp hd with rfl | hd
          · rw [beq_iff_eq.mp he]
            rfl
          · exact hb d hd

theorem newline_or_mem_lines {c : Char} (hc : c ∈ t) : c = '\n' ∨ ∃ l ∈ lines t, c ∈ l := by
  have hjoin : joinWith ['\n'] (lines t) = t := joinWith_pieces fun _ _ hd => beq_iff_eq.mp hd
  rw [← hjoin] at hc
  exact (mem_joinWith hc).imp_left List.mem_singleton.mp

theorem isBlank_of_lines (h : ∀ l ∈ lines t, hasText l = false) : ∀ c ∈ t, isBlank c = true := by
  intro c hc
  rcases newline_or_mem_lines hc with rfl | ⟨l, hl, hc⟩
  · rfl
  · exact hasText_eq_false_iff.mp (h l hl) c hc

/-- Behind a number sign and a blank the first text is the title, on whatever line it stands. -/
theorem headingAfter?_of_text (hblank : ∀ c ∈ t.head?, isBlank c = true)
    (h : (lines t).find? hasText = some l) : headingAfter? t = some (titleOf l) := by
  obtain ⟨b, c, w, u, rfl, hb, hc, hw, hu, htitle⟩ := split_of_find?_lines h
  have hb' : b ≠ [] := by
    rintro rfl
    rw [hblank c rfl] at hc
    cases hc
  have hend : ∀ d ∈ (c :: (w ++ u)).head?, isBlank d = false := by simpa using hc
  have hline : (w ++ u).takeWhile (· != '\n') = w :=
    takeWhile_append_run (bne_of_notMem hw) fun d hd => by simp [hu d hd]
  rw [headingAfter?, takeWhile_append_run hb hend, dropWhile_append_run hb hend]
  simp only [hline, trim_headingText hc, htitle, List.isEmpty_iff, hb', if_false]

theorem headingAfter?_of_blank (h : ∀ c ∈ t, isBlank c = true) :
    headingAfter? t = if (t.drop 1).any (· != '\n') then some [] else none := by
  rw [headingAfter?, List.dropWhile_eq_nil_iff.mpr h, List.takeWhile_eq_self_iff.mpr h]

theorem headingAfter?_of_not_blank {c : Char} (h : t.head? = some c) (hc : isBlank c = false) :
    headingAfter? t = none := by
  cases t with
  | nil => cases h
  | cons d t =>
      cases h
      simp [headingAfter?, hc]

/-- What a number sign brings with `r` behind it and the lines `after`: the first text, without its
close. Where all is blank, the blanks are the title, if there are more of them than one and the ends
of the lines. -/
def behind? (r : Text) (after : List Text) : Option Text :=
  match (r :: after).find? hasText with
  | some l => some (titleOf l)
  | none => if 2 ≤ r.length ∨ ∃ l ∈ after, l ≠ [] then some [] else none

theorem any_newline_iff : t.any (· != '\n') = true ↔ ∃ l ∈ lines t, l ≠ [] := by
  rw [List.any_eq_true]
  constructor
  · rintro ⟨c, hc, hne⟩
    rcases newline_or_mem_lines hc with rfl | ⟨l, hl, hc⟩
    · cases hne
    · exact ⟨l, hl, List.ne_nil_of_mem hc⟩
  · rintro ⟨l, hl, hne⟩
    obtain ⟨c, hc⟩ := List.exists_mem_of_ne_nil l hne
    refine ⟨c, (infix_of_mem_pieces hl).subset hc, ?_⟩
    simpa using forall_of_mem_pieces hl c hc

theorem lines_cons_char (c : Char) (t : Text) : ∃ w ws, lines t = w :: ws ∧
    lines (c :: t) = if c = '\n' then [] :: lines t else (c :: w) :: ws := by
  obtain ⟨w, ws, hlines⟩ := List.exists_cons_of_ne_nil (pieces_ne_nil (· == '\n') t)
  refine ⟨w, ws, hlines, ?_⟩
  rw [lines, splitOn, pieces, hlines]
  by_cases hc : c = '\n' <;> simp [hc, lines, splitOn, hlines]

theorem any_drop_newline_iff (hlines : lines t = r :: after) :
    (t.drop 1).any (· != '\n') = true ↔ 2 ≤ r.length ∨ ∃ l ∈ after, l ≠ [] := by
  cases t with
  | nil =>
      cases hlines
      simp
  | cons c t =>
      obtain ⟨w, ws, hrest, hall⟩ := lines_cons_char c t
      rw [hlines] at hall
      rw [List.drop_one, List.tail_cons, any_newline_iff]
      split at hall
      · cases hall
        simp
      · cases hall
        rw [hrest]
        simp [Nat.succ_le_succ_iff, Nat.one_le_iff_ne_zero]

theorem headingAfter?_eq (hlines : lines t = r :: after)
    (hblank : ∀ c ∈ t.head?, isBlank c = true) : headingAfter? t = behind? r after := by
  rw [behind?, ← hlines]
  cases hfind : (lines t).find? hasText with
  | some l => exact headingAfter?_of_text hblank hfind
  | none =>
      have hall : ∀ l ∈ lines t, hasText l = false := by simpa using hfind
      rw [headingAfter?_of_blank (isBlank_of_lines hall)]
      simp only [any_drop_newline_iff hlines]

end Behind

section Body

variable {r w : Text} {ls after : List Text}

def opens : Text → Bool
  | [] => false
  | c :: r => c = '#' && r.head?.all isBlank

def titleFrom? : List Text → Option Text
  | [] => none
  | l :: after => if opens l then behind? (l.drop 1) after else titleFrom? after

theorem titleFrom?_of_blank (h : ∀ l ∈ ls, hasText l = false) : titleFrom? ls = none := by
  induction ls with
  | nil => rfl
  | cons l ls ih =>
      obtain ⟨hl, hls⟩ := List.forall_mem_cons.mp h
      have hclosed : opens l = false := by
        cases l with
        | nil => rfl
        | cons c r =>
            have hc := hasText_eq_false_iff.mp hl c List.mem_cons_self
            have hsign : c ≠ '#' := by
              rintro rfl
              cases hc
            simp [opens, hsign]
      rw [titleFrom?, hclosed]
      exact ih hls

theorem heading?_within (hw : '\n' ∉ w) (t : Text) :
    heading? false w = none ∧ heading? false (w ++ '\n' :: t) = heading? true t := by
  induction w with
  | nil => exact ⟨rfl, rfl⟩
  | cons c w ih =>
      rw [List.mem_cons, not_or] at hw
      have hc : decide (c = '\n') = false := decide_eq_false (Ne.symm hw.1)
      simpa [heading?, hc] using ih hw.2

theorem heading?_start {c : Char} (hc : c ≠ '\n') (t : Text) : heading? true (c :: t) =
    ((if c = '#' then headingAfter? t else none) <|> heading? false t) := by
  rw [heading?, decide_eq_false hc]
  by_cases hsign : c = '#'
  · simp only [hsign, Bool.true_and, decide_true, if_true]
    cases headingAfter? t <;> rfl
  · simp [hsign]

theorem head?_of_lines (hlines : lines t = r :: after) :
    r.head?.all isBlank = true ↔ ∀ c ∈ t.head?, isBlank c = true := by
  cases t with
  | nil =>
      cases hlines
      simp
  | cons c t =>
      obtain ⟨w, ws, hrest, hall⟩ := lines_cons_char c t
      rw [hlines] at hall
      split at hall
      · rename_i hc
        cases hall
        simp [hc, show isBlank '\n' = true from rfl]
      · cases hall
        simp

theorem behindSign_eq (c : Char) (hlines : lines t = r :: after) :
    (if c = '#' then headingAfter? t else none) =
      if opens (c :: r) then behind? r after else none := by
  by_cases hc : c = '#'
  · by_cases hblank : r.head?.all isBlank = true
    · rw [if_pos hc, headingAfter?_eq hlines ((head?_of_lines hlines).mp hblank), opens, hblank]
      simp [hc]
    · obtain ⟨d, hd, hfull⟩ := not_forall₂.mp ((head?_of_lines hlines).not.mp hblank)
      rw [if_pos hc, headingAfter?_of_not_blank hd (by simpa using hfull), opens]
      simp [hblank]
  · rw [if_neg hc, opens]
    simp [hc]

theorem behind?_or (r : Text) (ls : List Text) : (behind? r ls <|> titleFrom? ls) = behind? r ls := by
  cases hbehind : behind? r ls with
  | some x => rfl
  | none =>
      rw [behind?] at hbehind
      split at hbehind
      · cases hbehind
      · rename_i hnone
        have hall : ∀ l ∈ r :: ls, hasText l = false := by simpa using hnone
        rw [titleFrom?_of_blank fun l hl => hall l (List.mem_cons_of_mem r hl)]
        rfl

/-- The title is read at the first line that starts as headings do. -/
theorem heading?_eq (t : Text) : heading? true t = titleFrom? (lines t) := by
  induction t using pieces_induction (p := (· == '\n')) with
  | last w hw =>
      have hlines : lines w = [w] := pieces_of_forall hw
      rw [hlines]
      cases w with
      | nil => rfl
      | cons c r =>
          obtain ⟨hc, hr⟩ := List.forall_mem_cons.mp hw
          have hrest : lines r = [r] := pieces_of_forall hr
          have hnone := (heading?_within (w := r) (fun hmem => by simpa using hr _ hmem) []).1
          rw [heading?_start (by simpa using hc), hnone, behindSign_eq c hrest, titleFrom?]
          simp [titleFrom?]
  | next w e t hw he ih =>
      have hlines : lines (w ++ e :: t) = w :: lines t := pieces_append_cons hw he t
      obtain rfl : e = '\n' := beq_iff_eq.mp he
      rw [hlines]
      cases w with
      | nil => exact ih
      | cons c r =>
          obtain ⟨hc, hr⟩ := List.forall_mem_cons.mp hw
          have hrest : lines (r ++ '\n' :: t) = r :: lines t := pieces_append_cons hr he t
          have hlater := (heading?_within (w := r) (fun hmem => by simpa using hr _ hmem) t).2
          rw [List.cons_append, heading?_start (by simpa using hc), hlater, ih,
            behindSign_eq c hrest, titleFrom?]
          split
          · exact behind?_or r (lines t)
          · rfl

end Body

section Headings

variable {l r : Text} {ls before after : List Text}

/-- A heading: a number sign, a space or a tab, and text that is not only blanks and number signs. -/
def isHeading : Text → Bool
  | [] => false
  | c :: r => c = '#' && r.head?.any (fun d => d = ' ' || d = '\t') &&
      r.any fun d => !isBlank d && d != '#'

def titleFor (path : Text) (ls : List Text) : Text :=
  match ls.find? isHeading with
  | some l => unclosed (l.drop 1)
  | none => stem path

/-- The first line that starts as headings do has `r` behind its number sign. -/
structure FirstSign (ls before : List Text) (r : Text) (after : List Text) : Prop where
  split : ls = before ++ ('#' :: r) :: after
  closed : ∀ l ∈ before, opens l = false
  opens : opens ('#' :: r) = true

theorem FirstSign.titleFrom?_eq (h : FirstSign ls before r after) :
    titleFrom? ls = behind? r after := by
  obtain ⟨rfl, hclosed, hopens⟩ := h
  induction before with
  | nil => rw [List.nil_append, titleFrom?, hopens]; rfl
  | cons l before ih =>
      obtain ⟨hl, hbefore⟩ := List.forall_mem_cons.mp hclosed
      rw [List.cons_append, titleFrom?, hl]
      exact ih hbefore

theorem exists_eq_of_opens (h : opens l = true) : ∃ r, l = '#' :: r := by
  cases l with
  | nil => cases h
  | cons c r =>
      rw [opens, Bool.and_eq_true, decide_eq_true_eq] at h
      exact ⟨r, by rw [h.1]⟩

theorem firstSign_or (ls : List Text) :
    titleFrom? ls = none ∨ ∃ before r after, FirstSign ls before r after := by
  induction ls with
  | nil => exact .inl rfl
  | cons l ls ih =>
      cases hl : opens l with
      | true =>
          obtain ⟨r, rfl⟩ := exists_eq_of_opens hl
          exact .inr ⟨[], r, ls, rfl, by simp, hl⟩
      | false =>
          rcases ih with hnone | ⟨before, r, after, rfl, hbefore, hr⟩
          · left
            rw [titleFrom?, hl]
            exact hnone
          · exact .inr ⟨l :: before, r, after, rfl, List.forall_mem_cons.mpr ⟨hl, hbefore⟩, hr⟩

theorem unclosed_ne_nil (h : r.any (fun d => !isBlank d && d != '#') = true) : unclosed r ≠ [] := by
  obtain ⟨d, hd, hfree⟩ := List.any_eq_true.mp h
  obtain ⟨hfull, hsign⟩ : isBlank d = false ∧ d ≠ '#' := by simpa using hfree
  have htext : hasText r = true := List.any_eq_true.mpr ⟨d, hd, by simp [hfull]⟩
  obtain ⟨b, c, u, rfl, hb, hc⟩ := exists_first_of_hasText htext
  rw [unclosed_append hb, unclosed_cons hc]
  intro hnil
  obtain ⟨b', s, b'', heq, hb', hs, hb''⟩ := trimClose_eq_nil_iff.mp hnil
  have hmem : d ∈ b ++ (b' ++ s ++ b'') := heq ▸ hd
  simp only [List.mem_append] at hmem
  rcases hmem with hmem | (hmem | hmem) | hmem
  · simp [hb d hmem] at hfull
  · simp [hb' d hmem] at hfull
  · exact hsign (beq_iff_eq.mp (hs d hmem))
  · simp [hb'' d hmem] at hfull

theorem opens_of_isHeading (h : isHeading l = true) : opens l = true := by
  cases l with
  | nil => cases h
  | cons c r =>
      simp only [isHeading, Bool.and_eq_true, decide_eq_true_eq] at h
      obtain ⟨⟨hc, hfirst⟩, -⟩ := h
      rw [opens, Bool.and_eq_true, decide_eq_true_eq]
      refine ⟨hc, ?_⟩
      cases r with
      | nil => rfl
      | cons d r =>
          rcases (by simpa using hfirst : d = ' ' ∨ d = '\t') with rfl | rfl <;> rfl

theorem behind?_of_isHeading (h : isHeading l = true) (after : List Text) :
    behind? (l.drop 1) after = some (unclosed (l.drop 1)) := by
  cases l with
  | nil => cases h
  | cons c r =>
      simp only [isHeading, Bool.and_eq_true] at h
      have hne := unclosed_ne_nil h.2
      have htext : hasText r = true := by
        obtain ⟨d, hd, hfree⟩ := List.any_eq_true.mp h.2
        rw [Bool.and_eq_true] at hfree
        exact List.any_eq_true.mpr ⟨d, hd, hfree.1⟩
      rw [List.drop_one, List.tail_cons, behind?, List.find?_cons, htext]
      simp only [titleOf, if_neg hne]

/-- Where no other line starts as headings do, the first heading gives the title. -/
theorem titleFrom?_of_regular (h : ∀ l ∈ ls.takeWhile (!isHeading ·), opens l = false) :
    titleFrom? ls = (ls.find? isHeading).map fun l => unclosed (l.drop 1) := by
  induction ls with
  | nil => rfl
  | cons l ls ih =>
      cases hl : isHeading l with
      | true =>
          rw [titleFrom?, opens_of_isHeading hl, List.find?_cons, hl]
          exact behind?_of_isHeading hl ls
      | false =>
          rw [List.takeWhile_cons_of_pos (by simp [hl])] at h
          obtain ⟨hclosed, hls⟩ := List.forall_mem_cons.mp h
          rw [titleFrom?, hclosed, List.find?_cons, hl]
          exact ih hls

theorem hasText_titleOf (t : Text) : hasText (titleOf t) = true := by
  rw [titleOf]
  split
  · rfl
  · rename_i hne
    obtain ⟨c, u, hcons⟩ := List.exists_cons_of_ne_nil hne
    have hc := head?_trim (trimEnd (· == '#') (trim t)) c (by rw [← unclosed, hcons]; rfl)
    rw [hcons]
    exact List.any_eq_true.mpr ⟨c, List.mem_cons_self, by simp [hc]⟩

theorem behind?_of_blank (h : ∀ l ∈ r :: after, hasText l = false) :
    behind? r after = if 2 ≤ r.length ∨ ∃ l ∈ after, l ≠ [] then some [] else none := by
  have hnone : (r :: after).find? hasText = none := by simpa using h
  rw [behind?, hnone]

theorem behind?_cases (r : Text) (after : List Text) :
    (∃ l, behind? r after = some (titleOf l)) ∨ ∀ l ∈ r :: after, hasText l = false := by
  rw [behind?]
  split
  · exact .inl ⟨_, rfl⟩
  · rename_i hnone
    exact .inr (by simpa using hnone)

end Headings

/-- A note without a title of its own gets the text of its first heading, or else the name of its file,
unless another line starts as headings do before that one: with a number sign, and a blank or nothing
behind it. Then whatever follows is the title, be it on a later line; and blanks if nothing does. -/
theorem title_readNote {t path body : Text} {m : Metadata}
    (hread : readFrontmatter t = .ok (m, body)) (htitle : m.title = []) :
    ∃ out, readNote t path = .ok (out, body) ∧
      ((∀ l ∈ (lines body).takeWhile (!isHeading ·), opens l = false) →
        out.title = titleFor path (lines body)) ∧
      (∀ before r after, FirstSign (lines body) before r after →
        out.title = (behind? r after).getD (stem path)) ∧
      (hasText out.title = false ↔
        (out.title = stem path ∧ hasText (stem path) = false) ∨
          ∃ before r after, FirstSign (lines body) before r after ∧
            (∀ l ∈ r :: after, hasText l = false) ∧ (2 ≤ r.length ∨ ∃ l ∈ after, l ≠ [])) := by
  refine ⟨m.infer body path, by rw [readNote, hread]; rfl, ?_⟩
  have hinferred : (m.infer body path).title = (titleFrom? (lines body)).getD (stem path) := by
    rw [← heading?_eq, Metadata.infer, htitle]
    rfl
  rw [hinferred]
  refine ⟨fun hregular => ?_, fun before r after h => by rw [h.titleFrom?_eq], ?_, ?_⟩
  · rw [titleFrom?_of_regular hregular, titleFor]
    cases (lines body).find? isHeading <;> rfl
  · intro hblank
    rcases firstSign_or (lines body) with hnone | ⟨before, r, after, h⟩
    · rw [hnone] at hblank ⊢
      exact .inl ⟨rfl, hblank⟩
    · rw [h.titleFrom?_eq] at hblank ⊢
      rcases behind?_cases r after with ⟨l, hl⟩ | hall
      · rw [hl, Option.getD_some, hasText_titleOf] at hblank
        cases hblank
      · rw [behind?_of_blank hall] at hblank ⊢
        split at hblank
        · rename_i hmore
          exact .inr ⟨before, r, after, h, hall, hmore⟩
        · rename_i hfew
          rw [if_neg hfew]
          exact .inl ⟨rfl, hblank⟩
  · rintro (⟨hstem, hblank⟩ | ⟨before, r, after, h, hall, hmore⟩)
    · rw [hstem, hblank]
    · rw [h.titleFrom?_eq, behind?_of_blank hall, if_pos hmore]
      rfl

def draft : Text := "---\ntags: rust\n---\n#draft\n#\tC# and ## F# ##\n#\n".toList

/-- A tag is no heading, and what stands behind the first heading has no bearing on the title. -/
theorem title_readNote_draft : ∃ out body, readNote draft "a.md".toList = .ok (out, body) ∧
    out.title = "C# and ## F#".toList ∧ hasText out.title = true := by
  have hfront : (readFrontmatter draft).toOption.map (fun r => (r.1.title, r.2)) =
      some ([], "#draft\n#\tC# and ## F# ##\n#\n".toList) := by
    decide +kernel
  cases hread : readFrontmatter draft with
  | error err =>
      rw [hread] at hfront
      cases hfront
  | ok r =>
      obtain ⟨m, body⟩ := r
      rw [hread] at hfront
      simp only [Except.toOption, Option.map_some, Option.some.injEq, Prod.mk.injEq] at hfront
      obtain ⟨htitle, rfl⟩ := hfront
      obtain ⟨out, hout, hregular, -, -⟩ := @title_readNote _ "a.md".toList _ _ hread htitle
      have hfirst : out.title = "C# and ## F#".toList := (hregular (by decide)).trans (by decide)
      exact ⟨out, _, hout, hfirst, by rw [hfirst]; decide⟩

/-- Blanks behind a number sign are a title of their own, and the next line is one too. -/
theorem title_of_bare_sign :
    titleFor "a.md".toList (lines "#  ".toList) = "a".toList ∧
      (readNote "#  ".toList "a.md".toList).toOption.map (·.1.title) = some [] ∧
      titleFor "a.md".toList (lines "#\nIntro".toList) = "a".toList ∧
      (readNote "#\nIntro".toList "a.md".toList).toOption.map (·.1.title) =
        some "Intro".toList := by
  decide +kernel

end VaultSearch.Note
