import VaultSearch.Proofs.Search.Phrase

namespace VaultSearch.Text

/-- The text with its capitals from `A` to `Z` in lower case, and all else as it is. -/
def lowerLatin (t : Text) : Text := t.map Char.toLower

section Characters

/-- The readers of a query and the lower case of a text see no difference between the two. -/
theorem same_toLower (c : Char) :
    (c.toLower = '"' ↔ c = '"') ∧ (c.toLower.val = 0x3A3 ↔ c.val = 0x3A3) ∧
      isCased c.toLower = isCased c ∧ isCaseIgnorable c.toLower = isCaseIgnorable c ∧
        lowerChar c.toLower = lowerChar c :=
  toLower_cases (r := fun c d => (d = '"' ↔ c = '"') ∧ (d.val = 0x3A3 ↔ c.val = 0x3A3) ∧
    isCased d = isCased c ∧ isCaseIgnorable d = isCaseIgnorable c ∧ lowerChar d = lowerChar c)
    (fun _ => ⟨Iff.rfl, Iff.rfl, rfl, rfl, rfl⟩) (by decide +kernel) c

theorem eq_quote_toLower (c : Char) : c.toLower = '"' ↔ c = '"' := (same_toLower c).1

theorem eq_sigma_toLower (c : Char) : c.toLower.val = 0x3A3 ↔ c.val = 0x3A3 := (same_toLower c).2.1

theorem isCased_toLower (c : Char) : isCased c.toLower = isCased c := (same_toLower c).2.2.1

theorem isCaseIgnorable_toLower (c : Char) : isCaseIgnorable c.toLower = isCaseIgnorable c :=
  (same_toLower c).2.2.2.1

theorem lowerChar_toLower (c : Char) : lowerChar c.toLower = lowerChar c :=
  (same_toLower c).2.2.2.2

end Characters

section Texts

theorem lowerLatin_cons (c : Char) (t : Text) : lowerLatin (c :: t) = c.toLower :: lowerLatin t :=
  rfl

theorem meetsCased_lowerLatin (t : Text) : meetsCased (lowerLatin t) = meetsCased t := by
  rw [meetsCased, meetsCased, lowerLatin, List.find?_map]
  have hsame : (fun c => !isCaseIgnorable c) ∘ Char.toLower = (!isCaseIgnorable ·) :=
    funext fun c => by rw [Function.comp_apply, isCaseIgnorable_toLower]
  rw [hsame]
  cases List.find? (!isCaseIgnorable ·) t with
  | none => rfl
  | some c => simp only [Option.map_some, Option.any_some, isCased_toLower]

theorem lower_lowerLatin (t : Text) : lower (lowerLatin t) = lower t := by
  have key : ∀ before, lowerAfter (lowerLatin before) (lowerLatin t) = lowerAfter before t := by
    induction t with
    | nil => exact fun _ => rfl
    | cons c t ih =>
        intro before
        have hrest := ih (c :: before)
        rw [lowerLatin_cons] at hrest
        rw [lowerLatin_cons, lowerAfter, lowerAfter, hrest]
        simp only [eq_sigma_toLower, lowerChar_toLower, meetsCased_lowerLatin]
  exact key []

theorem eq_nil_iff_of_lowerLatin_eq {t t' : Text} (h : lowerLatin t = lowerLatin t') :
    t = [] ↔ t' = [] := by
  rw [← List.map_eq_nil_iff (f := Char.toLower), ← lowerLatin, h]
  exact List.map_eq_nil_iff

section Runs

variable {p : Char → Bool} (hp : ∀ c, p c.toLower = p c) (t : Text)

include hp

theorem takeWhile_lowerLatin : (lowerLatin t).takeWhile p = lowerLatin (t.takeWhile p) := by
  rw [lowerLatin, List.takeWhile_map, (funext hp : p ∘ Char.toLower = p), lowerLatin]

theorem dropWhile_lowerLatin : (lowerLatin t).dropWhile p = lowerLatin (t.dropWhile p) := by
  rw [lowerLatin, List.dropWhile_map, (funext hp : p ∘ Char.toLower = p), lowerLatin]

theorem pieces_lowerLatin : pieces p (lowerLatin t) = (pieces p t).map lowerLatin := by
  induction t with
  | nil => rfl
  | cons c t ih =>
      rw [lowerLatin_cons, pieces, pieces, hp, ih]
      split
      · rfl
      · cases pieces p t <;> rfl

end Runs

theorem trim_lowerLatin (t : Text) : trim (lowerLatin t) = lowerLatin (trim t) := by
  have hreverse : ∀ t, (lowerLatin t).reverse = lowerLatin t.reverse := fun t =>
    List.map_reverse.symm
  rw [trim, trim, trimStart, trimStart, trimEnd, trimEnd, dropWhile_lowerLatin isBlank_toLower,
    hreverse, dropWhile_lowerLatin isBlank_toLower, hreverse]

theorem words_lowerLatin (t : Text) : words (lowerLatin t) = (words t).map lowerLatin := by
  rw [words, pieces_lowerLatin isBlank_toLower, List.filter_map]
  congr 2
  funext w
  simp [lowerLatin]

theorem joinWith_lowerLatin (ws : List Text) :
    joinWith [' '] (ws.map lowerLatin) = lowerLatin (joinWith [' '] ws) := by
  induction ws with
  | nil => rfl
  | cons w ws ih =>
      cases ws with
      | nil => rfl
      | cons v ws =>
          rw [List.map_cons, List.map_cons, joinWith_cons_cons, joinWith_cons_cons, ← List.map_cons, ih]
          simp [lowerLatin]

end Texts

end VaultSearch.Text

namespace VaultSearch.Search

open Text Note Filtering

section Parts

theorem notQuote_toLower (c : Char) : (c.toLower != '"') = (c != '"') := by
  rw [Bool.eq_iff_iff, bne_iff_ne, bne_iff_ne, ne_eq, eq_quote_toLower]

theorem inNeedle_toLower (c : Char) : inNeedle c.toLower = inNeedle c := by
  rw [inNeedle, inNeedle, isBlank_toLower, notQuote_toLower]

theorem needleParts_lowerLatin (t : Text) :
    needleParts (lowerLatin t) = (needleParts t).map lowerLatin := by
  induction t using needleParts.induct with
  | case1 => rw [lowerLatin, List.map_nil, needleParts_nil]; rfl
  | case2 u hclose ih =>
      have hclose' := dropWhile_lowerLatin (p := (· != '"')) notQuote_toLower u
      rw [hclose] at hclose'
      rw [lowerLatin_cons, (eq_quote_toLower '"').mpr rfl, needleParts, needleParts, if_pos rfl,
        if_pos rfl, hclose, hclose']
      exact ih
  | case3 u d v hclose ih =>
      have hclose' := dropWhile_lowerLatin (p := (· != '"')) notQuote_toLower u
      rw [hclose] at hclose' ih
      rw [lowerLatin_cons, (eq_quote_toLower '"').mpr rfl, needleParts, needleParts, if_pos rfl,
        if_pos rfl, hclose, hclose', takeWhile_lowerLatin (p := (· != '"')) notQuote_toLower]
      exact congrArg _ ih
  | case4 c u hquote hc ih =>
      rw [lowerLatin_cons, needleParts_of_isBlank hc,
        needleParts_of_isBlank (by rwa [isBlank_toLower]), ih]
  | case5 c u hquote hc ih =>
      rw [lowerLatin_cons, needleParts, needleParts, if_neg hquote, if_neg hc,
        if_neg (by rwa [eq_quote_toLower]), if_neg (by rwa [isBlank_toLower]),
        takeWhile_lowerLatin inNeedle_toLower, dropWhile_lowerLatin inNeedle_toLower, ih]
      rfl

theorem trimmedParts_lowerLatin (t : Text) :
    trimmedParts (lowerLatin t) = (trimmedParts t).map lowerLatin := by
  have htrim : trim ∘ lowerLatin = lowerLatin ∘ trim := funext trim_lowerLatin
  have hempty : (fun w : Text => !w.isEmpty) ∘ lowerLatin = (!·.isEmpty) :=
    funext fun w => by simp [lowerLatin]
  rw [trimmedParts, trimmedParts, needleParts_lowerLatin, List.map_map, htrim, ← List.map_map,
    List.filter_map, hempty]

end Parts

section Needles

variable {t t' : Text}

theorem map_lower_trimmedParts (h : lowerLatin t = lowerLatin t') :
    (trimmedParts t).map lower = (trimmedParts t').map lower := by
  have hlow : lower ∘ lowerLatin = lower := funext lower_lowerLatin
  have hparts := congrArg (List.map lower ∘ trimmedParts) h
  simpa [trimmedParts_lowerLatin, hlow] using hparts

/-- Letter case has no bearing on which needles there are, in lower case; but it has on how often
there is one. -/
theorem mem_map_lower_needles (h : lowerLatin t = lowerLatin t') (n : Text) :
    n ∈ (needles t).map lower ↔ n ∈ (needles t').map lower := by
  have hmem : ∀ t, n ∈ (needles t).map lower ↔
      n ∈ (trimmedParts t).map lower ∨ (trimmedParts t).map lower = [] ∧ n = lower t := by
    intro t
    simp only [List.mem_map, mem_needles_iff, List.map_eq_nil_iff]
    constructor
    · rintro ⟨w, hw | ⟨hnone, rfl⟩, rfl⟩
      · exact .inl ⟨w, hw, rfl⟩
      · exact .inr ⟨hnone, rfl⟩
    · rintro (⟨w, hw, rfl⟩ | ⟨hnone, rfl⟩)
      · exact ⟨w, .inl hw, rfl⟩
      · exact ⟨t, .inr ⟨hnone, rfl⟩, rfl⟩
  rw [hmem, hmem, map_lower_trimmedParts h, ← lower_lowerLatin t, h, lower_lowerLatin]

theorem map_eraseDups {α β : Type} [BEq α] [LawfulBEq α] [BEq β] [LawfulBEq β] {g : α → β}
    (xs : List α) (h : ∀ x ∈ xs, ∀ y ∈ xs, g x = g y → x = y) :
    xs.eraseDups.map g = (xs.map g).eraseDups := by
  match xs with
  | [] => rfl
  | x :: xs =>
      have hlength := List.length_filter_le (!· == x) xs
      have hfilter : (xs.map g).filter (!· == g x) = (xs.filter (!· == x)).map g := by
        rw [List.filter_map]
        refine congrArg _ (List.filter_congr fun y hy => ?_)
        have hiff : g y = g x ↔ y = x :=
          ⟨h y (List.mem_cons_of_mem x hy) x List.mem_cons_self, congrArg g⟩
        rw [Function.comp_apply, Bool.eq_iff_iff]
        simp [hiff]
      rw [List.map_cons, List.eraseDups_cons, List.eraseDups_cons, List.map_cons, hfilter]
      refine congrArg _ (map_eraseDups _ fun y hy z hz => ?_)
      exact h y (List.mem_cons_of_mem x (List.mem_filter.mp hy).1) z
        (List.mem_cons_of_mem x (List.mem_filter.mp hz).1)
  termination_by xs.length

theorem needles_eq_of_nodup (h : lowerLatin t = lowerLatin t')
    (hd : ((needles t).map lower).Nodup) (hd' : ((needles t').map lower).Nodup) :
    (needles t).map lower = (needles t').map lower := by
  have hparts := map_lower_trimmedParts h
  have hmap : ∀ t, ((needles t).map lower).Nodup → trimmedParts t ≠ [] →
      (needles t).map lower = ((trimmedParts t).map lower).eraseDups := by
    intro t hd hsome
    rw [needles_eq_eraseDups hsome] at hd ⊢
    exact map_eraseDups _ fun x hx y hy =>
      List.inj_on_of_nodup_map hd (List.mem_eraseDups.mpr hx) (List.mem_eraseDups.mpr hy)
  by_cases hnone : trimmedParts t = []
  · have hnone' : trimmedParts t' = [] := by
      rw [hnone, List.map_nil] at hparts
      exact List.map_eq_nil_iff.mp hparts.symm
    rw [needles_eq, needles_eq, hnone, hnone', List.eraseDups_nil, if_pos rfl, if_pos rfl,
      List.map_singleton, List.map_singleton, ← lower_lowerLatin t, h, lower_lowerLatin]
  · have hsome' : trimmedParts t' ≠ [] := by
      rintro hnone'
      rw [hnone', List.map_nil, List.map_eq_nil_iff] at hparts
      exact hnone hparts
    rw [hmap t hd hnone, hmap t' hd' hsome', hparts]

theorem all_congr_mem {α : Type} {xs ys : List α} (h : ∀ x, x ∈ xs ↔ x ∈ ys) (p : α → Bool) :
    xs.all p = ys.all p := by
  rw [Bool.eq_iff_iff, List.all_eq_true, List.all_eq_true]
  exact forall_congr' fun x => by rw [h]

/-- The documents that are found, and their order, depend on the needles as a set. -/
theorem ids_exactResults (h : lowerLatin t = lowerLatin t') (ds : List Document) :
    (exactResults t ds).map (·.id) = (exactResults t' ds).map (·.id) := by
  have hall : ∀ p : Text → Bool, ((needles t).map lower).all p = ((needles t').map lower).all p :=
    all_congr_mem (mem_map_lower_needles h)
  have hhas : hasNeedles ((needles t).map lower) = hasNeedles ((needles t').map lower) :=
    funext fun d => hall _
  have hid : ∀ ns, (fun r : Result => r.id) ∘ exactResult ns = fun d => d.id := fun _ => rfl
  rw [exactResults, exactResults, List.map_map, List.map_map, hid, hid, hhas]
  simp only [hall]

end Needles

section Recovery

variable {content n n' : Text}

/-- A place that is found for two needles in lower case tells that they are the same. -/
theorem eq_of_mem_findSpans {x : Span} (hne : n ≠ []) (hne' : n' ≠ []) (hlow : lower n = n)
    (hlow' : lower n' = n') (h : x ∈ findSpans content n) (h' : x ∈ findSpans content n') :
    n = n' := by
  obtain ⟨line, hline, hx⟩ := (mem_findSpans hne).mp h
  obtain ⟨line', hline', hx'⟩ := (mem_findSpans hne').mp h'
  obtain rfl : line = line' := Option.some_inj.mp (hline.2.symm.trans hline'.2)
  have hcut := cutFrom_of_mem hx
  have hcut' := cutFrom_of_mem hx'
  have hlength : n.length = n'.length := by
    have hstop := hcut.stop.symm.trans hcut'.stop
    omega
  have hhit := hcut.hit
  have hhit' := hcut'.hit
  rw [hlow] at hhit
  rw [hlow'] at hhit'
  rw [List.prefix_iff_eq_take.mp hhit, List.prefix_iff_eq_take.mp hhit', hlength]

theorem eq_of_flatMap_eq {α β : Type} {f : α → List β} {xs ys : List α}
    (hxs : ∀ a ∈ xs, f a ≠ []) (hys : ∀ a ∈ ys, f a ≠ [])
    (hsep : ∀ a ∈ xs, ∀ b ∈ ys, ∀ x ∈ f a, x ∈ f b → a = b)
    (h : xs.flatMap f = ys.flatMap f) : xs = ys := by
  induction xs generalizing ys with
  | nil =>
      cases ys with
      | nil => rfl
      | cons b ys =>
          have hb := hys b List.mem_cons_self
          simp only [List.flatMap_nil, List.flatMap_cons] at h
          exact absurd (List.append_eq_nil_iff.mp h.symm).1 hb
  | cons a xs ih =>
      obtain ⟨ha, hxs⟩ := List.forall_mem_cons.mp hxs
      cases ys with
      | nil =>
          simp only [List.flatMap_nil, List.flatMap_cons] at h
          exact absurd (List.append_eq_nil_iff.mp h).1 ha
      | cons b ys =>
          obtain ⟨hb, hrest⟩ := List.forall_mem_cons.mp hys
          obtain ⟨x, as, hfa⟩ := List.exists_cons_of_ne_nil ha
          obtain ⟨y, bs, hfb⟩ := List.exists_cons_of_ne_nil hb
          have hab : a = b := by
            refine hsep a List.mem_cons_self b List.mem_cons_self x (by simp [hfa]) ?_
            simp only [List.flatMap_cons, hfa, hfb, List.cons_append, List.cons.injEq] at h
            simp [hfb, h.1]
          obtain rfl := hab
          rw [List.flatMap_cons, List.flatMap_cons, List.append_cancel_left_eq] at h
          rw [ih hxs hrest (fun c hc d hd => hsep c (List.mem_cons_of_mem a hc) d
            (List.mem_cons_of_mem a hd)) h]

end Recovery

section Runs

variable {t t' : Text} {ds : List Document} {f : Filters} {o : Options}

theorem map_paginate {α β : Type} (g : α → β) (limit : Option Int) (offset : Int) (xs : List α) :
    (paginate limit offset xs).map g = paginate limit offset (xs.map g) := by
  cases limit with
  | none => exact List.map_drop
  | some n =>
      simp only [paginate]
      split
      · exact List.map_drop
      · rw [List.map_take, List.map_drop]

/-- A run looks at a query through its results only. -/
theorem run_congr {α : Type} (g : Result → α) (hmode : o.mode = .exact) (ht : trim t = t)
    (ht' : trim t' = t') (h : lowerLatin t = lowerLatin t')
    (hresults : ∀ ds, (exactResults t ds).map g = (exactResults t' ds).map g) :
    (run ds t f o).map (·.map g) = (run ds t' f o).map (·.map g) := by
  by_cases hne : t = []
  · rw [hne, (eq_nil_iff_of_lowerLatin_eq h).mp hne]
  · have hne' := (eq_nil_iff_of_lowerLatin_eq h).not.mp hne
    rw [run_exact hmode hne ht, run_exact hmode hne' ht']
    cases f.apply ds with
    | error err => rfl
    | ok passed => simp only [Except.mapError, Except.map, map_paginate, hresults]

theorem run_eq_of_needles_eq (hmode : o.mode = .exact) (ht : trim t = t) (ht' : trim t' = t')
    (h : lowerLatin t = lowerLatin t')
    (hneedles : (needles t).map lower = (needles t').map lower) : run ds t f o = run ds t' f o := by
  have hresults : ∀ ds, exactResults t ds = exactResults t' ds := fun ds => by
    rw [exactResults, exactResults, hneedles]
  have hid : ∀ x : Except FilterError (List Result), x.map (·.map id) = x := by
    rintro (err | rs)
    · rfl
    · exact congrArg Except.ok (List.map_id rs)
  have hrun : (run ds t f o).map (·.map id) = (run ds t' f o).map (·.map id) :=
    run_congr id hmode ht ht' h fun ds => by rw [hresults]
  rwa [hid, hid] at hrun

theorem run_plain (hne : t ≠ []) (ht : trim t = t) (ds : List Document) :
    run ds t {} {} = .ok (exactResults t ds) := by
  rw [run_exact rfl hne ht]
  rfl

theorem exactResults_singleton {d : Document}
    (h : hasNeedles ((needles t).map lower) d = true) :
    exactResults t [d] = [exactResult ((needles t).map lower) d] := by
  rw [exactResults]
  generalize (needles t).map lower = ns at h ⊢
  cases htitle : ns.all (titleHas d) <;> simp [h, htitle]

def allNeedles (t : Text) : Text := joinWith [' '] (needles t)

theorem infix_allNeedles {n : Text} (hn : n ∈ (needles t).map lower) : n <:+: lower (allNeedles t) := by
  rw [allNeedles, lower_joinWith (by decide)]
  exact infix_joinWith [' '] hn

theorem findSpans_allNeedles (hne : t ≠ []) (hbreak : '\n' ∉ t) {n : Text}
    (hn : n ∈ (needles t).map lower) :
    n ≠ [] ∧ lower n = n ∧ findSpans (allNeedles t) n ≠ [] := by
  have hwhole := infix_allNeedles hn
  have hlow : lower n = n := lower_of_infix hwhole
  obtain ⟨w, hw, rfl⟩ := List.mem_map.mp hn
  obtain ⟨hwne, hpart⟩ := mem_needles hne hw
  have hwbreak : '\n' ∉ lower w := fun hmem =>
    hbreak (hpart.subset (mem_of_mem_lower (by decide) hmem))
  obtain ⟨x, hx⟩ : ∃ x, x ∈ findSpans (allNeedles t) (lower w) :=
    exists_mem_findSpans (lower_ne_nil hwne) hwbreak (by rwa [hlow])
  exact ⟨lower_ne_nil hwne, hlow, List.ne_nil_of_mem hx⟩

/-- What a search marks in a text of all its needles tells the needles. -/
theorem needles_eq_of_run_eq (ht : trim t = t) (ht' : trim t' = t') (h : lowerLatin t = lowerLatin t')
    (hbreak : '\n' ∉ t) (hrun : ∀ ds, run ds t {} {} = run ds t' {} {}) :
    (needles t).map lower = (needles t').map lower := by
  by_cases hne : t = []
  · rw [hne, (eq_nil_iff_of_lowerLatin_eq h).mp hne]
  · have hne' := (eq_nil_iff_of_lowerLatin_eq h).not.mp hne
    have hmem := mem_map_lower_needles h
    have hfound := @findSpans_allNeedles t hne hbreak
    have hhas : hasNeedles ((needles t).map lower) (probe (allNeedles t)) = true :=
      List.all_eq_true.mpr fun n hn => by
        rw [Bool.or_eq_true, contains_iff_infix, contains_iff_infix]
        exact .inr (infix_allNeedles hn)
    have hhas' : hasNeedles ((needles t').map lower) (probe (allNeedles t)) = true :=
      (all_congr_mem hmem _).symm.trans hhas
    have hone := hrun [probe (allNeedles t)]
    rw [run_plain hne ht, run_plain hne' ht', exactResults_singleton hhas,
      exactResults_singleton hhas', Except.ok.injEq, List.singleton_inj] at hone
    refine eq_of_flatMap_eq (fun n hn => (hfound hn).2.2) (fun n hn => (hfound ((hmem n).mpr hn)).2.2)
      (fun n hn n' hn' x hx hx' => ?_) (congrArg Result.spans hone)
    obtain ⟨hnne, hlow, -⟩ := hfound hn
    obtain ⟨hnne', hlow', -⟩ := hfound ((hmem n').mpr hn')
    exact eq_of_mem_findSpans hnne hnne' hlow hlow' hx hx'

theorem search_of_free {q : Text} (hq : ∀ w ∈ Text.words q, isFilter w = false) :
    search ds { o with query := q } = run ds (joinWith [' '] (Text.words q)) o.filters o := by
  have hmerged : ({} : Filters).merged o.filters = o.filters := by simp [Filters.merged]
  rw [search, resolve, parse_of_free hq, Except.map]
  dsimp only
  rw [hmerged]
  rfl

/-- What a query without filters asks for, in lower case. -/
def sought (q : Text) : List Text := (needles (joinWith [' '] (Text.words q))).map lower

/-- Two queries that differ in the case of letters from `A` to `Z` find the same documents in the
same order. They say the same of them exactly if they ask for the same as often, and they do so if
neither asks for anything in two spellings. -/
theorem search_letterCase {q q' : Text} (hsame : lowerLatin q = lowerLatin q')
    (hq : ∀ w ∈ Text.words q, isFilter w = false) (hq' : ∀ w ∈ Text.words q', isFilter w = false) :
    (∀ o : Options, o.mode = .exact → ∀ ds,
      (search ds { o with query := q }).map (·.map (·.id)) =
        (search ds { o with query := q' }).map (·.map (·.id))) ∧
    ((∀ o : Options, o.mode = .exact → ∀ ds,
      search ds { o with query := q } = search ds { o with query := q' }) ↔ sought q = sought q') ∧
    ((sought q).Nodup → (sought q').Nodup → sought q = sought q') := by
  obtain ⟨htrim, hspaces⟩ := freeText_spaced (parse_of_free hq false)
  obtain ⟨htrim', -⟩ := freeText_spaced (parse_of_free hq' false)
  have hfree : lowerLatin (joinWith [' '] (Text.words q)) =
      lowerLatin (joinWith [' '] (Text.words q')) := by
    rw [← joinWith_lowerLatin, ← joinWith_lowerLatin, ← words_lowerLatin, ← words_lowerLatin, hsame]
  have hbreak : '\n' ∉ joinWith [' '] (Text.words q) := fun hmem =>
    absurd (hspaces '\n' hmem (by decide)) (by decide)
  simp only [search_of_free hq, search_of_free hq', sought]
  refine ⟨fun o hmode ds => ?_, ⟨fun hall => ?_, fun hneedles o hmode ds => ?_⟩, ?_⟩
  · exact run_congr (·.id) hmode htrim htrim' hfree (ids_exactResults hfree)
  · exact needles_eq_of_run_eq htrim htrim' hfree hbreak (hall {} rfl)
  · exact run_eq_of_needles_eq hmode htrim htrim' hfree hneedles
  · exact needles_eq_of_nodup hfree

def loudQuery : Text := "RUST \"Borrow CHECKER\"".toList

def quietQuery : Text := "Rust \"borrow checker\"".toList

theorem search_letterCase_loud :
    (lowerLatin loudQuery = lowerLatin quietQuery ∧
      (∀ w ∈ Text.words loudQuery, isFilter w = false) ∧
      ∀ w ∈ Text.words quietQuery, isFilter w = false) ∧
    ∀ o : Options, o.mode = .exact → ∀ ds,
      search ds { o with query := loudQuery } = search ds { o with query := quietQuery } := by
  have hsame : lowerLatin loudQuery = lowerLatin quietQuery := by decide
  have hloud : ∀ w ∈ Text.words loudQuery, isFilter w = false := by decide +kernel
  have hquiet : ∀ w ∈ Text.words quietQuery, isFilter w = false := by decide +kernel
  refine ⟨⟨hsame, hloud, hquiet⟩, (search_letterCase hsame hloud hquiet).2.1.mpr ?_⟩
  decide +kernel

def twoSpellings : Text := "Rust rust".toList

def oneSpelling : Text := "rust rust".toList

def rusty : Document := { id := ['a'], content := "rust".toList }

/-- The two spellings are two needles until they are in lower case. -/
theorem twoSpellings_countTwice :
    (lowerLatin twoSpellings = lowerLatin oneSpelling ∧
      (∀ w ∈ Text.words twoSpellings, isFilter w = false) ∧
      ∀ w ∈ Text.words oneSpelling, isFilter w = false) ∧
    (search [rusty] { query := twoSpellings }).map (·.map (·.score)) = .ok [4] ∧
    (search [rusty] { query := oneSpelling }).map (·.map (·.score)) = .ok [2] := by
  refine ⟨⟨by decide, by decide +kernel, by decide +kernel⟩, ?_, ?_⟩
  · exact eq_ok_of_toOption (by decide +kernel)
  · exact eq_ok_of_toOption (by decide +kernel)

end Runs

end VaultSearch.Search
