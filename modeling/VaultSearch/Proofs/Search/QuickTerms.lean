import VaultSearch.Proofs.Note.Terms
import VaultSearch.Proofs.Search.Exact
import VaultSearch.Proofs.Search.Quick

namespace VaultSearch.Search

open Text Note

section Bare

variable {query part t : Text} {parts : List Text}

def isBare (part : Text) : Bool :=
  !(startsWith tagMark part || startsWith folderMark part || isQuotation part)

def queryTerms (query : Text) : List Text := (quickParts query).flatMap tokens

def sortedTerms (parts : List Text) : List Text :=
  parts.flatMap fun part => (tokens part).mergeSort Text.le

theorem mem_sortedTerms_quickParts : t ∈ sortedTerms (quickParts query) ↔ t ∈ queryTerms query := by
  simp only [sortedTerms, queryTerms, List.mem_flatMap, List.mem_mergeSort]

theorem addPart_of_isBare (q : QuickQuery) (h : isBare part = true) :
    q.addPart part = { q with terms := q.terms ++ (tokens part).mergeSort Text.le } := by
  simp only [isBare, Bool.not_eq_true', Bool.or_eq_false_iff] at h
  obtain ⟨⟨htag, hfolder⟩, hquoted⟩ := h
  simp only [QuickQuery.addPart, htag, hfolder, hquoted, Bool.false_eq_true, if_false]

theorem foldl_addPart_of_isBare (q : QuickQuery) (h : ∀ part ∈ parts, isBare part = true) :
    parts.foldl QuickQuery.addPart q = { q with terms := q.terms ++ sortedTerms parts } := by
  induction parts generalizing q with
  | nil => simp [sortedTerms]
  | cons part parts ih =>
      obtain ⟨hpart, hparts⟩ := List.forall_mem_cons.mp h
      rw [List.foldl_cons, addPart_of_isBare q hpart, ih _ hparts]
      simp [sortedTerms]

/-- A query of bare parts asks for nothing but terms. -/
theorem read_of_isBare (h : ∀ part ∈ quickParts query, isBare part = true) :
    QuickQuery.read [] [] query = { terms := sortedTerms (quickParts query) } :=
  foldl_addPart_of_isBare _ h

theorem required_terms (ts : List Text) : QuickQuery.required { terms := ts } = ts := by
  simp [QuickQuery.required]

/-- The score is the one that an exact search would give for the terms. -/
theorem score_terms (ts : List Text) (d : Document) :
    QuickQuery.score { terms := ts } d = exactScore ts d := by
  have hsame : wantedScore d 10 2 = fun t =>
      (if titleHas d t then 10 else 0) + 2 * (findSpans d.content t).length := rfl
  simp [QuickQuery.score, exactScore, hsame]

end Bare

section Scoring

variable {d : Document} {t : Text}

/-- A term of the title or of the content is found again by the text search that scores it. -/
theorem shown_of_mem_tokens (h : t ∈ tokens d.title ∨ t ∈ tokens d.content) :
    titleHas d t = true ∨ ∃ x, x ∈ findSpans d.content t := by
  have hinfix : t <:+: lower d.title ∨ t <:+: lower d.content :=
    h.imp infix_of_mem_tokens infix_of_mem_tokens
  have hlow : lower t = t := hinfix.elim lower_of_infix lower_of_infix
  have hne : t ≠ [] := h.elim ne_nil_of_mem_tokens ne_nil_of_mem_tokens
  have hbreak : '\n' ∉ t := by
    intro hmem
    have hfull := h.elim isBlank_of_mem_tokens isBlank_of_mem_tokens _ hmem
    exact absurd hfull (by decide)
  have hhas : (contains (lower t) (lower d.title) || contains (lower t) (lower d.content)) = true := by
    rw [hlow, Bool.or_eq_true, contains_iff_infix, contains_iff_infix]
    exact hinfix
  have hshown := titleHas_or_span hne hbreak hhas
  rwa [hlow] at hshown

theorem score_pos {ts : List Text} (hne : ts ≠ [])
    (h : ∀ t ∈ ts, t ∈ tokens d.title ∨ t ∈ tokens d.content) :
    0 < QuickQuery.score { terms := ts } d := by
  have hlow : 2 * ts.length ≤ exactScore ts d :=
    two_mul_length_le_exactScore fun t ht => shown_of_mem_tokens (h t ht)
  have hpos := List.length_pos_iff.mpr hne
  rw [score_terms]
  omega

theorem mem_terms_of_mem_tokens (h : t ∈ tokens d.title ∨ t ∈ tokens d.content) : t ∈ d.terms :=
  Document.mem_terms_iff.mpr (h.elim .inl fun hcontent => .inr (.inl hcontent))

end Scoring

section Finding

variable {e : Engine} {query : Text} {limit : Option Int}

/-- A quick search for bare terms loses no document that has them all in its title and content.
What it finds is indexed under all of them and scores, the best first. -/
theorem quick_bare (he : e.Reachable) (hbare : ∀ part ∈ quickParts query, isBare part = true)
    (hterms : queryTerms query ≠ []) (hlimit : ∀ n ∈ limit, (e.size : Int) ≤ n) :
    (∀ d ∈ e.toList, (∀ t ∈ queryTerms query, t ∈ tokens d.title ∨ t ∈ tokens d.content) →
        ∃ r ∈ quick e query limit [] [], r.id = d.id) ∧
      (∀ r ∈ quick e query limit [] [], ∃ d ∈ e.toList, r.id = d.id ∧
        (∀ t ∈ queryTerms query, t ∈ d.terms) ∧ 0 < r.score) ∧
      InOrder e.toList (quick e query limit [] []) := by
  have hc := he.consistent
  obtain ⟨t, ht⟩ := List.exists_mem_of_ne_nil _ hterms
  obtain ⟨part, hpart, -⟩ := List.mem_flatMap.mp ht
  have hq := trim_ne_nil_of_part hpart
  have hmem (r : Result) : r ∈ quick e query limit [] [] ↔ ∃ d ∈ e.toList,
      (∀ t ∈ queryTerms query, t ∈ d.terms) ∧
        0 < QuickQuery.score { terms := sortedTerms (quickParts query) } d ∧
        r = QuickQuery.result { terms := sortedTerms (quickParts query) } d.id d := by
    rw [mem_quick_iff hc hq hlimit, read_of_isBare hbare, mem_scan_iff]
    simp only [required_terms, mem_sortedTerms_quickParts]
  refine ⟨fun d hd hhits => ?_, fun r hr => ?_, inOrder_quick hc hq⟩
  · have hscore := score_pos (List.ne_nil_of_mem (mem_sortedTerms_quickParts.mpr ht))
      fun t ht => hhits t (mem_sortedTerms_quickParts.mp ht)
    exact ⟨_, (hmem _).mpr ⟨d, hd, fun t ht => mem_terms_of_mem_tokens (hhits t ht), hscore, rfl⟩, rfl⟩
  · obtain ⟨d, hd, hindexed, hscore, rfl⟩ := (hmem r).mp hr
    exact ⟨d, hd, rfl, hindexed, Nat.cast_pos.mpr hscore⟩

def rustNotes : Engine :=
  [Engine.Command.add { id := ['a'], title := "Draft".toList },
    .add { id := ['b'], content := "more on\nRUST".toList },
    .add { id := ['c'], title := "Rust".toList },
    .add { id := ['d'], aliases := ["rust".toList] },
    .update { id := ['a'], title := "rust, again".toList }].foldl Engine.perform {}

def askRust : Text := "a Rust?".toList

theorem quick_bare_rustNotes :
    (rustNotes.Reachable ∧ (∀ part ∈ quickParts askRust, isBare part = true) ∧
        queryTerms askRust = ["rust".toList] ∧ rustNotes.size = 4) ∧
      (∀ id ∈ [['a'], ['b'], ['c']], ∃ r ∈ quick rustNotes askRust (some 4) [] [], r.id = id) ∧
      (∀ r ∈ quick rustNotes askRust (some 4) [] [], ∃ d ∈ rustNotes.toList, r.id = d.id ∧
        (∀ t ∈ queryTerms askRust, t ∈ d.terms) ∧ 0 < r.score) ∧
      InOrder rustNotes.toList (quick rustNotes askRust (some 4) [] []) := by
  have he : rustNotes.Reachable := (Engine.Reachable.empty _ false).foldl _
  have hbare : ∀ part ∈ quickParts askRust, isBare part = true := by decide +kernel
  have hterms : queryTerms askRust = ["rust".toList] := by decide +kernel
  have hsize : rustNotes.size = 4 := by decide +kernel
  have hne : queryTerms askRust ≠ [] := by
    rw [hterms]
    exact List.cons_ne_nil _ _
  have hlimit : ∀ n ∈ some (4 : Int), (rustNotes.size : Int) ≤ n := by simp [hsize]
  obtain ⟨hhits, hfound, horder⟩ := quick_bare he hbare hne hlimit
  have hdocs : ∀ id ∈ [['a'], ['b'], ['c']], ∃ d ∈ rustNotes.toList, d.id = id ∧
      ∀ t ∈ queryTerms askRust, t ∈ tokens d.title ∨ t ∈ tokens d.content := by
    decide +kernel
  refine ⟨⟨he, hbare, hterms, hsize⟩, fun id hid => ?_, hfound, horder⟩
  obtain ⟨d, hd, rfl, hall⟩ := hdocs id hid
  exact hhits d hd hall

end Finding

end VaultSearch.Search
