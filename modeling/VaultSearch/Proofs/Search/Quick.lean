import VaultSearch.Proofs.Engine.Dates
import VaultSearch.Proofs.Note.Terms
import VaultSearch.Proofs.Search.Exact
import VaultSearch.Search.Quick

namespace VaultSearch.Search

open Text Note

section Parts

variable {w t : Text}

theorem quotes_not_blank : isBlank '"' = false ∧ isBlank '\'' = false := by decide

theorem pieceLength_of_isBlank {c : Char} (hc : isBlank c = true) (t : Text) :
    pieceLength (c :: t) = 0 := by
  have hquote : ¬((c = '"' || c = '\'') = true) := by
    rw [Bool.or_eq_true, decide_eq_true_eq, decide_eq_true_eq]
    rintro (rfl | rfl)
    · rw [quotes_not_blank.1] at hc
      cases hc
    · rw [quotes_not_blank.2] at hc
      cases hc
  rw [pieceLength, if_neg hquote, if_pos hc]

theorem partLength_of_isBlank (ht : ∀ c ∈ t.head?, isBlank c = true) : partLength t = 0 := by
  rw [partLength.eq_def, dif_pos]
  cases t with
  | nil => exact .inr rfl
  | cons c t => exact .inl (pieceLength_of_isBlank (ht c rfl) t)

def isUnquoted (c : Char) : Bool := !(isBlank c || c == '"' || c == '\'')

theorem isUnquoted_iff {c : Char} : isUnquoted c = true ↔ isBlank c = false ∧ c ≠ '"' ∧ c ≠ '\'' := by
  simp [isUnquoted, and_assoc]

theorem pieceLength_append (hne : w ≠ []) (hw : ∀ c ∈ w, isUnquoted c = true)
    (ht : ∀ c ∈ t.head?, isBlank c = true) : pieceLength (w ++ t) = w.length := by
  cases w with
  | nil => exact absurd rfl hne
  | cons c w =>
      obtain ⟨hc, hw⟩ := List.forall_mem_cons.mp hw
      obtain ⟨hblank, hdouble, hsingle⟩ := isUnquoted_iff.mp hc
      have hquote : ¬((c = '"' || c = '\'') = true) := by simp [hdouble, hsingle]
      have hrun : (w ++ t).takeWhile isUnquoted = w :=
        takeWhile_append_run hw fun d hd => by simp [isUnquoted, ht d hd]
      rw [List.cons_append, pieceLength, if_neg hquote, if_neg (by simp [hblank])]
      exact congrArg (·.length + 1) hrun

theorem partLength_append (hne : w ≠ []) (hw : ∀ c ∈ w, isUnquoted c = true)
    (ht : ∀ c ∈ t.head?, isBlank c = true) : partLength (w ++ t) = w.length := by
  have hpos := List.length_pos_iff.mpr hne
  have hpiece := pieceLength_append hne hw ht
  have hmore : ¬(pieceLength (w ++ t) = 0 ∨ w ++ t = []) := by
    rw [hpiece]
    simp [hne]
  rw [partLength.eq_def, dif_neg hmore, hpiece, List.drop_left, partLength_of_isBlank ht,
    Nat.add_zero]

theorem quickParts_nil : quickParts [] = [] := by rw [quickParts]

theorem quickParts_of_isBlank {c : Char} (hc : isBlank c = true) (t : Text) :
    quickParts (c :: t) = quickParts t := by
  have hnone : partLength (c :: t) = 0 := partLength_of_isBlank (by simpa using hc)
  rw [quickParts]
  simp [hnone]

theorem quickParts_append (hne : w ≠ []) (hw : ∀ c ∈ w, isUnquoted c = true)
    (ht : ∀ c ∈ t.head?, isBlank c = true) : quickParts (w ++ t) = w :: quickParts t := by
  have hpart := partLength_append hne hw ht
  cases w with
  | nil => exact absurd rfl hne
  | cons c w =>
      rw [List.cons_append] at hpart ⊢
      rw [quickParts]
      simp only [hpart, List.length_cons, Nat.add_eq_zero_iff, Nat.one_ne_zero, and_false, if_false]
      rw [← List.cons_append, ← List.length_cons (a := c), List.take_left, List.drop_left]

/-- Without quotes, the parts of a quick query are its words. -/
theorem quickParts_of_unquoted (hdouble : '"' ∉ t) (hsingle : '\'' ∉ t) : quickParts t = words t := by
  induction t using words_induction with
  | nil => exact quickParts_nil
  | blank c t hc ih =>
      rw [List.mem_cons, not_or] at hdouble hsingle
      rw [quickParts_of_isBlank hc, words_of_isBlank hc, ih hdouble.2 hsingle.2]
  | word w t hne hw ht ih =>
      rw [List.mem_append, not_or] at hdouble hsingle
      have hword : ∀ c ∈ w, isUnquoted c = true := fun c hc =>
        isUnquoted_iff.mpr ⟨hw c hc, fun h => hdouble.1 (h ▸ hc), fun h => hsingle.1 (h ▸ hc)⟩
      rw [quickParts_append hne hword ht, words_append hne hw ht, ih hdouble.2 hsingle.2]

theorem trim_ne_nil_of_part (hw : w ∈ quickParts t) : trim t ≠ [] := by
  intro hnil
  have hblank := isBlank_of_trim_eq_nil hnil
  have hnone : quickParts t = [] := by
    clear hw hnil
    induction t with
    | nil => exact quickParts_nil
    | cons c t ih =>
        obtain ⟨hc, ht⟩ := List.forall_mem_cons.mp hblank
        rw [quickParts_of_isBlank hc, ih ht]
  rw [hnone] at hw
  cases hw

end Parts

section Scan

variable {e : Engine} {query : Text} {limit : Option Int} {tags folders : List Text}

def QuickQuery.finds (q : QuickQuery) (d : Document) : Bool :=
  q.required.all d.terms.elem && decide (0 < q.score d)

def bestFirst (a b : Result) : Bool := decide (b.score ≤ a.score)

theorem bestFirst_trans (a b c : Result) (hab : bestFirst a b = true) (hbc : bestFirst b c = true) :
    bestFirst a c = true :=
  byScore_trans a b c hab hbc

theorem bestFirst_total (a b : Result) : (bestFirst a b || bestFirst b a) = true :=
  byScore_total a b

/-- What a quick search would have to rank if it looked at every document. -/
def QuickQuery.scan (q : QuickQuery) (ds : List Document) : List Result :=
  (ds.filter q.finds).map fun d => q.result d.id d

/-- A quick search through the index ranks what looking at every document finds. -/
theorem quick_eq_scan (he : e.Consistent) (hq : trim query ≠ []) (limit : Option Int)
    (tags folders : List Text) : quick e query limit tags folders =
      front limit (((QuickQuery.read tags folders query).scan e.toList).mergeSort bestFirst) := by
  rw [quick, if_neg (by simpa using hq)]
  generalize QuickQuery.read tags folders query = q
  refine congrArg (fun found => front limit (List.mergeSort found bestFirst)) ?_
  rw [QuickQuery.scan, Engine.toList, Table.values, ← List.filterMap_eq_map, List.filterMap_filter,
    List.filterMap_map]
  refine List.filterMap_congr ?_
  rintro ⟨id, d⟩ hm
  have hd : e.get? id = some d := Table.get?_eq_some_iff.mpr hm
  have hids : id ∈ e.index.candidates q.required ↔ ∀ t ∈ q.required, t ∈ d.terms :=
    he.mem_index_candidates_iff hd
  have hfinds : ((e.index.candidates q.required).elem id && decide (0 < q.score d)) = q.finds d := by
    rw [QuickQuery.finds, Bool.eq_iff_iff]
    simp [hids]
  simp only [hfinds, Function.comp_apply, he.ids hd]

theorem front_whole {α : Type} {xs : List α} (h : ∀ n ∈ limit, (xs.length : Int) ≤ n) :
    front limit xs = xs := by
  cases limit with
  | none => rfl
  | some n =>
      have hn := h n rfl
      have hroom : ¬n < 0 := by omega
      rw [front, if_neg hroom]
      exact List.take_of_length_le (by omega)

theorem front_sublist {α : Type} (limit : Option Int) (xs : List α) : (front limit xs).Sublist xs := by
  cases limit with
  | none => exact .refl xs
  | some n => exact List.take_sublist _ _

theorem mem_scan_iff {q : QuickQuery} {ds : List Document} {r : Result} : r ∈ q.scan ds ↔
    ∃ d ∈ ds, (∀ t ∈ q.required, t ∈ d.terms) ∧ 0 < q.score d ∧ r = q.result d.id d := by
  simp only [QuickQuery.scan, QuickQuery.finds, List.mem_map, List.mem_filter, Bool.and_eq_true,
    List.all_eq_true, List.elem_eq_mem, decide_eq_true_eq]
  constructor
  · rintro ⟨d, ⟨hd, hterms, hscore⟩, rfl⟩
    exact ⟨d, hd, hterms, hscore, rfl⟩
  · rintro ⟨d, hd, hterms, hscore, rfl⟩
    exact ⟨d, ⟨hd, hterms, hscore⟩, rfl⟩

/-- With room for all documents, no document that scores is cut off. -/
theorem mem_quick_iff (he : e.Consistent) (hq : trim query ≠ [])
    (hlimit : ∀ n ∈ limit, (e.size : Int) ≤ n) {r : Result} :
    r ∈ quick e query limit tags folders ↔ r ∈ (QuickQuery.read tags folders query).scan e.toList := by
  have hroom : ∀ n ∈ limit, ((((QuickQuery.read tags folders query).scan e.toList).mergeSort
      bestFirst).length : Int) ≤ n := by
    intro n hn
    have hfew := List.length_filter_le (QuickQuery.read tags folders query).finds e.toList
    have hsize : e.toList.length = e.size := List.length_map _
    have hlarge := hlimit n hn
    rw [List.length_mergeSort, QuickQuery.scan, List.length_map]
    omega
  rw [quick_eq_scan he hq, front_whole hroom, List.mem_mergeSort]

/-- The best come first, and of equal ones those whose documents do. -/
structure InOrder (ds : List Document) (rs : List Result) : Prop where
  bestFirst : rs.Pairwise fun a b => b.score ≤ a.score
  ties : ∀ score, ((rs.filter fun r => r.score = score).map Result.id).Sublist (ds.map Document.id)

theorem inOrder_quick (he : e.Consistent) (hq : trim query ≠ []) :
    InOrder e.toList (quick e query limit tags folders) := by
  have hpage := quick_eq_scan he hq limit tags folders
  generalize QuickQuery.read tags folders query = q at hpage
  have hpart := front_sublist limit ((q.scan e.toList).mergeSort Search.bestFirst)
  rw [hpage]
  constructor
  · have hsorted := List.pairwise_mergeSort bestFirst_trans bestFirst_total (q.scan e.toList)
    exact (hsorted.sublist hpart).imp fun h => of_decide_eq_true h
  · intro score
    have hequal : ((q.scan e.toList).filter fun r => r.score = score).Pairwise
        fun a b => Search.bestFirst a b = true := by
      refine List.pairwise_of_forall_mem_list fun a ha b hb => ?_
      have hscores : a.score = score ∧ b.score = score :=
        ⟨of_decide_eq_true (List.mem_filter.mp ha).2, of_decide_eq_true (List.mem_filter.mp hb).2⟩
      exact decide_eq_true (le_of_eq (hscores.2.trans hscores.1.symm))
    have hkept := hpart.filter fun r => decide (r.score = score)
    rw [filter_mergeSort bestFirst_trans bestFirst_total, List.mergeSort_of_pairwise hequal] at hkept
    have hscan : ((q.scan e.toList).map Result.id).Sublist (e.toList.map Document.id) := by
      rw [QuickQuery.scan, List.map_map]
      exact List.filter_sublist.map _
    exact ((hkept.trans List.filter_sublist).map _).trans hscan

end Scan

end VaultSearch.Search
