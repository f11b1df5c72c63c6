import VaultSearch.Proofs.Saved.Calls
import VaultSearch.Proofs.Search.Independence

namespace VaultSearch.Saved

open Text Yaml Time Search Store

/-- Lists that fall by a key are equal once the elements of each key come in the same order. -/
theorem eq_of_falling {α : Type} {key : α → Int} {xs ys : List α}
    (hxs : xs.Pairwise fun x y => key y ≤ key x) (hys : ys.Pairwise fun x y => key y ≤ key x)
    (h : ∀ k, xs.filter (key · = k) = ys.filter (key · = k)) : xs = ys := by
  have hmem : ∀ z, z ∈ xs ↔ z ∈ ys := by
    intro z
    have hz := congrArg (z ∈ ·) (h (key z))
    simpa [List.mem_filter] using hz
  induction xs generalizing ys with
  | nil => exact (List.eq_nil_iff_forall_not_mem.mpr fun z hz => by simpa using (hmem z).mpr hz).symm
  | cons x xs ih =>
      cases ys with
      | nil => simpa using (hmem x).mp List.mem_cons_self
      | cons y ys =>
          -- Each head is at least as high as the other, so that both lead the list of one key.
          have hyx : key y ≤ key x := by
            rcases List.mem_cons.mp ((hmem y).mpr List.mem_cons_self) with rfl | hy
            · exact Int.le_refl _
            · exact List.rel_of_pairwise_cons hxs hy
          have hxy : key x ≤ key y := by
            rcases List.mem_cons.mp ((hmem x).mp List.mem_cons_self) with rfl | hx
            · exact Int.le_refl _
            · exact List.rel_of_pairwise_cons hys hx
          have hkey : key y = key x := Int.le_antisymm hyx hxy
          obtain ⟨rfl, -⟩ : x = y ∧ _ := by simpa [hkey] using h (key x)
          have htails : ∀ k, xs.filter (key · = k) = ys.filter (key · = k) := by
            intro k
            have hk := h k
            rw [List.filter_cons, List.filter_cons] at hk
            split at hk
            · exact List.tail_eq_of_cons_eq hk
            · exact hk
          refine congrArg (x :: ·) (ih hxs.of_cons hys.of_cons htails fun z => ?_)
          have hz := congrArg (z ∈ ·) (htails (key z))
          simpa [List.mem_filter] using hz

def used (xs : List SavedSearch) : List SavedSearch := xs.filter (·.lastUsed.isSome)

/-- The used ones of the searches `xs`, from the latest moment of use to the earliest, and those of
one moment in the order that they have in `xs`. -/
structure ByUse (xs ys : List SavedSearch) : Prop where
  perm : ys.Perm (used xs)
  latestFirst : ys.Pairwise fun x y => usedAt y ≤ usedAt x
  ties : ∀ m, ys.filter (usedAt · = m) = (used xs).filter (usedAt · = m)

def Mixed (xs : List SavedSearch) : Prop :=
  (∃ x ∈ used xs, isAware x = true) ∧ ∃ x ∈ used xs, isAware x = false

section Order

variable {xs ys zs : List SavedSearch}

theorem ByUse.unique (hys : ByUse xs ys) (hzs : ByUse xs zs) : ys = zs :=
  eq_of_falling hys.latestFirst hzs.latestFirst fun m => (hys.ties m).trans (hzs.ties m).symm

theorem byUse_sorted (xs : List SavedSearch) :
    ByUse xs ((used xs).mergeSort fun a b => usedAt b ≤ usedAt a) := by
  have htrans : ∀ a b c : SavedSearch, decide (usedAt b ≤ usedAt a) = true →
      decide (usedAt c ≤ usedAt b) = true → decide (usedAt c ≤ usedAt a) = true :=
    fun a b c hab hbc => decide_eq_true (Int.le_trans (of_decide_eq_true hbc) (of_decide_eq_true hab))
  have htotal : ∀ a b : SavedSearch,
      (decide (usedAt b ≤ usedAt a) || decide (usedAt a ≤ usedAt b)) = true := by
    intro a b
    simpa using Int.le_total (usedAt b) (usedAt a)
  refine ⟨List.mergeSort_perm _ _, ?_, fun m => ?_⟩
  · exact (List.pairwise_mergeSort htrans htotal (used xs)).imp of_decide_eq_true
  · rw [filter_mergeSort htrans htotal]
    apply List.mergeSort_of_pairwise
    apply List.pairwise_of_forall_mem_list
    intro a ha b hb
    have hma := (List.mem_filter.mp ha).2
    have hmb := (List.mem_filter.mp hb).2
    rw [decide_eq_true_eq] at hma hmb ⊢
    omega

theorem mixed_iff :
    ((used xs).any isAware && (used xs).any (!isAware ·)) = true ↔ Mixed xs := by
  simp [Mixed]

end Order

section Recent

variable {s : Store} {now : Moment} {xs : List SavedSearch} {limit : Int}

/-- Stamps of both kinds are not compared: if there are any, there is no answer. -/
theorem recent_of_mixed (hlist : s.list now = .ok xs) (limit : Option Int) (hmixed : Mixed xs) :
    s.recent now limit = .error .mixedStamps := by
  rw [recent, hlist]
  exact if_pos (mixed_iff.mpr hmixed)

theorem recent_of_not_mixed (hlist : s.list now = .ok xs) (limit : Option Int)
    (hmixed : ¬Mixed xs) :
    s.recent now limit =
      .ok (front limit ((used xs).mergeSort fun a b => usedAt b ≤ usedAt a)) := by
  rw [recent, hlist]
  exact if_neg fun h => hmixed (mixed_iff.mp h)

/-- The searches that were used last are answered in order, exactly if their stamps are not mixed. -/
theorem recent_ordered_iff (hlist : s.list now = .ok xs) (hlimit : 0 ≤ limit) :
    (∃ ys, ByUse xs ys ∧ s.recent now (some limit) = .ok (ys.take limit.toNat)) ↔ ¬Mixed xs := by
  constructor
  · rintro ⟨ys, -, hanswer⟩ hmixed
    cases hanswer.symm.trans (recent_of_mixed hlist (some limit) hmixed)
  · intro hmixed
    refine ⟨_, byUse_sorted xs, ?_⟩
    rw [recent_of_not_mixed hlist _ hmixed, front, if_neg (Int.not_lt.mpr hlimit)]

def twoUses (first second : String) : Store where
  file := some (("- id: a\n  last_used: '" ++ first ++ "'\n- id: b\n  last_used: '" ++ second ++
    "'\n").toList)

def usedOn (id : Char) (stamp : String) : SavedSearch where
  id := [id]
  name := .text []
  query := .text []
  created := .naive noon
  lastUsed := Stamp.read? stamp.toList

theorem recent_ordered_iff_twoUses :
    let s := twoUses "2024-01-01T00:00:00" "2024-01-02T00:00:00"
    let xs := [usedOn 'a' "2024-01-01T00:00:00", usedOn 'b' "2024-01-02T00:00:00"]
    (s.list noon = .ok xs ∧ (0 : Int) ≤ 5) ∧
      ((∃ ys, ByUse xs ys ∧ s.recent noon (some 5) = .ok (ys.take 5)) ↔ ¬Mixed xs) := by
  intro s xs
  have hlist : s.list noon = .ok xs := eq_ok_of_toOption (by decide +kernel)
  exact ⟨⟨hlist, by decide⟩, recent_ordered_iff hlist (by decide)⟩

/-- Of two searches that can be listed, one was used at a time with an offset. -/
theorem recent_fails_onOffset :
    let s := twoUses "2024-01-01T00:00:00" "2024-01-02T00:00:00+00:00"
    s.list noon =
        .ok [usedOn 'a' "2024-01-01T00:00:00", usedOn 'b' "2024-01-02T00:00:00+00:00"] ∧
      s.recent noon (some 5) = .error .mixedStamps := by
  intro s
  have hlist : s.list noon =
      .ok [usedOn 'a' "2024-01-01T00:00:00", usedOn 'b' "2024-01-02T00:00:00+00:00"] :=
    eq_ok_of_toOption (by decide +kernel)
  have hmixed : Mixed [usedOn 'a' "2024-01-01T00:00:00", usedOn 'b' "2024-01-02T00:00:00+00:00"] :=
    ⟨⟨usedOn 'b' "2024-01-02T00:00:00+00:00", by decide +kernel, by decide +kernel⟩,
      usedOn 'a' "2024-01-01T00:00:00", by decide +kernel, by decide +kernel⟩
  exact ⟨hlist, recent_of_mixed hlist (some 5) hmixed⟩

end Recent

end VaultSearch.Saved
