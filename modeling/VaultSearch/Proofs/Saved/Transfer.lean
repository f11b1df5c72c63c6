import VaultSearch.Proofs.Saved.Calls

namespace VaultSearch.Saved

open Text Yaml Time

namespace Store

variable {s A B : Store} {now t₁ t₂ t₃ : Moment} {xs ys as bs incoming current : List SavedSearch}
variable {data : Text} {merge : Bool}

theorem untaken_eq_nil {taken : List Text} (h : ∀ x ∈ xs, x.id ∈ taken) : untaken taken xs = [] := by
  induction xs with
  | nil => rfl
  | cons x xs ih =>
      have hx : taken.elem x.id = true := List.elem_iff.mpr (h x List.mem_cons_self)
      rw [untaken, hx]
      exact ih fun y hy => h y (List.mem_cons_of_mem _ hy)

theorem untaken_nil (h : (xs.map (·.id)).Nodup) : untaken [] xs = xs := by
  rw [untaken_of_nodup h]
  exact List.filter_eq_self.mpr fun x _ => rfl

/-- A text that is exported brings in the searches it is made from, to whichever store. -/
theorem incoming_of_exported (h : A.list t₁ = .ok as) (hexport : A.exported t₁ = .ok data)
    (hstorable : Storable as) :
    ∃ incoming, Alike incoming as ∧
      ∀ (s : Store) (now : Moment), s.incoming now data = (s, .ok incoming) := by
  obtain ⟨t, label, vs, incoming, hwrite, hload, hitems, hreads, hsame⟩ :=
    readsAs_of_storable (list_proper h) hstorable
  obtain ⟨as', has, hdata⟩ := bind_eq_ok_iff.mp hexport
  cases h.symm.trans has
  cases hwrite.symm.trans hdata
  refine ⟨incoming, hsame, fun s now => ?_⟩
  rw [Store.incoming, hload]
  simp only [hitems]
  exact readIncoming_of_readsAs hreads s now

/-- An import puts what it adds behind the searches that it leaves alone. -/
theorem import_adds (hincoming : (s.incoming now data).2 = .ok incoming)
    (hkept : s.kept now merge = .ok current) (hsound : (Call.importText data merge).Sound s now) :
    ∃ ys, s.importText now data merge =
        ((s.importText now data merge).1, .ok (untaken (current.map (·.id)) incoming)) ∧
      (s.importText now data merge).1.Holds ys ∧
      Alike ys (current ++ untaken (current.map (·.id)) incoming) := by
  have hwritten : (Call.importText data merge).written s now =
      some (joined current (untaken (current.map (·.id)) incoming)) := by
    rw [Call.written, hincoming, hkept]
  have hstorable := hsound.storable _ hwritten
  obtain ⟨ys, hholds, hsame⟩ := Call.holds_run hwritten hstorable
  exact ⟨ys, Prod.ext rfl (Call.importText_answers hincoming hkept hstorable), hholds,
    hsame.trans (joined_alike _ _)⟩

section Written

theorem Written.exported (h : Written xs data ys) (hlist : s.list now = .ok xs) :
    s.exported now = .ok data := by
  rw [Store.exported, hlist]
  exact h.write

variable (h : Written as data incoming) (hkept : s.kept now merge = .ok current)
  (hjoined : joined current (untaken (current.map (·.id)) incoming) = xs)

include h hkept hjoined

theorem Written.written_importText : (Call.importText data merge).written s now = some xs := by
  rw [Call.written, h.incoming, hkept, ← hjoined]

theorem Written.sound_importText (hstorable : Storable xs) :
    (Call.importText data merge).Sound s now := by
  refine ⟨fun ws hws => ?_, fun id hid => nomatch hid⟩
  cases (h.written_importText hkept hjoined).symm.trans hws
  exact hstorable

theorem Written.file_importText {t : Text} (hxs : Written xs t ys) :
    (s.importText now data merge).1.file = some t := by
  have hrun := Call.file_run (.importText data merge) s now
  rw [h.written_importText hkept hjoined, Option.map_some, hxs.put] at hrun
  exact hrun

end Written

/-- An export of `A` that is imported to `B` adds the searches of `A` whose ids `B` does not have,
behind those of `B`. Imported once more it adds nothing, and it can replace all searches of `B`. -/
theorem import_exported (hA : A.list t₁ = .ok as) (hids : (as.map (·.id)).Nodup)
    (hB : B.list t₂ = .ok bs) (hexport : A.exported t₁ = .ok data) (hstorable : Storable as)
    (hmerge : (Call.importText data true).Sound B t₂)
    (hagain : (Call.importText data true).Sound (B.importText t₂ data true).1 t₃)
    (hreplace : (Call.importText data false).Sound B t₂) :
    (∃ B₁ added ys, B.importText t₂ data true = (B₁, .ok added) ∧
      Alike added (as.filter fun x => x.id ∉ bs.map (·.id)) ∧
      B₁.Holds ys ∧ Alike ys (bs ++ added) ∧
      ∃ B₂ zs, B₁.importText t₃ data true = (B₂, .ok []) ∧ B₂.Holds zs ∧ Alike zs ys) ∧
    ∃ B₁ added ys, B.importText t₂ data false = (B₁, .ok added) ∧ Alike added as ∧
      B₁.Holds ys ∧ Alike ys as := by
  obtain ⟨incoming, hsame, hincoming⟩ := incoming_of_exported hA hexport hstorable
  have hdistinct : (incoming.map (·.id)).Nodup := ids_distinct_alike hsame.symm hids
  have hcomes : ∀ (s : Store) (now : Moment), (s.incoming now data).2 = .ok incoming :=
    fun s now => congrArg Prod.snd (hincoming s now)
  constructor
  · -- The second import finds every id taken: by `B`, or by what the first one added.
    obtain ⟨ys, hanswer, hys, hysSame⟩ := import_adds (hcomes B t₂) (kept_eq hB true) hmerge
    obtain ⟨zs, hanswer', hzs, hzsSame⟩ :=
      import_adds (hcomes _ t₃) (kept_eq (hys t₃) true) hagain
    simp only [if_true] at hanswer hysSame hanswer' hzsSame
    have hadded : untaken (bs.map (·.id)) incoming =
        incoming.filter fun x => x.id ∉ bs.map (·.id) := by
      rw [untaken_of_nodup hdistinct]
      exact List.filter_congr fun x _ => by rw [decide_not, List.elem_eq_mem]
    have htaken : untaken (ys.map (·.id)) incoming = [] := by
      refine untaken_eq_nil fun x hx => ?_
      rw [hysSame.ids, List.map_append, List.mem_append]
      by_cases hid : x.id ∈ bs.map (·.id)
      · exact .inl hid
      · refine .inr (List.mem_map_of_mem ?_)
        rw [hadded]
        exact List.mem_filter.mpr ⟨hx, decide_eq_true hid⟩
    rw [htaken] at hanswer' hzsSame
    rw [List.append_nil] at hzsSame
    refine ⟨_, _, ys, hanswer, ?_, hys, hysSame, _, zs, hanswer', hzs, hzsSame⟩
    rw [hadded]
    exact hsame.filter_id fun id => id ∉ bs.map (·.id)
  · -- Nothing is kept, so no id is taken.
    obtain ⟨ys, hanswer, hys, hysSame⟩ := import_adds (hcomes B t₂) (kept_eq hB false) hreplace
    have hall : untaken [] incoming = incoming := untaken_nil hdistinct
    simp only [Bool.false_eq_true, if_false, List.map_nil, List.nil_append, hall] at hanswer hysSame
    exact ⟨_, incoming, ys, hanswer, hsame, hys, hysSame.trans hsame⟩

def holding (xs : List SavedSearch) : Store := (Store.put {} xs ()).1

theorem Written.file_holding {t : Text} (h : Written xs t ys) : (holding xs).file = some t := by
  rw [holding, h.put]

def first : SavedSearch := .fresh (idOf 1) noon ['a'] ['b'] none none

def second : SavedSearch := .fresh (idOf 2) noon ['c'] ['d'] none (some ['e'])

def bothWritten : Text := (holding [first, second]).file.getD []

theorem import_exported_overlapping :
    (∃ B₁ added ys, (holding [first]).importText noon bothWritten true = (B₁, .ok added) ∧
      Alike added ([first, second].filter fun x => x.id ∉ [first].map (·.id)) ∧
      B₁.Holds ys ∧ Alike ys ([first] ++ added) ∧
      ∃ B₂ zs, B₁.importText noon bothWritten true = (B₂, .ok []) ∧ B₂.Holds zs ∧ Alike zs ys) ∧
    ∃ B₁ added ys, (holding [first]).importText noon bothWritten false = (B₁, .ok added) ∧
      Alike added [first, second] ∧ B₁.Holds ys ∧ Alike ys [first, second] := by
  have hproper : ∀ x ∈ [first, second], x.Proper :=
    List.forall_mem_cons.mpr ⟨SavedSearch.fresh_proper ..,
      List.forall_mem_singleton.mpr (SavedSearch.fresh_proper ..)⟩
  have hproper' : ∀ x ∈ [first], x.Proper :=
    List.forall_mem_singleton.mpr (SavedSearch.fresh_proper ..)
  obtain ⟨t, hboth⟩ : ∃ t, Written [first, second] t [first, second] :=
    exists_written noon hproper (by decide +kernel)
  obtain ⟨u, hone⟩ : ∃ u, Written [first] u [first] := exists_written noon hproper' (by decide +kernel)
  have htext : bothWritten = t := by rw [bothWritten, hboth.file_holding]; rfl
  have hA : (holding [first, second]).list noon = .ok [first, second] :=
    hboth.list hboth.file_holding noon
  have hB : (holding [first]).list noon = .ok [first] := hone.list hone.file_holding noon
  have hexport : (holding [first, second]).exported noon = .ok t := hboth.exported hA
  -- Whatever is there already, the import comes to the two searches.
  have hmerged : joined [first] (untaken ([first].map (·.id)) [first, second]) = [first, second] :=
    by decide +kernel
  have hsame : joined [first, second] (untaken ([first, second].map (·.id)) [first, second]) =
      [first, second] := by decide +kernel
  have hreplaced : joined [] (untaken [] [first, second]) = [first, second] := by
    decide +kernel
  have hfile : ((holding [first]).importText noon t true).1.file = some t :=
    hboth.file_importText (kept_eq hB true) hmerged hboth
  have hmerge := hboth.sound_importText (kept_eq hB true) hmerged hboth.storable
  have hagain :=
    hboth.sound_importText (kept_eq (hboth.list hfile noon) true) hsame hboth.storable
  have hreplace := hboth.sound_importText (kept_eq hB false) hreplaced hboth.storable
  rw [htext]
  exact import_exported hA (by decide) hB hexport hboth.storable hmerge hagain hreplace

end Store

end VaultSearch.Saved
