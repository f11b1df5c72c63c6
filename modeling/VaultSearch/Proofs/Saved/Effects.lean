import VaultSearch.Proofs.Saved.Calls

namespace VaultSearch.Saved.Call

open Text Yaml Time Store

def Effect (s : Store) (now : Moment) (xs ys : List SavedSearch) (c : Call) : Prop :=
  match c with
  | save name query filters description =>
    Alike ys (xs ++ [.fresh (idOf (s.made + 1)) now name query filters description])
  | update id u =>
    (id ∈ xs.map (·.id) → Alike ys (xs.map fun x => if x.id = id then u.applied x else x)) ∧
      (id ∉ xs.map (·.id) → (c.run s now).file = s.file)
  | recordUse id =>
    (id ∈ xs.map (·.id) → Alike ys (xs.map fun x => if x.id = id then x.used now else x)) ∧
      (id ∉ xs.map (·.id) → (c.run s now).file = s.file)
  | delete id =>
    (id ∈ xs.map (·.id) → Alike ys (xs.filter (·.id ≠ id))) ∧
      (id ∉ xs.map (·.id) → (c.run s now).file = s.file)
  | importText data merge =>
    match (s.importText now data merge).2 with
    | .ok added => Alike ys ((if merge then xs else []) ++ added)
    | .error _ => (c.run s now).file = s.file

variable {s : Store} {now : Moment} {c : Call} {xs ys ws : List SavedSearch}

section Distinct

theorem written_distinct (h : s.list now = .ok xs) (hxs : (xs.map (·.id)).Nodup)
    (hunused : ∀ id ∈ c.newId? s, id ∉ s.ids now) (hws : c.written s now = some ws) :
    (ws.map (·.id)).Nodup := by
  cases c with
  | save name query filters description =>
      rw [written, h] at hws
      cases hws
      have hid := hunused _ rfl
      rw [ids_eq h] at hid
      rw [List.map_append, List.nodup_append]
      refine ⟨hxs, List.pairwise_singleton _ _, ?_⟩
      rintro id hmem _ hnew rfl
      obtain rfl : id = idOf (s.made + 1) := List.mem_singleton.mp hnew
      exact hid hmem
  | update id u =>
      obtain ⟨-, rfl⟩ := edited_eq_some h hws
      rwa [ids_change u.id_applied]
  | recordUse id =>
      obtain ⟨-, rfl⟩ := edited_eq_some h hws
      rwa [ids_change (SavedSearch.id_used now)]
  | delete id =>
      obtain ⟨-, rfl⟩ := edited_eq_some h hws
      exact hxs.sublist (List.filter_sublist.map _)
  | importText data merge =>
      rw [written, kept_eq h] at hws
      split at hws
      · rename_i incoming current _ hcurrent
        cases hws
        cases hcurrent
        rw [(joined_alike _ _).ids]
        refine ids_append_untaken_nodup ?_ incoming
        split
        · exact hxs
        · exact List.nodup_nil
      · cases hws

end Distinct

section Effects

theorem effect_of_unwritten (h : s.list now = .ok xs) (hws : c.written s now = none) :
    c.Effect s now xs xs := by
  have hfile := file_of_unwritten hws
  cases c with
  | save name query filters description =>
      rw [written, h] at hws
      cases hws
  | update | recordUse | delete =>
      have hid := edited_eq_none h hws
      exact ⟨fun hmem => absurd hmem hid, fun _ => hfile⟩
  | importText data merge =>
      rw [Effect]
      split
      · rename_i added hadded
        obtain ⟨e, he⟩ := importText_fails hws
        cases he.symm.trans hadded
      · exact hfile

theorem effect_of_written (h : s.list now = .ok xs) (hxs : (xs.map (·.id)).Nodup)
    (hws : c.written s now = some ws) (hstorable : Storable ws) (hys : Alike ys ws) :
    c.Effect s now xs ys := by
  cases c with
  | save name query filters description =>
      rw [written, h] at hws
      cases hws
      exact hys
  | update | recordUse =>
      obtain ⟨hid, rfl⟩ := edited_eq_some h hws
      rw [Effect, ← change_eq_map hxs]
      exact ⟨fun _ => hys, fun hnew => absurd hid hnew⟩
  | delete id =>
      obtain ⟨hid, rfl⟩ := edited_eq_some h hws
      exact ⟨fun _ => hys, fun hnew => absurd hid hnew⟩
  | importText data merge =>
      rw [written, kept_eq h] at hws
      split at hws
      · rename_i incoming current hincoming hcurrent
        cases hws
        cases hcurrent
        rw [Effect, importText_answers hincoming (kept_eq h merge) hstorable]
        exact hys.trans (joined_alike _ _)
      · cases hws

end Effects

structure Listed (s : Store) (xs : List SavedSearch) : Prop where
  holds : s.Holds xs
  distinct : (xs.map (·.id)).Nodup

/-- What one call does to a list with distinct ids; the list it leaves has distinct ids again. -/
theorem step_listed (h : Listed s xs) (hc : c.Sound s now) :
    ∃ ys, Listed (c.run s now) ys ∧ c.Effect s now xs ys := by
  have hlist := h.holds now
  cases hws : c.written s now with
  | none =>
      exact ⟨xs, ⟨h.holds.of_file (file_of_unwritten hws), h.distinct⟩, effect_of_unwritten hlist hws⟩
  | some ws =>
      have hstorable := hc.storable ws hws
      obtain ⟨ys, hys, hsame⟩ := holds_run hws hstorable
      refine ⟨ys, ⟨hys, ?_⟩, effect_of_written hlist h.distinct hws hstorable hsame⟩
      exact ids_distinct_alike hsame.symm (written_distinct hlist h.distinct hc.unused hws)

def after (s : Store) (calls : List (Moment × Call)) : Store :=
  calls.foldl (fun s (now, c) => c.run s now) s

def AllSound : Store → List (Moment × Call) → Prop
  | _, [] => True
  | s, (now, c) :: calls => c.Sound s now ∧ AllSound (c.run s now) calls

instance decidableAllSound : (s : Store) → (calls : List (Moment × Call)) → Decidable (AllSound s calls)
  | _, [] => .isTrue trivial
  | s, (now, c) :: calls =>
    have := decidableAllSound (c.run s now) calls
    inferInstanceAs (Decidable (c.Sound s now ∧ AllSound (c.run s now) calls))

variable {calls : List (Moment × Call)}

theorem AllSound.of_append {before later : List (Moment × Call)}
    (h : AllSound s (before ++ later)) : AllSound s before ∧ AllSound (after s before) later := by
  induction before generalizing s with
  | nil => exact ⟨trivial, h⟩
  | cons call before ih =>
      obtain ⟨now, c⟩ := call
      obtain ⟨hc, h⟩ := h
      obtain ⟨hbefore, hlater⟩ := ih h
      exact ⟨⟨hc, hbefore⟩, hlater⟩

theorem after_listed (h : Listed s xs) (hcalls : AllSound s calls) :
    ∃ ys, Listed (after s calls) ys := by
  induction calls generalizing s xs with
  | nil => exact ⟨xs, h⟩
  | cons call calls ih =>
      obtain ⟨now, c⟩ := call
      obtain ⟨hc, hcalls⟩ := hcalls
      obtain ⟨ys, hys, -⟩ := step_listed h hc
      exact ih hys hcalls

/-- The store is a list with distinct ids. Whatever calls were made before, a call finds such a list
in the file, has its effect on it and no other, and leaves such a list. -/
theorem run_as_list (h : Listed s xs) (hcalls : AllSound s calls) {before later : List (Moment × Call)}
    (hsplit : calls = before ++ (now, c) :: later) :
    ∃ ys zs, Listed (after s before) ys ∧ Listed (c.run (after s before) now) zs ∧
      c.Effect (after s before) now ys zs := by
  subst hsplit
  obtain ⟨hbefore, hrest⟩ := hcalls.of_append
  obtain ⟨ys, hys⟩ := after_listed h hbefore
  obtain ⟨zs, hzs, heffect⟩ := step_listed hys hrest.1
  exact ⟨ys, zs, hys, hzs, heffect⟩

def savedAndUsed : List (Moment × Call) :=
  [(noon, .save ['a'] ['b'] (some [(.text ['f'], .bool true)]) none), (noon, .recordUse (idOf 1))]

theorem run_as_list_savedAndUsed :
    Listed {} [] ∧ AllSound {} savedAndUsed ∧
      ∃ ys zs, Listed (after {} (savedAndUsed.take 1)) ys ∧
        Listed (Call.run (after {} (savedAndUsed.take 1)) noon (.recordUse (idOf 1))) zs ∧
        Effect (after {} (savedAndUsed.take 1)) noon ys zs (.recordUse (idOf 1)) := by
  have hlisted : Listed {} [] := ⟨fun _ => rfl, List.nodup_nil⟩
  have hsound : AllSound {} savedAndUsed := by decide +kernel
  exact ⟨hlisted, hsound, run_as_list hlisted hsound rfl⟩

end VaultSearch.Saved.Call
