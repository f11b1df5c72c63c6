import VaultSearch.Proofs.Saved.Calls
import VaultSearch.Proofs.Saved.Filters
import VaultSearch.Server

namespace VaultSearch

open Text Yaml Time Filtering Search Saved

namespace Saved

structure SameQuestion (x y : SavedSearch) : Prop where
  query : x.query.bare = y.query.bare
  filters : x.filters.bare = y.filters.bare

theorem SameQuestion.trans {x y z : SavedSearch} (h : SameQuestion x y) (h' : SameQuestion y z) :
    SameQuestion x z := ⟨h.query.trans h'.query, h.filters.trans h'.filters⟩

theorem SameQuestion.of_bare {x y : SavedSearch} (h : x.bare = y.bare) : SameQuestion x y :=
  ⟨congrArg SavedSearch.query h, congrArg SavedSearch.filters h⟩

def Store.Asks (s : Store) (x : SavedSearch) : Prop :=
  ∃ xs y, s.Holds xs ∧ Store.find? x.id xs = some y ∧ SameQuestion y x

namespace Call

variable {s : Store} {now : Moment} {c : Call} {x : SavedSearch} {xs ws : List SavedSearch}

/-- Calls between saving a search and running it: all but imports, updates and its own deletion. -/
def Spares (id : Text) : Call → Prop
  | save _ _ _ _ => True
  | recordUse _ => True
  | delete other => other ≠ id
  | update _ _ | importText _ _ => False

/-- The file that is written after a call has a search that asks what one in the list asks. -/
theorem asks_of_written {y : SavedSearch} (hws : c.written s now = some ws)
    (hstorable : Storable ws) (hfind : Store.find? x.id ws = some y) (hy : SameQuestion y x) :
    (c.run s now).Asks x := by
  obtain ⟨zs, hzs, hsame⟩ := holds_run hws hstorable
  have hbare := Store.find?_alike hsame x.id
  rw [hfind] at hbare
  obtain ⟨z, hz, hzbare⟩ := Option.map_eq_some_iff.mp hbare
  exact ⟨zs, z, hzs, hz, (SameQuestion.of_bare hzbare).trans hy⟩

theorem asks_step (h : s.Asks x) (hc : c.Sound s now) (hspares : c.Spares x.id) :
    (c.run s now).Asks x := by
  obtain ⟨xs, y, hholds, hfind, hy⟩ := h
  have hlist := hholds now
  cases hws : c.written s now with
  | none => exact ⟨xs, y, hholds.of_file (file_of_unwritten hws), hfind, hy⟩
  | some ws =>
      have hstorable := hc.storable ws hws
      cases c with
      | save name query filters description =>
          have hadded := hws
          rw [written, hlist] at hadded
          cases hadded
          refine asks_of_written hws hstorable ?_ hy
          rw [Store.find?_append, hfind]
          rfl
      | recordUse other =>
          obtain ⟨-, rfl⟩ := Store.edited_eq_some hlist hws
          by_cases hid : other = x.id
          · refine asks_of_written (y := y.used now) hws hstorable ?_ ⟨hy.query, hy.filters⟩
            rw [Store.find?_change (SavedSearch.id_used now), if_pos hid, hfind]
            rfl
          · refine asks_of_written hws hstorable ?_ hy
            rw [Store.find?_change (SavedSearch.id_used now), if_neg hid, hfind]
      | delete other =>
          obtain ⟨-, rfl⟩ := Store.edited_eq_some hlist hws
          refine asks_of_written hws hstorable ?_ hy
          rw [Store.find?_filter_ne hspares, hfind]
      | update | importText => exact hspares.elim

theorem recordUse_answers {y : SavedSearch} {id : Text} (hlist : s.list now = .ok xs)
    (hfind : Store.find? id xs = some y) (hsound : (recordUse id).Sound s now) :
    (s.recordUse now id).2 = .ok (some (y.used now)) ∧
      ∃ zs z, (s.recordUse now id).1.Holds zs ∧ Store.find? id zs = some z ∧
        z.bare = (y.used now).bare := by
  have hid : id ∈ xs.map (·.id) :=
    List.mem_map.mpr ⟨y, Store.mem_of_find? hfind, Store.id_of_find? hfind⟩
  have hwritten : (recordUse id).written s now = some (Store.change id (.used now) xs) := by
    rw [written, Store.edited_of_mem hlist hid]
  have hstorable := hsound.storable _ hwritten
  constructor
  · obtain ⟨t, hput, -⟩ :=
      s.put_storable (written_proper hwritten) hstorable (some (y.used now))
    have hmodify : s.recordUse now id =
        s.put (Store.change id (.used now) xs) (some (y.used now)) := by
      rw [Store.recordUse, Store.modify, Store.withList_of_list hlist, hfind]
      rfl
    rw [hmodify, hput]
  · obtain ⟨zs, hzs, hsame⟩ := holds_run hwritten hstorable
    have hbare := Store.find?_alike hsame id
    rw [Store.find?_change (SavedSearch.id_used now), if_pos rfl, hfind] at hbare
    obtain ⟨z, hz, hzbare⟩ := Option.map_eq_some_iff.mp hbare
    exact ⟨zs, z, hzs, hz, hzbare⟩

end Call

/-- A search that asks what a request asked runs as the search that the request stands for. -/
theorem SameQuestion.run_eq {y : SavedSearch} {r : Request} {id : Text} {t : Moment}
    (h : SameQuestion y
      (.fresh id t r.name r.query (some (given r.criteria)) r.description))
    (hy : y.Proper) (e : Engine) (limit : Option Int) (offset : Int) :
    y.run e limit offset = (e.smartSearch {
      query := r.query
      filters := r.filters
      limit := limit
      offset := offset }).mapError .filter := by
  obtain ⟨es, hes⟩ := hy.filters
  have hquery : y.queryText = r.query := by
    rw [SavedSearch.queryText, Value.eq_scalar_of_bareIn rfl h.query]
  have hentries : bareEntries [none] es = bareEntries [none] (given r.criteria) := by
    have hfilters := h.filters
    rw [hes] at hfilters
    simpa only [SavedSearch.fresh, Option.getD_some, Value.bare, Value.bareIn, Value.map.injEq,
      true_and] using hfilters
  have hcriteria : y.criteria.filters? = some r.filters := by
    rw [SavedSearch.criteria, hes]
    exact Criteria.filters?_back r ((entriesOf_none es).symm ▸ hentries)
  rw [SavedSearch.run, Criteria.search, hcriteria, hquery]

end Saved

namespace Server

open Saved

/-- What happens at a server between saving a search and running it. The documents may become any. -/
inductive Event
  | save (now : Moment) (r : Request)
  | delete (now : Moment) (id : Text)
  | run (now : Moment) (id : Text) (limit : Option Int) (offset : Int)
  | documents (source : Source)

def save (s : Server) (now : Moment) (r : Request) : Server × Except SavedError SavedSearch :=
  s.saveSearch now (.text r.name) (.text r.query) (.ofOption .text r.description) r.criteria

namespace Event

def apply (s : Server) : Event → Server
  | save now r => (s.save now r).1
  | delete now id => (s.deleteSaved now id).1
  | run now id limit offset => (s.runSaved now id limit offset).1
  | documents source => { s with source := source }

def call? : Event → Option (Moment × Call)
  | save now r => some (now, .save r.name r.query (some (given r.criteria)) r.description)
  | delete now id => some (now, .delete id)
  | run now id _ _ => some (now, .recordUse id)
  | documents _ => none

def Sound (s : Server) (e : Event) : Prop := ∀ call ∈ e.call?, call.2.Sound s.saved call.1

instance (s : Server) (e : Event) : Decidable (e.Sound s) :=
  inferInstanceAs (Decidable (∀ call ∈ e.call?, call.2.Sound s.saved call.1))

def Spares (id : Text) : Event → Prop
  | delete _ other => other ≠ id
  | _ => True

theorem saved_apply (s : Server) (e : Event) :
    (e.apply s).saved = (e.call?.map fun call => call.2.run s.saved call.1).getD s.saved := by
  cases e <;> rfl

theorem asks_apply {s : Server} {e : Event} {x : SavedSearch} (h : s.saved.Asks x)
    (he : e.Sound s) (hspares : e.Spares x.id) : (e.apply s).saved.Asks x := by
  rw [saved_apply]
  cases e with
  | save now r => exact Call.asks_step h (he _ rfl) trivial
  | delete now id => exact Call.asks_step h (he _ rfl) hspares
  | run now id limit offset => exact Call.asks_step h (he _ rfl) trivial
  | documents source => exact h

end Event

def after (s : Server) (events : List Event) : Server := events.foldl Event.apply s

def AllSound : Server → List Event → Prop
  | _, [] => True
  | s, e :: events => e.Sound s ∧ AllSound (e.apply s) events

instance decidableAllSound : (s : Server) → (events : List Event) → Decidable (AllSound s events)
  | _, [] => .isTrue trivial
  | s, e :: events =>
    have := decidableAllSound (e.apply s) events
    inferInstanceAs (Decidable (e.Sound s ∧ AllSound (e.apply s) events))

theorem asks_after {s : Server} {events : List Event} {x : SavedSearch} (h : s.saved.Asks x)
    (hevents : AllSound s events) (hspares : ∀ e ∈ events, e.Spares x.id) :
    (s.after events).saved.Asks x := by
  induction events generalizing s with
  | nil => exact h
  | cons e events ih =>
      obtain ⟨he, hevents⟩ := hevents
      have hnext := Event.asks_apply h he (hspares e List.mem_cons_self)
      exact ih hnext hevents fun e he => hspares e (List.mem_cons_of_mem _ he)

theorem asks_save {s s₁ : Server} {now : Moment} {r : Request} {x : SavedSearch}
    (hsave : s.save now r = (s₁, .ok x)) (hsound : (Event.save now r).Sound s) :
    s₁.saved.Asks x ∧
      x = .fresh (idOf (s.saved.made + 1)) now r.name r.query (some (given r.criteria))
        r.description := by
  have hcall := hsound _ rfl
  have hanswer : (s.saved.save now (.text r.name) (.text r.query)
      (.ofOption (.map none) (some (given r.criteria))) (.ofOption .text r.description)).2 = .ok x :=
    congrArg Prod.snd hsave
  have hrun : (Call.save r.name r.query (some (given r.criteria)) r.description).run s.saved now =
      s₁.saved := congrArg (fun o => o.1.saved) hsave
  cases hlist : s.saved.list now with
  | error e =>
      have hfile : Store.file { s.saved with made := s.saved.made + 1 } = s.saved.file := rfl
      rw [Store.save, Store.withList, Store.list_congr hfile, hlist] at hanswer
      cases hanswer
  | ok xs =>
      have hid := hcall.unused _ rfl
      rw [Store.ids_eq hlist] at hid
      have hwritten : (Call.save r.name r.query (some (given r.criteria)) r.description).written
          s.saved now = some (xs ++ [.fresh (idOf (s.saved.made + 1)) now r.name r.query
            (some (given r.criteria)) r.description]) := by
        rw [Call.written, hlist]
        rfl
      have hx : x = .fresh (idOf (s.saved.made + 1)) now r.name r.query (some (given r.criteria))
          r.description := by
        rw [Store.save_of_list hlist, Store.put] at hanswer
        split at hanswer
        · cases hanswer
        · exact (Except.ok.inj hanswer).symm
      rw [← hx] at hwritten
      rw [← hrun]
      refine ⟨Call.asks_of_written hwritten (hcall.storable _ hwritten) (y := x) ?_ ⟨rfl, rfl⟩, hx⟩
      rw [Store.find?_append, Store.find?_eq_none_iff.mpr (hx ▸ hid)]
      simp [Store.find?]

section Written

variable {s : Server} {now : Moment} {r : Request} {id t : Text} {xs ys : List SavedSearch}

def saves (s : Server) (now : Moment) (r : Request) : SavedSearch :=
  .fresh (idOf (s.saved.made + 1)) now r.name r.query (some (given r.criteria)) r.description

theorem save_of_written (hlist : s.saved.list now = .ok xs)
    (h : Store.Written (xs ++ [s.saves now r]) t ys) : s.save now r =
      ({ s with saved := { file := some t, made := s.saved.made + 1 } }, .ok (s.saves now r)) := by
  have hstore := Store.save_of_list hlist r.name r.query (some (given r.criteria)) r.description
  rw [← saves, h.put] at hstore
  rw [save, saveSearch]
  exact congrArg (fun o : Outcome SavedSearch => ({ s with saved := o.1 }, o.2)) hstore

theorem sound_save (hlist : s.saved.list now = .ok xs)
    (h : Store.Written (xs ++ [s.saves now r]) t ys)
    (hid : idOf (s.saved.made + 1) ∉ xs.map (·.id)) : (Event.save now r).Sound s := by
  rintro _ ⟨⟩
  constructor
  · intro ws hws
    rw [Call.written, hlist] at hws
    cases hws
    exact h.storable
  · rintro _ ⟨⟩
    rwa [Store.ids_eq hlist]

theorem sound_run {limit : Option Int} {offset : Int} (hlist : s.saved.list now = .ok xs)
    (h : Store.Written (Store.change id (.used now) xs) t ys) :
    (Event.run now id limit offset).Sound s := by
  rintro _ ⟨⟩
  refine ⟨fun ws hws => ?_, fun id hid => nomatch hid⟩
  obtain ⟨-, rfl⟩ := Store.edited_eq_some hlist hws
  exact h.storable

end Written

/-- Running a saved search is the direct search with the arguments that it was saved with, on the
documents there are, whatever happened in between. The use is counted, whatever comes of the search. -/
theorem runSaved_eq_smartSearch {s s₁ : Server} {t now : Moment} {r : Request} {x : SavedSearch}
    {events : List Event} {limit : Option Int} {offset : Int}
    (hsave : s.save t r = (s₁, .ok x)) (hsound : (Event.save t r).Sound s)
    (hevents : AllSound s₁ events) (hspares : ∀ e ∈ events, e.Spares x.id)
    (hrun : (Event.run now x.id limit offset).Sound (s₁.after events)) :
    ((s₁.after events).runSaved now x.id limit offset).2 =
      (Reply.ofSearch ((s₁.after events).engine.smartSearch
        { (s₁.after events).request r.query limit offset with filters := r.filters })).mapError
          (fun e => .filter (.time e)) ∧
    ∃ y z, (∀ t, (s₁.after events).saved.get t x.id = .ok (some y)) ∧
      (∀ t, ((s₁.after events).runSaved now x.id limit offset).1.saved.get t x.id = .ok (some z)) ∧
      z.useCount = y.useCount + 1 := by
  obtain ⟨hasks, hx⟩ := asks_save hsave hsound
  generalize hlater : s₁.after events = s₂ at hrun ⊢
  obtain ⟨xs, y, hholds, hfind, hy⟩ := hlater ▸ asks_after hasks hevents hspares
  obtain ⟨hanswer, zs, z, hzs, hz, hbare⟩ :=
    Call.recordUse_answers (hholds now) hfind (hrun _ rfl)
  have hproper : y.Proper := Store.list_proper (hholds now) y (Store.mem_of_find? hfind)
  constructor
  · -- The use changes what is counted and dated, not what is asked.
    rw [hx] at hy
    have hquestion : SameQuestion (y.used now) _ := ⟨hy.query, hy.filters⟩
    have hreply : (y.used now).run s₂.engine (s₂.limitOf limit) offset =
        (s₂.engine.smartSearch
          { s₂.request r.query limit offset with filters := r.filters }).mapError .filter :=
      hquestion.run_eq (hproper.used now) s₂.engine (s₂.limitOf limit) offset
    rw [runSaved]
    generalize s₂.saved.recordUse now x.id = outcome at hanswer ⊢
    obtain ⟨saved, used⟩ := outcome
    obtain rfl : used = .ok (some (y.used now)) := hanswer
    dsimp only
    rw [hreply]
    generalize s₂.engine.smartSearch _ = found
    cases found with
    | ok rs => rfl
    | error e => cases e <;> rfl
  · refine ⟨y, z, fun t => ?_, fun t => ?_, ?_⟩
    · rw [Store.get, hholds t]
      exact congrArg Except.ok hfind
    · have hsaved : (s₂.runSaved now x.id limit offset).1.saved = (s₂.saved.recordUse now x.id).1 := rfl
      rw [Store.get, hsaved, hzs t]
      exact congrArg Except.ok hz
    · exact congrArg SavedSearch.useCount hbare

def inKitchen : Request where
  name := ['a']
  query := ['b']
  tags := some []
  folder := some ['k']
  fileType := some []
  hasLinks := some false

def kitchenSearch : SavedSearch :=
  .fresh (idOf 1) noon inKitchen.name inKitchen.query (some (given inKitchen.criteria))
    inKitchen.description

def idle : Server := { source := .documents {} }

def withKitchen : Server := (idle.save noon inKitchen).1

def laterEvents : List Event :=
  [.save noon { name := ['c'], query := ['d'] },
    .documents (.documents { threshold := .finite 0, strict := true })]

def laterRequest : Request := { name := ['c'], query := ['d'] }

def laterSearch : SavedSearch :=
  .fresh (idOf 2) noon laterRequest.name laterRequest.query (some (given laterRequest.criteria))
    laterRequest.description

def kitchenRead : SavedSearch :=
  { kitchenSearch with
    filters := .map none [(.text "tags".toList, .list (some 11) []),
      (.text "folder".toList, .text ['k']), (.text "file_type".toList, .text []),
      (.text "has_links".toList, .bool false)] }

theorem runSaved_kitchenSearch :
    ((withKitchen.after laterEvents).runSaved noon kitchenSearch.id none 0).2 =
      (Reply.ofSearch ((withKitchen.after laterEvents).engine.smartSearch
        { (withKitchen.after laterEvents).request inKitchen.query none 0 with
          filters := inKitchen.filters })).mapError (fun e => .filter (.time e)) ∧
    ∃ y z, (∀ t, (withKitchen.after laterEvents).saved.get t kitchenSearch.id = .ok (some y)) ∧
      (∀ t, ((withKitchen.after laterEvents).runSaved noon kitchenSearch.id none 0).1.saved.get t
        kitchenSearch.id = .ok (some z)) ∧
      z.useCount = y.useCount + 1 := by
  have hkitchen : kitchenSearch.Proper := SavedSearch.fresh_proper ..
  have hlater : laterSearch.Proper := SavedSearch.fresh_proper ..
  obtain ⟨t, ht⟩ : ∃ t, Store.Written [kitchenSearch] t [kitchenRead] :=
    Store.exists_written noon (List.forall_mem_singleton.mpr hkitchen) (by decide +kernel)
  have hread : kitchenRead.Proper :=
    Store.list_proper (ht.list (s := { file := some t }) rfl noon) _ List.mem_cons_self
  obtain ⟨u, hu⟩ : ∃ u, Store.Written [kitchenRead, laterSearch] u [kitchenRead, laterSearch] :=
    Store.exists_written noon
      (List.forall_mem_cons.mpr ⟨hread, List.forall_mem_singleton.mpr hlater⟩) (by decide +kernel)
  obtain ⟨v, hv⟩ : ∃ v, Store.Written [kitchenRead.used noon, laterSearch] v
      [kitchenRead.used noon, laterSearch] :=
    Store.exists_written noon
      (List.forall_mem_cons.mpr ⟨hread.used noon, List.forall_mem_singleton.mpr hlater⟩)
      (by decide +kernel)
  have hidle : idle.saved.list noon = .ok [] := rfl
  have hsave : idle.save noon inKitchen = (withKitchen, .ok kitchenSearch) := by
    rw [withKitchen, save_of_written hidle ht]
    rfl
  have hwith : withKitchen = { idle with saved := { file := some t, made := 1 } } := by
    rw [withKitchen, save_of_written hidle ht]
    rfl
  have hlist : withKitchen.saved.list noon = .ok [kitchenRead] :=
    ht.list (by rw [hwith]) noon
  have hsaves : withKitchen.saves noon laterRequest = laterSearch := by
    rw [hwith]
    rfl
  have hu' : Store.Written ([kitchenRead] ++ [withKitchen.saves noon laterRequest]) u
      [kitchenRead, laterSearch] := by
    rw [hsaves]
    exact hu
  have hafter : (withKitchen.after laterEvents).saved = { file := some u, made := 2 } := by
    have hnext := save_of_written hlist hu'
    rw [hwith] at hnext ⊢
    exact congrArg (fun o => o.1.saved) hnext
  have hsound : (Event.save noon inKitchen).Sound idle := sound_save hidle ht List.not_mem_nil
  have hevents : AllSound withKitchen laterEvents := by
    have hid : idOf 2 ∉ [kitchenRead].map (·.id) := by decide +kernel
    have hfirst : (Event.save noon laterRequest).Sound withKitchen := by
      refine sound_save hlist hu' ?_
      rw [hwith]
      exact hid
    exact ⟨hfirst, (fun _ hcall => nomatch hcall), trivial⟩
  have hrun : (Event.run noon kitchenSearch.id none 0).Sound (withKitchen.after laterEvents) :=
    sound_run (hu.list (by rw [hafter]) noon) hv
  exact runSaved_eq_smartSearch hsave hsound hevents (by simp [laterEvents, Event.Spares]) hrun

end Server

end VaultSearch
