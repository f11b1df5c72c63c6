import VaultSearch.Proofs.Engine
import VaultSearch.Proofs.Filtering.Dates
import VaultSearch.Proofs.Search.Independence

namespace VaultSearch

open Note Filtering

namespace Search

/-- Leaving out the documents of an id leaves out the results of that id, so each result has its
document. -/
theorem exists_of_mem_matching {o : Options} {text : Text} {ds : List Document} {r : Result}
    (h : r ∈ matching o text ds) : ∃ d ∈ ds, d.id = r.id := by
  apply Classical.byContradiction
  intro hnone
  have hself : ds.filter (fun d => d.id ≠ r.id) = ds := by
    refine List.filter_eq_self.mpr fun d hd => ?_
    rw [decide_eq_true_eq]
    exact fun hid => hnone ⟨d, hd, hid⟩
  rw [← hself, matching_filter (· ≠ r.id) ds o text] at h
  simpa using (List.mem_filter.mp h).2

end Search

namespace Engine

open Search

variable {e : Engine}

theorem Consistent.mem_toList_iff (h : e.Consistent) {d : Document} :
    d ∈ e.toList ↔ e.get? d.id = some d := by
  rw [toList, Table.mem_values_iff]
  constructor
  · rintro ⟨id, hid⟩
    rw [get?, h.ids hid]
    exact hid
  · exact fun hd => ⟨d.id, hd⟩

theorem Consistent.eq_of_id_eq (h : e.Consistent) {c d : Document} (hc : c ∈ e.toList)
    (hd : d ∈ e.toList) (hid : c.id = d.id) : c = d := by
  rw [h.mem_toList_iff] at hc hd
  rw [hid, hd] at hc
  exact (Option.some.inj hc).symm

theorem Consistent.mem_candidates_iff (h : e.Consistent) {f : Filters} {d : Document} :
    d ∈ e.candidates f ↔ d ∈ e.toList ∧ ∀ t ∈ requiredTerms f, t ∈ d.terms := by
  rw [candidates, h.under_eq_filter, List.mem_filter]
  simp

/-- A date leaves the calendar when it is moved to universal time, or when a day is added to it. -/
inductive LeavesCalendar (e : Engine) (q : Text) : Prop
  | query (h : QueryStrays q)
  | document {rest : Text} {f : Filters} {d : Document} (hq : parse false q = .ok (rest, f))
      (hd : d ∈ e.toList) (hterms : ∀ t ∈ requiredTerms f, t ∈ d.terms) (h : StopsAt f d)

/-- What an answer leaves out on account of the dates that the query asks for. -/
structure LeavesOut (e : Engine) (q : Text) (rs : List Result) : Prop where
  unread : ∀ {k : DateKey} {v : Text}, k.value? q = some v → Unread v → rs = []
  unusable : ∀ {k : DateKey} {v : Text}, k.value? q = some v →
    ∀ d ∈ e.toList, ¬Usable (k.dateOf d) → ∀ r ∈ rs, r.id ≠ d.id

section NonStrict

variable {o : Options}

theorem resolve_nonStrict (hstrict : o.strict = false) (hfilters : o.filters = {}) :
    resolve o = parse false o.query := by
  rw [resolve, hstrict, hfilters]
  cases parse false o.query with
  | error err => rfl
  | ok read => simp [Except.map, Filters.merged_empty]

theorem run_eq_error {ds : List Document} {rest : Text} {f : Filters} {err : FilterError}
    (h : run ds rest f o = .error err) : ∃ d ∈ ds, ∃ cause, err = .time cause ∧
      f.admits d = .error cause := by
  rw [run, Filters.apply] at h
  split at h
  · rename_i cause happly
    cases h
    split at happly
    · cases happly
    · obtain ⟨d, hd, hadmits⟩ := keep_eq_error happly
      exact ⟨d, hd, cause, rfl, hadmits⟩
  · cases h

/-- A filter that is set looks at every document, and only what passes it is matched. -/
theorem run_eq_ok {ds : List Document} {rest : Text} {f : Filters} {rs : List Result}
    (hset : f ≠ {}) (h : run ds rest f o = .ok rs) :
    (∀ d ∈ ds, ∃ b, f.admits d = .ok b) ∧
      ∀ r ∈ rs, ∃ d ∈ ds, d.id = r.id ∧ f.admits d = .ok true := by
  rw [run, Filters.apply, if_neg (by simpa [Filters.isEmpty] using hset)] at h
  split at h
  · cases h
  · rename_i kept hkept
    cases h
    obtain ⟨hall, hkept⟩ := keep_eq_ok hkept
    refine ⟨hall, fun r hr => ?_⟩
    obtain ⟨d, hd, hid⟩ := exists_of_mem_matching (mem_of_mem_paginate hr)
    exact ⟨d, (hkept d hd).1, hid, (hkept d hd).2⟩

theorem stopsAt_set {f : Filters} {d : Document} (h : StopsAt f d) : f ≠ {} := by
  rintro rfl
  cases h with
  | created hr => cases hr
  | modified hcreated hr => cases hr

theorem range_set {f : Filters} {k : DateKey} {r : DateRange} (h : k.range f = some r) : f ≠ {} := by
  rintro rfl
  cases k <;> cases h

variable (he : e.Consistent) (hdocs : ∀ d ∈ e.toList, ∀ k : DateKey, Loaded (k.dateOf d))
  (hstrict : o.strict = false) (hfilters : o.filters = {})

include he hstrict hfilters

theorem leavesOut_of_find {rs : List Result} (h : e.find o = .ok rs) :
    LeavesOut e o.query rs := by
  rw [find, resolve_nonStrict hstrict hfilters] at h
  cases hq : parse false o.query with
  | error err => simp [hq] at h
  | ok read =>
      obtain ⟨rest, f⟩ := read
      rw [hq] at h
      refine ⟨fun {k v} hv hunread => ?_, fun {k v} hv d hd hunusable r hr hid => ?_⟩
      · obtain ⟨range, hrange, hread⟩ := range_of_parse hq k hv
        apply List.eq_nil_iff_forall_not_mem.mpr
        intro r hr
        obtain ⟨c, -, -, hpass⟩ := (run_eq_ok (range_set hrange) h).2 r hr
        have hwell := (usable_of_admits_key hpass k hrange).1
        rw [(malformed_iff hread).mpr hunread] at hwell
        cases hwell
      · obtain ⟨range, hrange, -⟩ := range_of_parse hq k hv
        obtain ⟨c, hc, hcid, hpass⟩ := (run_eq_ok (range_set hrange) h).2 r hr
        have hsame : c = d :=
          he.eq_of_id_eq (he.mem_candidates_iff.mp hc).1 hd (hcid.trans hid)
        rw [hsame] at hpass
        exact hunusable (usable_of_admits_key hpass k hrange).2

include hdocs

theorem leavesCalendar_of_find {err : FilterError} (h : e.find o = .error err) :
    err = .time .date ∧ e.LeavesCalendar o.query := by
  rw [find, resolve_nonStrict hstrict hfilters] at h
  cases hq : parse false o.query with
  | error cause =>
      rw [hq] at h
      cases h
      obtain ⟨rfl, hstrays⟩ := parse_eq_error_iff.mp hq
      exact ⟨rfl, .query hstrays⟩
  | ok read =>
      obtain ⟨rest, f⟩ := read
      rw [hq] at h
      obtain ⟨d, hd, cause, rfl, hadmits⟩ := run_eq_error h
      obtain ⟨hmem, hterms⟩ := he.mem_candidates_iff.mp hd
      obtain ⟨rfl, hstops⟩ := (admits_eq_error_iff (hdocs d hmem .created)
        (hdocs d hmem .modified)).mp hadmits
      exact ⟨rfl, .document hq hmem hterms hstops⟩

theorem find_eq_ok_iff : (∃ rs, e.find o = .ok rs) ↔ ¬e.LeavesCalendar o.query := by
  constructor
  · rintro ⟨rs, h⟩ hleaves
    rw [find, resolve_nonStrict hstrict hfilters] at h
    cases hleaves with
    | query hstrays =>
        rw [parse_eq_error_iff.mpr ⟨rfl, hstrays⟩] at h
        cases h
    | @document rest f d hq hd hterms hstops =>
        rw [hq] at h
        obtain ⟨b, hb⟩ := (run_eq_ok (stopsAt_set hstops) h).1 d
          (he.mem_candidates_iff.mpr ⟨hd, hterms⟩)
        have hadmits := (admits_eq_error_iff (hdocs d hd .created) (hdocs d hd .modified)).mpr
          ⟨rfl, hstops⟩
        cases hb.symm.trans hadmits
  · intro hstays
    cases h : e.find o with
    | ok rs => exact ⟨rs, rfl⟩
    | error err => exact absurd (leavesCalendar_of_find he hdocs hstrict hfilters h).2 hstays

end NonStrict

/-- A search that is not strict fails only with a date that leaves the calendar, in the query or in a
document that it looks at. Any other date that is no use makes the filter exclude. -/
theorem search_fails_closed (he : Reachable e) (hoff : e.strict = false)
    (hdocs : ∀ d ∈ e.toList, ∀ k : DateKey, Loaded (k.dateOf d)) {r : Request}
    (hfilters : r.filters = {}) :
    ((∃ rs, e.search r = .ok rs) ↔ ¬e.LeavesCalendar r.query) ∧
      (∀ err, e.search r = .error err → err = .time .date) ∧
      ∀ rs, e.search r = .ok rs → LeavesOut e r.query rs := by
  have h := he.consistent
  have hnonStrict : (e.options r).strict = false := hoff
  refine ⟨find_eq_ok_iff h hdocs hnonStrict hfilters, fun err herr => ?_, fun rs hrs => ?_⟩
  · exact (leavesCalendar_of_find h hdocs hnonStrict hfilters herr).1
  · exact leavesOut_of_find h hnonStrict hfilters hrs

def datedNotes : Engine :=
  [Command.add { id := ['a'], created := some (.text "2024-01-01T23:30:00-02:00".toList) },
    .add { id := ['b'], created := some (.text "soon".toList) },
    .add { id := ['c'] }].foldl perform {}

theorem search_fails_closed_datedNotes :
    (Reachable datedNotes ∧ ∀ d ∈ datedNotes.toList, ∀ k : DateKey, Loaded (k.dateOf d)) ∧
      datedNotes.search { query := "created:2024-01-02".toList } = .ok [{ id := ['a'], title := ['a'] }] ∧
      ¬datedNotes.LeavesCalendar "created:2024-01-02".toList := by
  have hr : Reachable datedNotes := (Reachable.empty _ false).foldl _
  have hdocs : ∀ d ∈ datedNotes.toList, ∀ k : DateKey, Loaded (k.dateOf d) := by
    have hlist : datedNotes.toList =
        [{ id := ['a'], created := some (.text "2024-01-01T23:30:00-02:00".toList) },
          { id := ['b'], created := some (.text "soon".toList) }, { id := ['c'] }] := by
      decide +kernel
    rw [hlist]
    intro d hd k
    simp only [List.mem_cons, List.not_mem_nil, or_false] at hd
    rcases hd with rfl | rfl | rfl <;> cases k <;> constructor
  have hs : datedNotes.search { query := "created:2024-01-02".toList } =
      .ok [{ id := ['a'], title := ['a'] }] := eq_ok_of_toOption (by decide +kernel)
  exact ⟨⟨hr, hdocs⟩, hs, (search_fails_closed hr rfl hdocs rfl).1.mp ⟨_, hs⟩⟩

def firstHour : Engine :=
  [Command.add { id := ['a'], created := some (.text "0001-01-01T00:00:00+01:00".toList) }].foldl
    perform {}

/-- The end of the last day is in no year up to 9999, and the hour of the note is before year one. -/
theorem search_fails_firstHour :
    (Reachable firstHour ∧ firstHour.strict = false ∧
        ∀ d ∈ firstHour.toList, ∀ k : DateKey, Loaded (k.dateOf d)) ∧
      firstHour.search { query := "created:9999-12-31".toList } = .error (.time .date) ∧
      firstHour.search { query := "created:2024-01-01".toList } = .error (.time .date) := by
  have hr : Reachable firstHour := (Reachable.empty _ false).foldl _
  have hdocs : ∀ d ∈ firstHour.toList, ∀ k : DateKey, Loaded (k.dateOf d) := by
    have hlist : firstHour.toList =
        [{ id := ['a'], created := some (.text "0001-01-01T00:00:00+01:00".toList) }] := by
      decide +kernel
    rw [hlist]
    intro d hd k
    rw [List.mem_singleton] at hd
    cases hd
    cases k <;> constructor
  have hraises : ∀ q, (firstHour.search { query := q }).toOption = none →
      firstHour.search { query := q } = .error (.time .date) := by
    intro q hnone
    cases h : firstHour.search { query := q } with
    | ok rs =>
        rw [h] at hnone
        cases hnone
    | error err => rw [(leavesCalendar_of_find hr.consistent hdocs rfl rfl h).1]
  exact ⟨⟨hr, rfl, hdocs⟩, hraises _ (by decide +kernel), hraises _ (by decide +kernel)⟩

end Engine

end VaultSearch
