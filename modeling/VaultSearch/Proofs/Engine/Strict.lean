import VaultSearch.Proofs.Engine.Dates

namespace VaultSearch

open Text Note Filtering

namespace Filtering

def UnreadCount (v : Text) : Prop :=
  match cut? rangeMark v with
  | some (low, high) =>
    (low ≠ [] ∧ (Number.readInt low).toOption = none) ∨
      (high ≠ [] ∧ (Number.readInt high).toOption = none)
  | none => (Number.readInt v).toOption = none

/-- The last range that the query has for some key is not understood. -/
inductive Malformed (q : Text) : Prop
  | dates {k : DateKey} {v : Text} (hv : k.value? q = some v) (h : Unread v)
  | count {v : Text} (hv : (values .words q).getLast? = some v) (h : UnreadCount v)

/-- The error is about a value of the query, and not about a date outside the calendar. -/
def FilterError.IsSyntax : FilterError → Prop
  | badDates _ | badNumbers _ => True
  | time _ => False

/-- Some range of the filters is one that nothing is in because it was not understood. -/
inductive Filters.Broken (f : Filters) : Prop
  | dates {k : DateKey} {r : DateRange} (hr : k.range f = some r) (h : r.malformed = true)
  | count {r : NumberRange} (hr : f.wordCount = some r) (h : r.malformed = true)

section Counts

variable {v : Text}

theorem readNumber_eq_none_iff :
    readNumber v = .ok none ↔ (Number.readInt v).toOption = none := by
  rw [readNumber, Except.ok.injEq]

theorem count_malformed_iff {r : NumberRange} (h : readNumbers v = .ok r) :
    r.malformed = true ↔ UnreadCount v := by
  rw [readNumbers] at h
  rw [UnreadCount]
  cases hcut : cut? rangeMark v with
  | some parts =>
      obtain ⟨a, b⟩ := parts
      rw [hcut] at h
      obtain ⟨⟨low, understood⟩, ha, h⟩ := bind_eq_ok_iff.mp h
      obtain ⟨⟨high, understood'⟩, hb, h⟩ := bind_eq_ok_iff.mp h
      cases h
      simp only [bounds_malformed_iff ha hb, readNumber_eq_none_iff]
  | none =>
      rw [hcut] at h
      cases h
      simp

end Counts

section Reading

variable {α : Type}

def checked (read : Text → Except FilterError α) (bad : α → Bool) (fault : Text → FilterError)
    (strict : Bool) (v : Text) : Except FilterError α := do
  let r ← read v
  if strict && bad r then .error (fault v) else .ok r

theorem parseDates_eq : parseDates = checked readDates (·.malformed) .badDates := rfl

theorem parseNumbers_eq : parseNumbers = checked readNumbers (·.malformed) .badNumbers := rfl

variable {read : Text → Except FilterError α} {bad : α → Bool} {fault : Text → FilterError}

theorem checked_false (v : Text) : checked read bad fault false v = read v := by
  rw [checked]
  cases read v <;> rfl

theorem checked_true {v : Text} {x : α} (h : read v = .ok x) :
    checked read bad fault true v = if bad x then .error (fault v) else .ok x := by
  rw [checked, h]
  rfl

/-- Reading strictly gives the same range or fails, and it fails for a range that is no good. -/
theorem readLast_checked {vs : List Text} {r : Option α}
    (h : readLast (checked read bad fault false) vs = .ok r) :
    Meets (fun err => ∃ v x, err = fault v ∧ r = some x ∧ bad x = true)
      (fun s => s = r ∧ ∀ x, r = some x → bad x = false)
      (readLast (checked read bad fault true) vs) := by
  rw [readLast] at h ⊢
  cases hlast : vs.getLast? with
  | none =>
      rw [hlast] at h
      cases h
      exact ⟨rfl, by rintro x ⟨⟩⟩
  | some v =>
      rw [hlast] at h
      obtain ⟨x, hx, rfl⟩ := map_eq_ok_iff.mp h
      rw [checked_false] at hx
      simp only [checked_true hx]
      cases hbad : bad x with
      | true => exact ⟨v, x, rfl, rfl, hbad⟩
      | false => exact ⟨rfl, by rintro y ⟨⟩; exact hbad⟩

/-- The range that is read is no good exactly if the last value says so. -/
theorem readLast_bad_iff {P : Text → Prop} {vs : List Text} {r : Option α}
    (h : readLast (checked read bad fault false) vs = .ok r)
    (hbad : ∀ {v x}, read v = .ok x → (bad x = true ↔ P v)) :
    (∃ x, r = some x ∧ bad x = true) ↔ ∃ v, vs.getLast? = some v ∧ P v := by
  rw [readLast] at h
  cases hlast : vs.getLast? with
  | none =>
      rw [hlast] at h
      cases h
      simp
  | some v =>
      rw [hlast] at h
      obtain ⟨x, hx, rfl⟩ := map_eq_ok_iff.mp h
      rw [checked_false] at hx
      simp [hbad hx]

end Reading

section Parsing

variable {q rest : Text} {f : Filters} {d : Document} {strict : Bool}

theorem ReadsAs.dates (h : ReadsAs strict q rest f) (k : DateKey) :
    readLast (checked readDates (·.malformed) .badDates strict) (values k.key q) =
      .ok (k.range f) := by
  rw [← parseDates_eq]
  exact h.range k

theorem ReadsAs.count (h : ReadsAs strict q rest f) :
    readLast (checked readNumbers (·.malformed) .badNumbers strict) (values .words q) =
      .ok f.wordCount := by
  rw [← parseNumbers_eq]
  exact h.wordCount

theorem broken_iff (h : parse false q = .ok (rest, f)) : f.Broken ↔ Malformed q := by
  have hreads := parse_eq_ok_iff.mp h
  have hdates (k : DateKey) : (∃ r, k.range f = some r ∧ r.malformed = true) ↔
      ∃ v, k.value? q = some v ∧ Unread v :=
    readLast_bad_iff (hreads.dates k) fun hread => malformed_iff hread
  have hcount : (∃ r, f.wordCount = some r ∧ r.malformed = true) ↔
      ∃ v, (values .words q).getLast? = some v ∧ UnreadCount v :=
    readLast_bad_iff hreads.count fun hread => count_malformed_iff hread
  constructor
  · rintro (⟨hr, hbad⟩ | ⟨hr, hbad⟩)
    · obtain ⟨v, hv, hunread⟩ := (hdates _).mp ⟨_, hr, hbad⟩
      exact .dates hv hunread
    · obtain ⟨v, hv, hunread⟩ := hcount.mp ⟨_, hr, hbad⟩
      exact .count hv hunread
  · rintro (⟨hv, hunread⟩ | ⟨hv, hunread⟩)
    · obtain ⟨r, hr, hbad⟩ := (hdates _).mpr ⟨_, hv, hunread⟩
      exact .dates hr hbad
    · obtain ⟨r, hr, hbad⟩ := hcount.mpr ⟨_, hv, hunread⟩
      exact .count hr hbad

/-- Reading a query strictly gives the same filters, or a syntax error in place of a broken range. -/
theorem parse_strict (h : parse false q = .ok (rest, f)) :
    Meets (fun err => err.IsSyntax ∧ f.Broken) (fun read => read = (rest, f) ∧ ¬f.Broken)
      (parse true q) := by
  have hreads := parse_eq_ok_iff.mp h
  have hdates (k : DateKey) :
      Meets (fun err => err.IsSyntax ∧ f.Broken)
        (fun r => r = k.range f ∧ ∀ x, k.range f = some x → x.malformed = false)
        (readLast (parseDates true) (values k.key q)) := by
    rw [parseDates_eq]
    refine (readLast_checked (hreads.dates k)).weaken ?_
    rintro _ ⟨v, r, rfl, hr, hbad⟩
    exact ⟨trivial, .dates hr hbad⟩
  have hcount : Meets (fun err => err.IsSyntax ∧ f.Broken)
      (fun r => r = f.wordCount ∧ ∀ x, f.wordCount = some x → x.malformed = false)
      (readLast (parseNumbers true) (values .words q)) := by
    rw [parseNumbers_eq]
    refine (readLast_checked hreads.count).weaken ?_
    rintro _ ⟨v, r, rfl, hr, hbad⟩
    exact ⟨trivial, .count hr hbad⟩
  rw [parse_eq_parseWords, parseWords] at h ⊢
  refine (hdates .created).bind ?_
  rintro _ ⟨rfl, hcreated⟩
  refine (hdates .modified).bind ?_
  rintro _ ⟨rfl, hmodified⟩
  refine hcount.bind ?_
  rintro _ ⟨rfl, hwords⟩
  have hsound : ¬f.Broken := by
    rintro (⟨hr, hbad⟩ | ⟨hr, hbad⟩)
    · rename_i k r
      cases k with
      | created => simp [hcreated r hr] at hbad
      | modified => simp [hmodified r hr] at hbad
    · simp [hwords _ hr] at hbad
  rw [hreads.created, hreads.modified, hreads.wordCount] at h
  exact ⟨Except.ok.inj h, hsound⟩

/-- A range that was not understood lets no document through. -/
theorem not_broken_of_admits (h : f.admits d = .ok true) : ¬f.Broken := by
  rintro (⟨hr, hbad⟩ | ⟨hr, hbad⟩)
  · simp [(usable_of_admits_key h _ hr).1] at hbad
  · have hshape := (admits_iff.mp h).2
    simp [Filters.admitsShape, hr, NumberRange.admits, hbad] at hshape

theorem Filters.Broken.set (h : f.Broken) : f ≠ {} := by
  rintro rfl
  rcases h with ⟨hr, -⟩ | ⟨hr, -⟩
  · rename_i k r
    cases k <;> cases hr
  · cases hr

end Parsing

end Filtering

namespace Engine

open Search

def searchAs (strict : Bool) (e : Engine) (r : Request) : Except FilterError (List Result) :=
  ({ e with strict := strict } : Engine).search r

variable {r : Request} {rs : List Result}

theorem searchAs_eq (strict : Bool) (e : Engine) (hfilters : r.filters = {}) :
    e.searchAs strict r = (parse strict r.query).bind fun (rest, f) =>
      run (e.candidates f) rest f (e.options r) := by
  simp only [searchAs, search, find, resolve, options, hfilters]
  cases parse strict r.query with
  | error err => rfl
  | ok read =>
      simp only [Except.map, Filters.merged_empty]
      rfl

theorem run_eq_nil {ds : List Document} {rest : Text} {f : Filters} {o : Options} (hbroken : f.Broken)
    (h : run ds rest f o = .ok rs) : rs = [] := by
  apply List.eq_nil_iff_forall_not_mem.mpr
  intro r hr
  obtain ⟨d, -, -, hadmits⟩ := (run_eq_ok hbroken.set h).2 r hr
  exact not_broken_of_admits hadmits hbroken

/-- Where a search that is not strict has an answer, a strict one has the same, unless a range that
counts is malformed. Then there are no results, and a strict search is a syntax error instead. -/
theorem search_strict (e : Engine) (hfilters : r.filters = {}) (h : e.searchAs false r = .ok rs) :
    ((∃ err, err.IsSyntax ∧ e.searchAs true r = .error err) ↔ Malformed r.query) ∧
      (Malformed r.query → rs = []) ∧
      (¬Malformed r.query → e.searchAs true r = .ok rs) := by
  rw [searchAs_eq false e hfilters] at h
  obtain ⟨⟨rest, f⟩, hparse, hrun⟩ := bind_eq_ok_iff.mp h
  have hstrict := parse_strict hparse
  rw [searchAs_eq true e hfilters, ← broken_iff hparse]
  cases hread : parse true r.query with
  | error err =>
      rw [hread] at hstrict
      obtain ⟨hraised, hbroken⟩ := hstrict
      exact ⟨iff_of_true ⟨err, hraised, rfl⟩ hbroken, fun _ => run_eq_nil hbroken hrun,
        fun hsound => absurd hbroken hsound⟩
  | ok read =>
      rw [hread] at hstrict
      obtain ⟨rfl, hsound⟩ := hstrict
      refine ⟨iff_of_false ?_ hsound, fun hbroken => absurd hbroken hsound, fun _ => hrun⟩
      rintro ⟨err, -, herr⟩
      cases herr.symm.trans hrun

def overridden : Request where
  query := "created:soon words:many created:2024-01-02 words:..9".toList

def unreadable : Request where
  query := "created:2024-01-02 modified:soon".toList

theorem search_strict_datedNotes :
    (¬Malformed overridden.query ∧
        datedNotes.searchAs true overridden = .ok [{ id := ['a'], title := ['a'] }]) ∧
      (Malformed unreadable.query ∧ datedNotes.searchAs false unreadable = .ok []) ∧
      ∃ err, err.IsSyntax ∧ datedNotes.searchAs true unreadable = .error err := by
  have hfound : datedNotes.searchAs false overridden = .ok [{ id := ['a'], title := ['a'] }] :=
    eq_ok_of_toOption (by decide +kernel)
  have hstrict : datedNotes.searchAs true overridden = .ok [{ id := ['a'], title := ['a'] }] :=
    eq_ok_of_toOption (by decide +kernel)
  have hnothing : datedNotes.searchAs false unreadable = .ok [] :=
    eq_ok_of_toOption (by decide +kernel)
  have hunread : Malformed unreadable.query :=
    .dates (k := .modified) (v := "soon".toList) (by decide +kernel)
      (show readStamp? "soon".toList = none by decide +kernel)
  refine ⟨⟨fun hmalformed => ?_, hstrict⟩, ⟨hunread, hnothing⟩,
    (search_strict datedNotes rfl hnothing).1.mpr hunread⟩
  obtain ⟨err, -, herr⟩ := (search_strict datedNotes rfl hfound).1.mpr hmalformed
  cases hstrict.symm.trans herr

end Engine

end VaultSearch
