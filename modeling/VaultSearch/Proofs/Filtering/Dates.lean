import VaultSearch.Filtering.Match
import VaultSearch.Proofs.Filtering.Inline
import VaultSearch.Proofs.Time.Calendar

namespace VaultSearch.Filtering

open Text Time Note

/-- The text is understood as a date, and its moment in universal time is outside the calendar. -/
def Strays (t : Text) : Prop := ∃ s, readStamp? t = some s ∧ ¬InCalendar s.utcMicros

section Moments

variable {t : Text}

theorem moment?_text_eq_error_iff {err : TimeError} :
    (Timestamp.text t).moment? = .error err ↔ err = .date ∧ Strays t := by
  rw [Timestamp.moment?, Strays]
  cases readStamp? t with
  | none => simp
  | some s => simp [map_eq_error_iff, Stamp.toUtc_eq_error_iff]

theorem moment?_text_eq_none_iff :
    (Timestamp.text t).moment? = .ok none ↔ readStamp? t = none := by
  rw [Timestamp.moment?]
  cases readStamp? t with
  | none => simp
  | some s => simp [map_eq_ok_iff]

theorem moment?_text_eq_some_iff {m : Moment} :
    (Timestamp.text t).moment? = .ok (some m) ↔
      ∃ s, readStamp? t = some s ∧ (m.micros : Int) = s.utcMicros := by
  rw [Timestamp.moment?]
  cases readStamp? t with
  | none => simp
  | some s => simp [map_eq_ok_iff, Stamp.toUtc_eq_ok_iff]

theorem readMoment_eq_error_iff {err : FilterError} :
    readMoment t = .error err ↔ err = .time .date ∧ Strays t := by
  rw [readMoment, mapError_eq_error_iff]
  constructor
  · rintro ⟨cause, hcause, rfl⟩
    obtain ⟨rfl, hstrays⟩ := moment?_text_eq_error_iff.mp hcause
    exact ⟨rfl, hstrays⟩
  · rintro ⟨rfl, hstrays⟩
    exact ⟨.date, moment?_text_eq_error_iff.mpr ⟨rfl, hstrays⟩, rfl⟩

theorem readStamp?_nil : readStamp? [] = none := by decide

/-- An open bound is never astray. -/
theorem readBound_eq_error_iff {err : FilterError} :
    readBound readMoment t = .error err ↔ err = .time .date ∧ Strays t := by
  rw [readBound]
  split
  · rename_i hopen
    rw [List.isEmpty_iff.mp hopen]
    simp [Strays, readStamp?_nil]
  · rw [map_eq_error_iff, readMoment_eq_error_iff]

theorem readMoment_eq_none_iff : readMoment t = .ok none ↔ readStamp? t = none :=
  mapError_eq_ok_iff.trans moment?_text_eq_none_iff

end Moments

/-- Reading a date range leaves the calendar at a bound, at the day that is asked for or at the end
of that day. -/
def RangeStrays (v : Text) : Prop :=
  match cut? rangeMark v with
  | some (first, last) => Strays first ∨ Strays last
  | none => ∃ s, readStamp? v = some s ∧
      ¬(InCalendar s.utcMicros ∧ InCalendar (s.utcMicros + dayMicros))

def Unread (v : Text) : Prop :=
  match cut? rangeMark v with
  | some (first, last) =>
    (first ≠ [] ∧ readStamp? first = none) ∨ (last ≠ [] ∧ readStamp? last = none)
  | none => readStamp? v = none

section Bounds

variable {α : Type} {read : Text → Except FilterError (Option α)} {a b : Text} {x y : Option α}
  {understood understood' : Bool}

theorem understood_iff (h : readBound read a = .ok (x, understood)) :
    understood = false ↔ a ≠ [] ∧ read a = .ok none := by
  rw [readBound] at h
  split at h
  · rename_i hopen
    cases h
    simp [List.isEmpty_iff.mp hopen]
  · rename_i hwritten
    obtain ⟨v, hread, heq⟩ := map_eq_ok_iff.mp h
    cases heq
    rw [List.isEmpty_iff] at hwritten
    cases x <;> simp [hwritten, hread]

/-- A range is malformed if something is written for a bound and not understood. -/
theorem bounds_malformed_iff (ha : readBound read a = .ok (x, understood))
    (hb : readBound read b = .ok (y, understood')) :
    (!(understood && understood')) = true ↔
      (a ≠ [] ∧ read a = .ok none) ∨ (b ≠ [] ∧ read b = .ok none) := by
  rw [← understood_iff ha, ← understood_iff hb]
  cases understood <;> simp

end Bounds

section Ranges

variable {v : Text}

theorem readDates_between_eq_error_iff {a b : Text} {err : FilterError}
    (hcut : cut? rangeMark v = some (a, b)) :
    readDates v = .error err ↔ err = .time .date ∧ (Strays a ∨ Strays b) := by
  rw [readDates, hcut]
  cases ha : readBound readMoment a with
  | error cause =>
      obtain ⟨rfl, hstrays⟩ := readBound_eq_error_iff.mp ha
      simp [ha, hstrays, bind, Except.bind, eq_comm]
  | ok first =>
      have ha' : ¬Strays a := fun h => by simp [readBound_eq_error_iff.mpr ⟨rfl, h⟩] at ha
      cases hb : readBound readMoment b with
      | error cause =>
          obtain ⟨rfl, hstrays⟩ := readBound_eq_error_iff.mp hb
          simp [ha, hb, hstrays, bind, Except.bind, eq_comm]
      | ok last =>
          have hb' : ¬Strays b := fun h => by simp [readBound_eq_error_iff.mpr ⟨rfl, h⟩] at hb
          simp [ha, hb, ha', hb', bind, Except.bind]

theorem readDates_day_eq_error_iff {err : FilterError} (hcut : cut? rangeMark v = none) :
    readDates v = .error err ↔ err = .time .date ∧ ∃ s, readStamp? v = some s ∧
      ¬(InCalendar s.utcMicros ∧ InCalendar (s.utcMicros + dayMicros)) := by
  rw [readDates, hcut]
  cases hv : readMoment v with
  | error cause =>
      obtain ⟨rfl, s, hs, hout⟩ := readMoment_eq_error_iff.mp hv
      simp [hs, hout, bind, Except.bind, eq_comm]
  | ok read =>
      rw [readMoment, mapError_eq_ok_iff] at hv
      cases read with
      | none => simp [moment?_text_eq_none_iff.mp hv, bind, Except.bind]
      | some m =>
          obtain ⟨s, hs, hm⟩ := moment?_text_eq_some_iff.mp hv
          have hday : InCalendar s.utcMicros := hm ▸ m.inCalendar
          -- Only the end of the day is left to compute; its sum must not be unfolded.
          refine bind_eq_error_iff.trans ?_
          simp only [reduceCtorEq, false_or, Except.ok.injEq, exists_eq_left']
          refine bind_eq_error_iff.trans ?_
          simp only [mapError_eq_error_iff, Moment.add_eq_error_iff, reduceCtorEq, and_false,
            exists_false, or_false, hm, hs, Option.some.injEq, exists_eq_left', hday, true_and]
          constructor
          · rintro ⟨cause, ⟨rfl, hout⟩, rfl⟩
            exact ⟨rfl, hout⟩
          · rintro ⟨rfl, hout⟩
            exact ⟨.date, ⟨rfl, hout⟩, rfl⟩

theorem readDates_eq_error_iff {err : FilterError} :
    readDates v = .error err ↔ err = .time .date ∧ RangeStrays v := by
  rw [RangeStrays]
  cases hcut : cut? rangeMark v with
  | some parts => exact readDates_between_eq_error_iff hcut
  | none => exact readDates_day_eq_error_iff hcut

theorem malformed_iff {r : DateRange} (h : readDates v = .ok r) :
    r.malformed = true ↔ Unread v := by
  rw [readDates] at h
  rw [Unread]
  cases hcut : cut? rangeMark v with
  | some parts =>
      obtain ⟨a, b⟩ := parts
      rw [hcut] at h
      obtain ⟨⟨first, understood⟩, ha, h⟩ := bind_eq_ok_iff.mp h
      obtain ⟨⟨last, understood'⟩, hb, h⟩ := bind_eq_ok_iff.mp h
      cases h
      simp only [bounds_malformed_iff ha hb, readMoment_eq_none_iff]
  | none =>
      rw [hcut] at h
      obtain ⟨read, hv, h⟩ := bind_eq_ok_iff.mp h
      rw [readMoment, mapError_eq_ok_iff] at hv
      cases read with
      | none =>
          cases h
          simp [moment?_text_eq_none_iff.mp hv]
      | some m =>
          obtain ⟨s, hs, -⟩ := moment?_text_eq_some_iff.mp hv
          obtain ⟨last, hlast, h⟩ := bind_eq_ok_iff.mp h
          cases h
          simp [hs]

end Ranges

inductive DateKey
  | created
  | modified

namespace DateKey

def key : DateKey → Key
  | created => .created
  | modified => .modified

def range : DateKey → Filters → Option DateRange
  | created => Filters.created
  | modified => Filters.modified

def dateOf : DateKey → Document → Option Timestamp
  | created => Document.created
  | modified => Document.modified

def value? (k : DateKey) (q : Text) : Option Text := (values k.key q).getLast?

end DateKey

def QueryStrays (q : Text) : Prop := ∃ k : DateKey, ∃ v, k.value? q = some v ∧ RangeStrays v

section Queries

variable {q : Text}

theorem parseDates_false (v : Text) : parseDates false v = readDates v := by
  rw [parseDates]
  cases readDates v <;> rfl

theorem readBound_readNumber (t : Text) : ∃ bound, readBound readNumber t = .ok bound := by
  rw [readBound]
  split <;> exact ⟨_, rfl⟩

theorem parseNumbers_false (v : Text) : ∃ r, parseNumbers false v = .ok r := by
  rw [parseNumbers, readNumbers]
  cases cut? rangeMark v with
  | none => exact ⟨_, rfl⟩
  | some parts =>
      obtain ⟨low, hlow⟩ := readBound_readNumber parts.1
      obtain ⟨high, hhigh⟩ := readBound_readNumber parts.2
      simp [hlow, hhigh, bind, Except.bind]

theorem readLast_eq_error_iff {α : Type} {read : Text → Except FilterError α} {vs : List Text}
    {err : FilterError} :
    readLast read vs = .error err ↔ ∃ v, vs.getLast? = some v ∧ read v = .error err := by
  rw [readLast]
  cases vs.getLast? with
  | none => simp
  | some v => simp [map_eq_error_iff]

theorem ReadsAs.range {strict : Bool} {rest : Text} {f : Filters} (h : ReadsAs strict q rest f)
    (k : DateKey) : readLast (parseDates strict) (values k.key q) = .ok (k.range f) := by
  cases k with
  | created => exact h.created
  | modified => exact h.modified

theorem range_of_parse {rest : Text} {f : Filters} (h : parse false q = .ok (rest, f))
    (k : DateKey) {v : Text} (hv : k.value? q = some v) :
    ∃ r, k.range f = some r ∧ readDates v = .ok r := by
  have hlast := (parse_eq_ok_iff.mp h).range k
  rw [DateKey.value?] at hv
  rw [readLast, hv] at hlast
  obtain ⟨r, hr, heq⟩ := map_eq_ok_iff.mp hlast
  exact ⟨r, heq.symm, (parseDates_false v).symm.trans hr⟩

theorem parse_eq_error_iff {err : FilterError} :
    parse false q = .error err ↔ err = .time .date ∧ QueryStrays q := by
  have hread : ∀ {k : DateKey} {cause : FilterError},
      readLast (parseDates false) (values k.key q) = .error cause →
        cause = .time .date ∧ QueryStrays q := by
    intro k cause h
    obtain ⟨v, hv, h⟩ := readLast_eq_error_iff.mp h
    rw [parseDates_false, readDates_eq_error_iff] at h
    exact ⟨h.1, k, v, hv, h.2⟩
  have honly : ∀ {cause : FilterError}, parse false q = .error cause →
      cause = .time .date ∧ QueryStrays q := by
    intro cause h
    rw [parse_eq_parseWords, parseWords] at h
    rcases bind_eq_error_iff.mp h with h | ⟨created, -, h⟩
    · exact hread (k := .created) h
    · rcases bind_eq_error_iff.mp h with h | ⟨modified, -, h⟩
      · exact hread (k := .modified) h
      · rcases bind_eq_error_iff.mp h with h | ⟨counts, -, h⟩
        · obtain ⟨v, -, hv⟩ := readLast_eq_error_iff.mp h
          obtain ⟨r, hr⟩ := parseNumbers_false v
          cases hr.symm.trans hv
        · cases h
  constructor
  · exact honly
  · rintro ⟨rfl, k, v, hv, hstrays⟩
    cases h : parse false q with
    | error cause => rw [(honly h).1]
    | ok read =>
        obtain ⟨r, -, hr⟩ := range_of_parse h k hv
        cases hr.symm.trans (readDates_eq_error_iff.mpr ⟨rfl, hstrays⟩)

end Queries

/-- A date as the vault has it: none, what a note says, or the time of a file in universal time. -/
inductive Loaded : Option Timestamp → Prop
  | missing : Loaded none
  | written (t : Text) : Loaded (some (.text t))
  | fileTime (m : Moment) : Loaded (some (.stamp (.naive m)))

def Astray (t : Option Timestamp) : Prop := ∃ x, t = some (.text x) ∧ Strays x

def Usable (t : Option Timestamp) : Prop := ∃ x m, t = some x ∧ x.moment? = .ok (some m)

section Documents

variable {t : Option Timestamp} {f : Filters} {d : Document}

theorem admits_range_eq_error_iff {r : DateRange} {err : TimeError} (ht : Loaded t) :
    r.admits t = .error err ↔ err = .date ∧ r.malformed = false ∧ Astray t := by
  rw [DateRange.admits.eq_def, Astray]
  cases r.malformed with
  | true => simp
  | false =>
      cases ht with
      | missing => simp
      | written x => simp [map_eq_error_iff, moment?_text_eq_error_iff]
      | fileTime m => simp [map_eq_error_iff, Timestamp.moment?, Stamp.toUtc, Stamp.naive]

theorem usable_of_admits {r : DateRange} (h : r.admits t = .ok true) :
    r.malformed = false ∧ Usable t := by
  rw [DateRange.admits.eq_def] at h
  cases hr : r.malformed with
  | true => simp [hr] at h
  | false =>
      refine ⟨rfl, ?_⟩
      cases t with
      | none => simp [hr] at h
      | some x =>
          simp only [hr, Bool.false_eq_true, if_false] at h
          obtain ⟨read, hread, h⟩ := map_eq_ok_iff.mp h
          cases read with
          | none => cases h
          | some m => exact ⟨x, m, rfl, hread⟩

theorem datesAdmit_eq_error_iff {r : Option DateRange} {err : TimeError} (ht : Loaded t) :
    datesAdmit r t = .error err ↔
      err = .date ∧ (∃ range, r = some range ∧ range.malformed = false) ∧ Astray t := by
  cases r with
  | none => simp [datesAdmit]
  | some range => simp [datesAdmit, admits_range_eq_error_iff ht]

/-- A filter looks at a date of the document that is astray. The last change is looked at only if
the filter for the creation has nothing against the document. -/
inductive StopsAt (f : Filters) (d : Document) : Prop
  | created {r : DateRange} (hr : f.created = some r) (hread : r.malformed = false)
      (h : Astray d.created)
  | modified {r : DateRange} (hcreated : datesAdmit f.created d.created = .ok true)
      (hr : f.modified = some r) (hread : r.malformed = false) (h : Astray d.modified)

theorem admits_eq_error_iff {err : TimeError} (hcreated : Loaded d.created)
    (hmodified : Loaded d.modified) : f.admits d = .error err ↔ err = .date ∧ StopsAt f d := by
  constructor
  · intro h
    rw [Filters.admits] at h
    split at h
    · rename_i cause hfirst
      cases h
      obtain ⟨rfl, ⟨r, hr, hread⟩, hastray⟩ := (datesAdmit_eq_error_iff hcreated).mp hfirst
      exact ⟨rfl, .created hr hread hastray⟩
    · cases h
    · rename_i hfirst
      split at h
      · rename_i cause hsecond
        cases h
        obtain ⟨rfl, ⟨r, hr, hread⟩, hastray⟩ := (datesAdmit_eq_error_iff hmodified).mp hsecond
        exact ⟨rfl, .modified hfirst hr hread hastray⟩
      · cases h
      · cases h
  · rintro ⟨rfl, hstops⟩
    rw [Filters.admits]
    cases hstops with
    | created hr hread h =>
        rw [(datesAdmit_eq_error_iff hcreated).mpr ⟨rfl, ⟨_, hr, hread⟩, h⟩]
    | modified hfirst hr hread h =>
        rw [hfirst, (datesAdmit_eq_error_iff hmodified).mpr ⟨rfl, ⟨_, hr, hread⟩, h⟩]

theorem admits_iff : f.admits d = .ok true ↔
    (∀ k : DateKey, datesAdmit (k.range f) (k.dateOf d) = .ok true) ∧ f.admitsShape d = true := by
  constructor
  · intro h
    rw [Filters.admits] at h
    split at h
    · cases h
    · cases h
    · rename_i hfirst
      split at h
      · cases h
      · cases h
      · rename_i hsecond
        refine ⟨fun k => ?_, Except.ok.inj h⟩
        cases k with
        | created => exact hfirst
        | modified => exact hsecond
  · rintro ⟨hdates, hshape⟩
    have hfirst : datesAdmit f.created d.created = .ok true := hdates .created
    have hsecond : datesAdmit f.modified d.modified = .ok true := hdates .modified
    rw [Filters.admits, hfirst, hsecond, hshape]

theorem usable_of_admits_key (h : f.admits d = .ok true) (k : DateKey) {r : DateRange}
    (hr : k.range f = some r) : r.malformed = false ∧ Usable (k.dateOf d) := by
  have hdates := (admits_iff.mp h).1 k
  rw [hr] at hdates
  exact usable_of_admits hdates

end Documents

section Keeping

variable {α ε : Type} {p : α → Except ε Bool} {xs ys : List α}

theorem keep_eq_error {err : ε} (h : keep p xs = .error err) : ∃ x ∈ xs, p x = .error err := by
  induction xs with
  | nil => cases h
  | cons x xs ih =>
      rw [keep] at h
      cases hp : p x with
      | error cause =>
          rw [hp] at h
          cases h
          exact ⟨x, List.mem_cons_self, hp⟩
      | ok b =>
          rw [hp] at h
          obtain ⟨y, hy, hpy⟩ := ih (map_eq_error_iff.mp h)
          exact ⟨y, List.mem_cons_of_mem _ hy, hpy⟩

theorem keep_eq_ok (h : keep p xs = .ok ys) :
    (∀ x ∈ xs, ∃ b, p x = .ok b) ∧ ∀ y ∈ ys, y ∈ xs ∧ p y = .ok true := by
  induction xs generalizing ys with
  | nil =>
      cases h
      simp
  | cons x xs ih =>
      rw [keep] at h
      cases hp : p x with
      | error cause => simp [hp] at h
      | ok b =>
          rw [hp] at h
          obtain ⟨zs, hzs, rfl⟩ := map_eq_ok_iff.mp h
          obtain ⟨hall, hkept⟩ := ih hzs
          refine ⟨List.forall_mem_cons.mpr ⟨⟨b, hp⟩, hall⟩, fun y hy => ?_⟩
          have hrest : ∀ z ∈ zs, z ∈ x :: xs ∧ p z = .ok true := fun z hz =>
            ⟨List.mem_cons_of_mem x (hkept z hz).1, (hkept z hz).2⟩
          cases b with
          | false => exact hrest y hy
          | true =>
              rcases List.mem_cons.mp hy with rfl | hy
              · exact ⟨List.mem_cons_self, hp⟩
              · exact hrest y hy

theorem keep_eq_filter {q : α → Bool} (h : ∀ x, p x = .ok (q x)) (xs : List α) :
    keep p xs = .ok (xs.filter q) := by
  induction xs with
  | nil => rfl
  | cons x xs ih =>
      rw [keep, h x, ih, List.filter_cons]
      cases q x <;> rfl

end Keeping

end VaultSearch.Filtering
