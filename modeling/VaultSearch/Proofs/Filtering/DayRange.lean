import VaultSearch.Proofs.Filtering.Dates
import VaultSearch.Proofs.Note.Span
import VaultSearch.Proofs.Time.Stamp

namespace VaultSearch.Text

section Marks

variable {c : Char} {mark s t : Text}

theorem find?_append_mark (h : c ∉ s) : find? (c :: mark) (s ++ (c :: mark ++ t)) = some s.length := by
  induction s with
  | nil => exact find?_at_start (List.prefix_append _ t)
  | cons d s ih =>
      obtain ⟨hd, hs⟩ := not_or.mp (List.mem_cons.not.mp h)
      have hstart : startsWith (c :: mark) (d :: (s ++ (c :: mark ++ t))) = false := by
        simp [startsWith, List.isPrefixOf, hd]
      rw [List.cons_append, find?, hstart, if_neg Bool.false_ne_true, ih hs]
      rfl

/-- A text is cut at a mark whose first character is not met before. -/
theorem cut?_append_mark (h : c ∉ s) : cut? (c :: mark) (s ++ (c :: mark ++ t)) = some (s, t) :=
  cut?_of_find? (find?_append_mark h)

theorem cut?_eq_none (h : c ∉ t) : cut? (c :: mark) t = none := by
  rw [cut?, Option.map_eq_none_iff, find?_eq_none_iff]
  exact fun hpart => h (hpart.subset List.mem_cons_self)

end Marks

end VaultSearch.Text

namespace VaultSearch.Time

open Text

namespace Date

variable {d : Date} {c : Char}

theorem mem_text (h : c ∈ d.text) : c.isDigit = true ∨ c = '-' := by
  simp only [text_eq, List.mem_append, List.mem_cons] at h
  rcases h with h | rfl | h | rfl | h
  · exact .inl (isDigit_of_mem_pad c h)
  · exact .inr rfl
  · exact .inl (isDigit_of_mem_pad c h)
  · exact .inr rfl
  · exact .inl (isDigit_of_mem_pad c h)

theorem text_plain (h : c ∈ d.text) : isBlank c = false ∧ c ≠ 'Z' ∧ c ≠ '.' := by
  rcases mem_text h with h | rfl
  · refine ⟨not_isBlank_of_isDigit h, ?_, ?_⟩
    · rintro rfl
      cases h
    · rintro rfl
      cases h
  · decide

end Date

theorem Moment.ofClock_midnight (d : Date) : ofClock d 0 0 0 0 = .ok (ofDate d) := by
  refine ofClock_eq ?_ (by decide) ?_
  · exact (Nat.mul_div_cancel d.index (by decide)).symm
  · exact (Nat.mul_mod_left d.index dayMicros).symm

theorem Date.ext_index {a b : Date} (h : a.index = b.index) : a = b := by
  cases a
  cases b
  cases h
  rfl

namespace Moment

variable {m : Moment} {d : Date}

theorem date_eq_iff : m.date = d ↔ m.date.index = d.index := ⟨congrArg Date.index, Date.ext_index⟩

theorem ofDate_le_iff : (ofDate d).micros ≤ m.micros ↔ d.index ≤ m.date.index :=
  (Nat.le_div_iff_mul_le (by decide)).symm

theorem lt_ofDate_iff : m.micros < (ofDate d).micros ↔ m.date.index < d.index :=
  (Nat.div_lt_iff_lt_mul (by decide)).symm

theorem eq_ofDate_iff : m.micros = (ofDate d).micros ↔ m.date = d ∧ m.clock = 0 := by
  have hdiv : ∀ {n k width : Nat}, 0 < width → (n = k * width ↔ n / width = k ∧ n % width = 0) := by
    intro n k width hwidth
    constructor
    · rintro rfl
      exact ⟨Nat.mul_div_cancel k hwidth, Nat.mul_mod_left k width⟩
    · rintro ⟨rfl, hrest⟩
      exact (Nat.div_mul_cancel (Nat.dvd_of_mod_eq_zero hrest)).symm
  rw [date_eq_iff]
  exact hdiv (by decide)

theorem le_ofDate_iff :
    m.micros ≤ (ofDate d).micros ↔ m.date.index < d.index ∨ m.date = d ∧ m.clock = 0 := by
  rw [Nat.le_iff_lt_or_eq, lt_ofDate_iff, eq_ofDate_iff]

end Moment

/-- A date without a time stands for its midnight. -/
theorem Stamp.read?_date (d : Date) : Stamp.read? d.text = some (.naive (.ofDate d)) := by
  have hlength := d.length_text
  have hwidth := dateWidth_text d []
  rw [List.append_nil] at hwidth
  rw [Stamp.read?, if_neg (by omega)]
  dsimp only
  rw [hwidth, List.take_of_length_le (by omega), List.drop_of_length_le (by omega), readDate_text,
    Option.bind_eq_bind, Option.bind_some]
  dsimp only
  rw [Option.bind_eq_bind, Option.bind_some, Moment.ofClock_midnight]
  rfl

end VaultSearch.Time

namespace VaultSearch.Filtering

open Text Time Note

section Reading

theorem readStamp?_date (d : Date) : readStamp? d.text = some (.naive (.ofDate d)) := by
  have htrim : trim d.text = d.text := trim_eq_self
    (fun c hc => (Date.text_plain (List.mem_of_mem_head? hc)).1)
    (fun c hc => (Date.text_plain (List.mem_of_getLast? hc)).1)
  have hlast : d.text.getLast? ≠ some 'Z' := fun h =>
    (Date.text_plain (List.mem_of_getLast? h)).2.1 rfl
  rw [readStamp?, htrim, if_neg hlast, Stamp.read?_date]

theorem readMoment_date (d : Date) : readMoment d.text = .ok (some (.ofDate d)) := by
  rw [readMoment, Timestamp.moment?, readStamp?_date]
  rfl

theorem readBound_date (d : Date) :
    readBound readMoment d.text = .ok (some (.ofDate d), true) := by
  have hne : d.text.isEmpty = false := by
    rw [← Bool.not_eq_true, List.isEmpty_iff_length_eq_zero, d.length_text]
    decide
  rw [readBound, hne, if_neg Bool.false_ne_true, readMoment_date]
  rfl

def nextDay (d : Date) (h : d.index + 1 < dayCount) : Date := ⟨d.index + 1, h⟩

theorem readDates_day {d : Date} (h : d.index + 1 < dayCount) :
    readDates d.text = .ok { first := some (.ofDate d), last := some (.ofDate (nextDay d h)),
                             lastExcluded := true } := by
  have hcut : cut? rangeMark d.text = none := cut?_eq_none fun hmem => (Date.text_plain hmem).2.2 rfl
  have hnext : (Moment.ofDate d).add dayMicros = .ok (.ofDate (nextDay d h)) := by
    rw [Moment.add_eq_ok_iff]
    simp [Moment.ofDate, nextDay, Nat.add_mul]
  rw [readDates, hcut]
  exact bind_eq_ok_iff.mpr ⟨_, readMoment_date d,
    bind_eq_ok_iff.mpr ⟨_, mapError_eq_ok_iff.mpr hnext, rfl⟩⟩

theorem readDates_between (first last : Date) :
    readDates (first.text ++ rangeMark ++ last.text) =
      .ok { first := some (.ofDate first), last := some (.ofDate last) } := by
  have hcut : cut? rangeMark (first.text ++ rangeMark ++ last.text) = some (first.text, last.text) := by
    rw [List.append_assoc]
    exact cut?_append_mark fun hmem => (Date.text_plain hmem).2.2 rfl
  rw [readDates, hcut]
  dsimp only
  rw [readBound_date, readBound_date]
  rfl

theorem parseDates_of_readDates {v : Text} {r : DateRange} (h : readDates v = .ok r)
    (hread : r.malformed = false) (strict : Bool) : parseDates strict v = .ok r := by
  rw [parseDates, h]
  simp [bind, Except.bind, hread]

end Reading

section Keeping

def keepsCreated (strict : Bool) (v : Text) (d : Document) : Except FilterError Bool := do
  let r ← parseDates strict v
  (({ created := some r } : Filters).admits d).mapError .time

/-- No filter but that for the creation has anything against a document. -/
theorem admits_created (r : DateRange) (d : Document) :
    ({ created := some r } : Filters).admits d = r.admits d.created := by
  have hcreated : datesAdmit ({ created := some r } : Filters).created d.created =
      r.admits d.created := rfl
  rw [Filters.admits, hcreated]
  cases r.admits d.created with
  | error err => rfl
  | ok b => cases b <;> rfl

def DateRange.Spans (r : DateRange) (m : Moment) : Prop :=
  (∀ a ∈ r.first, a.micros ≤ m.micros) ∧
    ∀ b ∈ r.last, if r.lastExcluded then m.micros < b.micros else m.micros ≤ b.micros

theorem admits_iff_spans {r : DateRange} (hread : r.malformed = false) {t : Timestamp} {m : Moment}
    (hm : t.moment? = .ok (some m)) :
    ∃ kept, r.admits (some t) = .ok kept ∧ (kept = true ↔ r.Spans m) := by
  obtain ⟨first, last, lastExcluded, malformed⟩ := r
  rw [DateRange.admits.eq_def, hread, if_neg Bool.false_ne_true]
  dsimp only
  refine ⟨_, by rw [hm]; rfl, ?_⟩
  cases first <;> cases last <;> cases lastExcluded <;>
    simp [DateRange.Spans, Moment.lt, Moment.le]

variable (strict : Bool) {v : Text} {d : Document} {t : Timestamp} {m : Moment}
  (ht : d.created = some t) (hm : t.moment? = .ok (some m))

include ht hm

theorem keepsCreated_of_readDates {r : DateRange} (hr : readDates v = .ok r)
    (hread : r.malformed = false) :
    ∃ kept, keepsCreated strict v d = .ok kept ∧ (kept = true ↔ r.Spans m) := by
  obtain ⟨kept, hkept, hspans⟩ := admits_iff_spans hread hm
  refine ⟨kept, bind_eq_ok_iff.mpr ⟨r, parseDates_of_readDates hr hread strict, ?_⟩, hspans⟩
  rw [admits_created, ht, hkept]
  rfl

/-- A single day keeps what is of that day. -/
theorem keepsCreated_day {day : Date} (h : day.index + 1 < dayCount) :
    ∃ kept, keepsCreated strict day.text d = .ok kept ∧ (kept = true ↔ m.date = day) := by
  obtain ⟨kept, hkept, hspans⟩ :=
    keepsCreated_of_readDates strict ht hm (readDates_day h) rfl
  refine ⟨kept, hkept, hspans.trans ?_⟩
  simp only [DateRange.Spans, Option.mem_some_iff, forall_eq', if_true, Moment.ofDate_le_iff,
    Moment.lt_ofDate_iff, Moment.date_eq_iff, nextDay]
  omega

/-- A range keeps what is of its days before the last, and of the last what is of its midnight. -/
theorem keepsCreated_between (first last : Date) :
    ∃ kept, keepsCreated strict (first.text ++ rangeMark ++ last.text) d = .ok kept ∧
      (kept = true ↔ first.index ≤ m.date.index ∧
        (m.date.index < last.index ∨ m.date = last ∧ m.clock = 0)) := by
  obtain ⟨kept, hkept, hspans⟩ :=
    keepsCreated_of_readDates strict ht hm (readDates_between first last) rfl
  refine ⟨kept, hkept, hspans.trans ?_⟩
  simp only [DateRange.Spans, Option.mem_some_iff, forall_eq', Bool.false_eq_true, if_false,
    Moment.ofDate_le_iff, Moment.le_ofDate_iff]

/-- A range of days is the union of its days, but of its last day it has the midnight only. -/
theorem keepsCreated_between_iff {first last : Date} (hle : first.index ≤ last.index)
    (hlast : last.index + 1 < dayCount) :
    (∃ kept, keepsCreated strict (first.text ++ rangeMark ++ last.text) d = .ok kept) ∧
    (∀ day : Date, day.index ≤ last.index → ∃ kept, keepsCreated strict day.text d = .ok kept) ∧
    ((keepsCreated strict (first.text ++ rangeMark ++ last.text) d = .ok true ↔
        ∃ day : Date, first.index ≤ day.index ∧ day.index ≤ last.index ∧
          keepsCreated strict day.text d = .ok true) ↔
      ¬(m.date = last ∧ m.clock ≠ 0)) := by
  obtain ⟨kept, hkept, hbetween⟩ := keepsCreated_between strict ht hm first last
  have hdays : ∀ day : Date, day.index ≤ last.index →
      ∃ kept, keepsCreated strict day.text d = .ok kept ∧ (kept = true ↔ m.date = day) :=
    fun day hday => keepsCreated_day strict ht hm (by omega)
  have hunion : (∃ day : Date, first.index ≤ day.index ∧ day.index ≤ last.index ∧
      keepsCreated strict day.text d = .ok true) ↔
        first.index ≤ m.date.index ∧ m.date.index ≤ last.index := by
    constructor
    · rintro ⟨day, hfirst, hend, hday⟩
      obtain ⟨kept, hkept, hiff⟩ := hdays day hend
      rw [hkept, Except.ok.injEq, hiff] at hday
      exact hday ▸ ⟨hfirst, hend⟩
    · rintro ⟨hfirst, hend⟩
      obtain ⟨kept, hkept, hiff⟩ := hdays m.date hend
      exact ⟨m.date, hfirst, hend, by rw [hkept, hiff.mpr rfl]⟩
  refine ⟨⟨kept, hkept⟩, fun day hend => ?_, ?_⟩
  · obtain ⟨kept, hkept, -⟩ := hdays day hend
    exact ⟨kept, hkept⟩
  · rw [hunion, hkept, Except.ok.injEq, hbetween, Moment.date_eq_iff]
    omega

end Keeping

def marchFirst : Date := ⟨738945, by decide⟩

def marchSixth : Date := ⟨738950, by decide⟩

def marchDays : Text := marchFirst.text ++ rangeMark ++ marchSixth.text

def eastern : Timestamp := .text "2024-03-06T01:00:00+02:00".toList

def easternMoment : Moment := ⟨738949 * dayMicros + 23 * hourMicros, by decide⟩

theorem keepsCreated_between_iff_eastern :
    marchDays = "2024-03-01..2024-03-06".toList ∧ eastern.moment? = .ok (some easternMoment) ∧
      (keepsCreated false marchDays { id := ['a'], created := some eastern } = .ok true ↔
        ∃ day : Date, marchFirst.index ≤ day.index ∧ day.index ≤ marchSixth.index ∧
          keepsCreated false day.text { id := ['a'], created := some eastern } = .ok true) := by
  have hmoment : eastern.moment? = .ok (some easternMoment) := eq_ok_of_toOption (by decide +kernel)
  refine ⟨by decide +kernel, hmoment, ?_⟩
  exact (keepsCreated_between_iff false rfl hmoment (by decide) (by decide)).2.2.mpr (by decide +kernel)

def morningNote : Document :=
  { id := ['a'], created := some (.text "2024-03-06T09:30:00".toList) }

/-- On the morning of its last day a note is out of the range. -/
theorem marchDays_endAtMidnight :
    marchFirst.index ≤ marchSixth.index ∧ marchSixth.index + 1 < dayCount ∧
      keepsCreated false marchDays morningNote = .ok false ∧
      keepsCreated false marchSixth.text morningNote = .ok true := by
  refine ⟨by decide, by decide, ?_, ?_⟩
  · exact eq_ok_of_toOption (by decide +kernel)
  · exact eq_ok_of_toOption (by decide +kernel)

end VaultSearch.Filtering
