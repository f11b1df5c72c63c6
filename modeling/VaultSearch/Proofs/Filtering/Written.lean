import VaultSearch.Proofs.Filtering.Dates
import VaultSearch.Proofs.Note.Frontmatter
import VaultSearch.Proofs.Yaml.Loaded

namespace VaultSearch.Time

open Text

/-- A character that cannot be cut off a timestamp: no blank, and no sign of universal time. -/
def IsInner (c : Char) : Prop := isBlank c = false ∧ c ≠ 'Z'

theorem isInner_of_isDigit {c : Char} (h : c.isDigit = true) : IsInner c := by
  refine ⟨not_isBlank_of_isDigit h, ?_⟩
  rintro rfl
  cases h

theorem isInner_of_mem_pad {k n : Nat} {c : Char} (h : c ∈ pad k n) : IsInner c :=
  isInner_of_isDigit (isDigit_of_mem_pad c h)

theorem isInner_marks : IsInner ':' ∧ IsInner '.' ∧ IsInner '+' ∧ IsInner '-' := by
  simp only [IsInner]
  decide

theorem isInner_of_mem_clockText {n : Nat} {c : Char} (h : c ∈ Moment.clockText n) : IsInner c := by
  obtain ⟨hcolon, hpoint, -, -⟩ := isInner_marks
  simp only [Moment.clockText, List.mem_append, List.mem_cons] at h
  rcases h with ((h | rfl | h) | rfl | h) | h
  · exact isInner_of_mem_pad h
  · exact hcolon
  · exact isInner_of_mem_pad h
  · exact hcolon
  · exact isInner_of_mem_pad h
  · split at h
    · cases h
    · rcases List.mem_cons.mp h with rfl | h
      · exact hpoint
      · exact isInner_of_mem_pad h

theorem isInner_of_mem_spanDigits {n : Nat} {c : Char} (h : c ∈ spanDigits n) : IsInner c := by
  obtain ⟨hcolon, hpoint, -, -⟩ := isInner_marks
  simp only [spanDigits, List.mem_append, List.mem_cons] at h
  rcases h with h | rfl | h | h
  · exact isInner_of_mem_pad h
  · exact hcolon
  · exact isInner_of_mem_pad h
  · split at h
    · cases h
    · simp only [List.mem_cons, List.mem_append] at h
      rcases h with rfl | h | h
      · exact hcolon
      · exact isInner_of_mem_pad h
      · split at h
        · cases h
        · rcases List.mem_cons.mp h with rfl | h
          · exact hpoint
          · exact isInner_of_mem_pad h

theorem isInner_sign (negative : Bool) : IsInner (if negative then '-' else '+') := by
  obtain ⟨-, -, hplus, hminus⟩ := isInner_marks
  cases negative
  · exact hplus
  · exact hminus

theorem isInner_of_mem_offsetSuffix {offset : Option Offset} {c : Char}
    (h : c ∈ offsetSuffix offset) : IsInner c := by
  cases offset with
  | none => cases h
  | some o =>
      rw [offsetSuffix, o.text_eq, List.mem_cons] at h
      rcases h with rfl | h
      · simpa using isInner_sign (decide (o.micros < 0))
      · exact isInner_of_mem_spanDigits h

def zoneText (negative : Bool) (hours minutes : Nat) : Text :=
  (if negative then '-' else '+') :: (pad 2 hours ++ ':' :: pad 2 minutes)

def zoneMicros (negative : Bool) (hours minutes : Nat) : Int :=
  let n := hours * hourMicros + minutes * minuteMicros
  if negative then -(n : Int) else n

theorem isInner_of_mem_zoneText {negative : Bool} {hours minutes : Nat} {c : Char}
    (h : c ∈ zoneText negative hours minutes) : IsInner c := by
  simp only [zoneText, List.mem_cons, List.mem_append] at h
  rcases h with rfl | h | rfl | h
  · exact isInner_sign negative
  · exact isInner_of_mem_pad h
  · exact isInner_marks.1
  · exact isInner_of_mem_pad h

theorem natAbs_zoneMicros (negative : Bool) (hours minutes : Nat) :
    (zoneMicros negative hours minutes).natAbs = hours * hourMicros + minutes * minuteMicros := by
  rw [zoneMicros]
  split
  · rw [Int.natAbs_neg, Int.natAbs_natCast]
  · rw [Int.natAbs_natCast]

theorem exists_offset_zone (negative : Bool) {hours minutes : Nat} (hh : hours < 24)
    (hm : minutes < 60) : ∃ o : Offset, o.micros = zoneMicros negative hours minutes := by
  have habs := natAbs_zoneMicros negative hours minutes
  have hlt : hours * hourMicros + minutes * minuteMicros < dayMicros := by
    simp only [hourMicros, minuteMicros, dayMicros, secondMicros]
    omega
  have hin : -(dayMicros : Int) < zoneMicros negative hours minutes ∧
      zoneMicros negative hours minutes < dayMicros := by
    omega
  exact ⟨⟨_, hin⟩, rfl⟩

/-- Also `-00:00` is read, as no offset from universal time. -/
theorem readOffset_zone (negative : Bool) {hours minutes : Nat} (hh : hours < 24)
    (hm : minutes < 60) : ∃ o, readOffset negative (pad 2 hours ++ ':' :: pad 2 minutes) = some o ∧
      o.micros = zoneMicros negative hours minutes := by
  have hminutes : pad 2 minutes ≠ [] := by
    obtain ⟨c, t, ht, -⟩ := pad_eq_cons (k := 2) (n := minutes)
    simp [ht]
  have hclock : readClock false (pad 2 hours ++ ':' :: pad 2 minutes) =
      some (hours, minutes, 0, 0) := by
    rw [readClock, readFields_colon rfl (by omega) hminutes, readFields_end _ (by omega)]
    rfl
  have hwhole : hours * hourMicros + minutes * minuteMicros + 0 * secondMicros =
      (zoneMicros negative hours minutes).natAbs := by
    rw [natAbs_zoneMicros, Nat.zero_mul, Nat.add_zero]
  rw [readOffset_of_readClock negative hclock hwhole, Nat.add_zero]
  obtain ⟨o, ho⟩ := exists_offset_zone negative hh hm
  split
  · rename_i hzero
    exact ⟨.utc, rfl, (Int.natAbs_eq_zero.mp hzero).symm⟩
  · refine ⟨o, ?_, ho⟩
    have hsigned : (if negative = true then -((zoneMicros negative hours minutes).natAbs : Int)
        else (zoneMicros negative hours minutes).natAbs) = zoneMicros negative hours minutes := by
      rw [natAbs_zoneMicros, zoneMicros]
    rw [hsigned, ← ho, Offset.ofMicros?_eq_some]

end VaultSearch.Time

namespace VaultSearch.Filtering

open Text Time Note Yaml

section Stamps

variable (sep : Char) (shown : Moment) {rest : Text}

theorem head?_text : ∀ c ∈ (shown.text sep ++ rest).head?, isBlank c = false := by
  obtain ⟨d, t, ht, hd⟩ := pad_eq_cons (k := 4) (n := shown.date.civil.1)
  rw [shown.text_append, Date.text_eq, ht]
  rintro c ⟨⟩
  exact not_isBlank_of_isDigit hd

theorem getLast?_text : ∀ c ∈ (shown.text sep ++ rest).getLast?,
    c ∈ Moment.clockText shown.clock ∨ c ∈ rest := by
  intro c hc
  have hne : Moment.clockText shown.clock ++ rest ≠ [] := by
    simp only [Moment.clockText, List.append_assoc]
    exact pad_append_ne_nil _ _ _
  rw [shown.text_append, List.getLast?_append_of_ne_nil _ (List.cons_ne_nil _ _),
    List.getLast?_cons_of_ne_nil hne] at hc
  exact List.mem_append.mp (List.mem_of_getLast? hc)

/-- Nothing is taken off a moment that is written as text, with an offset or without. -/
theorem readStamp?_append (h : ∀ c ∈ rest, IsInner c) :
    readStamp? (shown.text sep ++ rest) = Stamp.read? (shown.text sep ++ rest) := by
  have hlast : ∀ c ∈ (shown.text sep ++ rest).getLast?, IsInner c := fun c hc =>
    (getLast?_text sep shown c hc).elim isInner_of_mem_clockText (h c)
  have htrim := trim_eq_self (head?_text sep shown) fun c hc => (hlast c hc).1
  have hzulu : (shown.text sep ++ rest).getLast? ≠ some 'Z' := fun hz => (hlast 'Z' hz).2 rfl
  rw [readStamp?, htrim, if_neg hzulu]

theorem readStamp?_zone (negative : Bool) {hours minutes : Nat} (hh : hours < 24)
    (hm : minutes < 60) : ∃ o : Offset, o.micros = zoneMicros negative hours minutes ∧
      readStamp? (shown.text sep ++ zoneText negative hours minutes) = some ⟨shown, some o⟩ := by
  obtain ⟨o, ho, hmicros⟩ := readOffset_zone negative hh hm
  refine ⟨o, hmicros, ?_⟩
  rw [readStamp?_append sep shown fun c hc => isInner_of_mem_zoneText hc]
  exact Stamp.read?_append (readTime_signed (Nat.mod_lt _ (by decide)) ho) sep

/-- A `Z` at the end is read as an offset of zero. -/
theorem readStamp?_zulu : readStamp? (shown.text sep ++ ['Z']) =
    readStamp? (shown.text sep ++ zoneText false 0 0) := by
  have htrim : trim (shown.text sep ++ ['Z']) = shown.text sep ++ ['Z'] := by
    refine trim_eq_self (head?_text sep shown) fun c hc => ?_
    rcases getLast?_text sep shown c hc with h | h
    · exact (isInner_of_mem_clockText h).1
    · rw [List.mem_singleton.mp h]
      decide
  rw [readStamp?_append sep shown fun c hc => isInner_of_mem_zoneText hc, readStamp?, htrim,
    List.getLast?_concat, if_pos rfl, List.dropLast_concat]
  rfl

theorem readStamp?_stamp {s : Stamp} (h : s.IsReadable) : readStamp? (s.text sep) = some s := by
  rw [s.text_eq, readStamp?_append sep s.shown fun c hc => isInner_of_mem_offsetSuffix hc,
    ← s.text_eq, Stamp.read?_text h]

end Stamps

section Frontmatter

variable {t path body : Text} {data : Metadata} {es : Entries}

theorem readNote_raw (h : readNote t path = .ok (data, body)) (hraw : data.raw = some es) :
    ∃ head label es', load head = .ok (.map label es') ∧ es = entriesOf label es' ∧
      readOptional (Value.lookup "created".toList es) = .ok data.created ∧
      readOptional (lastChange es) = .ok data.modified := by
  obtain ⟨⟨m, body⟩, hread, heq⟩ := map_eq_ok_iff.mp h
  cases heq
  obtain ⟨head, rest, label, es', -, hload, hes, hof, -⟩ := readFrontmatter_of_raw hread hraw
  obtain ⟨-, hcreated, hmodified⟩ := fields_ofEntries hof
  exact ⟨head, label, es', hload, hes, hcreated, hmodified⟩

/-- A stamp of a frontmatter is written so that its text stands for the same moment. -/
theorem moment?_readOptional {head key : Text} {m label : Option Nat} {s : Stamp}
    (hload : load head = .ok (.map m es))
    (hlookup : Value.lookup key (entriesOf m es) = some (.scalar (.stamp label s))) {w : Option Text}
    (h : readOptional (some (.scalar (.stamp label s))) = .ok w) :
    ∃ x, w = some x ∧ (Timestamp.text x).moment? = (Timestamp.stamp s).moment? := by
  have hread := readStamp?_stamp ' ' (load_stamp_readable hload .self hlookup)
  cases h
  refine ⟨_, rfl, ?_⟩
  simp only [Timestamp.moment?, hread]

theorem exists_key_of_lastChange {v : Value} (h : lastChange es = some v) :
    ∃ key, Value.lookup key es = some v := by
  rw [lastChange] at h
  cases hfirst : Value.lookup "modified".toList es with
  | none =>
      rw [hfirst] at h
      exact ⟨_, h⟩
  | some u =>
      rw [hfirst] at h
      exact ⟨_, hfirst.trans h⟩

end Frontmatter

section Moments

variable (sep : Char) (shown : Moment)

theorem moment?_zone_iff (negative : Bool) {hours minutes : Nat} (hh : hours < 24)
    (hm : minutes < 60) {m : Moment} :
    (Timestamp.text (shown.text sep ++ zoneText negative hours minutes)).moment? = .ok (some m) ↔
      (m.micros : Int) = shown.micros - zoneMicros negative hours minutes := by
  obtain ⟨o, ho, hstamp⟩ := readStamp?_zone sep shown negative hh hm
  rw [moment?_text_eq_some_iff, hstamp, ← ho]
  simp [Stamp.utcMicros]

theorem moment?_zulu :
    (Timestamp.text (shown.text sep ++ ['Z'])).moment? = .ok (some shown) := by
  have hzero : zoneMicros false 0 0 = 0 :=
    Int.natAbs_eq_zero.mp (by rw [natAbs_zoneMicros, Nat.zero_mul, Nat.zero_mul])
  rw [moment?_text_eq_some_iff, readStamp?_zulu, ← moment?_text_eq_some_iff,
    moment?_zone_iff sep shown false (by decide) (by decide), hzero, Int.sub_zero]

theorem moment?_plain : (Timestamp.text (shown.text sep)).moment? = .ok (some shown) := by
  have hread : readStamp? ((Stamp.naive shown).text sep) = some (.naive shown) :=
    readStamp?_stamp sep (by simp [Stamp.IsReadable, Stamp.naive])
  have htext : (Stamp.naive shown).text sep = shown.text sep := List.append_nil _
  rw [htext] at hread
  rw [moment?_text_eq_some_iff]
  exact ⟨_, hread, by simp [Stamp.utcMicros, Stamp.naive]⟩

end Moments

/-- Text that is written from a moment and an offset stands for that moment, less the offset. So the
dates of a note keep their moments when they are turned into text. -/
theorem moment?_written :
    (∀ (sep : Char) (shown : Moment),
      (∀ negative hours minutes, hours < 24 → minutes < 60 → ∀ m : Moment,
        (Timestamp.text (shown.text sep ++ zoneText negative hours minutes)).moment? =
            .ok (some m) ↔
          (m.micros : Int) = shown.micros - zoneMicros negative hours minutes) ∧
      (Timestamp.text (shown.text sep ++ ['Z'])).moment? = .ok (some shown) ∧
      (Timestamp.text (shown.text sep)).moment? = .ok (some shown)) ∧
    ∀ (t path : Text) (data : Metadata) (body : Text) (es : Entries),
      readNote t path = .ok (data, body) → data.raw = some es →
      ∀ (label : Option Nat) (s : Stamp),
        (Value.lookup "created".toList es = some (.scalar (.stamp label s)) →
          ∃ x, data.created = some x ∧
            (Timestamp.text x).moment? = (Timestamp.stamp s).moment?) ∧
        (lastChange es = some (.scalar (.stamp label s)) →
          ∃ x, data.modified = some x ∧
            (Timestamp.text x).moment? = (Timestamp.stamp s).moment?) := by
  refine ⟨fun sep shown => ⟨fun negative hours minutes hh hm m =>
      moment?_zone_iff sep shown negative hh hm, moment?_zulu sep shown, moment?_plain sep shown⟩,
    fun t path data body es hread hraw label s => ?_⟩
  obtain ⟨head, l, es', hload, rfl, hcreated, hmodified⟩ := readNote_raw hread hraw
  refine ⟨fun hlookup => ?_, fun hlookup => ?_⟩
  · rw [hlookup] at hcreated
    exact moment?_readOptional hload hlookup hcreated
  · obtain ⟨key, hkey⟩ := exists_key_of_lastChange hlookup
    rw [hlookup] at hmodified
    exact moment?_readOptional hload hkey hmodified

def marchNote : Text := "---\ncreated: 2024-03-01T00:30:00.25+01:00\n---\nBody\n".toList

def marchMoment : Moment := ⟨738945 * dayMicros + 30 * minuteMicros + 250000, by decide⟩

def marchStamp : Stamp := ⟨marchMoment, some ⟨hourMicros, by decide⟩⟩

def leapEvening : Moment :=
  ⟨738944 * dayMicros + 23 * hourMicros + 30 * minuteMicros + 250000, by decide⟩

def scalarAt (key : Text) (es : Entries) : Option Scalar :=
  match Value.lookup key es with
  | some (.scalar s) => some s
  | _ => none

theorem lookup_of_scalarAt {key : Text} {es : Entries} {s : Scalar} (h : scalarAt key es = some s) :
    Value.lookup key es = some (.scalar s) := by
  rw [scalarAt] at h
  split at h
  · rename_i hlookup
    cases h
    exact hlookup
  · cases h

theorem marchNote_reads : ∃ data body es, readNote marchNote [] = .ok (data, body) ∧
    data.raw = some es ∧
    Value.lookup "created".toList es = some (.scalar (.stamp (some 2) marchStamp)) := by
  have hscalar : ((readNote marchNote []).toOption.bind fun note =>
      note.1.raw.bind (scalarAt "created".toList)) = some (.stamp (some 2) marchStamp) := by
    decide +kernel
  obtain ⟨⟨data, body⟩, hread, hscalar⟩ := Option.bind_eq_some_iff.mp hscalar
  obtain ⟨es, hraw, hscalar⟩ := Option.bind_eq_some_iff.mp hscalar
  exact ⟨data, body, es, eq_ok_of_toOption hread, hraw, lookup_of_scalarAt hscalar⟩

theorem moment?_written_march :
    leapEvening.date.civil = (2024, 2, 29) ∧
      (Timestamp.text "2024-03-01T00:30:00.250000+01:00".toList).moment? = .ok (some leapEvening) ∧
      (Timestamp.text "2024-03-01 00:30:00.250000Z".toList).moment? = .ok (some marchMoment) ∧
      ∃ data body w, readNote marchNote [] = .ok (data, body) ∧ data.created = some w ∧
        (Timestamp.text w).moment? = .ok (some leapEvening) := by
  obtain ⟨hwritten, hfront⟩ := moment?_written
  obtain ⟨hzone, -, -⟩ := hwritten 'T' marchMoment
  obtain ⟨-, hzulu, -⟩ := hwritten ' ' marchMoment
  obtain ⟨data, body, es, hread, hraw, hlookup⟩ := marchNote_reads
  obtain ⟨w, hw, hmoment⟩ := (hfront marchNote [] data body es hread hraw _ _).1 hlookup
  refine ⟨by decide +kernel, ?_, ?_, data, body, w, hread, hw, ?_⟩
  · have htext : "2024-03-01T00:30:00.250000+01:00".toList =
        marchMoment.text 'T' ++ zoneText false 1 0 := by
      decide +kernel
    rw [htext, hzone false 1 0 (by decide) (by decide)]
    decide
  · have htext : "2024-03-01 00:30:00.250000Z".toList = marchMoment.text ' ' ++ ['Z'] := by
      decide +kernel
    rw [htext, hzulu]
  · rw [hmoment]
    exact eq_ok_of_toOption (by decide +kernel)

end VaultSearch.Filtering
