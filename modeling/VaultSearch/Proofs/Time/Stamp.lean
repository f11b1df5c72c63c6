import VaultSearch.Proofs.Text
import VaultSearch.Proofs.Time.Calendar
import VaultSearch.Proofs.Time.Civil
import VaultSearch.Time.Iso

namespace VaultSearch.Time

open Text

theorem isDigit_of_mem_pad {k n : Nat} : ∀ c ∈ pad k n, c.isDigit = true := by
  intro c hc
  rw [pad, List.mem_append] at hc
  rcases hc with hc | hc
  · rw [(List.mem_replicate.mp hc).2]
    rfl
  · exact Nat.isDigit_of_mem_toDigits (by decide) (by decide) hc

theorem length_pad {k n : Nat} (hk : 0 < k) (hn : n < Nat.pow 10 k) : (pad k n).length = k := by
  have hlength := (Nat.length_toDigits_le_iff (b := 10) (by decide) hk).mpr hn
  simp only [pad, List.length_append, List.length_replicate]
  omega

theorem readDigits_append {s : Text} (hs : ∀ c ∈ s, c.isDigit = true) (v : Nat) (rest : Text) :
    readDigits s.length v (s ++ rest) = some (Nat.ofDigitChars 10 s v, rest) := by
  induction s generalizing v with
  | nil => cases rest <;> rfl
  | cons c s ih =>
      obtain ⟨hc, hs⟩ := List.forall_mem_cons.mp hs
      rw [List.cons_append, List.length_cons, readDigits, digit?, if_pos hc, Option.bind_some,
        Nat.ofDigitChars_cons]
      exact ih hs _

/-- A number that is padded with zeros to some width is read back at that width. -/
theorem readDigits_pad {k n : Nat} (hk : 0 < k) (hn : n < Nat.pow 10 k) (rest : Text) :
    readDigits k 0 (pad k n ++ rest) = some (n, rest) := by
  have hread := readDigits_append (s := pad k n) isDigit_of_mem_pad 0 rest
  rw [length_pad hk hn] at hread
  rw [hread, pad, Nat.ofDigitChars_append, Nat.ofDigitChars_replicate_zero, Nat.mul_zero,
    Nat.ofDigitChars_toDigits (by decide) (by decide)]

theorem pad_eq_cons {k n : Nat} : ∃ c t, pad k n = c :: t ∧ c.isDigit = true := by
  cases h : pad k n with
  | nil => simp [pad, Nat.toDigits_ne_nil] at h
  | cons c t => exact ⟨c, t, rfl, isDigit_of_mem_pad c (h ▸ List.mem_cons_self)⟩

theorem pad_append_ne_nil (k n : Nat) (t : Text) : pad k n ++ t ≠ [] := by
  obtain ⟨c, u, hu, -⟩ := pad_eq_cons (k := k) (n := n)
  simp [hu]

/-- Stated for any texts: where the parts of a date stand in a sum of lengths, the kernel starts to
compute the year. -/
theorem length_dashed {year month day : Text} (hyear : year.length = 4) (hmonth : month.length = 2)
    (hday : day.length = 2) : (year ++ '-' :: (month ++ '-' :: day)).length = 10 := by
  simp [hyear, hmonth, hday]

theorem ten_le_append {t : Text} (h : t.length = 10) (u : Text) : 10 ≤ (t ++ u).length := by
  rw [List.length_append, h]
  exact Nat.le_add_right 10 u.length

theorem dateWidth_of_drop {t u : Text} {c : Char} (hlength : 10 ≤ t.length)
    (hdrop : t.drop 4 = '-' :: c :: u) (hc : c ≠ 'W') : dateWidth t = 10 := by
  rw [dateWidth, if_neg (by omega), hdrop]
  simp [hc]

theorem Date.text_eq (d : Date) :
    d.text = pad 4 d.civil.1 ++ '-' :: (pad 2 d.civil.2.1 ++ '-' :: pad 2 d.civil.2.2) := by
  rw [Date.text]
  generalize d.civil = civil
  obtain ⟨year, month, day⟩ := civil
  simp

theorem Date.length_text (d : Date) : d.text.length = 10 := by
  obtain ⟨hyear, hmonth, hday⟩ := d.civil_lt
  rw [Date.text_eq]
  exact length_dashed (length_pad (by decide) hyear) (length_pad (by decide) hmonth)
    (length_pad (by decide) hday)

theorem ne_week_of_isDigit {c : Char} (h : c.isDigit = true) : c ≠ 'W' := by
  rintro rfl
  cases h

/-- What follows a date has no bearing on where it ends. -/
theorem dateWidth_text (d : Date) (rest : Text) : dateWidth (d.text ++ rest) = 10 := by
  obtain ⟨c, t, ht, hc⟩ := pad_eq_cons (k := 2) (n := d.civil.2.1)
  have hyear : (pad 4 d.civil.1).length = 4 := length_pad (by decide) d.civil_lt.1
  -- A date of a year and a week has a `W` where this one has the first digit of the month.
  have hdrop : (d.text ++ rest).drop 4 = '-' :: c :: (t ++ '-' :: pad 2 d.civil.2.2 ++ rest) := by
    rw [Date.text_eq, ht, List.append_assoc, List.drop_left' hyear]
    rfl
  exact dateWidth_of_drop (ten_le_append d.length_text rest) hdrop (ne_week_of_isDigit hc)

theorem readDate_text (d : Date) : readDate d.text = some d := by
  have hdate := d.ofCivil_civil
  obtain ⟨hyear, hmonth, hday⟩ := d.civil_lt
  rw [Date.text_eq]
  generalize d.civil = civil at *
  obtain ⟨year, month, day⟩ := civil
  obtain ⟨c, t, ht, hc⟩ := pad_eq_cons (k := 2) (n := month)
  have hreadMonth := readDigits_pad (k := 2) (by decide) hmonth ('-' :: pad 2 day)
  have hreadDay := readDigits_pad (k := 2) (by decide) hday []
  rw [ht, List.cons_append] at hreadMonth
  rw [List.append_nil] at hreadDay
  rw [readDate, readDigits_pad (by decide) hyear, ht]
  simp [ne_week_of_isDigit hc, hreadMonth, hreadDay, hdate, Except.toOption]

/-- The time of a day, as the microseconds in its hours, minutes, seconds and what is left. -/
theorem clock_eq (n : Nat) :
    n / hourMicros * hourMicros + n / minuteMicros % 60 * minuteMicros +
      n / secondMicros % 60 * secondMicros + n % secondMicros = n := by
  simp only [hourMicros, minuteMicros, secondMicros]
  omega

section Fields

variable {loose : Bool}

theorem readFields_colon {colons : Option Bool} (hcolons : colons.getD true = true) {v : Nat}
    (hv : v < 100) {left : Nat} {done : List Nat} {u : Text} (hu : u ≠ []) :
    readFields loose colons (left + 1) done (pad 2 v ++ ':' :: u) =
      readFields loose (some true) left (done ++ [v]) u := by
  rw [readFields, readDigits_pad (by decide) hv]
  cases u with
  | nil => exact absurd rfl hu
  | cons c u => simp [hcolons]

theorem readFields_end (colons : Option Bool) {v : Nat} (hv : v < 100) (left : Nat) (done : List Nat) :
    readFields loose colons left done (pad 2 v) = some (done ++ [v], 0) := by
  have hread := readDigits_pad (k := 2) (by decide) hv []
  rw [List.append_nil] at hread
  rw [readFields, hread]

theorem readFraction_pad {f : Nat} (hf : f < 1000000) : readFraction loose (pad 6 f) = some f := by
  have hread := readDigits_pad (k := 6) (by decide) hf []
  rw [List.append_nil] at hread
  have hwidth : (pad 6 f).length = 6 := length_pad (by decide) hf
  rw [readFraction, hwidth]
  simp [hread]

theorem readFields_seconds {v f : Nat} (hv : v < 100) (hf : f < 1000000) (left : Nat)
    (done : List Nat) :
    readFields loose (some true) left done (pad 2 v ++ if f = 0 then [] else '.' :: pad 6 f) =
      some (done ++ [v], f) := by
  split
  · rename_i hzero
    rw [List.append_nil, readFields_end _ hv, hzero]
  · obtain ⟨c, t, ht, -⟩ := pad_eq_cons (k := 6) (n := f)
    rw [readFields, readDigits_pad (by decide) hv, ht]
    simp [← ht, readFraction_pad hf]

end Fields

theorem fields_lt {n : Nat} (hn : n < dayMicros) :
    n / hourMicros < 24 ∧ n / minuteMicros % 60 < 60 ∧ n / secondMicros % 60 < 60 ∧
      n % secondMicros < 1000000 := by
  have hhour : n / hourMicros < 24 := Nat.div_lt_of_lt_mul hn
  exact ⟨hhour, Nat.mod_lt _ (by decide), Nat.mod_lt _ (by decide), Nat.mod_lt _ (by decide)⟩

theorem readClock_clockText (loose : Bool) {n : Nat} (hn : n < dayMicros) :
    readClock loose (Moment.clockText n) =
      some (n / hourMicros, n / minuteMicros % 60, n / secondMicros % 60, n % secondMicros) := by
  obtain ⟨hhour, hminute, hsecond, hfraction⟩ := fields_lt hn
  have htext : Moment.clockText n = pad 2 (n / hourMicros) ++ ':' :: (pad 2 (n / minuteMicros % 60) ++
      ':' :: (pad 2 (n / secondMicros % 60) ++
        if n % secondMicros = 0 then [] else '.' :: pad 6 (n % secondMicros))) := by
    simp [Moment.clockText]
  rw [readClock, htext, readFields_colon rfl (by omega) (pad_append_ne_nil _ _ _),
    readFields_colon rfl (by omega) (pad_append_ne_nil _ _ _), readFields_seconds (by omega) hfraction]
  rfl

/-- An offset of less than a second that is not zero cannot be told from none by its text. -/
def Stamp.IsReadable (s : Stamp) : Prop :=
  ∀ o ∈ s.offset, o.micros = 0 ∨ secondMicros ≤ o.micros.natAbs

def spanDigits (n : Nat) : Text :=
  pad 2 (n / hourMicros) ++ ':' :: (pad 2 (n / minuteMicros % 60) ++
    if n % minuteMicros = 0 then []
    else ':' :: (pad 2 (n % minuteMicros / secondMicros) ++
      if n % minuteMicros % secondMicros = 0 then []
      else '.' :: pad 6 (n % minuteMicros % secondMicros)))

theorem Offset.text_eq (o : Offset) :
    o.text = (if o.micros < 0 then '-' else '+') :: spanDigits o.micros.natAbs := by
  simp only [Offset.text, spanDigits, List.append_assoc, List.cons_append]

theorem readClock_spanDigits {n : Nat} (hn : n < dayMicros) :
    readClock false (spanDigits n) =
      some (n / hourMicros, n / minuteMicros % 60, n / secondMicros % 60, n % secondMicros) := by
  obtain ⟨hhour, hminute, hsecond, hfraction⟩ := fields_lt hn
  have hseconds : n % minuteMicros / secondMicros = n / secondMicros % 60 := by
    simp only [minuteMicros, secondMicros]
    omega
  have hrest : n % minuteMicros % secondMicros = n % secondMicros := by
    simp only [minuteMicros, secondMicros]
    omega
  rw [spanDigits, readClock, readFields_colon rfl (by omega) (pad_append_ne_nil _ _ _), hseconds, hrest]
  split
  · rename_i hzero
    have hzero : n / secondMicros % 60 = 0 ∧ n % secondMicros = 0 := by
      simp only [minuteMicros, secondMicros] at hzero ⊢
      omega
    rw [List.append_nil, readFields_end _ (by omega), hzero.1, hzero.2]
    rfl
  · rw [readFields_colon rfl (by omega) (pad_append_ne_nil _ _ _), readFields_seconds (by omega) hfraction]
    rfl

theorem Offset.ofMicros?_eq_some (o : Offset) : Offset.ofMicros? o.micros = some o := by
  rw [Offset.ofMicros?, dif_pos o.inRange]

theorem Offset.eq_utc {o : Offset} (h : o.micros = 0) : o = .utc := by
  obtain ⟨micros, hrange⟩ := o
  cases h
  rfl

theorem readOffset_eq (negative : Bool) (t : Text) :
    readOffset negative t = (readClock false t).bind fun (h, m, s, micros) =>
      let whole := h * hourMicros + m * minuteMicros + s * secondMicros
      if whole = 0 then some .utc
      else Offset.ofMicros? (if negative then -(whole + micros : Nat) else (whole + micros : Nat)) :=
  rfl

theorem readOffset_of_readClock {t : Text} {h m s micros : Nat} (negative : Bool)
    (hclock : readClock false t = some (h, m, s, micros)) {whole : Nat}
    (hwhole : h * hourMicros + m * minuteMicros + s * secondMicros = whole) :
    readOffset negative t =
      if whole = 0 then some .utc
      else Offset.ofMicros? (if negative then -(whole + micros : Nat) else (whole + micros : Nat)) := by
  subst hwhole
  rw [readOffset_eq, hclock, Option.bind_some]

theorem readOffset_spanDigits {o : Offset} (h : o.micros = 0 ∨ secondMicros ≤ o.micros.natAbs) :
    readOffset (o.micros < 0) (spanDigits o.micros.natAbs) = some o := by
  have hn : o.micros.natAbs < dayMicros := by
    have := o.inRange
    omega
  have hsum := clock_eq o.micros.natAbs
  have hfraction : o.micros.natAbs % secondMicros < secondMicros := Nat.mod_lt _ (by decide)
  generalize hwhole : o.micros.natAbs / hourMicros * hourMicros +
    o.micros.natAbs / minuteMicros % 60 * minuteMicros +
    o.micros.natAbs / secondMicros % 60 * secondMicros = whole at hsum
  rw [readOffset_of_readClock _ (readClock_spanDigits hn) hwhole, hsum]
  split
  · have hzero : o.micros = 0 := by omega
    exact congrArg some (Offset.eq_utc hzero).symm
  · have hmicros : (if decide (o.micros < 0) = true then -(o.micros.natAbs : Int)
        else o.micros.natAbs) = o.micros := by
      simp only [decide_eq_true_eq]
      split <;> omega
    rw [hmicros, Offset.ofMicros?_eq_some]

theorem isOffsetSign_sign (b : Prop) [Decidable b] : isOffsetSign (if b then '-' else '+') = true := by
  split <;> rfl

theorem not_isOffsetSign_of_isDigit {c : Char} (h : c.isDigit = true) : isOffsetSign c = false := by
  cases hc : isOffsetSign c with
  | false => rfl
  | true =>
      simp only [isOffsetSign, Bool.or_eq_true, beq_iff_eq] at hc
      rcases hc with (rfl | rfl) | rfl <;> cases h

theorem not_isOffsetSign_of_mem_clockText {n : Nat} :
    ∀ c ∈ Moment.clockText n, isOffsetSign c = false := by
  have hpad (k m : Nat) : ∀ c ∈ pad k m, isOffsetSign c = false :=
    fun c hc => not_isOffsetSign_of_isDigit (isDigit_of_mem_pad c hc)
  intro c hc
  simp only [Moment.clockText, List.mem_append, List.mem_cons] at hc
  rcases hc with ((hc | rfl | hc) | rfl | hc) | hc
  · exact hpad _ _ c hc
  · rfl
  · exact hpad _ _ c hc
  · rfl
  · exact hpad _ _ c hc
  · split at hc
    · cases hc
    · rcases List.mem_cons.mp hc with rfl | hc
      · rfl
      · exact hpad _ _ c hc

section Times

variable {n : Nat} (hn : n < dayMicros)

include hn

theorem readTime_clockText : readTime (Moment.clockText n) =
    some ((n / hourMicros, n / minuteMicros % 60, n / secondMicros % 60, n % secondMicros), none) := by
  have hclock : ∀ c ∈ Moment.clockText n, (!isOffsetSign c) = true := fun c hc => by
    rw [not_isOffsetSign_of_mem_clockText c hc]
    rfl
  have hend := dropWhile_append_run hclock (t := []) (by simp)
  rw [List.append_nil] at hend
  rw [readTime, hend]
  simp only [readClock_clockText false hn, Option.map_some]

/-- A sign after the time starts an offset. -/
theorem readTime_signed {negative : Bool} {digits : Text} {o : Offset}
    (h : readOffset negative digits = some o) :
    readTime (Moment.clockText n ++ (if negative then '-' else '+') :: digits) =
      some ((n / hourMicros, n / minuteMicros % 60, n / secondMicros % 60, n % secondMicros),
        some o) := by
  have hclock : ∀ c ∈ Moment.clockText n, (!isOffsetSign c) = true := fun c hc => by
    rw [not_isOffsetSign_of_mem_clockText c hc]
    rfl
  have hsign : ∀ c ∈ ((if negative then '-' else '+') :: digits).head?, (!isOffsetSign c) = false := by
    simp [isOffsetSign_sign]
  have hzed : ¬(if negative then '-' else '+') = 'Z' := by
    cases negative <;> decide
  have hnegative : decide ((if negative then '-' else '+') = '-') = negative := by
    cases negative <;> rfl
  rw [readTime, dropWhile_append_run hclock hsign, takeWhile_append_run hclock hsign]
  simp only [Option.bind_eq_bind, Option.bind_some, readClock_clockText true hn, hzed, if_false,
    hnegative, h]

end Times

def offsetSuffix : Option Offset → Text
  | none => []
  | some o => o.text

theorem readTime_text {n : Nat} (hn : n < dayMicros) {offset : Option Offset}
    (h : ∀ o ∈ offset, o.micros = 0 ∨ secondMicros ≤ o.micros.natAbs) :
    readTime (Moment.clockText n ++ offsetSuffix offset) =
      some ((n / hourMicros, n / minuteMicros % 60, n / secondMicros % 60, n % secondMicros),
        offset) := by
  cases offset with
  | none =>
      rw [offsetSuffix, List.append_nil]
      exact readTime_clockText hn
  | some o =>
      have hread := readTime_signed hn (readOffset_spanDigits (h o rfl))
      simp only [decide_eq_true_eq] at hread
      rw [offsetSuffix, o.text_eq]
      exact hread

theorem ofClock_eq {m : Moment} {d : Date} (hd : d.index = m.micros / dayMicros) {h mi s f : Nat}
    (hfields : h < 24 ∧ mi < 60 ∧ s < 60)
    (hclock : h * hourMicros + mi * minuteMicros + s * secondMicros + f = m.micros % dayMicros) :
    Moment.ofClock d h mi s f = .ok m := by
  have hmicros : (m.micros : Int) = (d.index * dayMicros +
      (h * hourMicros + mi * minuteMicros + s * secondMicros + f) : Nat) := by
    rw [hclock, hd, Nat.div_add_mod']
  rw [Moment.ofClock, if_neg (by omega), if_neg (by omega), if_neg (by omega)]
  dsimp only
  rw [Moment.ofMicros?_eq_some_iff.mpr hmicros]

theorem Moment.text_append (sep : Char) (m : Moment) (rest : Text) :
    m.text sep ++ rest = m.date.text ++ sep :: (Moment.clockText m.clock ++ rest) := by
  simp [Moment.text]

/-- Whatever stands between the date and the time, the moment is read back as it was written. -/
theorem Stamp.read?_append {m : Moment} {rest : Text} {offset : Option Offset}
    (h : readTime (Moment.clockText m.clock ++ rest) =
      some ((m.clock / hourMicros, m.clock / minuteMicros % 60, m.clock / secondMicros % 60,
        m.clock % secondMicros), offset)) (sep : Char) :
    Stamp.read? (m.text sep ++ rest) = some ⟨m, offset⟩ := by
  have hn : m.clock < dayMicros := Nat.mod_lt _ (by decide)
  have hlength := m.date.length_text
  have hlong := ten_le_append hlength (sep :: (Moment.clockText m.clock ++ rest))
  have hmoment : Moment.ofClock m.date (m.clock / hourMicros) (m.clock / minuteMicros % 60)
      (m.clock / secondMicros % 60) (m.clock % secondMicros) = .ok m :=
    ofClock_eq rfl ⟨(fields_lt hn).1, (fields_lt hn).2.1, (fields_lt hn).2.2.1⟩ (clock_eq _)
  rw [Stamp.read?, m.text_append, if_neg (Nat.not_lt.mpr (Nat.le_trans (by decide) hlong))]
  simp only [dateWidth_text, List.take_left' hlength, List.drop_left' hlength, readDate_text]
  simp only [Option.bind_eq_bind, Option.bind_some, h, hmoment, Except.toOption]

theorem Stamp.text_eq (sep : Char) (s : Stamp) :
    s.text sep = s.shown.text sep ++ offsetSuffix s.offset := by
  obtain ⟨m, offset⟩ := s
  cases offset <;> rfl

/-- A stamp is read back as it was written, with any character between the date and the time. -/
theorem Stamp.read?_text {s : Stamp} (h : s.IsReadable) (sep : Char) :
    Stamp.read? (s.text sep) = some s := by
  rw [s.text_eq, Stamp.read?_append (readTime_text (Nat.mod_lt _ (by decide)) h)]

theorem Offset.micros_of_ofMicros? {n : Int} {o : Offset} (h : Offset.ofMicros? n = some o) :
    o.micros = n := by
  rw [Offset.ofMicros?] at h
  split at h
  · cases h
    rfl
  · cases h

theorem readOffset_readable {negative : Bool} {t : Text} {o : Offset}
    (h : readOffset negative t = some o) : o.micros = 0 ∨ secondMicros ≤ o.micros.natAbs := by
  obtain ⟨⟨hours, minutes, seconds, micros⟩, hclock, -⟩ :=
    Option.bind_eq_some_iff.mp ((readOffset_eq negative t).symm.trans h)
  generalize hwhole : hours * hourMicros + minutes * minuteMicros + seconds * secondMicros = whole
  rw [readOffset_of_readClock negative hclock hwhole] at h
  split at h
  · cases h
    exact .inl rfl
  · have hseconds : secondMicros ≤ whole := by
      have hfactor : whole = (hours * 3600 + minutes * 60 + seconds) * secondMicros := by
        simp only [← hwhole, hourMicros, minuteMicros, secondMicros]
        omega
      rw [hfactor]
      exact Nat.le_mul_of_pos_left _ (Nat.pos_of_ne_zero fun hzero => by simp_all)
    refine .inr ?_
    rw [Offset.micros_of_ofMicros? h]
    split <;> omega

theorem readTime_readable {t : Text} {clock : Nat × Nat × Nat × Nat} {offset : Option Offset}
    (h : readTime t = some (clock, offset)) :
    ∀ o ∈ offset, o.micros = 0 ∨ secondMicros ≤ o.micros.natAbs := by
  rw [readTime] at h
  split at h
  · obtain ⟨_, -, heq⟩ := Option.map_eq_some_iff.mp h
    cases heq
    simp
  · obtain ⟨_, -, h⟩ := Option.bind_eq_some_iff.mp h
    split at h
    · split at h
      · cases h
        rintro o ⟨⟩
        exact .inl rfl
      · cases h
    · obtain ⟨offset, hoffset, h⟩ := Option.bind_eq_some_iff.mp h
      cases h
      rintro o ⟨⟩
      exact readOffset_readable hoffset

/-- What is read off a text can be written and read again. -/
theorem Stamp.isReadable_of_read? {t : Text} {s : Stamp} (h : Stamp.read? t = some s) :
    s.IsReadable := by
  rw [Stamp.read?] at h
  split at h
  · cases h
  · obtain ⟨date, -, h⟩ := Option.bind_eq_some_iff.mp h
    split at h
    · obtain ⟨_, hclock, h⟩ := Option.bind_eq_some_iff.mp h
      cases hclock
      obtain ⟨shown, -, h⟩ := Option.bind_eq_some_iff.mp h
      cases h
      simp [Stamp.IsReadable]
    · obtain ⟨⟨clock, offset⟩, htime, h⟩ := Option.bind_eq_some_iff.mp h
      obtain ⟨shown, -, h⟩ := Option.bind_eq_some_iff.mp h
      cases h
      exact readTime_readable htime

end VaultSearch.Time
