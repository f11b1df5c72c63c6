import VaultSearch.Proofs.Lock.Counting

namespace VaultSearch.Lock

variable {Thread : Type} [DecidableEq Thread]

/-- Nobody sleeps who could go in. -/
structure SleepersBlocked (x : Lock Thread) : Prop where
  reader : ∀ {t g}, x.places.get? t = some (.readerWaits g false) → x.generation = g
  writer : ∀ {t}, x.places.get? t = some (.writerWaits false) → x.isBusy = true

theorem sleepersBlocked_empty : ({} : Lock Thread).SleepersBlocked := ⟨by simp, by simp⟩

omit [DecidableEq Thread] in
theorem isBusy_iff (x : Lock Thread) :
    x.isBusy = true ↔ x.writer = true ∨ x.readers ≠ 0 ∨ x.admitted ≠ 0 := by
  simp [isBusy, or_assoc]

theorem SleepersBlocked.put {x y : Lock Thread} (h : x.SleepersBlocked) {t : Thread} {p : Place}
    (hplaces : y.places = x.places.put t p) (hgeneration : y.generation = x.generation)
    (hbusy : x.isBusy = true → y.isBusy = true)
    (hreader : ∀ {g}, p = .readerWaits g false → x.generation = g)
    (hwriter : p = .writerWaits false → y.isBusy = true) : y.SleepersBlocked where
  reader := by
    intro s g hs
    rw [hplaces, Table.get?_put] at hs
    rw [hgeneration]
    split at hs
    · exact hreader (Option.some.inj hs)
    · exact h.reader hs
  writer := by
    intro s hs
    rw [hplaces, Table.get?_put] at hs
    split at hs
    · exact hwriter (Option.some.inj hs)
    · exact hbusy (h.writer hs)

theorem sleepersBlocked_callAll (x : Lock Thread) : x.callAll.SleepersBlocked where
  reader := by
    intro t g ht
    rw [get?_callAll, Option.map_eq_some_iff] at ht
    obtain ⟨p, -, hcall⟩ := ht
    cases p <;> cases hcall
  writer := by
    intro t ht
    rw [get?_callAll, Option.map_eq_some_iff] at ht
    obtain ⟨p, -, hcall⟩ := ht
    cases p <;> cases hcall

theorem SleepersBlocked.move {x y : Lock Thread} {e : Option (Event Thread)}
    (hx : x.SleepersBlocked) (h : x.Counted) (hm : Move x e y) : y.SleepersBlocked := by
  have hreaders : 0 ≤ x.readers := by
    rw [h.readers_eq]
    exact Int.natCast_nonneg _
  cases hm with
  | stays => exact hx
  | queues t => exact hx.put rfl rfl id (fun hg => by cases hg; rfl) (by simp)
  | readerSleeps t => exact hx.put rfl rfl id (fun hg => by cases hg; rfl) (by simp)
  | enters t | admittedEnters t =>
      refine hx.put rfl rfl (fun _ => ?_) (by simp) (by simp)
      rw [isBusy_iff]
      exact Or.inr (Or.inl (by simp only; omega))
  | leaves t hplace hothers =>
      refine ⟨fun hs => ?_, fun _ => ?_⟩
      · rw [Table.get?_erase] at hs
        split at hs
        · cases hs
        · exact hx.reader hs
      · rw [isBusy_iff]
        exact Or.inr (Or.inl (by simp only; omega))
  | waits t _ hbusy | writerSleeps t _ hbusy => exact hx.put rfl rfl id (by simp) fun _ => hbusy
  | acquires t | waitingAcquires t =>
      exact hx.put rfl rfl (fun _ => (isBusy_iff _).mpr (Or.inl rfl)) (by simp) (by simp)
  | lastLeaves | releases => exact sleepersBlocked_callAll _

def BehindWriter (x : Lock Thread) : Prop :=
  x.readersWaiting ≠ 0 → x.writer = true ∨ x.writersWaiting ≠ 0

omit [DecidableEq Thread] in
theorem behindWriter_letIn (x : Lock Thread) : x.letIn.BehindWriter := by
  intro hq
  rw [letIn] at hq
  split at hq
  · exact absurd rfl hq
  · exact absurd hq ‹_›

theorem BehindWriter.move {x y : Lock Thread} {e : Option (Event Thread)} (hx : x.BehindWriter)
    (h : x.Counted) (hm : Move x e y) : y.BehindWriter := by
  have hwriters : 0 ≤ x.writersWaiting := by
    rw [h.writersWaiting_eq]
    exact Int.natCast_nonneg _
  cases hm with
  | stays | readerSleeps | writerSleeps | enters | admittedEnters | leaves | lastLeaves => exact hx
  | queues t _ hheld => exact fun _ => hheld
  | waits => exact fun _ => Or.inr (by simp only; omega)
  | acquires | waitingAcquires => exact fun _ => Or.inl rfl
  | releases => exact behindWriter_letIn _

/-- Whoever was called has looked, and is inside or sleeps again. -/
def Quiet (x : Lock Thread) : Prop := ∀ t, x.step (.look t) = x

theorem look_of_not_isAwake {x : Lock Thread} {t : Thread}
    (h : ∀ p, x.places.get? t = some p → p.isAwake = false) : x.look t = x := by
  rw [look]
  cases hplace : x.places.get? t with
  | none => rfl
  | some p =>
      have hp := h p hplace
      cases p with
      | reading | writing => rfl
      | readerWaits g awake | writerWaits awake =>
          rw [Place.isAwake] at hp
          subst hp
          rfl

theorem get?_look_of_ne (x : Lock Thread) {s t : Thread} (hs : s ≠ t) :
    (x.look t).places.get? s = x.places.get? s := by
  rw [look]
  split
  · split <;> simp [hs]
  · split <;> simp [hs]
  · rfl

theorem not_isAwake_look {x : Lock Thread} {t : Thread} {p : Place}
    (hp : (x.look t).places.get? t = some p) : p.isAwake = false := by
  rw [look] at hp
  split at hp
  · split at hp <;> (simp at hp; subst hp; rfl)
  · split at hp <;> (simp at hp; subst hp; rfl)
  · rename_i hr hw
    cases p with
    | reading | writing => rfl
    | readerWaits g awake => cases awake with
      | false => rfl
      | true => exact absurd hp (hr g)
    | writerWaits awake => cases awake with
      | false => rfl
      | true => exact absurd hp hw

theorem quiet_iff {x : Lock Thread} :
    x.Quiet ↔ ∀ t p, x.places.get? t = some p → p.isAwake = false := by
  constructor
  · intro hq t p hp
    rw [← hq t] at hp
    exact not_isAwake_look hp
  · intro h t
    exact look_of_not_isAwake (h t)

theorem quiet_foldl_look {x : Lock Thread} {ts : List Thread}
    (h : ∀ t p, x.places.get? t = some p → p.isAwake = true → t ∈ ts) : (ts.foldl look x).Quiet := by
  induction ts generalizing x with
  | nil =>
      refine quiet_iff.mpr fun t p hp => ?_
      cases hawake : p.isAwake with
      | false => rfl
      | true => exact absurd (h t p hp hawake) List.not_mem_nil
  | cons t ts ih =>
      refine ih fun s p hp hawake => ?_
      have hs : s ≠ t := by
        rintro rfl
        rw [not_isAwake_look hp] at hawake
        cases hawake
      rw [get?_look_of_ne x hs] at hp
      exact (List.mem_cons.mp (h s p hp hawake)).resolve_left hs

/-- One look of everybody is as far as the threads that were called can get. -/
theorem quiet_settle (x : Lock Thread) : x.settle.Quiet :=
  quiet_foldl_look fun _ p hp _ => Table.mem_keys_iff.mpr ⟨p, hp⟩

theorem SleepersBlocked.generation_eq {x : Lock Thread} (hx : x.SleepersBlocked) (hq : x.Quiet)
    {t : Thread} {g : Nat} (hw : x.Waits t g) : x.generation = g := by
  obtain ⟨awake, hplace⟩ := hw
  have hasleep : awake = false := quiet_iff.mp hq t _ hplace
  subst hasleep
  exact hx.reader hplace

theorem isBusy_of_waitingWriters {x : Lock Thread} (hx : x.SleepersBlocked) (hq : x.Quiet)
    (hw : x.waitingWriters ≠ []) : x.isBusy = true := by
  obtain ⟨t, ht⟩ := List.exists_mem_of_ne_nil _ hw
  obtain ⟨awake, hplace⟩ := mem_waitingWriters_iff.mp ht
  have hasleep : awake = false := quiet_iff.mp hq t _ hplace
  subst hasleep
  exact hx.writer hplace

theorem Counted.waitingWriters_ne_nil {x : Lock Thread} (h : x.Counted)
    (hw : x.writersWaiting ≠ 0) : x.waitingWriters ≠ [] := by
  intro hnil
  rw [h.writersWaiting_eq, hnil] at hw
  exact hw rfl

theorem Counted.writing_ne_nil {x : Lock Thread} (h : x.Counted) (hw : x.writer = true) :
    x.writing ≠ [] := by
  intro hnil
  have heq := h.writer_eq
  rw [hw, hnil] at heq
  simp at heq

theorem BehindWriter.of_queuedReaders {x : Lock Thread} (hx : x.BehindWriter) (h : x.Counted)
    (hr : x.queuedReaders ≠ []) : x.writer = true ∨ x.writersWaiting ≠ 0 := by
  refine hx fun hzero => hr (List.length_eq_zero_iff.mp ?_)
  have heq := h.readersWaiting_eq
  omega

/-- A reader that sleeps is queued, hence behind a writer, and that one sleeps or is inside. -/
theorem isBusy_of_waitingReaders {x : Lock Thread} (hx : x.SleepersBlocked) (hb : x.BehindWriter)
    (h : x.Counted) (hq : x.Quiet) (hr : x.waitingReaders ≠ []) : x.isBusy = true := by
  obtain ⟨t, ht⟩ := List.exists_mem_of_ne_nil _ hr
  obtain ⟨g, hwaits⟩ := mem_waitingReaders_iff.mp ht
  cases hx.generation_eq hq hwaits
  have hqueued : x.queuedReaders ≠ [] := List.ne_nil_of_mem (mem_queuedReaders_iff.mpr hwaits)
  rcases hb.of_queuedReaders h hqueued with hw | hw
  · exact (isBusy_iff x).mpr (Or.inl hw)
  · exact isBusy_of_waitingWriters hx hq (h.waitingWriters_ne_nil hw)

/-- An admitted reader would be awake. -/
theorem admittedReaders_eq_nil {x : Lock Thread} (hx : x.SleepersBlocked) (hq : x.Quiet) :
    x.admittedReaders = [] := by
  refine List.eq_nil_iff_forall_not_mem.mpr fun t ht => ?_
  obtain ⟨g, hwaits, hg⟩ := mem_admittedReaders_iff.mp ht
  exact Nat.ne_of_gt hg (hx.generation_eq hq hwaits)

theorem inside_of_isBusy {x : Lock Thread} (hx : x.SleepersBlocked) (h : x.Counted) (hq : x.Quiet)
    (hbusy : x.isBusy = true) : x.reading ≠ [] ∨ x.writing ≠ [] := by
  rcases (isBusy_iff x).mp hbusy with hw | hr | ha
  · exact Or.inr (h.writing_ne_nil hw)
  · refine Or.inl fun hnil => hr ?_
    rw [h.readers_eq, hnil]
    rfl
  · refine absurd ?_ ha
    rw [h.admitted_eq, admittedReaders_eq_nil hx hq]
    rfl

/-- However the threads take turns, nobody sleeps who could go in, and once nobody is awake, those
that wait do so for somebody inside. -/
theorem never_stuck (actions : List (Action Thread)) :
    let x : Lock Thread := run {} actions
    ((∀ t g, x.places.get? t = some (.readerWaits g false) → x.generation = g) ∧
        ∀ t, x.places.get? t = some (.writerWaits false) → x.isBusy = true) ∧
      (x.Quiet → x.waitingReaders ≠ [] ∨ x.waitingWriters ≠ [] →
        x.reading ≠ [] ∨ x.writing ≠ []) ∧
      (x.queuedReaders ≠ [] → x.writing ≠ [] ∨ x.waitingWriters ≠ []) ∧
      x.settle.Quiet := by
  intro x
  have h : x.Counted := counted_run actions
  have hs : x.SleepersBlocked :=
    run_induction_of_counted sleepersBlocked_empty (fun hm h hs => hs.move h hm) actions
  have hb : x.BehindWriter :=
    run_induction_of_counted (fun h => absurd rfl h) (fun hm h hb => hb.move h hm) actions
  refine ⟨⟨fun _ _ => hs.reader, fun _ => hs.writer⟩, fun hq hw => ?_, fun hr => ?_, quiet_settle x⟩
  · refine inside_of_isBusy hs h hq ?_
    rcases hw with hr | hw
    · exact isBusy_of_waitingReaders hs hb h hq hr
    · exact isBusy_of_waitingWriters hs hq hw
  · rcases hb.of_queuedReaders h hr with hw | hw
    · exact Or.inl (h.writing_ne_nil hw)
    · exact Or.inr (h.waitingWriters_ne_nil hw)

def lineUp : List (Action (Fin 3)) := [.askRead 0, .askWrite 1, .askRead 2]

theorem never_stuck_lineUp :
    let x : Lock (Fin 3) := run {} lineUp
    (x.places.get? 2 = some (.readerWaits 0 false) ∧ x.generation = 0) ∧
      (x.places.get? 1 = some (.writerWaits false) ∧ x.isBusy = true) ∧
      (x.Quiet ∧ x.waitingReaders ≠ [] ∧ (x.reading ≠ [] ∨ x.writing ≠ [])) ∧
      (x.queuedReaders ≠ [] ∧ (x.writing ≠ [] ∨ x.waitingWriters ≠ [])) := by
  intro x
  obtain ⟨⟨hreader, hwriter⟩, hinside, hbehind, -⟩ := never_stuck lineUp
  have h2 : x.places.get? 2 = some (.readerWaits 0 false) := by decide
  have h1 : x.places.get? 1 = some (.writerWaits false) := by decide
  have hquiet : x.Quiet
    | 0 => rfl
    | 1 => rfl
    | 2 => rfl
  have hwaiting : x.waitingReaders ≠ [] := by decide
  have hqueued : x.queuedReaders ≠ [] := by decide
  exact ⟨⟨h2, hreader 2 0 h2⟩, ⟨h1, hwriter 1 h1⟩,
    ⟨hquiet, hwaiting, hinside hquiet (Or.inl hwaiting)⟩, hqueued, hbehind hqueued⟩

end VaultSearch.Lock
