import VaultSearch.Proofs.Lock.Moves

namespace VaultSearch

inductive Standing
  | reads
  | writes
  | waitsToRead
  | waitsToWrite
  | admitted
  deriving DecidableEq, Repr

/-- A reader that waits is admitted as soon as its generation has passed. -/
def Place.standing (now : Nat) : Place → Standing
  | .reading => .reads
  | .writing => .writes
  | .readerWaits g _ => if g < now then .admitted else .waitsToRead
  | .writerWaits _ => .waitsToWrite

theorem Place.standing_call (now : Nat) (p : Place) : p.call.standing now = p.standing now := by
  cases p <;> rfl

/-- When a generation passes, the readers that wait become admitted ones. -/
theorem Place.standing_succ {now : Nat} {p : Place}
    (hp : ∀ {g awake}, p = .readerWaits g awake → g ≤ now) :
    p.standing (now + 1) =
      if p.standing now = .waitsToRead then .admitted else p.standing now := by
  cases p with
  | readerWaits g awake =>
      have hg : g < now + 1 := Nat.lt_succ_of_le (hp rfl)
      by_cases hpassed : g < now <;> simp [Place.standing, hg, hpassed]
  | reading | writing | writerWaits => rfl

namespace Lock

variable {Thread : Type}

def counter (x : Lock Thread) : Standing → Int
  | .reads => x.readers
  | .writes => x.writer.toNat
  | .waitsToRead => x.readersWaiting
  | .waitsToWrite => x.writersWaiting
  | .admitted => x.admitted

def number (x : Lock Thread) (s : Standing) : Nat :=
  x.places.count fun p => p.standing x.generation = s

variable [DecidableEq Thread]

structure Counted (x : Lock Thread) : Prop where
  counter_eq : ∀ s, x.counter s = x.number s
  generation_le : ∀ {t g awake}, x.places.get? t = some (.readerWaits g awake) → g ≤ x.generation

theorem counted_empty : ({} : Lock Thread).Counted where
  counter_eq := by
    intro s
    cases s <;> rfl
  generation_le := by simp

theorem Counted.counter_pos {x : Lock Thread} (h : x.Counted) {t : Thread} {p : Place}
    (hplace : x.places.get? t = some p) : 0 < x.counter (p.standing x.generation) := by
  rw [h.counter_eq]
  have hpos : 0 < x.number (p.standing x.generation) :=
    Table.count_pos_iff.mpr ⟨t, p, hplace, by simp⟩
  exact_mod_cast hpos

def weight (now : Nat) (s : Standing) (p : Option Place) : Nat :=
  (p.any (·.standing now = s)).toNat

/-- A thread that gets to another place has to be counted anew. -/
theorem Counted.put {x y : Lock Thread} (h : x.Counted) {t : Thread} {p : Place}
    (hplaces : y.places = x.places.put t p) (hgeneration : y.generation = x.generation)
    (hp : ∀ {g awake}, p = .readerWaits g awake → g ≤ x.generation)
    (hcounter : ∀ s, y.counter s + weight x.generation s (x.places.get? t) =
      x.counter s + weight x.generation s (some p)) : y.Counted where
  counter_eq := by
    intro s
    have hcount := x.places.count_put t p fun p => p.standing x.generation = s
    have hc := hcounter s
    have hs := h.counter_eq s
    simp only [number, weight, Option.any_some, hplaces, hgeneration] at hc hs hcount ⊢
    omega
  generation_le := by
    intro s g awake hs
    rw [hplaces, Table.get?_put] at hs
    rw [hgeneration]
    split at hs
    · exact hp (Option.some.inj hs)
    · exact h.generation_le hs

theorem Counted.erase {x y : Lock Thread} (h : x.Counted) {t : Thread}
    (hplaces : y.places = x.places.erase t) (hgeneration : y.generation = x.generation)
    (hcounter : ∀ s, y.counter s + weight x.generation s (x.places.get? t) = x.counter s) :
    y.Counted where
  counter_eq := by
    intro s
    have hcount := x.places.count_erase t fun p => p.standing x.generation = s
    have hc := hcounter s
    have hs := h.counter_eq s
    simp only [number, weight, hplaces, hgeneration] at hc hs hcount ⊢
    omega
  generation_le := by
    intro s g awake hs
    rw [hplaces, Table.get?_erase] at hs
    rw [hgeneration]
    split at hs
    · cases hs
    · exact h.generation_le hs

theorem Counted.callAll {x : Lock Thread} (h : x.Counted) : x.callAll.Counted where
  counter_eq := by
    intro s
    have hnumber : x.callAll.number s = x.number s := by
      rw [number, Lock.callAll, Table.count_mapValues, number]
      simp only [Function.comp_def, Place.standing_call]
    rw [hnumber]
    exact h.counter_eq s
  generation_le := by
    intro t g awake ht
    rw [get?_callAll, Option.map_eq_some_iff] at ht
    obtain ⟨p, hp, hcall⟩ := ht
    cases p with
    | readerWaits g' awake' =>
        cases hcall
        exact h.generation_le hp
    | reading | writing | writerWaits => cases hcall

theorem Counted.letIn {x : Lock Thread} (h : x.Counted) : x.letIn.Counted := by
  by_cases hnone : x.readersWaiting = 0
  · rw [Lock.letIn, if_neg (not_not_intro hnone)]
    exact h
  · rw [Lock.letIn, if_pos hnone]
    refine ⟨fun s => ?_, fun ht => Nat.le_succ_of_le (h.generation_le ht)⟩
    have hs := h.counter_eq s
    -- It is enough to see for each place what becomes of it when the generation passes.
    have hcount : ∀ p : Place → Bool,
        (∀ q, decide ((if q.standing x.generation = .waitsToRead then .admitted
          else q.standing x.generation) = s) = p q) →
        x.places.count (fun q => q.standing (x.generation + 1) = s) = x.places.count p := by
      intro p hp
      refine Table.count_congr fun t q hq => ?_
      rw [Place.standing_succ fun hg => h.generation_le (hg ▸ hq), hp]
    rw [number] at hs ⊢
    cases s with
    | reads | writes | waitsToWrite =>
        refine hs.trans (congrArg Nat.cast (hcount _ fun q => ?_).symm)
        by_cases hw : q.standing x.generation = .waitsToRead <;> simp [hw]
    | waitsToRead =>
        rw [hcount (fun _ => false) fun q => ?_]
        · simp [counter, Table.count]
        · by_cases hw : q.standing x.generation = .waitsToRead <;> simp [hw]
    | admitted =>
        have hw := h.counter_eq .waitsToRead
        rw [number] at hw
        rw [hcount (fun q => q.standing x.generation = .admitted ||
          q.standing x.generation = .waitsToRead) fun q => ?_, Table.count_or (by simp_all)]
        · simp only [counter] at hs hw ⊢
          omega
        · by_cases hw : q.standing x.generation = .waitsToRead <;> simp [hw]

omit [DecidableEq Thread] in
theorem isBusy_eq_false_iff (x : Lock Thread) :
    x.isBusy = false ↔ x.writer = false ∧ x.readers = 0 ∧ x.admitted = 0 := by
  simp [isBusy, and_assoc]

theorem Counted.writer_eq_true {x : Lock Thread} (h : x.Counted) {t : Thread}
    (hplace : x.places.get? t = some .writing) : x.writer = true := by
  have hpos := h.counter_pos hplace
  cases hw : x.writer with
  | true => rfl
  | false => simp [Place.standing, counter, hw] at hpos

theorem Counted.lt_generation {x : Lock Thread} (h : x.Counted) {t : Thread} {g : Nat}
    {awake : Bool} (hplace : x.places.get? t = some (.readerWaits g awake))
    (hpassed : x.generation ≠ g) : g < x.generation :=
  Nat.lt_of_le_of_ne (h.generation_le hplace) hpassed.symm

theorem Counted.move {x y : Lock Thread} {e : Option (Event Thread)} (h : x.Counted)
    (hm : Move x e y) : y.Counted := by
  cases hm with
  | stays => exact h
  | queues t hplace | readerSleeps t hplace =>
      refine h.put rfl rfl (fun hg => by cases hg; exact Nat.le_refl _) fun s => ?_
      cases s <;> simp [counter, weight, Place.standing, hplace]
  | enters t hplace | waits t hplace | writerSleeps t hplace =>
      refine h.put rfl rfl (by simp) fun s => ?_
      cases s <;> simp [counter, weight, Place.standing, hplace]
  | admittedEnters t g hplace hpassed =>
      have hg := h.lt_generation hplace hpassed
      refine h.put rfl rfl (by simp) fun s => ?_
      cases s <;> simp [counter, weight, Place.standing, hplace, hg]
  | acquires t hplace hidle | waitingAcquires t hplace hidle =>
      obtain ⟨hwriter, -, -⟩ := (isBusy_eq_false_iff x).mp hidle
      refine h.put rfl rfl (by simp) fun s => ?_
      cases s <;> simp [counter, weight, Place.standing, hplace, hwriter]
  | leaves t hplace =>
      refine h.erase rfl rfl fun s => ?_
      cases s <;> simp [counter, weight, Place.standing, hplace]
  | lastLeaves t hplace =>
      have hgone : Counted { x with readers := x.readers - 1, places := x.places.erase t } := by
        refine h.erase rfl rfl fun s => ?_
        cases s <;> simp [counter, weight, Place.standing, hplace]
      exact hgone.callAll
  | releases t hplace =>
      have hwriter := h.writer_eq_true hplace
      have hgone : Counted { x with writer := false, places := x.places.erase t } := by
        refine h.erase rfl rfl fun s => ?_
        cases s <;> simp [counter, weight, Place.standing, hplace, hwriter]
      exact hgone.letIn.callAll

/-- While a writer is inside, no reader is, and none is about to go in. -/
def Exclusive (x : Lock Thread) : Prop := x.writer = true → x.readers = 0 ∧ x.admitted = 0

theorem Exclusive.move {x y : Lock Thread} {e : Option (Event Thread)} (hx : x.Exclusive)
    (h : x.Counted) (hm : Move x e y) : y.Exclusive := by
  cases hm with
  | stays | queues | readerSleeps | waits | writerSleeps => exact hx
  | enters t hplace hfree =>
      intro hw
      exact absurd (hfree.symm.trans hw) Bool.false_ne_true
  | admittedEnters t g hplace hpassed =>
      intro hw
      have hpos := h.counter_pos hplace
      simp [Place.standing, counter, h.lt_generation hplace hpassed, (hx hw).2] at hpos
  | leaves t hplace | lastLeaves t hplace =>
      intro hw
      have hpos := h.counter_pos hplace
      simp [Place.standing, counter, (hx hw).1] at hpos
  | acquires t hplace hidle | waitingAcquires t hplace hidle =>
      intro
      exact ((isBusy_eq_false_iff x).mp hidle).2
  | releases t hplace =>
      intro hw
      rw [callAll, writer_letIn] at hw
      exact absurd hw Bool.false_ne_true

/-- The readers that wait and have not been admitted: their generation is the current one. -/
def queuedReaders (x : Lock Thread) : List Thread :=
  x.threads fun
    | .readerWaits g _ => g = x.generation
    | _ => false

def admittedReaders (x : Lock Thread) : List Thread :=
  x.threads fun
    | .readerWaits g _ => g < x.generation
    | _ => false

omit [DecidableEq Thread] in
theorem length_threads (x : Lock Thread) (p : Place → Bool) :
    (x.threads p).length = x.places.count p := by
  rw [threads, List.length_map, Table.count, List.countP_eq_length_filter]

omit [DecidableEq Thread] in
theorem nodup_threads (x : Lock Thread) (p : Place → Bool) : (x.threads p).Nodup :=
  x.places.nodup.sublist (List.filter_sublist.map _)

theorem mem_threads_iff {x : Lock Thread} {p : Place → Bool} {t : Thread} :
    t ∈ x.threads p ↔ ∃ q, x.places.get? t = some q ∧ p q = true := by
  simp only [threads, List.mem_map, List.mem_filter, Table.get?_eq_some_iff]
  constructor
  · rintro ⟨⟨t, q⟩, ⟨hm, hp⟩, rfl⟩
    exact ⟨q, hm, hp⟩
  · rintro ⟨q, hm, hp⟩
    exact ⟨(t, q), ⟨hm, hp⟩, rfl⟩

theorem mem_queuedReaders_iff {x : Lock Thread} {t : Thread} :
    t ∈ x.queuedReaders ↔ x.Waits t x.generation := by
  rw [queuedReaders, mem_threads_iff]
  constructor
  · rintro ⟨q, hq, hg⟩
    cases q with
    | readerWaits g awake =>
        cases of_decide_eq_true hg
        exact ⟨awake, hq⟩
    | reading | writing | writerWaits => cases hg
  · rintro ⟨awake, hq⟩
    exact ⟨_, hq, decide_eq_true rfl⟩

theorem mem_admittedReaders_iff {x : Lock Thread} {t : Thread} :
    t ∈ x.admittedReaders ↔ ∃ g, x.Waits t g ∧ g < x.generation := by
  rw [admittedReaders, mem_threads_iff]
  constructor
  · rintro ⟨q, hq, hg⟩
    cases q with
    | readerWaits g awake => exact ⟨g, ⟨awake, hq⟩, of_decide_eq_true hg⟩
    | reading | writing | writerWaits => cases hg
  · rintro ⟨g, ⟨awake, hq⟩, hg⟩
    exact ⟨_, hq, decide_eq_true hg⟩

theorem mem_waitingReaders_iff {x : Lock Thread} {t : Thread} :
    t ∈ x.waitingReaders ↔ ∃ g, x.Waits t g := by
  rw [waitingReaders, mem_threads_iff]
  constructor
  · rintro ⟨q, hq, hp⟩
    cases q with
    | readerWaits g awake => exact ⟨g, awake, hq⟩
    | reading | writing | writerWaits => cases hp
  · rintro ⟨g, awake, hq⟩
    exact ⟨_, hq, rfl⟩

theorem mem_waitingWriters_iff {x : Lock Thread} {t : Thread} :
    t ∈ x.waitingWriters ↔ ∃ awake, x.places.get? t = some (.writerWaits awake) := by
  rw [waitingWriters, mem_threads_iff]
  constructor
  · rintro ⟨q, hq, hp⟩
    cases q with
    | writerWaits awake => exact ⟨awake, hq⟩
    | reading | writing | readerWaits => cases hp
  · rintro ⟨awake, hq⟩
    exact ⟨_, hq, rfl⟩

/-- A counter gives the length of a list of threads that tells its kind by their places. -/
theorem Counted.counter_eq_length {x : Lock Thread} (h : x.Counted) {s : Standing}
    {p : Place → Bool} (hp : ∀ q, (∀ {g awake}, q = .readerWaits g awake → g ≤ x.generation) →
      decide (q.standing x.generation = s) = p q) : x.counter s = (x.threads p).length := by
  rw [h.counter_eq, length_threads]
  refine congrArg Nat.cast (Table.count_congr fun t q hq => ?_)
  exact hp q fun hg => h.generation_le (hg ▸ hq)

theorem Counted.readers_eq {x : Lock Thread} (h : x.Counted) : x.readers = x.reading.length := by
  refine h.counter_eq_length (s := .reads) fun q hq => ?_
  cases q <;> grind [Place.standing]

theorem Counted.writer_eq {x : Lock Thread} (h : x.Counted) :
    (x.writer.toNat : Int) = x.writing.length := by
  refine h.counter_eq_length (s := .writes) fun q hq => ?_
  cases q <;> grind [Place.standing]

theorem Counted.writersWaiting_eq {x : Lock Thread} (h : x.Counted) :
    x.writersWaiting = x.waitingWriters.length := by
  refine h.counter_eq_length (s := .waitsToWrite) fun q hq => ?_
  cases q <;> grind [Place.standing]

theorem Counted.readersWaiting_eq {x : Lock Thread} (h : x.Counted) :
    x.readersWaiting = x.queuedReaders.length := by
  refine h.counter_eq_length (s := .waitsToRead) fun q hq => ?_
  cases q <;> grind [Place.standing]

theorem Counted.admitted_eq {x : Lock Thread} (h : x.Counted) :
    x.admitted = x.admittedReaders.length := by
  refine h.counter_eq_length (s := .admitted) fun q hq => ?_
  cases q <;> grind [Place.standing]

theorem counted_run (actions : List (Action Thread)) : (run {} actions).Counted :=
  run_induction counted_empty (fun hm h => h.move hm) actions

/-- To show what lasts, the counters may be taken as exact. -/
theorem run_induction_of_counted {Q : Lock Thread → Prop} (hfirst : Q {})
    (hmove : ∀ {x e y}, Move x e y → x.Counted → Q x → Q y) (actions : List (Action Thread)) :
    Q (run {} actions) := by
  have hboth : (run {} actions).Counted ∧ Q (run {} actions) := by
    refine run_induction (Q := fun x => x.Counted ∧ Q x) ⟨counted_empty, hfirst⟩ ?_ actions
    rintro x e y hm ⟨h, hx⟩
    exact ⟨h.move hm, hmove hm h hx⟩
  exact hboth.2

theorem exclusive_run (actions : List (Action Thread)) : (run {} actions).Exclusive :=
  run_induction_of_counted (fun hw => absurd hw Bool.false_ne_true)
    (fun hm h hx => hx.move h hm) actions

/-- However the threads take turns, a writer is alone inside, and each counter is exact. -/
theorem exclusive_and_counted (actions : List (Action Thread)) :
    let x : Lock Thread := run {} actions
    (x.writing = [] ∨ (∃ w, x.writing = [w]) ∧ x.reading = []) ∧
      (x.readers = x.reading.length ∧ x.writersWaiting = x.waitingWriters.length ∧
        x.readersWaiting = x.queuedReaders.length ∧ x.admitted = x.admittedReaders.length) ∧
      (0 ≤ x.readers ∧ 0 ≤ x.writersWaiting ∧ 0 ≤ x.readersWaiting ∧ 0 ≤ x.admitted) ∧
      ∀ p, (x.threads p).Nodup := by
  intro x
  have h : x.Counted := counted_run actions
  have hreaders := h.readers_eq
  have hwriters := h.writersWaiting_eq
  have hqueued := h.readersWaiting_eq
  have hadmitted := h.admitted_eq
  refine ⟨?_, ⟨hreaders, hwriters, hqueued, hadmitted⟩, by omega, nodup_threads x⟩
  have hwriter := h.writer_eq
  cases hw : x.writer with
  | false =>
      rw [hw] at hwriter
      exact Or.inl (List.length_eq_zero_iff.mp (Int.ofNat_inj.mp hwriter.symm))
  | true =>
      rw [hw] at hwriter
      refine Or.inr ⟨List.length_eq_one_iff.mp (Int.ofNat_inj.mp hwriter.symm),
        List.length_eq_zero_iff.mp ?_⟩
      have hnone : x.readers = 0 := (exclusive_run actions hw).1
      omega

end Lock

end VaultSearch
