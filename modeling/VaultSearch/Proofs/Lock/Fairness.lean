import Mathlib.Tactic.ByContra
import VaultSearch.Proofs.Lock.Counting

namespace VaultSearch.Lock

variable {Thread : Type} [DecidableEq Thread]

def trace (x : Lock Thread) : List (Action Thread) → List (Event Thread)
  | [] => []
  | a :: actions => (x.event a).toList ++ (x.step a).trace actions

inductive Moves : Lock Thread → List (Event Thread) → Lock Thread → Prop
  | refl (x) : Moves x [] x
  | silent {x y z es} (hm : Move x none y) (hms : Moves y es z) : Moves x es z
  | seen {x y z v es} (hm : Move x (some v) y) (hms : Moves y es z) : Moves x (v :: es) z

theorem moves_trace (x : Lock Thread) (actions : List (Action Thread)) :
    Moves x (x.trace actions) (x.run actions) := by
  induction actions generalizing x with
  | nil => exact .refl x
  | cons a actions ih =>
      have hm := move_step x a
      rw [trace]
      cases he : x.event a with
      | none => exact .silent (he ▸ hm) (ih (x.step a))
      | some v => exact .seen (he ▸ hm) (ih (x.step a))

theorem Moves.trans {x y z : Lock Thread} {front back : List (Event Thread)}
    (hfront : Moves x front y) (hback : Moves y back z) : Moves x (front ++ back) z := by
  induction hfront with
  | refl => exact hback
  | silent hm _ ih => exact .silent hm (ih hback)
  | seen hm _ ih => exact .seen hm (ih hback)

/-- What is seen in two parts was done in two parts. -/
theorem Moves.split {x z : Lock Thread} {front back : List (Event Thread)}
    (hms : Moves x (front ++ back) z) : ∃ y, Moves x front y ∧ Moves y back z := by
  generalize hes : front ++ back = es at hms
  induction hms generalizing front with
  | refl x =>
      obtain ⟨rfl, rfl⟩ := List.append_eq_nil_iff.mp hes
      exact ⟨x, .refl x, .refl x⟩
  | silent hm _ ih =>
      obtain ⟨u, hfront, hback⟩ := ih hes
      exact ⟨u, .silent hm hfront, hback⟩
  | @seen x _ _ _ _ hm hms ih =>
      cases front with
      | nil =>
          cases hes
          exact ⟨x, .refl x, .seen hm hms⟩
      | cons w front =>
          obtain ⟨rfl, hrest⟩ := List.cons.inj hes
          obtain ⟨u, hfront, hback⟩ := ih hrest
          exact ⟨u, .seen hm hfront, hback⟩

theorem Moves.split_cons {x z : Lock Thread} {v : Event Thread} {back : List (Event Thread)}
    (hms : Moves x (v :: back) z) : ∃ u y, Moves x [] u ∧ Move u (some v) y ∧ Moves y back z := by
  generalize hes : v :: back = es at hms
  induction hms with
  | refl => cases hes
  | silent hm _ ih =>
      obtain ⟨u, y, hquiet, hv, hback⟩ := ih hes
      exact ⟨u, y, .silent hm hquiet, hv, hback⟩
  | @seen x y _ _ _ hm hms =>
      obtain ⟨rfl, rfl⟩ := List.cons.inj hes
      exact ⟨x, y, .refl x, hm, hms⟩

theorem Moves.split_at {x z : Lock Thread} {v : Event Thread} {front back : List (Event Thread)}
    (hms : Moves x (front ++ v :: back) z) :
    ∃ u y, Moves x front u ∧ Move u (some v) y ∧ Moves y back z := by
  obtain ⟨s, hfront, hrest⟩ := hms.split
  obtain ⟨u, y, hsilent, hv, hback⟩ := hrest.split_cons
  have hu := hfront.trans hsilent
  rw [List.append_nil] at hu
  exact ⟨u, y, hu, hv, hback⟩

theorem Moves.counted {x y : Lock Thread} {es : List (Event Thread)} (hms : Moves x es y)
    (h : x.Counted) : y.Counted := by
  induction hms with
  | refl => exact h
  | silent hm _ ih => exact ih (h.move hm)
  | seen hm _ ih => exact ih (h.move hm)

theorem Waits.ne {x : Lock Thread} {s t : Thread} {g : Nat} (hw : x.Waits t g)
    (hs : ∀ awake, x.places.get? s ≠ some (.readerWaits g awake)) : t ≠ s := by
  rintro rfl
  obtain ⟨awake, hplace⟩ := hw
  exact hs awake hplace

theorem Waits.put {x y : Lock Thread} {s t : Thread} {g : Nat} {p : Place} (hw : x.Waits t g)
    (hplaces : y.places = x.places.put s p) (hs : t ≠ s) : y.Waits t g := by
  obtain ⟨awake, hplace⟩ := hw
  exact ⟨awake, by rw [hplaces, Table.get?_put, if_neg hs, hplace]⟩

theorem Waits.erase {x y : Lock Thread} {s t : Thread} {g : Nat} (hw : x.Waits t g)
    (hplaces : y.places = x.places.erase s) (hs : t ≠ s) : y.Waits t g := by
  obtain ⟨awake, hplace⟩ := hw
  exact ⟨awake, by rw [hplaces, Table.get?_erase, if_neg hs, hplace]⟩

theorem Waits.callAll {x : Lock Thread} {t : Thread} {g : Nat} (hw : x.Waits t g) :
    x.callAll.Waits t g := by
  obtain ⟨awake, hplace⟩ := hw
  exact ⟨true, by rw [get?_callAll, hplace]; rfl⟩

/-- A reader waits until it goes in. -/
theorem Waits.move {x y : Lock Thread} {t : Thread} {g : Nat} {e : Option (Event Thread)}
    (hw : x.Waits t g) (hm : Move x e y) (he : e ≠ some (.enters t)) : y.Waits t g := by
  cases hm with
  | stays => exact hw
  | queues s hplace | enters s hplace | waits s hplace | acquires s hplace
  | waitingAcquires s hplace | writerSleeps s hplace =>
      exact hw.put rfl (hw.ne (by simp [hplace]))
  | admittedEnters s =>
      exact hw.put rfl fun hs => he (hs ▸ rfl)
  | readerSleeps s hplace =>
      by_cases hs : t = s
      · subst hs
        obtain ⟨awake, hold⟩ := hw
        cases hplace.symm.trans hold
        exact ⟨false, by simp⟩
      · exact hw.put rfl hs
  | leaves s hplace => exact hw.erase rfl (hw.ne (by simp [hplace]))
  | lastLeaves s hplace =>
      have hs := hw.ne (s := s) (by simp [hplace])
      have hgone : Waits { x with readers := x.readers - 1, places := x.places.erase s } t g :=
        hw.erase rfl hs
      exact hgone.callAll
  | releases s hplace =>
      have hs := hw.ne (s := s) (by simp [hplace])
      have hgone : Waits (letIn { x with writer := false, places := x.places.erase s }) t g :=
        hw.erase (places_letIn _) hs
      exact hgone.callAll

theorem Moves.waits {x y : Lock Thread} {es : List (Event Thread)} {t : Thread} {g : Nat}
    (hms : Moves x es y) (hw : x.Waits t g) (hes : .enters t ∉ es) : y.Waits t g := by
  induction hms with
  | refl => exact hw
  | silent hm _ ih => exact ih (hw.move hm (by simp)) hes
  | seen hm _ ih =>
      rw [List.mem_cons, not_or] at hes
      obtain ⟨hv, hrest⟩ := hes
      exact ih (hw.move hm fun he => hv (Option.some.inj he).symm) hrest

def Event.isAcquires : Event Thread → Bool
  | .acquires _ => true
  | _ => false

/-- How many writers may still go in before a reader that waits since a generation: one, if the
reader is not admitted and no writer is inside. -/
def overtakers (x : Lock Thread) (g : Nat) : Nat :=
  if x.writer = false ∧ x.generation ≤ g then 1 else 0

omit [DecidableEq Thread] in
theorem overtakers_of_writer {x : Lock Thread} (g : Nat) (h : x.writer = true) :
    x.overtakers g = 0 := by
  rw [overtakers, h]
  rfl

omit [DecidableEq Thread] in
theorem overtakers_of_lt {x : Lock Thread} {g : Nat} (h : g < x.generation) :
    x.overtakers g = 0 :=
  if_neg fun hand => absurd hand.2 (Nat.not_le_of_lt h)

/-- While a reader that is admitted has not gone in, the lock is busy. -/
theorem Waits.generation_le {x : Lock Thread} {t : Thread} {g : Nat} (hw : x.Waits t g)
    (h : x.Counted) (hidle : x.isBusy = false) : x.generation ≤ g := by
  obtain ⟨awake, hplace⟩ := hw
  obtain ⟨-, -, hadmitted⟩ := (isBusy_eq_false_iff x).mp hidle
  by_contra hg
  have hpos := h.counter_pos hplace
  simp [Place.standing, counter, Nat.not_le.mp hg, hadmitted] at hpos

/-- A writer that leaves admits every reader that waits. -/
theorem Waits.lt_generation_letIn {x y : Lock Thread} {t : Thread} {g : Nat} (hw : x.Waits t g)
    (h : x.Counted) (hwaiting : y.readersWaiting = x.readersWaiting)
    (hgeneration : y.generation = x.generation) : g < y.letIn.generation := by
  obtain ⟨awake, hplace⟩ := hw
  have hle := h.generation_le hplace
  rw [generation_letIn, hwaiting, hgeneration]
  by_cases hg : g < x.generation
  · split <;> omega
  · have hpos := h.counter_pos hplace
    have hsome : x.readersWaiting ≠ 0 := by
      simp [Place.standing, counter, hg] at hpos
      omega
    rw [if_pos hsome]
    exact Nat.lt_succ_of_le hle

/-- What a writer that goes in takes from those that may still overtake a reader. -/
theorem Waits.overtakers_move {x y : Lock Thread} {t : Thread} {g : Nat}
    {e : Option (Event Thread)} (hw : x.Waits t g) (h : x.Counted) (hm : Move x e y) :
    e.toList.countP Event.isAcquires + y.overtakers g ≤ x.overtakers g := by
  cases hm with
  | stays | queues | enters | admittedEnters | readerSleeps | leaves | lastLeaves | waits
  | writerSleeps => exact Nat.le_of_eq (Nat.zero_add (x.overtakers g))
  | acquires s hplace hidle | waitingAcquires s hplace hidle =>
      obtain ⟨hwriter, -, -⟩ := (isBusy_eq_false_iff x).mp hidle
      have hone : x.overtakers g = 1 := if_pos ⟨hwriter, hw.generation_le h hidle⟩
      rw [hone, overtakers_of_writer g rfl]
      exact Nat.le_refl 1
  | releases s hplace =>
      have hnone : overtakers (Lock.callAll
          (letIn { x with writer := false, places := x.places.erase s })) g = 0 :=
        overtakers_of_lt (hw.lt_generation_letIn h rfl rfl)
      rw [hnone]
      exact Nat.zero_le _

theorem Moves.acquisitions_le {x y : Lock Thread} {es : List (Event Thread)} {t : Thread} {g : Nat}
    (hms : Moves x es y) (h : x.Counted) (hw : x.Waits t g) (hes : .enters t ∉ es) :
    es.countP Event.isAcquires + y.overtakers g ≤ x.overtakers g := by
  induction hms with
  | refl => exact Nat.le_of_eq (Nat.zero_add _)
  | silent hm _ ih =>
      have hfirst := hw.overtakers_move h hm
      have hrest := ih (h.move hm) (hw.move hm (by simp)) hes
      simp only [Option.toList_none, List.countP_nil] at hfirst
      omega
  | @seen x y z v es hm _ ih =>
      rw [List.mem_cons, not_or] at hes
      obtain ⟨hv, hes⟩ := hes
      have hfirst := hw.overtakers_move h hm
      have hrest := ih (h.move hm) (hw.move hm fun he => hv (Option.some.inj he).symm) hes
      simp only [Option.toList_some, List.countP_cons, List.countP_nil] at hfirst ⊢
      omega

theorem Move.releases_of_generation_ne {x y : Lock Thread} {e : Option (Event Thread)}
    (hm : Move x e y) (hg : y.generation ≠ x.generation) : ∃ w, e = some (.releases w) := by
  cases hm with
  | releases s => exact ⟨s, rfl⟩
  | stays | queues | enters | admittedEnters | readerSleeps | leaves | lastLeaves | waits
  | writerSleeps | acquires | waitingAcquires => exact absurd rfl hg

/-- Generations pass only when a writer leaves. -/
theorem Moves.releases_of_generation_ne {x y : Lock Thread} {es : List (Event Thread)}
    (hms : Moves x es y) (hg : y.generation ≠ x.generation) : ∃ w, .releases w ∈ es := by
  induction hms with
  | refl => exact absurd rfl hg
  | @silent x y z es hm _ ih =>
      by_cases hy : y.generation = x.generation
      · exact ih (hy ▸ hg)
      · obtain ⟨w, hw⟩ := hm.releases_of_generation_ne hy
        cases hw
  | @seen x y z v es hm _ ih =>
      by_cases hy : y.generation = x.generation
      · obtain ⟨w, hw⟩ := ih (hy ▸ hg)
        exact ⟨w, List.mem_cons_of_mem v hw⟩
      · obtain ⟨w, hw⟩ := hm.releases_of_generation_ne hy
        cases hw
        exact ⟨w, List.mem_cons_self⟩

theorem Move.waits_of_queues {x y : Lock Thread} {t : Thread} (hm : Move x (some (.queues t)) y) :
    y.Waits t y.generation := by
  cases hm with
  | queues => exact ⟨false, by simp⟩

/-- A reader that waited goes in after its generation has passed. -/
theorem Waits.generation_ne {x y : Lock Thread} {t : Thread} {g : Nat} (hw : x.Waits t g)
    (hm : Move x (some (.enters t)) y) : x.generation ≠ g := by
  obtain ⟨awake, hplace⟩ := hw
  cases hm with
  | enters _ hout => cases hout.symm.trans hplace
  | admittedEnters _ g' hold hpassed =>
      cases hold.symm.trans hplace
      exact hpassed

theorem Move.writer_of_releases {x y : Lock Thread} {w : Thread}
    (hm : Move x (some (.releases w)) y) (h : x.Counted) : x.writer = true := by
  cases hm with
  | releases _ hplace => exact h.writer_eq_true hplace

/-- A reader that has to wait goes in after some writer has left, and after at most one has gone in;
and all readers that wait when a writer leaves go in before the next one. -/
theorem phase_fair (actions : List (Action Thread)) (t : Thread) :
    (∀ before between after, trace {} actions = before ++ .queues t :: (between ++ after) →
        .enters t ∉ between → between.countP Event.isAcquires ≤ 1) ∧
      (∀ before between after,
        trace {} actions = before ++ .queues t :: (between ++ .enters t :: after) →
          .enters t ∉ between → ∃ w, .releases w ∈ between) ∧
      ∀ before waiting between after w v,
        trace {} actions =
            before ++ .queues t :: (waiting ++ .releases w :: (between ++ .acquires v :: after)) →
          .enters t ∉ waiting → .enters t ∈ between := by
  have hms := moves_trace {} actions
  refine ⟨?_, ?_, ?_⟩
  · intro before between after htrace hstill
    rw [htrace] at hms
    obtain ⟨u, x, hbefore, hq, hrest⟩ := hms.split_at
    obtain ⟨y, hbetween, -⟩ := hrest.split
    have hx := (hbefore.counted counted_empty).move hq
    have hbound := hbetween.acquisitions_le hx hq.waits_of_queues hstill
    have hone : x.overtakers x.generation ≤ 1 := by
      rw [overtakers]
      split <;> omega
    omega
  · intro before between after htrace hstill
    rw [htrace] at hms
    obtain ⟨u, x, -, hq, hrest⟩ := hms.split_at
    obtain ⟨y, z, hbetween, hin, -⟩ := hrest.split_at
    have hwaits := hbetween.waits hq.waits_of_queues hstill
    exact hbetween.releases_of_generation_ne (hwaits.generation_ne hin)
  · intro before waiting between after w v htrace hstill
    rw [htrace] at hms
    obtain ⟨u, x, hbefore, hq, hrest⟩ := hms.split_at
    obtain ⟨y, z, hwaiting, hout, hrest⟩ := hrest.split_at
    obtain ⟨r, s, hbetween, hin, -⟩ := hrest.split_at
    have hy := hwaiting.counted ((hbefore.counted counted_empty).move hq)
    have hwaits := hwaiting.waits hq.waits_of_queues hstill
    by_contra hnot
    -- The writer that leaves uses up what might overtake the reader.
    have hzero := overtakers_of_writer x.generation (hout.writer_of_releases hy)
    have hleft := hwaits.overtakers_move hy hout
    have hz := hwaits.move hout (by simp)
    have hnone := hbetween.acquisitions_le (hy.move hout) hz hnot
    have hr := (hbetween.waits hz hnot).overtakers_move (hbetween.counted (hy.move hout)) hin
    simp only [Option.toList_some, List.countP_singleton, Event.isAcquires, if_true] at hr
    omega

def handedOn : List (Action (Fin 4)) :=
  [.askRead 0, .askWrite 1, .askRead 2, .askWrite 3, .release 0, .look 1, .release 1, .look 2,
    .release 2, .look 3]

def whileQueued : List (Event (Fin 4)) := [.waits 3, .leaves 0, .acquires 1, .releases 1]

theorem phase_fair_handedOn :
    trace {} handedOn =
        [.enters 0, .waits 1] ++ .queues 2 :: (whileQueued ++ .enters 2 :: [.leaves 2, .acquires 3]) ∧
      whileQueued.countP Event.isAcquires ≤ 1 ∧ (∃ w, .releases w ∈ whileQueued) ∧
      trace {} handedOn = [.enters 0, .waits 1] ++ .queues 2 :: ([.waits 3, .leaves 0, .acquires 1] ++
        .releases 1 :: ([.enters 2, .leaves 2] ++ .acquires 3 :: [])) ∧
      (.enters 2 : Event (Fin 4)) ∈ [.enters 2, .leaves 2] := by
  obtain ⟨honce, hafter, hbefore⟩ := phase_fair handedOn 2
  have htrace : trace {} handedOn = [.enters 0, .waits 1] ++
      .queues 2 :: (whileQueued ++ .enters 2 :: [.leaves 2, .acquires 3]) := by decide
  have hstill : .enters 2 ∉ whileQueued := by decide
  have hturn : trace {} handedOn = [.enters 0, .waits 1] ++ .queues 2 ::
      ([.waits 3, .leaves 0, .acquires 1] ++ .releases 1 ::
        ([.enters 2, .leaves 2] ++ .acquires 3 :: [])) := by decide
  exact ⟨htrace, honce _ _ _ htrace hstill, hafter _ _ _ htrace hstill, hturn,
    hbefore _ _ _ _ _ _ hturn (by decide)⟩

end VaultSearch.Lock
