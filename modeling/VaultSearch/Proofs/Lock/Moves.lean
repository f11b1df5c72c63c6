import VaultSearch.Lock
import VaultSearch.Proofs.Table

namespace VaultSearch.Lock

/-- What can be seen of a thread: a reader that has to wait, goes in or leaves, and likewise a
writer. -/
inductive Event (Thread : Type)
  | queues (t : Thread)
  | enters (t : Thread)
  | leaves (t : Thread)
  | waits (t : Thread)
  | acquires (t : Thread)
  | releases (t : Thread)
  deriving DecidableEq, Repr

variable {Thread : Type}

def Action.thread : Action Thread → Thread
  | .askRead t | .askWrite t | .look t | .release t => t

def Event.ofChange (t : Thread) : Option Place → Option Place → Option (Event Thread)
  | none, some (.readerWaits _ _) => some (.queues t)
  | none, some .reading => some (.enters t)
  | some (.readerWaits _ _), some .reading => some (.enters t)
  | some .reading, none => some (.leaves t)
  | none, some (.writerWaits _) => some (.waits t)
  | none, some .writing => some (.acquires t)
  | some (.writerWaits _), some .writing => some (.acquires t)
  | some .writing, none => some (.releases t)
  | _, _ => none

theorem Event.ofChange_self (t : Thread) (p : Option Place) : Event.ofChange t p p = none := by
  cases p with
  | none => rfl
  | some p => cases p <;> rfl

variable [DecidableEq Thread]

def event (x : Lock Thread) (a : Action Thread) : Option (Event Thread) :=
  Event.ofChange a.thread (x.places.get? a.thread) ((x.step a).places.get? a.thread)

def run (x : Lock Thread) (actions : List (Action Thread)) : Lock Thread := actions.foldl step x

def Waits (x : Lock Thread) (t : Thread) (g : Nat) : Prop :=
  ∃ awake, x.places.get? t = some (.readerWaits g awake)

/-- Everything that one step can come to, and when. -/
inductive Move (x : Lock Thread) : Option (Event Thread) → Lock Thread → Prop
  | stays : Move x none x
  | queues (t) (hplace : x.places.get? t = none) (hheld : x.writer = true ∨ x.writersWaiting ≠ 0) :
      Move x (some (.queues t))
        { x with
          readersWaiting := x.readersWaiting + 1
          places := x.places.put t (.readerWaits x.generation false) }
  | enters (t) (hplace : x.places.get? t = none) (hfree : x.writer = false) :
      Move x (some (.enters t))
        { x with readers := x.readers + 1, places := x.places.put t .reading }
  | admittedEnters (t g) (hplace : x.places.get? t = some (.readerWaits g true))
      (hpassed : x.generation ≠ g) :
      Move x (some (.enters t))
        { x with
          admitted := x.admitted - 1
          readers := x.readers + 1
          places := x.places.put t .reading }
  | readerSleeps (t) (hplace : x.places.get? t = some (.readerWaits x.generation true)) :
      Move x none { x with places := x.places.put t (.readerWaits x.generation false) }
  | leaves (t) (hplace : x.places.get? t = some .reading) (hothers : x.readers ≠ 1) :
      Move x (some (.leaves t))
        { x with readers := x.readers - 1, places := x.places.erase t }
  | lastLeaves (t) (hplace : x.places.get? t = some .reading) (hlast : x.readers = 1) :
      Move x (some (.leaves t))
        (callAll { x with readers := x.readers - 1, places := x.places.erase t })
  | waits (t) (hplace : x.places.get? t = none) (hbusy : x.isBusy = true) :
      Move x (some (.waits t))
        { x with
          writersWaiting := x.writersWaiting + 1
          places := x.places.put t (.writerWaits false) }
  | acquires (t) (hplace : x.places.get? t = none) (hidle : x.isBusy = false) :
      Move x (some (.acquires t)) { x with writer := true, places := x.places.put t .writing }
  | waitingAcquires (t) (hplace : x.places.get? t = some (.writerWaits true))
      (hidle : x.isBusy = false) :
      Move x (some (.acquires t))
        { x with
          writersWaiting := x.writersWaiting - 1
          writer := true
          places := x.places.put t .writing }
  | writerSleeps (t) (hplace : x.places.get? t = some (.writerWaits true))
      (hbusy : x.isBusy = true) :
      Move x none { x with places := x.places.put t (.writerWaits false) }
  | releases (t) (hplace : x.places.get? t = some .writing) :
      Move x (some (.releases t))
        (callAll (letIn { x with writer := false, places := x.places.erase t }))

theorem get?_callAll (x : Lock Thread) (t : Thread) :
    x.callAll.places.get? t = (x.places.get? t).map Place.call :=
  Table.get?_mapValues x.places Place.call t

omit [DecidableEq Thread] in
theorem places_letIn (x : Lock Thread) : x.letIn.places = x.places := by
  rw [letIn]
  split <;> rfl

omit [DecidableEq Thread] in
theorem writer_letIn (x : Lock Thread) : x.letIn.writer = x.writer := by
  rw [letIn]
  split <;> rfl

omit [DecidableEq Thread] in
theorem generation_letIn (x : Lock Thread) :
    x.letIn.generation = if x.readersWaiting ≠ 0 then x.generation + 1 else x.generation := by
  rw [letIn]
  split <;> rfl

theorem move_of_eq {x y : Lock Thread} {a : Action Thread} {e : Option (Event Thread)}
    (hstep : x.step a = y)
    (hevent : Event.ofChange a.thread (x.places.get? a.thread) (y.places.get? a.thread) = e)
    (hmove : Move x e y) : Move x (x.event a) (x.step a) := by
  rw [event, hstep, hevent]
  exact hmove

theorem move_of_stays {x : Lock Thread} {a : Action Thread} (hstep : x.step a = x) :
    Move x (x.event a) (x.step a) :=
  move_of_eq hstep (Event.ofChange_self a.thread _) .stays

theorem move_askRead (x : Lock Thread) (t : Thread) :
    Move x (x.event (.askRead t)) (x.step (.askRead t)) := by
  by_cases hin : x.places.contains t = true
  · exact move_of_stays (if_pos hin)
  · have hplace : x.places.get? t = none := by simpa [Table.contains] using hin
    have hstep : x.step (.askRead t) = x.askRead t := if_neg hin
    by_cases hheld : (x.writer || decide (x.writersWaiting ≠ 0)) = true
    · refine move_of_eq (hstep.trans (if_pos hheld)) ?_ (.queues t hplace (by simpa using hheld))
      simp [Action.thread, hplace, Event.ofChange]
    · have hfree : x.writer = false := by simp_all
      refine move_of_eq (hstep.trans (if_neg hheld)) ?_ (.enters t hplace hfree)
      simp [Action.thread, hplace, Event.ofChange]

theorem move_askWrite (x : Lock Thread) (t : Thread) :
    Move x (x.event (.askWrite t)) (x.step (.askWrite t)) := by
  by_cases hin : x.places.contains t = true
  · exact move_of_stays (if_pos hin)
  · have hplace : x.places.get? t = none := by simpa [Table.contains] using hin
    have hstep : x.step (.askWrite t) = x.askWrite t := if_neg hin
    by_cases hbusy : x.isBusy = true
    · refine move_of_eq (hstep.trans (if_pos hbusy)) ?_ (.waits t hplace hbusy)
      simp [Action.thread, hplace, Event.ofChange]
    · refine move_of_eq (hstep.trans (if_neg hbusy)) ?_ (.acquires t hplace (by simpa using hbusy))
      simp [Action.thread, hplace, Event.ofChange]

theorem move_look (x : Lock Thread) (t : Thread) :
    Move x (x.event (.look t)) (x.step (.look t)) := by
  have hstep : x.step (.look t) = x.look t := rfl
  rw [look] at hstep
  cases hplace : x.places.get? t with
  | none => exact move_of_stays (by rw [hstep, hplace])
  | some p =>
      rw [hplace] at hstep
      cases p with
      | reading | writing => exact move_of_stays hstep
      | readerWaits g awake =>
          cases awake with
          | false => exact move_of_stays hstep
          | true =>
              by_cases hg : x.generation = g
              · subst hg
                refine move_of_eq (hstep.trans (if_pos rfl)) ?_ (.readerSleeps t hplace)
                simp [Action.thread, hplace, Event.ofChange]
              · refine move_of_eq (hstep.trans (if_neg hg)) ?_ (.admittedEnters t g hplace hg)
                simp [Action.thread, hplace, Event.ofChange]
      | writerWaits awake =>
          cases awake with
          | false => exact move_of_stays hstep
          | true =>
              by_cases hbusy : x.isBusy = true
              · refine move_of_eq (hstep.trans (if_pos hbusy)) ?_ (.writerSleeps t hplace hbusy)
                simp [Action.thread, hplace, Event.ofChange]
              · have hidle : x.isBusy = false := by simpa using hbusy
                refine move_of_eq (hstep.trans (if_neg hbusy)) ?_ (.waitingAcquires t hplace hidle)
                simp [Action.thread, hplace, Event.ofChange]

theorem move_release (x : Lock Thread) (t : Thread) :
    Move x (x.event (.release t)) (x.step (.release t)) := by
  have hstep : x.step (.release t) = x.release t := rfl
  rw [release] at hstep
  cases hplace : x.places.get? t with
  | none => exact move_of_stays (by rw [hstep, hplace])
  | some p =>
      rw [hplace] at hstep
      cases p with
      | readerWaits | writerWaits => exact move_of_stays hstep
      | reading =>
          by_cases hlast : x.readers = 1
          · refine move_of_eq (hstep.trans (if_pos (by simp [hlast]))) ?_ (.lastLeaves t hplace hlast)
            simp [Action.thread, hplace, Event.ofChange, get?_callAll]
          · refine move_of_eq (hstep.trans (if_neg (by simp; omega))) ?_ (.leaves t hplace hlast)
            simp [Action.thread, hplace, Event.ofChange]
      | writing =>
          refine move_of_eq hstep ?_ (.releases t hplace)
          simp [Action.thread, hplace, Event.ofChange, get?_callAll, places_letIn]

theorem move_step (x : Lock Thread) (a : Action Thread) : Move x (x.event a) (x.step a) := by
  cases a with
  | askRead t => exact move_askRead x t
  | askWrite t => exact move_askWrite x t
  | look t => exact move_look x t
  | release t => exact move_release x t

/-- What holds at first, and after each move if before it, holds after a run. -/
theorem run_induction {Q : Lock Thread → Prop} {x : Lock Thread} (hfirst : Q x)
    (hmove : ∀ {y e z}, Move y e z → Q y → Q z) (actions : List (Action Thread)) :
    Q (x.run actions) := by
  induction actions generalizing x with
  | nil => exact hfirst
  | cons a actions ih => exact ih (hmove (move_step x a) hfirst)

end VaultSearch.Lock
