import Mathlib.Data.List.Induction
import VaultSearch.Fuzzy.Distance

namespace VaultSearch.Fuzzy

variable {a b c : Text} {m n : Nat}

section Rows

/-- The distances of `a` from the texts that `b` starts with, from the shortest to `b` itself. -/
def rowOf (a b : Text) : List Nat :=
  a.foldl (fun row x => nextRow x b row) (List.range (b.length + 1))

theorem distance_eq (a b : Text) : distance a b = (rowOf a b).getLastD 0 := rfl

theorem rowOf_concat (a b : Text) (x : Char) : rowOf (a ++ [x]) b = nextRow x b (rowOf a b) :=
  List.foldl_append

theorem length_rowAfter (x : Char) {b : Text} {row : List Nat} (h : row.length = b.length + 1)
    (left : Nat) : (rowAfter x b row left).length = b.length := by
  induction b generalizing row left with
  | nil => rfl
  | cons y b ih =>
      match row, h with
      | diagonal :: above :: row, h =>
          rw [rowAfter, List.length_cons, List.length_cons]
          exact congrArg (· + 1) (ih (Nat.succ.inj h) _)

theorem length_nextRow (x : Char) {b : Text} {row : List Nat} (h : row.length = b.length + 1) :
    (nextRow x b row).length = b.length + 1 :=
  congrArg (· + 1) (length_rowAfter x h _)

theorem length_rowOf (a b : Text) : (rowOf a b).length = b.length + 1 := by
  induction a using List.reverseRecOn with
  | nil => exact List.length_range
  | append_singleton a x ih =>
      rw [rowOf_concat]
      exact length_nextRow x ih

/-- The distance from one more character, where the rows end so far with `left` and `diagonal`, and
`above` is the distance before. -/
def stepFrom (x y : Char) (diagonal above left : Nat) : Nat :=
  min (above + 1) (min (left + 1) (if x = y then diagonal else diagonal + 1))

theorem rowAfter_concat (x y : Char) {b : Text} {row : List Nat} (h : row.length = b.length + 1)
    (above left : Nat) :
    rowAfter x (b ++ [y]) (row ++ [above]) left =
      rowAfter x b row left ++
        [stepFrom x y (row.getLastD 0) above ((rowAfter x b row left).getLastD left)] := by
  induction b generalizing row left with
  | nil =>
      match row, h with
      | [diagonal], _ => rfl
  | cons z b ih =>
      match row, h with
      | diagonal :: next :: row, h =>
          have hrest : (next :: row).length = b.length + 1 := Nat.succ.inj h
          have hlater := ih hrest
            (min (next + 1) (min (left + 1) (if x = z then diagonal else diagonal + 1)))
          simp only [List.cons_append] at hlater ⊢
          rw [rowAfter, rowAfter, hlater]
          simp only [List.cons_append, List.getLastD_cons]

theorem nextRow_concat (x y : Char) {b : Text} {row : List Nat} (h : row.length = b.length + 1)
    (above : Nat) :
    nextRow x (b ++ [y]) (row ++ [above]) =
      nextRow x b row ++
        [stepFrom x y (row.getLastD 0) above ((nextRow x b row).getLastD 0)] := by
  match row, h with
  | diagonal :: row, h =>
      rw [nextRow, nextRow, rowAfter_concat x y h]
      simp only [List.cons_append, List.headD_cons, List.getLastD_cons]

/-- One more character of `b` leaves the distances from the texts before as they are. -/
theorem rowOf_concat_right (a b : Text) (y : Char) :
    rowOf a (b ++ [y]) = rowOf a b ++ [distance a (b ++ [y])] := by
  have key : ∃ last, rowOf a (b ++ [y]) = rowOf a b ++ [last] := by
    induction a using List.reverseRecOn with
    | nil => exact ⟨b.length + 1, by simp [rowOf, List.range_succ]⟩
    | append_singleton a x ih =>
        obtain ⟨last, hlast⟩ := ih
        rw [rowOf_concat, rowOf_concat, hlast]
        exact ⟨_, nextRow_concat x y (length_rowOf a b) last⟩
  obtain ⟨last, hlast⟩ := key
  rw [distance_eq, hlast, List.getLastD_concat]

theorem distance_nil_left (b : Text) : distance [] b = b.length := by
  rw [distance_eq, rowOf, List.foldl_nil, List.range_succ, List.getLastD_concat]

theorem distance_nil_right (a : Text) : distance a [] = a.length := by
  have key : rowOf a [] = [a.length] := by
    induction a using List.reverseRecOn with
    | nil => rfl
    | append_singleton a x ih =>
        rw [rowOf_concat, ih, List.length_append]
        rfl
  rw [distance_eq, key]
  rfl

/-- The last characters are deleted, inserted, or put one in place of the other. -/
theorem distance_concat_concat (a b : Text) (x y : Char) :
    distance (a ++ [x]) (b ++ [y]) =
      stepFrom x y (distance a b) (distance a (b ++ [y])) (distance (a ++ [x]) b) := by
  rw [distance_eq (a ++ [x]) (b ++ [y]), rowOf_concat, rowOf_concat_right,
    nextRow_concat x y (length_rowOf a b), List.getLastD_concat, ← rowOf_concat, ← distance_eq,
    ← distance_eq]

end Rows

section LastCharacters

variable (a b : Text) (x y : Char)

theorem distance_delete_last : distance (a ++ [x]) b ≤ distance a b + 1 := by
  induction b using List.reverseRecOn with
  | nil => simp [distance_nil_right]
  | append_singleton b y _ =>
      rw [distance_concat_concat]
      exact Nat.min_le_left _ _

theorem distance_insert_last : distance a (b ++ [y]) ≤ distance a b + 1 := by
  induction a using List.reverseRecOn with
  | nil => simp [distance_nil_left]
  | append_singleton a x _ =>
      rw [distance_concat_concat]
      exact Nat.le_trans (Nat.min_le_right _ _) (Nat.min_le_left _ _)

theorem distance_substitute_last : distance (a ++ [x]) (b ++ [y]) ≤ distance a b + 1 := by
  rw [distance_concat_concat, stepFrom]
  split <;> omega

theorem distance_keep_last : distance (a ++ [x]) (b ++ [x]) ≤ distance a b := by
  rw [distance_concat_concat, stepFrom, if_pos rfl]
  omega

inductive LastStep (a b : Text) (x y : Char) : Prop
  | delete (h : distance (a ++ [x]) (b ++ [y]) = distance a (b ++ [y]) + 1)
  | insert (h : distance (a ++ [x]) (b ++ [y]) = distance (a ++ [x]) b + 1)
  | keep (hxy : x = y) (h : distance (a ++ [x]) (b ++ [y]) = distance a b)
  | substitute (h : distance (a ++ [x]) (b ++ [y]) = distance a b + 1)

theorem lastStep : LastStep a b x y := by
  have hstep := distance_concat_concat a b x y
  rw [stepFrom] at hstep
  have hleast : ∀ k l m : Nat, min k (min l m) = k ∨ min k (min l m) = l ∨ min k (min l m) = m := by
    omega
  rcases hleast (distance a (b ++ [y]) + 1) (distance (a ++ [x]) b + 1)
    (if x = y then distance a b else distance a b + 1) with h | h | h
  · exact .delete (hstep.trans h)
  · exact .insert (hstep.trans h)
  · by_cases hxy : x = y
    · exact .keep hxy ((hstep.trans h).trans (if_pos hxy))
    · exact .substitute ((hstep.trans h).trans (if_neg hxy))

/-- As many edits as the longer text has characters always do. -/
theorem distance_le_max : distance a b ≤ max a.length b.length := by
  induction a using List.reverseRecOn generalizing b with
  | nil =>
      rw [distance_nil_left]
      exact Nat.le_max_right _ _
  | append_singleton a x ih =>
      induction b using List.reverseRecOn with
      | nil =>
          rw [distance_nil_right]
          exact Nat.le_max_left _ _
      | append_singleton b y _ =>
          have hsubstitute := distance_substitute_last a b x y
          have hbefore := ih b
          simp only [List.length_append, List.length_singleton]
          omega

end LastCharacters

section Edits

/-- One character is inserted, deleted, or put in place of another. -/
inductive Edit : Text → Text → Prop
  | insert (left right : Text) (x : Char) : Edit (left ++ right) (left ++ x :: right)
  | delete (left right : Text) (x : Char) : Edit (left ++ x :: right) (left ++ right)
  | substitute (left right : Text) (x y : Char) : Edit (left ++ x :: right) (left ++ y :: right)

/-- So many edits, one after another, turn the first text into the second. -/
inductive Edits : Nat → Text → Text → Prop
  | none (a : Text) : Edits 0 a a
  | next {n : Nat} {a b c : Text} (first : Edit a b) (rest : Edits n b c) : Edits (n + 1) a c

theorem Edit.symm (h : Edit a b) : Edit b a := by
  cases h with
  | insert left right x => exact .delete left right x
  | delete left right x => exact .insert left right x
  | substitute left right x y => exact .substitute left right y x

theorem Edit.concat (h : Edit a b) (z : Char) : Edit (a ++ [z]) (b ++ [z]) := by
  cases h with
  | insert left right x => simpa using Edit.insert left (right ++ [z]) x
  | delete left right x => simpa using Edit.delete left (right ++ [z]) x
  | substitute left right x y => simpa using Edit.substitute left (right ++ [z]) x y

namespace Edits

theorem append (h : Edits m a b) (h' : Edits n b c) : Edits (m + n) a c := by
  induction h with
  | none a => rwa [Nat.zero_add]
  | next first _ ih =>
      rw [Nat.add_right_comm]
      exact .next first (ih h')

theorem concat (h : Edits n a b) (z : Char) : Edits n (a ++ [z]) (b ++ [z]) := by
  induction h with
  | none a => exact .none _
  | next first _ ih => exact .next (first.concat z) ih

theorem last (h : Edits n a b) (hlast : Edit b c) : Edits (n + 1) a c :=
  h.append (.next hlast (.none c))

theorem symm (h : Edits n a b) : Edits n b a := by
  induction h with
  | none a => exact .none a
  | next first _ ih => exact ih.last first.symm

theorem eq_of_zero (h : Edits 0 a b) : a = b := by
  cases h
  rfl

theorem of_nil (b : Text) : Edits b.length [] b := by
  induction b using List.reverseRecOn with
  | nil => exact .none []
  | append_singleton b y ih =>
      rw [List.length_append]
      exact ih.last (by simpa using Edit.insert b [] y)

/-- There are as many edits as the distance says. -/
theorem of_distance (a b : Text) : Edits (distance a b) a b := by
  induction a using List.reverseRecOn generalizing b with
  | nil =>
      rw [distance_nil_left]
      exact of_nil b
  | append_singleton a x iha =>
      induction b using List.reverseRecOn with
      | nil =>
          rw [distance_nil_right]
          exact (of_nil _).symm
      | append_singleton b y ihb =>
          have hdelete : Edit (a ++ [x]) a := by simpa using Edit.delete a [] x
          have hinsert : Edit b (b ++ [y]) := by simpa using Edit.insert b [] y
          cases lastStep a b x y with
          | delete h =>
              rw [h]
              exact .next hdelete (iha (b ++ [y]))
          | insert h =>
              rw [h]
              exact ihb.last hinsert
          | keep hxy h =>
              rw [h, hxy]
              exact (iha b).concat y
          | substitute h =>
              rw [h]
              exact .next (.substitute a [] x y) ((iha b).concat y)

end Edits

def Near (b c : Text) : Prop := ∀ a, distance a c ≤ distance a b + 1

theorem near_insert (b : Text) (y : Char) : Near b (b ++ [y]) :=
  fun a => distance_insert_last a b y

theorem near_delete (b : Text) (y : Char) : Near (b ++ [y]) b := by
  intro a
  induction a using List.reverseRecOn with
  | nil =>
      rw [distance_nil_left, distance_nil_left, List.length_append]
      omega
  | append_singleton a x ih =>
      have hdelete := distance_delete_last a b x
      cases lastStep a b x y with
      | delete h | insert h | keep _ h | substitute h => omega

theorem near_substitute (b : Text) (y z : Char) : Near (b ++ [y]) (b ++ [z]) := by
  intro a
  induction a using List.reverseRecOn with
  | nil => simp [distance_nil_left]
  | append_singleton a x ih =>
      have hdelete := distance_delete_last a (b ++ [z]) x
      have hinsert := distance_insert_last (a ++ [x]) b z
      have hsubstitute := distance_substitute_last a b x z
      cases lastStep a b x y with
      | delete h | insert h | keep _ h | substitute h => omega

theorem Near.concat (h : Near b c) (y : Char) : Near (b ++ [y]) (c ++ [y]) := by
  intro a
  induction a using List.reverseRecOn with
  | nil =>
      have hnil := h []
      rw [distance_nil_left, distance_nil_left] at hnil ⊢
      simp only [List.length_append, List.length_singleton]
      omega
  | append_singleton a x ih =>
      have hbefore := h a
      cases lastStep a b x y with
      | delete hstep =>
          have hdelete := distance_delete_last a (c ++ [y]) x
          omega
      | insert hstep =>
          have hinsert := distance_insert_last (a ++ [x]) c y
          have hafter := h (a ++ [x])
          omega
      | keep hxy hstep =>
          have hkeep := distance_keep_last a c y
          rw [hxy] at hstep ⊢
          omega
      | substitute hstep =>
          have hsubstitute := distance_substitute_last a c x y
          omega

theorem Edit.near (h : Edit b c) : Near b c := by
  -- What is to the right of the edit is the same in both texts, and is taken off from its end.
  cases h with
  | insert left right x =>
      induction right using List.reverseRecOn with
      | nil => simpa using near_insert left x
      | append_singleton right z ih => simpa using ih.concat z
  | delete left right x =>
      induction right using List.reverseRecOn with
      | nil => simpa using near_delete left x
      | append_singleton right z ih => simpa using ih.concat z
  | substitute left right x y =>
      induction right using List.reverseRecOn with
      | nil => exact near_substitute left x y
      | append_singleton right z ih => simpa using ih.concat z

theorem distance_self (a : Text) : distance a a = 0 := by
  induction a using List.reverseRecOn with
  | nil => rfl
  | append_singleton a x ih =>
      have hkeep := distance_keep_last a a x
      omega

/-- No fewer edits than the distance turn one text into the other. -/
theorem Edits.distance_le (h : Edits n a b) : distance a b ≤ n := by
  have key : ∀ o, distance o b ≤ distance o a + n := by
    induction h with
    | none a => exact fun o => Nat.le_refl _
    | next first _ ih =>
        intro o
        have hnear := first.near o
        have hrest := ih o
        omega
  have hself := key a
  rw [distance_self, Nat.zero_add] at hself
  exact hself

end Edits

/-- The distance is the least number of edits, and so it is a metric. -/
theorem distance_least_edits (a b : Text) :
    (Edits (distance a b) a b ∧ ∀ n, Edits n a b → distance a b ≤ n) ∧
      distance a b = distance b a ∧ (distance a b = 0 ↔ a = b) ∧
      ∀ c, distance a c ≤ distance a b + distance b c := by
  refine ⟨⟨.of_distance a b, fun n h => h.distance_le⟩, ?_, ?_, ?_⟩
  · apply Nat.le_antisymm
    · exact (Edits.of_distance b a).symm.distance_le
    · exact (Edits.of_distance a b).symm.distance_le
  · constructor
    · intro h
      have hedits := Edits.of_distance a b
      rw [h] at hedits
      exact hedits.eq_of_zero
    · rintro rfl
      exact distance_self a
  · intro c
    exact ((Edits.of_distance a b).append (.of_distance b c)).distance_le

example : distance "kitten".toList "sitting".toList = 3 := by decide

end VaultSearch.Fuzzy
