namespace VaultSearch

variable {α β ε δ : Type}

theorem bind_eq_ok_iff {x : Except ε α} {f : α → Except ε β} {b : β} :
    x.bind f = .ok b ↔ ∃ a, x = .ok a ∧ f a = .ok b := by
  cases x <;> simp [Except.bind]

theorem bind_eq_error_iff {x : Except ε α} {f : α → Except ε β} {err : ε} :
    x.bind f = .error err ↔ x = .error err ∨ ∃ a, x = .ok a ∧ f a = .error err := by
  cases x <;> simp [Except.bind]

theorem map_eq_ok_iff {x : Except ε α} {f : α → β} {b : β} :
    x.map f = .ok b ↔ ∃ a, x = .ok a ∧ f a = b := by
  cases x <;> simp [Except.map]

theorem map_eq_error_iff {x : Except ε α} {f : α → β} {err : ε} :
    x.map f = .error err ↔ x = .error err := by
  cases x <;> simp [Except.map]

theorem mapError_eq_ok_iff {x : Except ε α} {f : ε → δ} {a : α} :
    x.mapError f = .ok a ↔ x = .ok a := by
  cases x with
  | error cause => exact ⟨nofun, nofun⟩
  | ok b => exact ⟨fun | rfl => rfl, fun | rfl => rfl⟩

theorem mapError_eq_error_iff {x : Except ε α} {f : ε → δ} {err : δ} :
    x.mapError f = .error err ↔ ∃ cause, x = .error cause ∧ f cause = err := by
  cases x with
  | error cause =>
      exact ⟨fun h => ⟨cause, rfl, Except.error.inj h⟩, by rintro ⟨cause, ⟨⟩, rfl⟩; rfl⟩
  | ok b => exact ⟨nofun, nofun⟩

theorem isOk_iff {x : Except ε α} : x.isOk = true ↔ ∃ a, x = .ok a := by
  cases x <;> simp [Except.isOk, Except.toBool]

theorem isOk_map (x : Except ε α) (f : α → β) : (x.map f).isOk = x.isOk := by
  cases x <;> rfl

theorem isOk_mapError (x : Except ε α) (f : ε → δ) : (x.mapError f).isOk = x.isOk := by
  cases x <;> rfl

theorem isOk_mapM (f : α → Except ε β) (xs : List α) :
    (xs.mapM f).isOk = xs.all fun x => (f x).isOk := by
  induction xs with
  | nil => rfl
  | cons x xs ih =>
      rw [List.mapM_cons, List.all_cons, ← ih]
      cases f x with
      | error err => rfl
      | ok y => cases xs.mapM f <;> rfl

theorem toOption_eq_some_iff {x : Except ε α} {a : α} : x.toOption = some a ↔ x = .ok a := by
  cases x <;> simp [Except.toOption]

theorem eq_ok_of_toOption {x : Except ε α} {a : α} (h : x.toOption = some a) : x = .ok a :=
  toOption_eq_some_iff.mp h

theorem isOk_bind_of_forall {x : Except ε α} {f : α → Except ε β} {b : Bool}
    (h : ∀ a, (f a).isOk = b) : (x.bind f).isOk = (x.isOk && b) := by
  cases x with
  | error err => rfl
  | ok a => exact h a

def failure? : Except ε α → Option ε
  | .error err => some err
  | .ok _ => none

theorem failure?_eq_none_iff {x : Except ε α} : failure? x = none ↔ x.isOk = true := by
  cases x <;> simp [failure?, Except.isOk, Except.toBool]

/-- Whatever comes of a computation: `P` holds of a failure, and `Q` of a result. -/
def Meets (P : ε → Prop) (Q : α → Prop) : Except ε α → Prop
  | .error err => P err
  | .ok a => Q a

namespace Meets

variable {P : ε → Prop} {Q : α → Prop} {R : β → Prop}

theorem of_error {x : Except ε α} {err : ε} (hx : Meets P Q x) (h : x = .error err) : P err := by
  rw [h] at hx
  exact hx

theorem weaken {P' : ε → Prop} {x : Except ε α} (hx : Meets P Q x) (h : ∀ err, P err → P' err) :
    Meets P' Q x := by
  cases x with
  | error err => exact h err hx
  | ok a => exact hx

theorem imp {Q' : α → Prop} {x : Except ε α} (hx : Meets P Q x) (h : ∀ a, Q a → Q' a) :
    Meets P Q' x := by
  cases x with
  | error err => exact hx
  | ok a => exact h a hx

theorem bind {x : Except ε α} {f : α → Except ε β} (hx : Meets P Q x)
    (hf : ∀ a, Q a → Meets P R (f a)) : Meets P R (x >>= f) := by
  cases x with
  | error err => exact hx
  | ok a => exact hf a hx

theorem map {x : Except ε α} {f : α → β} (hx : Meets P Q x) (hf : ∀ a, Q a → R (f a)) :
    Meets P R (x.map f) := by
  cases x with
  | error err => exact hx
  | ok a => exact hf a hx

theorem ite {p : Prop} [Decidable p] {x y : Except ε α} (hx : Meets P Q x) (hy : Meets P Q y) :
    Meets P Q (if p then x else y) := by
  split
  · exact hx
  · exact hy

theorem foldlM {f : α → β → Except ε α} {xs : List β} {a : α} (ha : Q a)
    (hf : ∀ a, Q a → ∀ x, Meets P Q (f a x)) : Meets P Q (xs.foldlM f a) := by
  induction xs generalizing a with
  | nil => exact ha
  | cons x xs ih =>
      rw [List.foldlM_cons]
      exact (hf a ha x).bind fun b hb => ih hb

end Meets

end VaultSearch
