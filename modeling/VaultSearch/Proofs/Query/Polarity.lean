import VaultSearch.Query.Expr

namespace VaultSearch.Query.Expr

open Text

/-- The value stands in the expression under an odd number of negations if `negated`, and under an
even number otherwise. -/
def Stands (v : Text) (negated : Bool) : Expr → Prop
  | .term w | .phrase w => negated = false ∧ v = w
  | .not e => e.Stands v (!negated)
  | .and l r | .or l r => l.Stands v negated ∨ r.Stands v negated

/-- What is collected under the other sign is passed over, and nothing is collected twice. -/
theorem mem_collect {e : Expr} {negated : Bool} {found : List Text} {v : Text} :
    v ∈ e.collect negated found ↔ v ∈ found ∨ e.Stands v negated := by
  induction e generalizing negated found with
  | term w | phrase w =>
      rw [collect, Stands]
      cases negated with
      | true => simp
      | false =>
          by_cases hw : w ∈ found
          · have hsame : v = w → v ∈ found := fun h => h ▸ hw
            simpa [hw] using hsame
          · simp [hw]
  | not e ih => exact ih
  | and l r ihl ihr | or l r ihl ihr => rw [collect, ihr, ihl, Stands, or_assoc]

theorem mem_positiveTerms {e : Expr} {v : Text} :
    v ∈ positiveTerms (some e) ↔ e.Stands v false := by
  simp [positiveTerms, mem_collect]

theorem mem_positiveTerms_not {e : Expr} {v : Text} :
    v ∈ positiveTerms (some e.not) ↔ e.Stands v true :=
  mem_positiveTerms

/-- An expression goes on to hold where no value that it asks for is lost and none that it excludes
is gained. -/
theorem holds_of_stands {e : Expr} {s t : Text}
    (hasked : ∀ v, e.Stands v false → contains (lower v) s = true → contains (lower v) t = true)
    (hexcluded : ∀ v, e.Stands v true → contains (lower v) t = true → contains (lower v) s = true)
    (h : e.holds s = true) : e.holds t = true := by
  induction e generalizing s t with
  | term v | phrase v => exact hasked v ⟨rfl, rfl⟩ h
  | not e ih =>
      rw [holds, Bool.not_eq_true', ← Bool.not_eq_true] at h ⊢
      -- Under a negation both the signs and the texts change places.
      exact fun ht => h (ih hexcluded hasked ht)
  | and l r ihl ihr =>
      rw [holds, Bool.and_eq_true] at h ⊢
      exact ⟨ihl (fun v hv => hasked v (.inl hv)) (fun v hv => hexcluded v (.inl hv)) h.1,
        ihr (fun v hv => hasked v (.inr hv)) (fun v hv => hexcluded v (.inr hv)) h.2⟩
  | or l r ihl ihr =>
      rw [holds, Bool.or_eq_true] at h ⊢
      exact h.imp (ihl (fun v hv => hasked v (.inl hv)) fun v hv => hexcluded v (.inl hv))
        (ihr (fun v hv => hasked v (.inr hv)) fun v hv => hexcluded v (.inr hv))

/-- Those of the values that occur in `s`, in whatever case, occur in `t` as well. -/
def Keeps (vs : List Text) (s t : Text) : Prop :=
  ∀ v ∈ vs, contains (lower v) (lower s) = true → contains (lower v) (lower t) = true

instance (vs : List Text) (s t : Text) : Decidable (Keeps vs s t) :=
  inferInstanceAs (Decidable (∀ v ∈ vs, _))

theorem eval_of_keeps {e : Option Expr} {s t : Text} (hasked : Keeps (positiveTerms e) s t)
    (hexcluded : Keeps (positiveTerms (e.map .not)) t s) (h : eval e s = true) :
    eval e t = true := by
  cases e with
  | none => cases h
  | some e =>
      exact holds_of_stands (fun v hv => hasked v (mem_positiveTerms.mpr hv))
        (fun v hv => hexcluded v (mem_positiveTerms_not.mpr hv)) h

theorem exists_of_not_keeps {vs : List Text} {s t : Text} (h : ¬Keeps vs s t) :
    ∃ v ∈ vs, contains (lower v) (lower s) = true ∧ contains (lower v) (lower t) = false := by
  simpa [Keeps] using h

/-- Whether a query holds can only follow its positive terms and go against its negated ones. So
where it comes to hold, and no negated term is gone, a positive term has come. -/
theorem eval_follows_positiveTerms (e : Option Expr) (s t : Text) :
    (Keeps (positiveTerms e) s t → Keeps (positiveTerms (e.map .not)) t s →
      eval e s = true → eval e t = true) ∧
    (Keeps (positiveTerms (e.map .not)) s t → eval e s = false → eval e t = true →
      ∃ v ∈ positiveTerms e,
        contains (lower v) (lower t) = true ∧ contains (lower v) (lower s) = false) := by
  refine ⟨eval_of_keeps, fun hexcluded hs ht => exists_of_not_keeps fun hasked => ?_⟩
  have hback := eval_of_keeps hasked hexcluded ht
  rw [hs] at hback
  cases hback

def rustOrElse : Expr :=
  .and (.or (.not (.term "rust".toList)) (.phrase "the way".toList))
    (.not (.and (.not (.term "rust".toList)) (.not (.not (.phrase "the way".toList)))))

theorem eval_follows_positiveTerms_rustOrElse :
    eval (some rustOrElse) "Rust, THE WAY".toList = true ∧
      eval (some rustOrElse) "on the way to rust".toList = true ∧
      eval (some rustOrElse) "rust".toList = false ∧
      ∃ v ∈ positiveTerms (some rustOrElse),
        contains (lower v) (lower "on the way to rust".toList) = true ∧
          contains (lower v) (lower "rust".toList) = false := by
  have hloud : eval (some rustOrElse) "Rust, THE WAY".toList = true := by decide +kernel
  have hquiet : eval (some rustOrElse) "on the way to rust".toList = true :=
    (eval_follows_positiveTerms _ "Rust, THE WAY".toList _).1 (by decide +kernel)
      (by decide +kernel) hloud
  have hrust : eval (some rustOrElse) "rust".toList = false := by decide +kernel
  exact ⟨hloud, hquiet, hrust,
    (eval_follows_positiveTerms _ _ _).2 (by decide +kernel) hrust hquiet⟩

end VaultSearch.Query.Expr
