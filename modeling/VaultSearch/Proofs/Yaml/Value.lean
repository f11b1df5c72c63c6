import VaultSearch.Yaml.Dump
import VaultSearch.Yaml.Load

namespace VaultSearch.Yaml

open Text Number

section Equality

mutual

def Value.same : Value → Value → Bool
  | .scalar s, .scalar t => s = t
  | .list l vs, .list m ws => l = m && sameItems vs ws
  | .map l es, .map m fs => l = m && sameEntries es fs
  | .set l ks, .set m ms => l = m && ks = ms
  | .tuple l v w, .tuple m x y => l = m && v.same x && w.same y
  | .again a l, .again b m => a = b && l = m
  | _, _ => false

def sameItems : List Value → List Value → Bool
  | [], [] => true
  | v :: vs, w :: ws => v.same w && sameItems vs ws
  | _, _ => false

def sameEntries : Entries → Entries → Bool
  | [], [] => true
  | (k, v) :: es, (j, w) :: fs => k = j && v.same w && sameEntries es fs
  | _, _ => false

end

mutual

theorem Value.same_iff (v w : Value) : v.same w = true ↔ v = w := by
  cases v with
  | scalar | set | again => cases w <;> simp [Value.same]
  | list _ vs => cases w <;> simp [Value.same, sameItems_iff vs]
  | map _ es => cases w <;> simp [Value.same, sameEntries_iff es]
  | tuple _ x y => cases w <;> simp [Value.same, x.same_iff, y.same_iff, and_assoc]

theorem sameItems_iff (vs ws : List Value) : sameItems vs ws = true ↔ vs = ws := by
  cases vs with
  | nil => cases ws <;> simp [sameItems]
  | cons v vs => cases ws <;> simp [sameItems, v.same_iff, sameItems_iff vs]

theorem sameEntries_iff (es fs : Entries) : sameEntries es fs = true ↔ es = fs := by
  cases es with
  | nil => cases fs <;> simp [sameEntries]
  | cons e es =>
      obtain ⟨k, v⟩ := e
      cases fs with
      | nil => simp [sameEntries]
      | cons f fs =>
          obtain ⟨j, w⟩ := f
          simp [sameEntries, v.same_iff, sameEntries_iff es]

end

instance : DecidableEq Value := fun v w => decidable_of_iff (v.same w = true) (v.same_iff w)

end Equality

def Scalar.bare : Scalar → Scalar
  | .float _ x => .float none x
  | .date _ d => .date none d
  | .stamp _ s => .stamp none s
  | s => s

def MapKey.bare : MapKey → MapKey
  | .scalar s => .scalar s.bare
  | .pair _ a b => .pair none a.bare b.bare

/-- How many collections lie between a place and the one around it that has the label. -/
def depth (label : Nat) : List (Option Nat) → Nat
  | [] => 0
  | l :: path => if l = some label then 0 else depth label path + 1

mutual

/-- What a value is apart from its labels. The labels of the collections around it are in `path`; one
of these that is named again is named by its distance. -/
def Value.bareIn (path : List (Option Nat)) : Value → Value
  | .scalar s => .scalar s.bare
  | .list label items => .list none (bareItems (label :: path) items)
  | .map label entries => .map none (bareEntries (label :: path) entries)
  | .set _ members => .set none (members.map Scalar.bare)
  | .tuple label first second =>
    .tuple none (first.bareIn (label :: path)) (second.bareIn (label :: path))
  | .again shape label => .again shape (depth label path)

def bareItems (path : List (Option Nat)) : List Value → List Value
  | [] => []
  | v :: vs => v.bareIn path :: bareItems path vs

def bareEntries (path : List (Option Nat)) : Entries → Entries
  | [] => []
  | (k, v) :: es => (k.bare, v.bareIn path) :: bareEntries path es

end

def Value.bare (v : Value) : Value := v.bareIn []

section Relabelling

variable {f : Nat → Nat}

theorem Scalar.bare_relabel (s : Scalar) (f : Nat → Nat) : (s.relabel f).bare = s.bare := by
  cases s <;> rfl

theorem MapKey.bare_relabel (k : MapKey) (f : Nat → Nat) : (k.relabel f).bare = k.bare := by
  cases k with
  | scalar s => exact congrArg MapKey.scalar (s.bare_relabel f)
  | pair label a b => rw [MapKey.relabel, MapKey.bare, MapKey.bare, a.bare_relabel, b.bare_relabel]

theorem depth_map (hf : ∀ a b, f a = f b → a = b) (label : Nat) (path : List (Option Nat)) :
    depth (f label) (path.map (Option.map f)) = depth label path := by
  induction path with
  | nil => rfl
  | cons l path ih =>
      have hiff : l.map f = some (f label) ↔ l = some label := by
        cases l with
        | none => simp
        | some l => simpa using ⟨hf l label, congrArg f⟩
      simp only [List.map_cons, depth, hiff, ih]

mutual

theorem Value.bareIn_relabel (hf : ∀ a b, f a = f b → a = b) (path : List (Option Nat)) (v : Value) :
    (v.relabel f).bareIn (path.map (Option.map f)) = v.bareIn path := by
  cases v with
  | scalar s => rw [Value.relabel, Value.bareIn, Value.bareIn, s.bare_relabel]
  | list label items =>
      rw [Value.relabel, Value.bareIn, Value.bareIn, ← List.map_cons, bareItems_relabel hf]
  | map label entries =>
      rw [Value.relabel, Value.bareIn, Value.bareIn, ← List.map_cons, bareEntries_relabel hf]
  | set label members =>
      rw [Value.relabel, Value.bareIn, Value.bareIn, List.map_map]
      exact congrArg _ (List.map_congr_left fun k _ => k.bare_relabel f)
  | tuple label first second =>
      rw [Value.relabel, Value.bareIn, Value.bareIn, ← List.map_cons, first.bareIn_relabel hf,
        second.bareIn_relabel hf]
  | again shape label => rw [Value.relabel, Value.bareIn, Value.bareIn, depth_map hf]

theorem bareItems_relabel (hf : ∀ a b, f a = f b → a = b) (path : List (Option Nat))
    (vs : List Value) :
    bareItems (path.map (Option.map f)) (relabelItems f vs) = bareItems path vs := by
  cases vs with
  | nil => rfl
  | cons v vs =>
      rw [relabelItems, bareItems, bareItems, v.bareIn_relabel hf, bareItems_relabel hf path vs]

theorem bareEntries_relabel (hf : ∀ a b, f a = f b → a = b) (path : List (Option Nat))
    (es : Entries) :
    bareEntries (path.map (Option.map f)) (relabelEntries f es) = bareEntries path es := by
  cases es with
  | nil => rfl
  | cons e es =>
      obtain ⟨k, v⟩ := e
      rw [relabelEntries, bareEntries, bareEntries, k.bare_relabel, v.bareIn_relabel hf,
        bareEntries_relabel hf path es]

end

theorem Value.bare_relabel (hf : ∀ a b, f a = f b → a = b) (v : Value) :
    (v.relabel f).bare = v.bare :=
  v.bareIn_relabel hf []

end Relabelling

section Surroundings

variable {p q p' q' : List (Option Nat)}

def Refines (p q p' q' : List (Option Nat)) : Prop :=
  ∀ a b, depth a p = depth b q → depth a p' = depth b q'

theorem Refines.cons (h : Refines p q p' q') (l m : Option Nat) :
    Refines (l :: p) (m :: q) (l :: p') (m :: q') := by
  intro a b hab
  -- The new collection is at distance zero, and everything else is one further away than before.
  simp only [depth] at hab ⊢
  by_cases hl : l = some a <;> by_cases hm : m = some b
  · rw [if_pos hl, if_pos hm]
  · rw [if_pos hl, if_neg hm] at hab
    cases hab
  · rw [if_neg hl, if_pos hm] at hab
    cases hab
  · rw [if_neg hl, if_neg hm] at hab ⊢
    rw [h a b (Nat.succ.inj hab)]

mutual

theorem Value.bareIn_refine {p q p' q' : List (Option Nat)} (h : Refines p q p' q') (v w : Value)
    (heq : v.bareIn p = w.bareIn q) : v.bareIn p' = w.bareIn q' := by
  cases v with
  | scalar | set => cases w <;> first | exact heq | cases heq
  | list l vs =>
      cases w with
      | list m ws =>
          simp only [Value.bareIn, Value.list.injEq, true_and] at heq ⊢
          exact bareItems_refine (h.cons l m) vs ws heq
      | scalar | map | set | tuple | again => cases heq
  | map l es =>
      cases w with
      | map m fs =>
          simp only [Value.bareIn, Value.map.injEq, true_and] at heq ⊢
          exact bareEntries_refine (h.cons l m) es fs heq
      | scalar | list | set | tuple | again => cases heq
  | tuple l v₁ v₂ =>
      cases w with
      | tuple m w₁ w₂ =>
          simp only [Value.bareIn, Value.tuple.injEq, true_and] at heq ⊢
          exact ⟨v₁.bareIn_refine (h.cons l m) w₁ heq.1, v₂.bareIn_refine (h.cons l m) w₂ heq.2⟩
      | scalar | list | map | set | again => cases heq
  | again shape l =>
      cases w with
      | again shape' m =>
          simp only [Value.bareIn, Value.again.injEq] at heq ⊢
          exact ⟨heq.1, h l m heq.2⟩
      | scalar | list | map | set | tuple => cases heq
termination_by structural v

theorem bareItems_refine {p q p' q' : List (Option Nat)} (h : Refines p q p' q') (vs ws : List Value)
    (heq : bareItems p vs = bareItems q ws) : bareItems p' vs = bareItems q' ws := by
  cases vs with
  | nil =>
      cases ws with
      | nil => rfl
      | cons w ws => cases heq
  | cons v vs =>
      cases ws with
      | nil => cases heq
      | cons w ws =>
          simp only [bareItems, List.cons.injEq] at heq ⊢
          exact ⟨v.bareIn_refine h w heq.1, bareItems_refine h vs ws heq.2⟩
termination_by structural vs

theorem bareEntries_refine {p q p' q' : List (Option Nat)} (h : Refines p q p' q')
    (es fs : Entries) (heq : bareEntries p es = bareEntries q fs) :
    bareEntries p' es = bareEntries q' fs := by
  cases es with
  | nil =>
      cases fs with
      | nil => rfl
      | cons f fs => cases heq
  | cons e es =>
      obtain ⟨k, v⟩ := e
      cases fs with
      | nil => cases heq
      | cons f fs =>
          simp only [bareEntries, List.cons.injEq, Prod.mk.injEq] at heq ⊢
          exact ⟨⟨heq.1.1, v.bareIn_refine h _ heq.1.2⟩, bareEntries_refine h es fs heq.2⟩
termination_by structural es

end

/-- Values that are the same inside others are the same alone. -/
theorem Value.bare_of_bareIn {v w : Value} (heq : v.bareIn p = w.bareIn q) : v.bare = w.bare := by
  have hrefines : Refines p q [] [] := fun _ _ _ => rfl
  exact v.bareIn_refine hrefines w heq

theorem bareEntries_alone {es fs : Entries}
    (heq : bareEntries p es = bareEntries q fs) : bareEntries [none] es = bareEntries [none] fs := by
  have hrefines : Refines p q [none] [none] := fun _ _ _ => rfl
  exact bareEntries_refine hrefines es fs heq

end Surroundings

/-- The values can be written as a list, and what is written can be read and is the same list, but for
the labels. -/
def ReadsBack (vs : List Value) : Prop :=
  ∃ t v, dump vs = .ok t ∧ load t = .ok v ∧ v.bare = (Value.list none vs).bare

instance (vs : List Value) : Decidable (ReadsBack vs) :=
  match hdump : dump vs with
  | .error _ => isFalse fun ⟨t, _, ht, _, _⟩ => by rw [hdump] at ht; cases ht
  | .ok t =>
    match hload : load t with
    | .error _ => isFalse fun ⟨u, _, hu, hv, _⟩ => by
        rw [hdump] at hu
        cases hu
        rw [hload] at hv
        cases hv
    | .ok v =>
      if h : v.bare = (Value.list none vs).bare then isTrue ⟨t, v, hdump, hload, h⟩
      else isFalse fun ⟨u, w, hu, hw, hbare⟩ => by
        rw [hdump] at hu
        cases hu
        rw [hload] at hw
        cases hw
        exact h hbare

end VaultSearch.Yaml
