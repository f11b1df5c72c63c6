import VaultSearch.Proofs.Except
import VaultSearch.Yaml.Text

namespace VaultSearch.Yaml

open Number

def isShort (n : Int) : Bool := n.natAbs < Nat.pow 10 digitLimit

theorem isOk_intText (n : Int) : (intText n).isOk = isShort n := by
  rw [intText, isShort]
  split
  · rename_i h
    exact (decide_eq_true h).symm
  · rename_i h
    exact (decide_eq_false h).symm

def Scalar.ints : Scalar → List Int
  | .int n => [n]
  | _ => []

def MapKey.ints : MapKey → List Int
  | .scalar s => s.ints
  | .pair _ a b => a.ints ++ b.ints

mutual

def Value.ints : Value → List Int
  | .scalar s => s.ints
  | .list _ items => intsOfItems items
  | .map _ entries => intsOfEntries entries
  | .set _ members => members.flatMap Scalar.ints
  | .tuple _ first second => first.ints ++ second.ints
  | .again _ _ => []

def intsOfItems : List Value → List Int
  | [] => []
  | v :: vs => v.ints ++ intsOfItems vs

def intsOfEntries : Entries → List Int
  | [] => []
  | (k, v) :: es => k.ints ++ v.ints ++ intsOfEntries es

end

theorem Scalar.isOk_shown (s : Scalar) : s.shown.isOk = s.ints.all isShort := by
  cases s with
  | int n => rw [Scalar.shown, isOk_intText, Scalar.ints, List.all_cons, List.all_nil, Bool.and_true]
  | null | bool | float | text | bytes | date | stamp => rfl

theorem MapKey.isOk_shown (k : MapKey) : k.shown.isOk = k.ints.all isShort := by
  cases k with
  | scalar s => exact s.isOk_shown
  | pair label a b =>
      rw [MapKey.shown, MapKey.ints, List.all_append, ← a.isOk_shown, ← b.isOk_shown]
      cases a.shown <;> cases b.shown <;> rfl

theorem Scalar.isOk_toText (s : Scalar) : s.toText.isOk = s.ints.all isShort := by
  cases s with
  | int n => exact Scalar.isOk_shown (.int n)
  | null | bool | float | text | bytes | date | stamp => rfl

mutual

theorem Value.isOk_shown (v : Value) : v.shown.isOk = v.ints.all isShort := by
  cases v with
  | scalar s => exact s.isOk_shown
  | list label items =>
      rw [Value.shown, Value.ints, isOk_map]
      exact isOk_shownItems items
  | map label entries =>
      rw [Value.shown, Value.ints, isOk_map]
      exact isOk_shownEntries entries
  | set label members =>
      cases members with
      | nil => rfl
      | cons k ks =>
          rw [Value.shown, Value.ints, isOk_map, isOk_mapM, List.all_flatMap]
          simp only [Scalar.isOk_shown]
  | tuple label first second =>
      rw [Value.shown, Value.ints, List.all_append, ← first.isOk_shown, ← second.isOk_shown]
      cases first.shown <;> cases second.shown <;> rfl
  | again shape label => rfl

theorem isOk_shownItems (vs : List Value) : (shownItems vs).isOk = (intsOfItems vs).all isShort := by
  cases vs with
  | nil => rfl
  | cons v vs =>
      rw [intsOfItems, List.all_append, ← v.isOk_shown, ← isOk_shownItems vs, shownItems]
      cases v.shown <;> cases shownItems vs <;> rfl

theorem isOk_shownEntries (es : Entries) :
    (shownEntries es).isOk = (intsOfEntries es).all isShort := by
  cases es with
  | nil => rfl
  | cons e es =>
      obtain ⟨k, v⟩ := e
      rw [intsOfEntries, List.all_append, List.all_append, ← k.isOk_shown, ← v.isOk_shown,
        ← isOk_shownEntries es, shownEntries]
      cases k.shown <;> cases v.shown <;> cases shownEntries es <;> rfl

end

theorem Value.isOk_toText (v : Value) : v.toText.isOk = v.ints.all isShort := by
  cases v with
  | scalar s => exact s.isOk_toText
  | list | map | set | tuple | again => exact Value.isOk_shown _

end VaultSearch.Yaml
