import Mathlib.Data.Set.Subsingleton
import VaultSearch.Proofs.Except
import VaultSearch.Query.Reader

namespace VaultSearch.Query

inductive Rule
  | or
  | and
  | not
  | operand

/-- `Or := And (OR And)*`, `And := Not (AND Not)*`, `Not := NOT? Operand` and
`Operand := '(' Or ')' | PHRASE | TERM`, where a repetition is grouped to the left. -/
inductive Derives : Rule → List Token → Expr → Prop
  | and {ks e} (h : Derives .and ks e) : Derives .or ks e
  | orAnd {ks ls l r} (hl : Derives .or ks l) (hr : Derives .and ls r) :
      Derives .or (ks ++ opOr :: ls) (.or l r)
  | not {ks e} (h : Derives .not ks e) : Derives .and ks e
  | andNot {ks ls l r} (hl : Derives .and ks l) (hr : Derives .not ls r) :
      Derives .and (ks ++ opAnd :: ls) (.and l r)
  | operand {ks e} (h : Derives .operand ks e) : Derives .not ks e
  | notOperand {ks e} (h : Derives .operand ks e) : Derives .not (opNot :: ks) (.not e)
  | group {k c ks e} (hk : k.kind = .lparen) (hc : c.kind = .rparen) (h : Derives .or ks e) :
      Derives .operand (k :: (ks ++ [c])) e
  | phrase {k} (hk : k.kind = .phrase) : Derives .operand [k] (.phrase k.value)
  | term {k} (hk : k.kind = .term) : Derives .operand [k] (.term k.value)

theorem Derives.ne_nil {r : Rule} {ks : List Token} {e : Expr} (h : Derives r ks e) : ks ≠ [] := by
  induction h with
  | and _ ih | not _ ih | operand _ ih => exact ih
  | orAnd | andNot => simp
  | notOperand | group | phrase | term => exact List.cons_ne_nil _ _

theorem some_ne_of_kind {k l : Token} (h : k.kind ≠ l.kind) : some k ≠ some l :=
  fun hsome => h (congrArg Token.kind (Option.some.inj hsome))

theorem Derives.head?_ne {ks : List Token} {e : Expr} (h : Derives .operand ks e)
    (rest : List Token) : (ks ++ rest).head? ≠ some opNot := by
  cases h with
  | group hk | phrase hk | term hk => exact some_ne_of_kind (by simp [hk, opNot])

abbrev Outcome := Except ParseError (Option Expr × List Token)

def outcome {ks : List Token} (x : Except ParseError (Reading ks)) : Outcome :=
  x.map fun r => (r.1, r.2.1)

@[simp] theorem outcome_ok {ks : List Token} (r : Reading ks) :
    outcome (.ok r) = .ok (r.1, r.2.1) := rfl

@[simp] theorem outcome_error {ks : List Token} (err : ParseError) :
    outcome (.error err : Except ParseError (Reading ks)) = .error err := rfl

@[simp] theorem outcome_weaken {ks ls : List Token} (h : ls.length ≤ ks.length)
    (x : Except ParseError (Reading ls)) : outcome (x.map (.weaken h)) = outcome x := by
  cases x <;> rfl

theorem length_le_of_outcome {ks rest : List Token} {x : Except ParseError (Reading ks)}
    {e : Option Expr} (h : outcome x = .ok (e, rest)) : rest.length ≤ ks.length := by
  cases x with
  | error err => cases h
  | ok r =>
      cases h
      exact r.2.2

def joined (join : Expr → Expr → Expr) (err : ParseError) (loop : Option Expr → List Token → Outcome)
    (left right : Option Expr) (rest : List Token) : Outcome :=
  match left, right with
  | some l, some r => loop (some (join l r)) rest
  | _, _ => .error err

theorem outcome_readOr (ks : List Token) :
    outcome (readOr ks) = (outcome (readAnd ks)).bind fun (left, rest) =>
      outcome (readOrs left rest) := by
  rw [readOr]
  cases readAnd ks <;> simp [Except.bind]

theorem outcome_readOrs_cons (left : Option Expr) (ks : List Token) :
    outcome (readOrs left (opOr :: ks)) = (outcome (readAnd ks)).bind fun (right, rest) =>
      joined .or .aroundOr (fun left rest => outcome (readOrs left rest)) left right rest := by
  rw [readOrs, if_pos rfl]
  cases readAnd ks with
  | error err => rfl
  | ok r =>
      obtain ⟨right, rest⟩ := r
      cases left <;> cases right <;> simp [Except.bind, joined]

theorem outcome_readOrs_of_head? {ks : List Token} (h : ks.head? ≠ some opOr)
    (left : Option Expr) : outcome (readOrs left ks) = .ok (left, ks) := by
  cases ks with
  | nil => rw [readOrs]; rfl
  | cons k ks =>
      rw [readOrs, if_neg (by simpa using h)]
      rfl

theorem outcome_readAnd (ks : List Token) :
    outcome (readAnd ks) = (outcome (readNot ks)).bind fun (left, rest) =>
      outcome (readAnds left rest) := by
  rw [readAnd]
  cases readNot ks <;> simp [Except.bind]

theorem outcome_readAnds_cons (left : Option Expr) (ks : List Token) :
    outcome (readAnds left (opAnd :: ks)) = (outcome (readNot ks)).bind fun (right, rest) =>
      joined .and .aroundAnd (fun left rest => outcome (readAnds left rest)) left right rest := by
  rw [readAnds, if_pos rfl]
  cases readNot ks with
  | error err => rfl
  | ok r =>
      obtain ⟨right, rest⟩ := r
      cases left <;> cases right <;> simp [Except.bind, joined]

theorem outcome_readAnds_of_head? {ks : List Token} (h : ks.head? ≠ some opAnd)
    (left : Option Expr) : outcome (readAnds left ks) = .ok (left, ks) := by
  cases ks with
  | nil => rw [readAnds]; rfl
  | cons k ks =>
      rw [readAnds, if_neg (by simpa using h)]
      rfl

theorem outcome_readNot_cons (ks : List Token) :
    outcome (readNot (opNot :: ks)) = (outcome (readOperand ks)).bind fun (e, rest) =>
      match e with
      | some e => .ok (some (.not e), rest)
      | none => .error .afterNot := by
  rw [readNot, if_pos rfl]
  cases readOperand ks with
  | error err => rfl
  | ok r =>
      obtain ⟨e, rest⟩ := r
      cases e <;> rfl

theorem outcome_readNot_of_head? {ks : List Token} (h : ks.head? ≠ some opNot) :
    outcome (readNot ks) = outcome (readOperand ks) := by
  cases ks with
  | nil => rw [readNot]
  | cons k ks => rw [readNot, if_neg (by simpa using h)]

theorem outcome_readOperand_group {k : Token} (hk : k.kind = .lparen) (ks : List Token) :
    outcome (readOperand (k :: ks)) = (outcome (readOr ks)).bind fun (e, rest) =>
      match e, rest with
      | none, _ => .error .emptyGroup
      | some _, [] => .error .unclosedGroup
      | some e, c :: rest =>
        if c.kind = .rparen then .ok (some e, rest) else .error .unclosedGroup := by
  rw [readOperand]
  simp only [hk]
  cases readOr ks with
  | error err => rfl
  | ok r =>
      obtain ⟨e, rest, h⟩ := r
      cases e with
      | none => rfl
      | some e =>
          cases rest with
          | nil => rfl
          | cons c rest => by_cases hc : c.kind = .rparen <;> simp [Except.bind, hc]

theorem outcome_readOperand_phrase {k : Token} (hk : k.kind = .phrase) (ks : List Token) :
    outcome (readOperand (k :: ks)) = .ok (some (.phrase k.value), ks) := by
  rw [readOperand]
  simp only [hk]
  rfl

theorem outcome_readOperand_term {k : Token} (hk : k.kind = .term) (ks : List Token) :
    outcome (readOperand (k :: ks)) = .ok (some (.term k.value), ks) := by
  rw [readOperand]
  simp only [hk]
  rfl

theorem joined_eq_ok {join : Expr → Expr → Expr} {err : ParseError}
    {loop : Option Expr → List Token → Outcome} {left right : Option Expr} {rest : List Token}
    {p : Option Expr × List Token} (h : joined join err loop left right rest = .ok p) :
    ∃ l r, left = some l ∧ right = some r ∧ loop (some (join l r)) rest = .ok p := by
  cases left with
  | none => cases h
  | some l =>
      cases right with
      | none => cases h
      | some r => exact ⟨l, r, rfl, rfl, h⟩

/-- `ks` is a sentence for `e`, and then `rest`. -/
def Starts (r : Rule) (ks : List Token) (e : Expr) (rest : List Token) : Prop :=
  ∃ front, ks = front ++ rest ∧ Derives r front e

/-- Behind a sentence for what stands on the left, `ks` goes on to make it one for `e`, up to
`rest`. -/
def Completes (r : Rule) (left : Option Expr) (ks : List Token) (e : Expr) (rest : List Token) :
    Prop :=
  ∃ l tail, left = some l ∧ ks = tail ++ rest ∧
    ∀ front, Derives r front l → Derives r (front ++ tail) e

theorem Completes.refl (r : Rule) (e : Expr) (rest : List Token) :
    Completes r (some e) rest e rest :=
  ⟨e, [], rfl, rfl, fun front h => by rwa [List.append_nil]⟩

theorem Completes.starts {sub r : Rule} (hsub : ∀ {ks e}, Derives sub ks e → Derives r ks e)
    {left : Option Expr} {ks mid rest : List Token} {e : Expr} (hc : Completes r left mid e rest)
    (hs : ∀ l, left = some l → Starts sub ks l mid) : Starts r ks e rest := by
  obtain ⟨l, tail, hleft, rfl, hgrow⟩ := hc
  obtain ⟨front, rfl, hl⟩ := hs l hleft
  exact ⟨front ++ tail, (List.append_assoc ..).symm, hgrow front (hsub hl)⟩

theorem Completes.join {sub r : Rule} {op : Token} {join : Expr → Expr → Expr}
    (hjoin : ∀ {ks ls a b}, Derives r ks a → Derives sub ls b → Derives r (ks ++ op :: ls) (join a b))
    {a b e : Expr} {ks ls mid rest : List Token} (hks : ks = op :: ls)
    (hc : Completes r (some (join a b)) mid e rest) (hs : Starts sub ls b mid) :
    Completes r (some a) ks e rest := by
  obtain ⟨_, tail, hleft, rfl, hgrow⟩ := hc
  obtain ⟨front, rfl, hb⟩ := hs
  cases hleft
  refine ⟨a, op :: (front ++ tail), rfl, by simp [hks], fun before ha => ?_⟩
  simpa using hgrow _ (hjoin ha hb)

-- The readers call each other on the same tokens, from `Or` down to `Operand`, so the measure ranks
-- them where no token has been taken.
mutual

theorem starts_of_readOr {ks rest : List Token} {e : Expr}
    (h : outcome (readOr ks) = .ok (some e, rest)) : Starts .or ks e rest := by
  rw [outcome_readOr] at h
  obtain ⟨⟨left, mid⟩, hand, hors⟩ := bind_eq_ok_iff.mp h
  have hmid := length_le_of_outcome hand
  exact (completes_of_readOrs hors).starts .and fun l hl => starts_of_readAnd (by rwa [hl] at hand)
  termination_by 6 * ks.length + 5

theorem completes_of_readOrs {left : Option Expr} {ks rest : List Token} {e : Expr}
    (h : outcome (readOrs left ks) = .ok (some e, rest)) : Completes .or left ks e rest := by
  by_cases hhead : ks.head? = some opOr
  · obtain ⟨ls, hks⟩ := List.head?_eq_some_iff.mp hhead
    have hlength : ks.length = ls.length + 1 := congrArg List.length hks
    rw [hks, outcome_readOrs_cons] at h
    obtain ⟨⟨right, mid⟩, hand, hjoined⟩ := bind_eq_ok_iff.mp h
    obtain ⟨a, b, rfl, rfl, hloop⟩ := joined_eq_ok hjoined
    have hmid := length_le_of_outcome hand
    exact .join .orAnd hks (completes_of_readOrs hloop) (starts_of_readAnd hand)
  · rw [outcome_readOrs_of_head? hhead] at h
    cases h
    exact .refl .or e ks
  termination_by 6 * ks.length + 4

theorem starts_of_readAnd {ks rest : List Token} {e : Expr}
    (h : outcome (readAnd ks) = .ok (some e, rest)) : Starts .and ks e rest := by
  rw [outcome_readAnd] at h
  obtain ⟨⟨left, mid⟩, hnot, hands⟩ := bind_eq_ok_iff.mp h
  have hmid := length_le_of_outcome hnot
  exact (completes_of_readAnds hands).starts .not fun l hl => starts_of_readNot (by rwa [hl] at hnot)
  termination_by 6 * ks.length + 3

theorem completes_of_readAnds {left : Option Expr} {ks rest : List Token} {e : Expr}
    (h : outcome (readAnds left ks) = .ok (some e, rest)) : Completes .and left ks e rest := by
  by_cases hhead : ks.head? = some opAnd
  · obtain ⟨ls, hks⟩ := List.head?_eq_some_iff.mp hhead
    have hlength : ks.length = ls.length + 1 := congrArg List.length hks
    rw [hks, outcome_readAnds_cons] at h
    obtain ⟨⟨right, mid⟩, hnot, hjoined⟩ := bind_eq_ok_iff.mp h
    obtain ⟨a, b, rfl, rfl, hloop⟩ := joined_eq_ok hjoined
    have hmid := length_le_of_outcome hnot
    exact .join .andNot hks (completes_of_readAnds hloop) (starts_of_readNot hnot)
  · rw [outcome_readAnds_of_head? hhead] at h
    cases h
    exact .refl .and e ks
  termination_by 6 * ks.length + 2

theorem starts_of_readNot {ks rest : List Token} {e : Expr}
    (h : outcome (readNot ks) = .ok (some e, rest)) : Starts .not ks e rest := by
  by_cases hhead : ks.head? = some opNot
  · obtain ⟨ls, hks⟩ := List.head?_eq_some_iff.mp hhead
    have hlength : ks.length = ls.length + 1 := congrArg List.length hks
    rw [hks, outcome_readNot_cons] at h
    obtain ⟨⟨child, mid⟩, hoperand, hread⟩ := bind_eq_ok_iff.mp h
    cases child with
    | none => cases hread
    | some child =>
        cases hread
        obtain ⟨front, hfront, hchild⟩ := starts_of_readOperand hoperand
        exact ⟨opNot :: front, by rw [hks, hfront]; rfl, .notOperand hchild⟩
  · rw [outcome_readNot_of_head? hhead] at h
    obtain ⟨front, hfront, hoperand⟩ := starts_of_readOperand h
    exact ⟨front, hfront, .operand hoperand⟩
  termination_by 6 * ks.length + 1

theorem starts_of_readOperand {ks rest : List Token} {e : Expr}
    (h : outcome (readOperand ks) = .ok (some e, rest)) : Starts .operand ks e rest := by
  cases ks with
  | nil => rw [readOperand] at h; cases h
  | cons k ks =>
      cases hkind : k.kind with
      | lparen =>
          rw [outcome_readOperand_group hkind] at h
          obtain ⟨⟨inner, mid⟩, hor, hclose⟩ := bind_eq_ok_iff.mp h
          cases inner with
          | none => cases hclose
          | some inner =>
              cases mid with
              | nil => cases hclose
              | cons c mid =>
                  by_cases hc : c.kind = .rparen
                  · simp only [hc, if_true, Except.ok.injEq, Prod.mk.injEq, Option.some.injEq] at hclose
                    obtain ⟨rfl, rfl⟩ := hclose
                    obtain ⟨front, rfl, hinner⟩ := starts_of_readOr hor
                    exact ⟨k :: (front ++ [c]), by simp, .group hkind hc hinner⟩
                  · simp [hc] at hclose
      | phrase =>
          rw [outcome_readOperand_phrase hkind] at h
          cases h
          exact ⟨[k], rfl, .phrase hkind⟩
      | term =>
          rw [outcome_readOperand_term hkind] at h
          cases h
          exact ⟨[k], rfl, .term hkind⟩
      | operator | rparen =>
          rw [readOperand] at h
          simp only [hkind] at h
          cases h
  termination_by 6 * ks.length

end

/-- The reader of a rule takes `ks` off the front, whatever follows, and goes on with `e` read. A
disjunction ends only where no `AND` follows, since its last conjunction would take that too. -/
def Consumes (ks : List Token) (e : Expr) : Rule → Prop
  | .or => ∀ rest : List Token, rest.head? ≠ some opAnd →
      outcome (readOr (ks ++ rest)) = outcome (readOrs (some e) rest)
  | .and => ∀ rest, outcome (readAnd (ks ++ rest)) = outcome (readAnds (some e) rest)
  | .not => ∀ rest, outcome (readNot (ks ++ rest)) = .ok (some e, rest)
  | .operand => ∀ rest, outcome (readOperand (ks ++ rest)) = .ok (some e, rest)

theorem Derives.consumes {r : Rule} {ks : List Token} {e : Expr} (h : Derives r ks e) :
    Consumes ks e r := by
  induction h with
  | and _ ih =>
      intro rest hrest
      rw [outcome_readOr, ih rest, outcome_readAnds_of_head? hrest]
      rfl
  | @orAnd ks ls l r _ _ ihl ihr =>
      intro rest hrest
      calc outcome (readOr (ks ++ opOr :: ls ++ rest))
          = outcome (readOrs (some l) (opOr :: (ls ++ rest))) := by
            rw [List.append_assoc]
            exact ihl _ (show some opOr ≠ some opAnd by decide)
        _ = outcome (readOrs (some (.or l r)) rest) := by
            rw [outcome_readOrs_cons, ihr rest, outcome_readAnds_of_head? hrest]
            rfl
  | not _ ih =>
      intro rest
      rw [outcome_readAnd, ih rest]
      rfl
  | @andNot ks ls l r _ _ ihl ihr =>
      intro rest
      calc outcome (readAnd (ks ++ opAnd :: ls ++ rest))
          = outcome (readAnds (some l) (opAnd :: (ls ++ rest))) := by
            rw [List.append_assoc]
            exact ihl _
        _ = outcome (readAnds (some (.and l r)) rest) := by
            rw [outcome_readAnds_cons, ihr rest]
            rfl
  | operand h ih =>
      intro rest
      rw [outcome_readNot_of_head? (h.head?_ne rest)]
      exact ih rest
  | notOperand _ ih =>
      intro rest
      rw [List.cons_append, outcome_readNot_cons, ih rest]
      rfl
  | @group k c ks e hk hc _ ih =>
      intro rest
      have hor : (c :: rest).head? ≠ some opOr := some_ne_of_kind (by simp [hc, opOr])
      have hand : (c :: rest).head? ≠ some opAnd := some_ne_of_kind (by simp [hc, opAnd])
      rw [List.cons_append, List.append_assoc, List.singleton_append,
        outcome_readOperand_group hk, ih _ hand, outcome_readOrs_of_head? hor]
      simp [Except.bind, hc]
  | phrase hk => exact outcome_readOperand_phrase hk
  | term hk => exact outcome_readOperand_term hk

theorem outcome_readOr_of_derives {ks : List Token} {e : Expr} (h : Derives .or ks e) :
    outcome (readOr ks) = .ok (some e, []) := by
  have hread := h.consumes [] (by simp)
  rwa [List.append_nil, outcome_readOrs_of_head? (by simp)] at hread

theorem parse_cons (k : Token) (ks : List Token) :
    parse (k :: ks) = (outcome (readOr (k :: ks))).bind fun (e, rest) =>
      match e, rest with
      | none, _ => .error (.unexpected k)
      | some e, [] => .ok (some e)
      | some _, l :: _ => .error (.trailing l) := by
  rw [parse]
  cases readOr (k :: ks) with
  | error err => rfl
  | ok r =>
      obtain ⟨e, rest, h⟩ := r
      cases e with
      | none => rfl
      | some e => cases rest <;> rfl

theorem parse_eq_some_iff {ks : List Token} {e : Expr} :
    parse ks = .ok (some e) ↔ Derives .or ks e := by
  constructor
  · intro h
    cases ks with
    | nil => cases h
    | cons k ks =>
        rw [parse_cons] at h
        obtain ⟨⟨read, rest⟩, hor, hend⟩ := bind_eq_ok_iff.mp h
        cases read with
        | none => cases hend
        | some read =>
            cases rest with
            | cons l rest => cases hend
            | nil =>
                cases hend
                obtain ⟨front, hfront, hderives⟩ := starts_of_readOr hor
                rwa [hfront, List.append_nil]
  · intro h
    cases ks with
    | nil => exact absurd rfl h.ne_nil
    | cons k ks => rw [parse_cons, outcome_readOr_of_derives h]; rfl

/-- Where a sentence is over, only an operator can go on with it. -/
theorem parse_trailing {ks rest : List Token} {k : Token} {e : Expr} (h : Derives .or ks e)
    (hand : k ≠ opAnd) (hor : k ≠ opOr) : parse (ks ++ k :: rest) = .error (.trailing k) := by
  have hrest := h.consumes (k :: rest) (by simpa using hand)
  rw [outcome_readOrs_of_head? (by simpa using hor)] at hrest
  cases ks with
  | nil => exact absurd rfl h.ne_nil
  | cons l ks =>
      rw [List.cons_append] at hrest ⊢
      rw [parse_cons, hrest]
      rfl

theorem parse_eq_none_iff {ks : List Token} : parse ks = .ok none ↔ ks = [] := by
  constructor
  · intro h
    cases ks with
    | nil => rfl
    | cons k ks =>
        rw [parse_cons] at h
        obtain ⟨⟨read, rest⟩, -, hend⟩ := bind_eq_ok_iff.mp h
        cases read with
        | none => cases hend
        | some read => cases rest <;> cases hend
  · rintro rfl
    rfl

theorem Derives.unique {ks : List Token} {d e : Expr} (hd : Derives .or ks d)
    (he : Derives .or ks e) : d = e := by
  have h := (parse_eq_some_iff.mpr hd).symm.trans (parse_eq_some_iff.mpr he)
  cases h
  rfl

/-- The parser accepts exactly the sentences of the grammar, with the one tree that each of them
has; only the empty list gives nothing, and any other list is an error. -/
theorem parse_decides_grammar (ks : List Token) :
    (∀ e, parse ks = .ok (some e) ↔ Derives .or ks e) ∧
      {e | Derives .or ks e}.Subsingleton ∧
      (parse ks = .ok none ↔ ks = []) ∧
      ((∃ err, parse ks = .error err) ↔ ks ≠ [] ∧ ¬∃ e, Derives .or ks e) := by
  refine ⟨fun e => parse_eq_some_iff, fun d hd e he => Derives.unique hd he, parse_eq_none_iff, ?_⟩
  rw [← not_or, ← not_iff_not, not_not, ← parse_eq_none_iff]
  simp only [← parse_eq_some_iff]
  rcases parse ks with err | (_ | e) <;> simp

end VaultSearch.Query
