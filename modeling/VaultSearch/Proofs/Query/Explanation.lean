import VaultSearch.Proofs.Query.Grammar
import VaultSearch.Proofs.Query.Rendering

namespace VaultSearch.Query

open Text

namespace Expr

inductive Opening
  | term
  | phrase
  | not
  | pair
  deriving DecidableEq

def Opening.text : Opening → Text
  | term => "contains \"".toList
  | phrase => "contains exact phrase \"".toList
  | not => "does NOT (".toList
  | pair => ['(']

/-- No opening is the start of another. -/
theorem Opening.eq_of_starts {a b : Opening} (h : a.text <+: b.text) : a = b := by
  revert h
  cases a <;> cases b <;> decide

theorem Opening.cancel {a b : Opening} {s t : Text} (h : a.text ++ s = b.text ++ t) :
    a = b ∧ s = t := by
  have ha : a.text <+: b.text ++ t := h ▸ List.prefix_append a.text s
  have hab : a = b := by
    rcases List.prefix_or_prefix_of_prefix ha (List.prefix_append b.text t) with hstart | hstart
    · exact eq_of_starts hstart
    · exact (eq_of_starts hstart).symm
  subst hab
  exact ⟨rfl, List.append_cancel_left h⟩

def opening : Expr → Opening
  | .term _ => .term
  | .phrase _ => .phrase
  | .not _ => .not
  | .and _ _ | .or _ _ => .pair

def andJoint : Text := ") AND (".toList

def orJoint : Text := ") OR (".toList

theorem joint_ne (s t : Text) : andJoint ++ s ≠ orJoint ++ t := by
  intro h
  have hthird : some 'A' = some 'O' := congrArg (fun t : Text => (t.drop 2).head?) h
  exact absurd hthird (by decide)

def afterOpening (s : Text) : Expr → Text
  | .term v | .phrase v => v ++ '"' :: s
  | .not e => e.explain ++ ')' :: s
  | .and l r => l.explain ++ (andJoint ++ (r.explain ++ ')' :: s))
  | .or l r => l.explain ++ (orJoint ++ (r.explain ++ ')' :: s))

theorem explain_append (e : Expr) (s : Text) :
    e.explain ++ s = e.opening.text ++ e.afterOpening s := by
  have hsingle : ∀ front v last : Text, front ++ v ++ last ++ s = front ++ (v ++ (last ++ s)) := by
    simp
  have hpair : ∀ l joint r : Text,
      '(' :: l ++ joint ++ r ++ [')'] ++ s = '(' :: (l ++ (joint ++ (r ++ ')' :: s))) := by
    simp
  cases e with
  | term v => exact hsingle Opening.term.text v ['"']
  | phrase v => exact hsingle Opening.phrase.text v ['"']
  | not e => exact hsingle Opening.not.text e.explain [')']
  | and l r => exact hpair l.explain andJoint r.explain
  | or l r => exact hpair l.explain orJoint r.explain

theorem cancel_opening {e d : Expr} {s t : Text} (h : e.explain ++ s = d.explain ++ t) :
    e.opening = d.opening ∧ e.afterOpening s = d.afterOpening t := by
  rw [explain_append, explain_append] at h
  exact Opening.cancel h

theorem eq_of_append_quote {v w s t : Text} (hv : '"' ∉ v) (hw : '"' ∉ w)
    (h : v ++ '"' :: s = w ++ '"' :: t) : v = w ∧ s = t := by
  have hvalue := congrArg (List.takeWhile (· != '"')) h
  rw [takeWhile_append_run (bne_of_notMem hv) (by simp),
    takeWhile_append_run (bne_of_notMem hw) (by simp)] at hvalue
  subst hvalue
  exact ⟨rfl, (List.cons.inj (List.append_cancel_left h)).2⟩

def Quoteless : Expr → Prop
  | .term v | .phrase v => '"' ∉ v
  | .not e => e.Quoteless
  | .and l r | .or l r => l.Quoteless ∧ r.Quoteless

/-- An explanation can be told from what follows it: quotes end a value, and parentheses enclose
any other part. So it does not matter what a phrase reads like. -/
theorem explain_append_injective {e d : Expr} (he : e.Quoteless) (hd : d.Quoteless) {s t : Text}
    (h : e.explain ++ s = d.explain ++ t) : e = d ∧ s = t := by
  induction e generalizing d s t with
  | term v =>
      obtain ⟨hopening, hrest⟩ := cancel_opening h
      cases d with
      | term w =>
          obtain ⟨rfl, rfl⟩ := eq_of_append_quote (v := v) (w := w) he hd hrest
          exact ⟨rfl, rfl⟩
      | phrase | not | and | or => cases hopening
  | phrase v =>
      obtain ⟨hopening, hrest⟩ := cancel_opening h
      cases d with
      | phrase w =>
          obtain ⟨rfl, rfl⟩ := eq_of_append_quote (v := v) (w := w) he hd hrest
          exact ⟨rfl, rfl⟩
      | term | not | and | or => cases hopening
  | not e ih =>
      obtain ⟨hopening, hrest⟩ := cancel_opening h
      cases d with
      | not d =>
          change e.explain ++ ')' :: s = d.explain ++ ')' :: t at hrest
          obtain ⟨rfl, hclose⟩ := ih (d := d) he hd hrest
          exact ⟨rfl, (List.cons.inj hclose).2⟩
      | term | phrase | and | or => cases hopening
  | and l r ihl ihr =>
      obtain ⟨hopening, hrest⟩ := cancel_opening h
      cases d with
      | and l' r' =>
          change l.explain ++ (andJoint ++ (r.explain ++ ')' :: s)) =
            l'.explain ++ (andJoint ++ (r'.explain ++ ')' :: t)) at hrest
          obtain ⟨rfl, hright⟩ := ihl he.1 hd.1 hrest
          obtain ⟨rfl, hclose⟩ := ihr he.2 hd.2 (List.append_cancel_left hright)
          exact ⟨rfl, (List.cons.inj hclose).2⟩
      | or l' r' => exact absurd (ihl (d := l') he.1 hd.1 hrest).2 (joint_ne _ _)
      | term | phrase | not => cases hopening
  | or l r ihl ihr =>
      obtain ⟨hopening, hrest⟩ := cancel_opening h
      cases d with
      | or l' r' =>
          change l.explain ++ (orJoint ++ (r.explain ++ ')' :: s)) =
            l'.explain ++ (orJoint ++ (r'.explain ++ ')' :: t)) at hrest
          obtain ⟨rfl, hright⟩ := ihl he.1 hd.1 hrest
          obtain ⟨rfl, hclose⟩ := ihr he.2 hd.2 (List.append_cancel_left hright)
          exact ⟨rfl, (List.cons.inj hclose).2⟩
      | and l' r' => exact absurd (ihl (d := l') he.1 hd.1 hrest).2.symm (joint_ne _ _)
      | term | phrase | not => cases hopening

theorem explain_ne_nil (e : Expr) : e.explain ≠ [] := by
  have hopening : ∀ a : Opening, a.text ≠ [] := by
    intro a
    cases a <;> decide
  intro h
  have happend := explain_append e []
  rw [List.append_nil, h] at happend
  exact hopening e.opening (List.append_eq_nil_iff.mp happend.symm).1

end Expr

theorem Derives.quoteless {r : Rule} {ks : List Token} {e : Expr} (h : Derives r ks e)
    (hks : ∀ k ∈ ks, k.Plain) : e.Quoteless := by
  induction h with
  | and _ ih | not _ ih | operand _ ih => exact ih hks
  | orAnd _ _ ihl ihr | andNot _ _ ihl ihr =>
      obtain ⟨hl, hr⟩ := List.forall_mem_append.mp hks
      exact ⟨ihl hl, ihr (List.forall_mem_cons.mp hr).2⟩
  | notOperand _ ih => exact ih (List.forall_mem_cons.mp hks).2
  | group _ _ _ ih =>
      exact ih (List.forall_mem_append.mp (List.forall_mem_cons.mp hks).2).1
  | phrase hk => exact (hks _ List.mem_cons_self).quote_notMem (.inr hk)
  | term hk => exact (hks _ List.mem_cons_self).quote_notMem (.inl hk)

theorem quoteless_of_compile {q : Text} {e : Expr} (h : compile q = .ok (some e)) : e.Quoteless :=
  (parse_eq_some_iff.mp h).quoteless (Token.plain_of_mem_scan q)

/-- Two queries that can be read are explained alike exactly if they are read alike. -/
theorem explain_eq_iff {q q' : Text} {e e' : Option Expr} (h : compile q = .ok e)
    (h' : compile q' = .ok e') : explain q = explain q' ↔ e = e' := by
  rw [explain, explain, h, h']
  cases e with
  | none =>
      cases e' with
      | none => simp
      | some d => simpa using (Expr.explain_ne_nil d).symm
  | some e =>
      cases e' with
      | none => simpa using Expr.explain_ne_nil e
      | some d =>
          rw [Option.some.injEq]
          refine ⟨fun hsame => ?_, congrArg Expr.explain⟩
          exact (Expr.explain_append_injective (quoteless_of_compile h) (quoteless_of_compile h')
            (congrArg (· ++ []) hsame)).1

def readAsPhrase : Text := "\"way) AND (contains\"".toList

def readAsConjunction : Text := "\"way\" and(contains)".toList

theorem explain_eq_iff_phrase :
    compile readAsPhrase = .ok (some (.phrase "way) AND (contains".toList)) ∧
      compile readAsConjunction =
        .ok (some (.and (.phrase "way".toList) (.term "contains".toList))) ∧
      explain readAsPhrase ≠ explain readAsConjunction := by
  have hphrase : compile readAsPhrase = .ok (some (.phrase "way) AND (contains".toList)) :=
    eq_ok_of_toOption (by decide +kernel)
  have hconjunction : compile readAsConjunction =
      .ok (some (.and (.phrase "way".toList) (.term "contains".toList))) :=
    eq_ok_of_toOption (by decide +kernel)
  exact ⟨hphrase, hconjunction, fun h => absurd ((explain_eq_iff hphrase hconjunction).mp h) (by simp)⟩

end VaultSearch.Query
