import Mathlib.Data.Multiset.Basic
import VaultSearch.Proofs.Query.Grammar
import VaultSearch.Proofs.Query.Rendering
import VaultSearch.Proofs.Search.Independence
import VaultSearch.Proofs.Search.Needles

namespace VaultSearch.Query

open Text

/-- A word of a query: a whole word, and no operator in any case. -/
def IsTerm (w : Text) : Prop := Token.Plain ⟨.term, w⟩

instance : DecidablePred IsTerm := fun _ => inferInstanceAs (Decidable (Token.Plain _))

theorem isBlank_of_inWord {c : Char} (h : inWord c = true) : isBlank c = false := by
  cases hc : isBlank c with
  | false => rfl
  | true => simp [not_inWord_of_isBlank hc] at h

theorem IsTerm.isBlank {w : Text} (h : IsTerm w) : ∀ c ∈ w, isBlank c = false := fun c hc =>
  isBlank_of_inWord (List.all_eq_true.mp h.2.1 c hc)

def conjuncts (w : Text) (ws : List Text) : List Token :=
  ⟨.term, w⟩ :: ws.flatMap fun v => [opAnd, ⟨.term, v⟩]

theorem conjuncts_cons (w v : Text) (ws : List Text) :
    conjuncts w (v :: ws) = ⟨.term, w⟩ :: opAnd :: conjuncts v ws := rfl

def conjunction (w : Text) (ws : List Text) : Expr :=
  ws.foldl (fun e v => .and e (.term v)) (.term w)

theorem mem_conjuncts {w : Text} {ws : List Text} {k : Token} (h : k ∈ conjuncts w ws) :
    k = opAnd ∨ ∃ v ∈ w :: ws, k = ⟨.term, v⟩ := by
  rcases List.mem_cons.mp h with rfl | h
  · exact .inr ⟨w, List.mem_cons_self, rfl⟩
  · obtain ⟨v, hv, hk⟩ := List.mem_flatMap.mp h
    rcases List.mem_pair.mp hk with rfl | rfl
    · exact .inl rfl
    · exact .inr ⟨v, List.mem_cons_of_mem w hv, rfl⟩

theorem plain_of_mem_conjuncts {w : Text} {ws : List Text} (h : ∀ v ∈ w :: ws, IsTerm v) :
    ∀ k ∈ conjuncts w ws, k.Plain := by
  intro k hk
  rcases mem_conjuncts hk with rfl | ⟨v, hv, rfl⟩
  · exact List.mem_cons_self
  · exact h v hv

theorem render_conjuncts (w : Text) (ws : List Text) :
    Token.render (conjuncts w ws) = joinWith " AND ".toList (w :: ws) := by
  induction ws generalizing w with
  | nil => rfl
  | cons v ws ih =>
      rw [joinWith_cons_cons, ← ih, conjuncts_cons]
      simp [Token.render, joinWith_cons_cons, conjuncts, Token.text, opAnd, andWord]

theorem Derives.conjuncts {ks : List Token} {e : Expr} (h : Derives .and ks e) (ws : List Text) :
    Derives .and (ks ++ ws.flatMap fun v => [opAnd, ⟨.term, v⟩])
      (ws.foldl (fun e v => .and e (.term v)) e) := by
  induction ws generalizing ks e with
  | nil => simpa using h
  | cons v ws ih =>
      have hterm : Derives .not [⟨.term, v⟩] (.term v) := .operand (.term rfl)
      simpa using ih (h.andNot hterm)

/-- Words that are joined by `AND` are read as their conjunction, grouped to the left. -/
theorem compile_conjunction {w : Text} {ws : List Text} (h : ∀ v ∈ w :: ws, IsTerm v) :
    compile (joinWith " AND ".toList (w :: ws)) = .ok (some (conjunction w ws)) := by
  have hfirst : Derives .and [⟨.term, w⟩] (.term w) := .not (.operand (.term rfl))
  rw [compile, ← render_conjuncts, Token.scan_render (plain_of_mem_conjuncts h), parse_eq_some_iff]
  exact .and (hfirst.conjuncts ws)

theorem holds_foldl_and (e : Expr) (ws : List Text) (lowered : Text) :
    (ws.foldl (fun e v => .and e (.term v)) e).holds lowered =
      (e.holds lowered && ws.all fun v => contains (lower v) lowered) := by
  induction ws generalizing e with
  | nil => simp
  | cons v ws ih => rw [List.foldl_cons, ih, Expr.holds, Expr.holds, List.all_cons, Bool.and_assoc]

theorem holdsIn_conjunction {w : Text} {ws : List Text} (h : ∀ v ∈ w :: ws, IsTerm v) (t : Text) :
    holdsIn (joinWith " AND ".toList (w :: ws)) t =
      (w :: ws).all fun v => contains (lower v) (lower t) := by
  rw [holdsIn, compile_conjunction h, List.all_cons]
  exact holds_foldl_and (.term w) ws (lower t)

end VaultSearch.Query

namespace VaultSearch.Search

open Text Note Query Filtering

theorem inNeedle_of_inWord {c : Char} (h : inWord c = true) : inNeedle c = true := by
  have hq : c ≠ '"' := by
    rintro rfl
    simp [inWord] at h
  simp [inNeedle, isBlank_of_inWord h, hq]

theorem inNeedle_of_isTerm {w : Text} (h : IsTerm w) : w ≠ [] ∧ ∀ c ∈ w, inNeedle c = true :=
  ⟨h.1, fun c hc => inNeedle_of_inWord (List.all_eq_true.mp h.2.1 c hc)⟩

def hasWords (ws : List Text) (d : Document) : Bool :=
  ws.all fun w => contains (lower w) (lower d.title) || contains (lower w) (lower d.content)

theorem hasNeedles_joinWith {ws : List Text} (hne : ws ≠ []) (h : ∀ w ∈ ws, IsTerm w) :
    hasNeedles ((needles (joinWith [' '] ws)).map lower) = hasWords ws := by
  have hparts : trimmedParts (joinWith [' '] ws) = ws :=
    trimmedParts_joinWith fun w hw => inNeedle_of_isTerm (h w hw)
  funext d
  rw [needles_eq_eraseDups (by rwa [hparts]), hparts, Bool.eq_iff_iff]
  simp [hasNeedles, hasWords, List.all_eq_true, List.mem_eraseDups]

/-- A word cannot reach from the title into the content, and lower case does not either. -/
theorem holdsIn_body {w : Text} {ws : List Text} (h : ∀ v ∈ w :: ws, IsTerm v) (d : Document) :
    holdsIn (joinWith " AND ".toList (w :: ws)) d.body = hasWords (w :: ws) d := by
  have hblank : Text.isBlank ' ' = true := by decide
  rw [holdsIn_conjunction h, hasWords, Document.body, lower_append_blank hblank]
  rw [Bool.eq_iff_iff, List.all_eq_true, List.all_eq_true]
  refine forall₂_congr fun v hv => ?_
  have hspace : ' ' ∉ lower v := fun hmem => by
    simpa [hblank] using (h v hv).isBlank ' ' (mem_of_mem_lower hblank hmem)
  rw [contains_append_cons hspace]

def foundIds (rs : List Result) : Multiset Text := (rs.map (·.id) : List Text)

theorem foundIds_exactResults (query : Text) (ds : List Document) :
    foundIds (exactResults query ds) =
      ((ds.filter (hasNeedles ((needles query).map lower))).map (·.id) : List Text) := by
  rw [foundIds, Multiset.coe_eq_coe, exactResults, List.map_map]
  exact (List.filter_append_perm _ _).map _

theorem foundIds_booleanResults (query : Text) (ds : List Document) :
    foundIds (booleanResults query ds) =
      ((ds.filter fun d => holdsIn query d.body).map (·.id) : List Text) := by
  rw [foundIds, booleanResults, booleanFilter, List.map_map]
  rfl

theorem foundIds_paginate {o : Options} (hlimit : o.limit = none ∨ o.limit = some 0)
    (hoffset : o.offset ≤ 0) (rs : List Result) :
    foundIds (paginate o.limit o.offset rs) = foundIds rs := by
  have hfront : paginate o.limit o.offset rs = paginate o.limit 0 rs := by
    simp only [paginate, Int.toNat_of_nonpos hoffset, Int.toNat_zero]
  rw [hfront, paginate_whole hlimit]

/-- Words one after the other, sought exactly, and the same words joined by `AND`, sought as a
boolean query, find the same documents; or the filters fail in the same way. -/
theorem run_conjunction {ws : List Text} (hne : ws ≠ []) (hws : ∀ w ∈ ws, IsTerm w)
    (ds : List Document) (filters : Filters) {o : Options}
    (hlimit : o.limit = none ∨ o.limit = some 0) (hoffset : o.offset ≤ 0) :
    (run ds (joinWith [' '] ws) filters { o with boolean := false, fuzzy := false }).map foundIds =
      (run ds (joinWith " AND ".toList ws) filters { o with boolean := true }).map foundIds := by
  have htrim (sep : Text) : trim (joinWith sep ws) = joinWith sep ws :=
    trim_joinWith sep fun w hw => ⟨(hws w hw).1, (hws w hw).isBlank⟩
  have hsome (sep : Text) : (joinWith sep ws).isEmpty = false := by
    simpa using joinWith_ne_nil sep hne fun w hw => (hws w hw).1
  rw [run, run]
  cases filters.apply ds with
  | error err => rfl
  | ok passed =>
      have hexact : foundIds (exactResults (joinWith [' '] ws) passed) =
          ((passed.filter (hasWords ws)).map (·.id) : List Text) := by
        rw [foundIds_exactResults, hasNeedles_joinWith hne hws]
      have hboolean : foundIds (booleanResults (joinWith " AND ".toList ws) passed) =
          ((passed.filter (hasWords ws)).map (·.id) : List Text) := by
        cases ws with
        | nil => exact absurd rfl hne
        | cons w ws => rw [foundIds_booleanResults, funext (holdsIn_body hws)]
      have hpages := foundIds_paginate hlimit hoffset
      simp only [Except.map, matching, htrim, hsome, Options.mode, hpages, hexact, hboolean,
        Bool.false_eq_true, if_false, if_true]

def roadInTitle : Document :=
  { id := ['a'], title := "ΟΔΟΣ".toList, content := "σε Rust".toList }

def roadInContent : Document := { id := ['b'], title := "Rust".toList, content := "η ΟΔΟΣ".toList }

def roadOnly : Document := { id := ['c'], title := "ΟΔΟΣ".toList }

def bothInTitle : Document := { id := ['d'], title := "rust οδος".toList }

def roads : List Document := [roadInTitle, roadInContent, roadOnly, bothInTitle]

/-- The capital sigma that ends a title is final in lower case, also in front of the content. -/
theorem run_conjunction_finalSigma :
    (∀ w ∈ ["ΟΔΟΣ".toList, "rust".toList], IsTerm w) ∧
      run roads "ΟΔΟΣ rust".toList {} {} =
        .ok ([bothInTitle, roadInTitle, roadInContent].map
          (exactResult ["οδος".toList, "rust".toList])) ∧
      (run roads "ΟΔΟΣ AND rust".toList {} { boolean := true }).map foundIds =
        .ok (([['d'], ['a'], ['b']] : List Text) : Multiset Text) := by
  have hwords : ∀ w ∈ ["ΟΔΟΣ".toList, "rust".toList], IsTerm w := by decide +kernel
  have hexact : run roads "ΟΔΟΣ rust".toList {} {} =
      .ok ([bothInTitle, roadInTitle, roadInContent].map
        (exactResult ["οδος".toList, "rust".toList])) :=
    eq_ok_of_toOption (by decide +kernel)
  refine ⟨hwords, hexact, ?_⟩
  have hsame := run_conjunction (List.cons_ne_nil _ _) hwords roads {} (o := {}) (.inl rfl) (by decide)
  exact hsame.symm.trans (congrArg (Except.map foundIds) hexact)

end VaultSearch.Search
