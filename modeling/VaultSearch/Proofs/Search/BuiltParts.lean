import VaultSearch.Proofs.Query.Detection
import VaultSearch.Proofs.Search.LetterCase
import VaultSearch.Search.Suggest

namespace VaultSearch.Query

open Text

/-- A query that puts anything else than an operator behind a sentence is sought letter by letter. -/
theorem holdsIn_trailing {q : Text} {ks rest : List Token} {k : Token} {e : Expr}
    (hscan : Token.scan q = ks ++ k :: rest) (h : Derives .or ks e) (hand : k ≠ opAnd)
    (hor : k ≠ opOr) (t : Text) : holdsIn q t = contains (lower q) (lower t) := by
  rw [holdsIn, compile, hscan, parse_trailing h hand hor]

end VaultSearch.Query

namespace VaultSearch.Search

open Text Note Query Filtering

def found (q : Text) (ds : List Document) : Except FilterError (List Text) :=
  (smartSearch ds { query := q }).map (·.map (·.id))

/-- A query with an operator and without filters finds the documents it holds in. -/
theorem found_of_hasOperator {q : Text} (hop : hasOperator q = true)
    (hspaced : joinWith [' '] (Text.words q) = q) (hfree : ∀ w ∈ Text.words q, isFilter w = false)
    (ds : List Document) : found q ds = .ok ((ds.filter fun d => holdsIn q d.body).map (·.id)) := by
  have htrim : trim q = q := by
    have hjoin := trim_joinWith [' '] fun w (hw : w ∈ Text.words q) =>
      ⟨mem_words hw, isBlank_of_mem_words hw⟩
    rwa [hspaced] at hjoin
  have hfull : q.isEmpty = false := by
    rw [List.isEmpty_eq_false_iff]
    rintro rfl
    rw [hasOperator, unquote_nil] at hop
    cases hop
  have hmatching : matching { boolean := true } q ds = booleanResults q ds := by
    rw [matching, htrim]
    simp only [hfull, Options.mode, Bool.false_eq_true, if_false, if_true]
  have hrun : smartSearch ds { query := q } = .ok (booleanResults q ds) := by
    have hsearch : search ds { query := q, boolean := true } =
        run ds (joinWith [' '] (Text.words q)) {} { boolean := true } :=
      search_of_free (o := { boolean := true }) hfree
    rw [hspaced] at hsearch
    calc smartSearch ds { query := q }
        = run ds q {} { boolean := true } := by rw [smartSearch, smart, hop, ← hsearch]
      _ = .ok (paginate none 0 (matching { boolean := true } q ds)) := rfl
      _ = .ok (booleanResults q ds) := by rw [paginate_whole (.inl rfl), hmatching]
  rw [found, hrun]
  exact congrArg Except.ok List.map_map

section Building

def builtTokens (w : Text) (ws phrases : List Text) : List Token :=
  conjuncts w ws ++ phrases.map (⟨.phrase, ·⟩)

theorem buildQuery_eq_render (w : Text) (ws phrases : List Text) :
    buildQuery andWord (w :: ws) phrases [] [] [] = Token.render (builtTokens w ws phrases) := by
  have hne : (conjuncts w ws).map Token.text ≠ [] := List.cons_ne_nil _ _
  have hbuilt : buildQuery andWord (w :: ws) phrases [] [] [] =
      joinWith [' '] (joinWith " AND ".toList (w :: ws) :: phrases.map inQuotes) := by
    simp [buildQuery, dateText]
    rfl
  have hphrases : phrases.map inQuotes =
      (phrases.map (⟨.phrase, ·⟩ : Text → Token)).map Token.text := by
    rw [List.map_map]
    rfl
  rw [hbuilt, ← render_conjuncts, hphrases, Token.render, joinWith_joinWith_cons _ hne,
    ← List.map_append]
  rfl

theorem mem_builtTokens {w : Text} {ws phrases : List Text} {k : Token}
    (h : k ∈ builtTokens w ws phrases) :
    k = opAnd ∨ ∃ v ∈ (w :: ws) ++ phrases, k = ⟨.term, v⟩ ∨ k = ⟨.phrase, v⟩ := by
  rcases List.mem_append.mp h with h | h
  · rcases mem_conjuncts h with rfl | ⟨v, hv, rfl⟩
    · exact .inl rfl
    · exact .inr ⟨v, List.mem_append_left _ hv, .inl rfl⟩
  · obtain ⟨p, hp, rfl⟩ := List.mem_map.mp h
    exact .inr ⟨p, List.mem_append_right _ hp, .inr rfl⟩

/-- A word that stands for itself in a query: it is no operator and no filter. -/
def IsPart (w : Text) : Prop := IsTerm w ∧ isFilter w = false

instance : DecidablePred IsPart := fun _ => inferInstanceAs (Decidable (_ ∧ _))

theorem IsPart.quote_notMem {w : Text} (h : IsPart w) : '"' ∉ w :=
  Token.Plain.quote_notMem h.1 (.inl rfl)

section Parts

variable {w : Text} {ws phrases : List Text} (hparts : ∀ v ∈ (w :: ws) ++ phrases, IsPart v)

include hparts

theorem plain_builtTokens : ∀ k ∈ builtTokens w ws phrases, k.Plain := by
  intro k hk
  rcases mem_builtTokens hk with rfl | ⟨v, hv, rfl | rfl⟩
  · exact List.mem_cons_self
  · exact (hparts v hv).1
  · exact (hparts v hv).quote_notMem

/-- Each token of a built query is one of its words, and no filter. -/
theorem text_builtTokens : ∀ t ∈ (builtTokens w ws phrases).map Token.text,
    (t ≠ [] ∧ ∀ c ∈ t, isBlank c = false) ∧ isFilter t = false := by
  refine List.forall_mem_map.mpr fun k hk => ?_
  rcases mem_builtTokens hk with rfl | ⟨v, hv, rfl | rfl⟩
  · have hop : (opAnd.text ≠ [] ∧ opAnd.text.all (!isBlank ·) = true) ∧ isFilter opAnd.text = false :=
      by decide
    simpa using hop
  · exact ⟨⟨(hparts v hv).1.1, (hparts v hv).1.isBlank⟩, (hparts v hv).2⟩
  · have hquote : isBlank '"' = false := by decide
    have hblank : ∀ c ∈ inQuotes v, isBlank c = false := by
      simpa [inQuotes, hquote, or_imp, forall_and] using (hparts v hv).1.isBlank
    exact ⟨⟨List.cons_ne_nil _ _, hblank⟩, isFilter_quote _⟩

theorem words_render_builtTokens : Text.words (Token.render (builtTokens w ws phrases)) =
    (builtTokens w ws phrases).map Token.text :=
  words_joinWith fun t ht => (text_builtTokens hparts t ht).1

end Parts

section Searching

variable {w v : Text} {ws phrases : List Text}

theorem hasOperator_builtTokens (hw : '"' ∉ w) (v : Text) (ws phrases : List Text) :
    hasOperator (Token.render (builtTokens w (v :: ws) phrases)) = true := by
  have hsplit : Token.render (builtTokens w (v :: ws) phrases) =
      w ++ ' ' :: (andWord ++ ' ' :: Token.render (builtTokens v ws phrases)) := by
    simp [Token.render, joinWith_cons_cons, Token.text, opAnd, builtTokens, conjuncts]
  rw [hsplit]
  exact hasOperator_of_spaced hw (by decide) _

variable (hparts : ∀ u ∈ (w :: v :: ws) ++ phrases, IsPart u)

include hparts

theorem found_built (ds : List Document) :
    found (buildQuery andWord (w :: v :: ws) phrases [] [] []) ds = .ok ((ds.filter fun d =>
      holdsIn (buildQuery andWord (w :: v :: ws) phrases [] [] []) d.body).map (·.id)) := by
  have hwords := words_render_builtTokens hparts
  have hop := hasOperator_builtTokens (hparts w List.mem_cons_self).quote_notMem v ws phrases
  rw [buildQuery_eq_render]
  refine found_of_hasOperator hop (by rw [hwords]; rfl) (fun t ht => ?_) ds
  rw [hwords] at ht
  exact (text_builtTokens hparts t ht).2

/-- A phrase behind the terms is none of what the reader expects there. -/
theorem holdsIn_built (hphrases : phrases ≠ []) (t : Text) :
    holdsIn (buildQuery andWord (w :: v :: ws) phrases [] [] []) t =
      contains (lower (buildQuery andWord (w :: v :: ws) phrases [] [] [])) (lower t) := by
  obtain ⟨p, ps, rfl⟩ := List.exists_cons_of_ne_nil hphrases
  have hfirst : Derives .and [⟨.term, w⟩] (.term w) := .not (.operand (.term rfl))
  have hscan := Token.scan_render (plain_builtTokens hparts)
  rw [← buildQuery_eq_render] at hscan
  exact holdsIn_trailing hscan (.and (hfirst.conjuncts (v :: ws))) (by simp [opAnd]) (by simp [opOr]) t

/-- Its quotes are sought as well, and a text of the parts alone has none. -/
theorem holdsIn_built_probe (hphrases : phrases ≠ []) :
    holdsIn (buildQuery andWord (w :: v :: ws) phrases [] [] [])
      (probe (joinWith [' '] ((w :: v :: ws) ++ phrases))).body = false := by
  have hquote : '"' ∈ buildQuery andWord (w :: v :: ws) phrases [] [] [] := by
    obtain ⟨p, ps, rfl⟩ := List.exists_cons_of_ne_nil hphrases
    have hmem : inQuotes p ∈ (builtTokens w (v :: ws) (p :: ps)).map Token.text :=
      List.mem_map_of_mem (List.mem_append_right _ List.mem_cons_self)
    rw [buildQuery_eq_render]
    exact (infix_joinWith [' '] hmem).subset List.mem_cons_self
  have hcontent : '"' ∉ joinWith [' '] ((w :: v :: ws) ++ phrases) :=
    quote_notMem_joinWith fun u hu => inNeedle_of_isTerm (hparts u hu).1
  have hbody : '"' ∉ (probe (joinWith [' '] ((w :: v :: ws) ++ phrases))).body := by
    simpa [Document.body, probe] using hcontent
  rw [holdsIn_built hparts hphrases, Bool.eq_false_iff, Ne, contains_iff_infix]
  intro hin
  exact hbody ((apart_quote.mem_lower_iff rfl).mp
    (hin.subset ((apart_quote.mem_lower_iff rfl).mpr hquote)))

end Searching

theorem hasWords_probe (parts : List Text) : hasWords parts (probe (joinWith [' '] parts)) = true := by
  refine List.all_eq_true.mpr fun u hu => ?_
  rw [Bool.or_eq_true, contains_iff_infix, contains_iff_infix]
  left
  rw [probe, lower_joinWith (by decide)]
  exact infix_joinWith [' '] (List.mem_map_of_mem hu)

/-- A query built from two or more terms and from phrases finds the documents that have all of them
exactly if there are no phrases. Else it finds those that have the query itself, letter by letter,
with its operators and quotes. -/
theorem found_buildQuery {terms phrases : List Text} (hterms : 2 ≤ terms.length)
    (hparts : ∀ w ∈ terms ++ phrases, IsPart w) :
    ((∀ ds, found (buildQuery andWord terms phrases [] [] []) ds =
        .ok ((ds.filter (hasWords (terms ++ phrases))).map (·.id))) ↔ phrases = []) ∧
      (phrases ≠ [] → ∀ ds, found (buildQuery andWord terms phrases [] [] []) ds =
        .ok ((ds.filter fun d => contains (lower (buildQuery andWord terms phrases [] [] []))
          (lower d.body)).map (·.id))) := by
  obtain ⟨w, v, ws, rfl⟩ : ∃ w v ws, terms = w :: v :: ws := by
    match terms, hterms with
    | w :: v :: ws, _ => exact ⟨w, v, ws, rfl⟩
  refine ⟨⟨fun hall => ?_, ?_⟩, fun hphrases ds => ?_⟩
  · by_contra hphrases
    have hone := hall [probe (joinWith [' '] ((w :: v :: ws) ++ phrases))]
    rw [found_built hparts, List.filter_cons_of_pos (hasWords_probe _),
      List.filter_cons_of_neg (by rw [holdsIn_built_probe hparts hphrases]; decide)] at hone
    cases hone
  · rintro rfl ds
    have hwords : ∀ u ∈ w :: v :: ws, IsTerm u := fun u hu =>
      (hparts u (List.mem_append_left _ hu)).1
    have hterms : buildQuery andWord (w :: v :: ws) [] [] [] [] =
        joinWith " AND ".toList (w :: v :: ws) := rfl
    rw [found_built hparts, List.append_nil, hterms, funext (holdsIn_body hwords)]
  · rw [found_built hparts, funext fun d : Document => holdsIn_built hparts hphrases d.body]

def rustAndGo : List Text := ["rust".toList, "Go".toList]

theorem found_buildQuery_rustAndGo :
    2 ≤ rustAndGo.length ∧ (∀ w ∈ rustAndGo ++ [], IsPart w) ∧
      ∀ ds, found "rust AND Go".toList ds =
        .ok ((ds.filter (hasWords (rustAndGo ++ []))).map (·.id)) := by
  have hparts : ∀ w ∈ rustAndGo ++ [], IsPart w := by decide +kernel
  exact ⟨by decide, hparts, (found_buildQuery (by decide) hparts).1.mpr rfl⟩

def borrowed : Document := { id := ['a'], content := "rust go borrow".toList }

/-- The phrase stands in the document, but not in quotes. -/
theorem phrase_loses_borrowed :
    2 ≤ rustAndGo.length ∧ (∀ w ∈ rustAndGo ++ ["borrow".toList], IsPart w) ∧
      hasWords (rustAndGo ++ ["borrow".toList]) borrowed = true ∧
      buildQuery andWord rustAndGo ["borrow".toList] [] [] [] = "rust AND Go \"borrow\"".toList ∧
      found "rust AND Go \"borrow\"".toList [borrowed] = .ok [] := by
  refine ⟨by decide, by decide +kernel, by decide +kernel, by decide +kernel, ?_⟩
  exact eq_ok_of_toOption (by decide +kernel)

end Building

end VaultSearch.Search
