import VaultSearch.Note.Frontmatter
import VaultSearch.Proofs.Yaml.Load
import VaultSearch.Proofs.Yaml.Scanner
import VaultSearch.Proofs.Yaml.Text

namespace VaultSearch.Note

open Yaml

section Fields

def fieldInts : Option Value → List Int
  | none => []
  | some v => v.ints

def itemInts : Option Value → List Int
  | some (.list label items) => intsOfItems (itemsOf label items)
  | _ => []

def writtenInts (es : Entries) : List Int :=
  fieldInts (Value.lookup "title".toList es) ++ itemInts (Value.lookup "tags".toList es) ++
    itemInts (Value.lookup "aliases".toList es) ++ fieldInts (Value.lookup "created".toList es) ++
    fieldInts (lastChange es)

theorem isOk_readText (v : Value) : (readText v).isOk = v.ints.all isShort := by
  rw [readText, isOk_mapError, v.isOk_toText]

theorem isOk_readOptional (v : Option Value) :
    (readOptional v).isOk = (fieldInts v).all isShort := by
  cases v with
  | none => rfl
  | some v =>
      rw [readOptional, fieldInts]
      split
      · rename_i hnull
        rw [Value.isNull.eq_def] at hnull
        split at hnull
        · rfl
        · cases hnull
      · rw [isOk_map, isOk_readText]

theorem all_intsOfItems (p : Int → Bool) (vs : List Value) :
    (intsOfItems vs).all p = vs.all fun v => v.ints.all p := by
  induction vs with
  | nil => rfl
  | cons v vs ih => rw [intsOfItems, List.all_append, ih, List.all_cons]

theorem isOk_readList (v : Option Value) : (readList v).isOk = (itemInts v).all isShort := by
  rw [readList.eq_def]
  split
  · rw [isOk_map, isOk_mapM, itemInts, all_intsOfItems]
    simp only [isOk_readText]
  · rfl
  · rename_i hlist htext
    rw [itemInts.eq_def]
    split
    · rename_i label items
      exact absurd rfl (hlist label items)
    · rfl

theorem isOk_ofEntries (es : Entries) : (ofEntries es).isOk = (writtenInts es).all isShort := by
  simp only [writtenInts, List.all_append, ← isOk_readOptional, ← isOk_readList]
  rw [ofEntries]
  cases readOptional (Value.lookup "title".toList es) with
  | error err => rfl
  | ok title =>
      cases readList (Value.lookup "tags".toList es) with
      | error err => rfl
      | ok tags =>
          cases readList (Value.lookup "aliases".toList es) with
          | error err => rfl
          | ok aliases =>
              cases readOptional (Value.lookup "created".toList es) with
              | error err => rfl
              | ok created => cases readOptional (lastChange es) <;> rfl

end Fields

/-- The frontmatter of a note cannot be read: it is well-formed and stands for no value, or a number
in a field of it is too long to be written. -/
inductive Blocked (t : Text) : Prop
  | value {head rest : Text} {err : Failure} (hsplit : splitFrontmatter t = some (head, rest))
      (hload : load head = .error err) (herr : err ≠ .malformed)
  | number {head rest : Text} {label : Option Nat} {es : Entries} {n : Int}
      (hsplit : splitFrontmatter t = some (head, rest)) (hload : load head = .ok (.map label es))
      (hn : n ∈ writtenInts (entriesOf label es)) (hlong : isShort n = false)

section Reading

variable {t head rest : Text} (hsplit : splitFrontmatter t = some (head, rest))

include hsplit

/-- Frontmatter that is malformed, or no mapping, is part of the body. -/
theorem readFrontmatter_of_ignored
    (hload : load head = .error .malformed ∨
      ∃ v, load head = .ok v ∧ ∀ label es, v ≠ .map label es) :
    readFrontmatter t = .ok ({}, t) := by
  simp only [readFrontmatter, hsplit]
  rcases hload with hload | ⟨v, hload, hmap⟩
  · rw [hload]
  · rw [hload]
    cases v with
    | map label es => exact absurd rfl (hmap label es)
    | scalar | list | set | tuple | again => rfl

theorem readFrontmatter_of_error {err : Failure} (hload : load head = .error err)
    (herr : err ≠ .malformed) : readFrontmatter t = .error err := by
  simp only [readFrontmatter, hsplit, hload]

theorem readFrontmatter_of_map {label : Option Nat} {es : Entries}
    (hload : load head = .ok (.map label es)) :
    readFrontmatter t = (ofEntries (entriesOf label es)).map fun m => (m, bodyAfter rest) := by
  simp only [readFrontmatter, hsplit, hload]

/-- Frontmatter is ignored, or has no value, or is a mapping that the metadata are made of. -/
theorem readFrontmatter_cases :
    ((load head = .error .malformed ∨ ∃ v, load head = .ok v ∧ ∀ label es, v ≠ .map label es) ∧
        readFrontmatter t = .ok ({}, t)) ∨
      (∃ err, load head = .error err ∧ err ≠ .malformed ∧ readFrontmatter t = .error err) ∨
      ∃ label es, load head = .ok (.map label es) ∧
        readFrontmatter t = (ofEntries (entriesOf label es)).map fun m => (m, bodyAfter rest) := by
  cases hload : load head with
  | error err =>
      by_cases herr : err = .malformed
      · have hignored := readFrontmatter_of_ignored hsplit (.inl (herr ▸ hload))
        exact .inl ⟨.inl (herr ▸ rfl), hignored⟩
      · exact .inr (.inl ⟨err, rfl, herr, readFrontmatter_of_error hsplit hload herr⟩)
  | ok v =>
      by_cases hmap : ∃ label es, v = .map label es
      · obtain ⟨label, es, rfl⟩ := hmap
        exact .inr (.inr ⟨label, es, rfl, readFrontmatter_of_map hsplit hload⟩)
      · have hother : ∀ label es, v ≠ .map label es := fun label es hv => hmap ⟨label, es, hv⟩
        have hignored := readFrontmatter_of_ignored hsplit (.inr ⟨v, hload, hother⟩)
        exact .inl ⟨.inr ⟨v, rfl, hother⟩, hignored⟩

theorem blocked_iff : Blocked t ↔ (∃ err, load head = .error err ∧ err ≠ .malformed) ∨
    ∃ label es, load head = .ok (.map label es) ∧ (ofEntries (entriesOf label es)).isOk = false := by
  simp only [isOk_ofEntries, List.all_eq_false, Bool.not_eq_true]
  constructor
  · rintro (⟨hsplit', hload, herr⟩ | ⟨hsplit', hload, hn, hlong⟩)
    · cases hsplit.symm.trans hsplit'
      exact .inl ⟨_, hload, herr⟩
    · cases hsplit.symm.trans hsplit'
      exact .inr ⟨_, _, hload, _, hn, hlong⟩
  · rintro (⟨err, hload, herr⟩ | ⟨label, es, hload, n, hn, hlong⟩)
    · exact .value hsplit hload herr
    · exact .number hsplit hload hn hlong

end Reading

theorem fields_ofEntries {es : Entries} {m : Metadata} (h : ofEntries es = .ok m) :
    m.raw = some es ∧ readOptional (Value.lookup "created".toList es) = .ok m.created ∧
      readOptional (lastChange es) = .ok m.modified := by
  obtain ⟨title, -, h⟩ := bind_eq_ok_iff.mp h
  obtain ⟨tags, -, h⟩ := bind_eq_ok_iff.mp h
  obtain ⟨aliases, -, h⟩ := bind_eq_ok_iff.mp h
  obtain ⟨created, hcreated, h⟩ := bind_eq_ok_iff.mp h
  obtain ⟨modified, hmodified, h⟩ := bind_eq_ok_iff.mp h
  cases h
  exact ⟨rfl, hcreated, hmodified⟩

/-- Raw metadata come from frontmatter that is a mapping, and the body is then what follows it. -/
theorem readFrontmatter_of_raw {t body : Text} {m : Metadata} {es : Entries}
    (hread : readFrontmatter t = .ok (m, body)) (hraw : m.raw = some es) :
    ∃ head rest label es', splitFrontmatter t = some (head, rest) ∧
      load head = .ok (.map label es') ∧ es = entriesOf label es' ∧ ofEntries es = .ok m ∧
      body = bodyAfter rest := by
  cases hsplit : splitFrontmatter t with
  | none =>
      rw [readFrontmatter, hsplit] at hread
      cases hread
      cases hraw
  | some parts =>
      obtain ⟨head, rest⟩ := parts
      rcases readFrontmatter_cases hsplit with ⟨-, hignored⟩ | ⟨err, -, -, herr⟩ |
        ⟨label, es', hload, hmap⟩
      · cases hignored.symm.trans hread
        cases hraw
      · cases herr.symm.trans hread
      · obtain ⟨m', hm', hpair⟩ := map_eq_ok_iff.mp (hmap.symm.trans hread)
        cases hpair
        cases (fields_ofEntries hm').1.symm.trans hraw
        exact ⟨head, rest, label, es', rfl, hload, rfl, hm', rfl⟩

theorem isOk_readFrontmatter_iff {t : Text} : (readFrontmatter t).isOk = true ↔ ¬Blocked t := by
  cases hsplit : splitFrontmatter t with
  | none =>
      have hnot : ¬Blocked t := by
        rintro (⟨hsplit', -, -⟩ | ⟨hsplit', -, -, -⟩) <;> cases hsplit.symm.trans hsplit'
      simp [readFrontmatter, hsplit, hnot, Except.isOk, Except.toBool]
  | some parts =>
      obtain ⟨head, rest⟩ := parts
      rw [blocked_iff hsplit]
      rcases readFrontmatter_cases hsplit with ⟨hignored, hread⟩ | ⟨err, hload, herr, hread⟩ |
        ⟨label, es, hload, hread⟩
      · rw [hread]
        rcases hignored with hload | ⟨v, hload, hother⟩
        · simp [hload, Except.isOk, Except.toBool]
        · simp [hload, hother, Except.isOk, Except.toBool]
      · rw [hread, hload]
        simp [herr, Except.isOk, Except.toBool]
      · rw [hread, hload, isOk_map]
        simp

/-- A note has metadata and a body if and only if nothing blocks its frontmatter. -/
theorem isOk_readNote_iff {t path : Text} : (readNote t path).isOk = true ↔ ¬Blocked t := by
  rw [readNote, isOk_map, isOk_readFrontmatter_iff]

inductive Fault (head : Text) : Prop
  | escape (h : (Tokens.ofText head).failure = .codePoint ∨
      (Tokens.ofText head).failure = .codeWidth)
  | version {err : Number.LiteralError} (h : (Tokens.ofText head).failure = .literal err)
  | scalar {g : Graph} {root : NodeId} {err : Failure} (hg : Graph.ofText head = .ok (some (g, root)))
      (h : Unvalued g err) (herr : err ≠ .malformed)
  | number {label : Option Nat} {es : Entries} {n : Int} (hload : load head = .ok (.map label es))
      (hn : n ∈ writtenInts (entriesOf label es)) (hlong : isShort n = false)

theorem Blocked.fault {t : Text} (h : Blocked t) :
    ∃ head rest, splitFrontmatter t = some (head, rest) ∧ Fault head := by
  cases h with
  | @value head rest err hsplit hload herr =>
      refine ⟨head, rest, hsplit, ?_⟩
      rcases load_error_cases hload with hmal | htokens | ⟨g, root, hg, hscalar⟩
      · exact absurd hmal herr
      · have hscanned := Tokens.ofText_failure head
        rw [← htokens] at hscanned
        cases hscanned with
        | malformed => exact absurd rfl herr
        | codePoint => exact .escape (.inl htokens.symm)
        | codeWidth => exact .escape (.inr htokens.symm)
        | version cause => exact .version htokens.symm
      · exact .scalar hg hscalar herr
  | @number head rest label es n hsplit hload hn hlong =>
      exact ⟨head, rest, hsplit, .number hload hn hlong⟩

end VaultSearch.Note
