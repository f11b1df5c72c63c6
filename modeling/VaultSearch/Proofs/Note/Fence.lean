import VaultSearch.Proofs.Note.Frontmatter
import VaultSearch.Proofs.Note.Span
import VaultSearch.Proofs.Yaml.Position

namespace VaultSearch.Text

variable {mark s : Text}

/-- A mark is found behind a text that it is not part of, if the text ends in no character of it. -/
theorem find?_append_self {c : Char} (hlast : s.getLast? = some c) (hc : c ∉ mark)
    (hpart : ¬mark <:+: s) (t : Text) : find? mark (s ++ (mark ++ t)) = some s.length := by
  have hhere : mark <+: (s ++ (mark ++ t)).drop s.length := by
    rw [List.drop_left]
    exact List.prefix_append _ _
  cases hfind : find? mark (s ++ (mark ++ t)) with
  | none =>
      exact absurd ⟨s, t, List.append_assoc ..⟩ (find?_eq_none_iff.mp hfind)
  | some i =>
      congr 1
      apply Nat.le_antisymm (le_of_find? hfind hhere)
      by_contra hlt
      have hle : i ≤ s.length := Nat.le_of_not_le hlt
      have hprefix := prefix_of_find? hfind
      rw [List.drop_append_of_le_length hle] at hprefix
      -- the occurrence ends inside the text, or the end of the text is inside the occurrence
      rcases List.prefix_or_prefix_of_prefix hprefix (List.prefix_append _ _) with h | h
      · exact hpart (h.isInfix.trans (List.drop_suffix _ _).isInfix)
      · have hend : (s.drop i).getLast? = some c := by
          rw [List.getLast?_drop, if_neg hlt, hlast]
        exact hc (h.subset (List.mem_of_getLast? hend))

/-- A text that a mark is part of is cut inside, whatever follows it. -/
theorem cut?_append_of_infix (hpart : mark <:+: s) (t : Text) :
    ∃ u v, cut? mark (s ++ t) = some (u, v ++ t) := by
  obtain ⟨p, q, rfl⟩ := hpart
  have hhere : mark <+: (p ++ mark ++ q ++ t).drop p.length := by
    rw [List.append_assoc, List.append_assoc, List.drop_left]
    exact List.prefix_append _ _
  cases hfind : find? mark (p ++ mark ++ q ++ t) with
  | none =>
      refine absurd ⟨p, q ++ t, ?_⟩ (find?_eq_none_iff.mp hfind)
      rw [List.append_assoc (p ++ mark)]
  | some i =>
      have hle : i + mark.length ≤ (p ++ mark ++ q).length := by
        have := le_of_find? hfind hhere
        simp only [List.length_append]
        omega
      rw [cut?, hfind, Option.map_some, List.drop_append_of_le_length hle]
      exact ⟨_, _, rfl⟩

end VaultSearch.Text

namespace VaultSearch.Note

open Text Yaml

section Body

theorem bodyAfter_newline (t : Text) : bodyAfter ('\n' :: t) = bodyAfter t := rfl

theorem bodyAfter_suffix (t : Text) : bodyAfter t <:+ t := List.dropWhile_suffix _

theorem bodyAfter_append (s t : Text) : bodyAfter t <:+ bodyAfter (s ++ t) := by
  induction s with
  | nil => exact List.suffix_rfl
  | cons c s ih =>
      by_cases hc : c = '\n'
      · rw [hc, List.cons_append, bodyAfter_newline]
        exact ih
      · have hkept : bodyAfter (c :: s ++ t) = c :: s ++ t := by simp [bodyAfter, trimStart, hc]
        rw [hkept]
        exact (bodyAfter_suffix t).trans (List.suffix_append _ _)

/-- What follows a fence is shorter than anything that the fence is still in. -/
theorem bodyAfter_ne_of_fence (s t : Text) :
    bodyAfter (s ++ (fence ++ '\n' :: t)) ≠ bodyAfter t := by
  intro h
  have hsuffix := bodyAfter_append s (fence ++ '\n' :: t)
  rw [h] at hsuffix
  have hlong := (hsuffix.trans (bodyAfter_suffix t)).length_le
  have hkept : bodyAfter (fence ++ '\n' :: t) = fence ++ '\n' :: t := rfl
  rw [hkept, List.length_append, List.length_cons] at hlong
  omega

end Body

section Raw

def mapped? (t : Text) : Option Entries :=
  match load t with
  | .ok (.map label es) => some (entriesOf label es)
  | _ => none

theorem mapped?_eq_some_iff {t : Text} {es : Entries} :
    mapped? t = some es ↔ ∃ label es', load t = .ok (.map label es') ∧ entriesOf label es' = es := by
  rw [mapped?]
  split
  · rename_i label es' hload
    simp [hload]
  · rename_i hno
    simp only [reduceCtorEq, false_iff, not_exists, not_and]
    exact fun label es' hload => absurd hload (hno label es')

variable {t head rest b : Text} {es : Entries}

/-- A note has raw metadata if and only if its frontmatter is a mapping whose numbers can be
written; the body is then what follows the frontmatter. -/
theorem raw_readFrontmatter_iff (hsplit : splitFrontmatter t = some (head, rest)) :
    (∃ m, readFrontmatter t = .ok (m, b) ∧ m.raw = some es) ↔
      mapped? head = some es ∧ (writtenInts es).all isShort = true ∧ b = bodyAfter rest := by
  rw [mapped?_eq_some_iff, ← isOk_ofEntries]
  constructor
  · rintro ⟨m, hread, hraw⟩
    obtain ⟨head', rest', label, es', hsplit', hload, hes, hm, hb⟩ := readFrontmatter_of_raw hread hraw
    cases hsplit.symm.trans hsplit'
    exact ⟨⟨label, es', hload, hes.symm⟩, by rw [hm]; rfl, hb⟩
  · rintro ⟨⟨label, es', hload, rfl⟩, hok, rfl⟩
    obtain ⟨m, hm⟩ := isOk_iff.mp hok
    refine ⟨m, ?_, (fields_ofEntries hm).1⟩
    rw [readFrontmatter_of_map hsplit hload, hm]
    rfl

/-- What is inferred from the body and the path is no part of the raw metadata. -/
theorem raw_readNote_iff {path : Text} :
    (∃ m, readNote t path = .ok (m, b) ∧ m.raw = some es) ↔
      ∃ m, readFrontmatter t = .ok (m, b) ∧ m.raw = some es := by
  constructor
  · rintro ⟨m, hread, hraw⟩
    obtain ⟨⟨m', b'⟩, hfront, hpair⟩ := map_eq_ok_iff.mp hread
    cases hpair
    exact ⟨m', hfront, hraw⟩
  · rintro ⟨m, hfront, hraw⟩
    exact ⟨m.infer b path, by rw [readNote, hfront]; rfl, hraw⟩

end Raw

/-- A note with a text between two fences that each have a line of their own. -/
def fenced (head body : Text) : Text := fence ++ ('\n' :: head ++ (fence ++ '\n' :: body))

section Fenced

variable {head body : Text}

theorem splitFrontmatter_fenced_eq :
    splitFrontmatter (fenced head body) = cut? fence ('\n' :: head ++ (fence ++ '\n' :: body)) := by
  have hstart : startsWith fence (fenced head body) = true :=
    startsWith_iff_prefix.mpr (List.prefix_append _ _)
  rw [splitFrontmatter, if_pos hstart, fenced, List.drop_left]

theorem fence_infix_newline : fence <:+: '\n' :: head ↔ fence <:+: head := by
  refine ⟨fun h => ?_, fun h => h.trans (List.suffix_cons _ _).isInfix⟩
  rcases List.infix_cons_iff.mp h with hstart | h
  · exact absurd (List.head_eq_of_cons_eq hstart.choose_spec) (by decide)
  · exact h

theorem splitFrontmatter_fenced (hlast : head.getLast? = some '\n') (hpart : ¬fence <:+: head) :
    splitFrontmatter (fenced head body) = some ('\n' :: head, '\n' :: body) := by
  have hend : ('\n' :: head).getLast? = some '\n' := by rw [List.getLast?_cons, hlast]; rfl
  rw [splitFrontmatter_fenced_eq]
  apply cut?_of_find?
  exact find?_append_self hend (by decide) (fence_infix_newline.not.mpr hpart) _

theorem splitFrontmatter_fenced_of_infix (hpart : fence <:+: head) (body : Text) :
    ∃ u v, splitFrontmatter (fenced head body) = some (u, v ++ (fence ++ '\n' :: body)) := by
  rw [splitFrontmatter_fenced_eq]
  exact cut?_append_of_infix (fence_infix_newline.mpr hpart) _

theorem stripFrontmatter_fenced_iff (hlast : head.getLast? = some '\n') :
    stripFrontmatter (fenced head body) = bodyAfter body ↔ ¬fence <:+: head := by
  by_cases hpart : fence <:+: head
  · obtain ⟨u, v, hsplit⟩ := splitFrontmatter_fenced_of_infix hpart body
    rw [stripFrontmatter, hsplit]
    exact iff_of_false (bodyAfter_ne_of_fence _ _) (not_not_intro hpart)
  · rw [stripFrontmatter, splitFrontmatter_fenced hlast hpart]
    exact iff_of_true rfl hpart

theorem mapped?_newline (h : head.head? ≠ some byteOrderMark) :
    mapped? ('\n' :: head) = mapped? head := by
  rw [mapped?, mapped?, load_newline h]

/-- The first fence behind the mapping closes it, so a note is read as it is written if and only if
the mapping has no fence in it. The text that is loaded starts with the end of the first line, which
matters if a byte order mark follows; and the raw metadata come with fields that have to be written. -/
theorem readNote_fenced_iff {path : Text} {es : Entries} (hlast : head.getLast? = some '\n')
    (hmap : mapped? head = some es) :
    (stripFrontmatter (fenced head body) = bodyAfter body ↔ ¬fence <:+: head) ∧
      ((∃ m, readNote (fenced head body) path = .ok (m, bodyAfter body) ∧ m.raw = some es) ↔
        ¬fence <:+: head ∧ (writtenInts es).all isShort = true ∧
          (head.head? = some byteOrderMark → mapped? ('\n' :: head) = some es)) := by
  refine ⟨stripFrontmatter_fenced_iff hlast, ?_⟩
  rw [raw_readNote_iff]
  by_cases hpart : fence <:+: head
  · obtain ⟨u, v, hsplit⟩ := splitFrontmatter_fenced_of_infix hpart body
    rw [raw_readFrontmatter_iff hsplit]
    exact iff_of_false (fun h => bodyAfter_ne_of_fence _ _ h.2.2.symm) fun h => h.1 hpart
  · rw [raw_readFrontmatter_iff (splitFrontmatter_fenced hlast hpart)]
    constructor
    · rintro ⟨hloaded, hshort, -⟩
      exact ⟨hpart, hshort, fun _ => hloaded⟩
    · rintro ⟨-, hshort, hmark⟩
      refine ⟨?_, hshort, rfl⟩
      by_cases hstart : head.head? = some byteOrderMark
      · exact hmark hstart
      · rw [mapped?_newline hstart, hmap]

/-- Behind the first line a byte order mark is part of the first key. -/
example :
    ((mapped? (byteOrderMark :: "a: b\n".toList)).map (·.map Prod.fst)) = some [.text ['a']] ∧
      ((mapped? ('\n' :: byteOrderMark :: "a: b\n".toList)).map (·.map Prod.fst)) =
        some [.text [byteOrderMark, 'a']] := by
  decide +kernel

end Fenced

def titled (title : Text) : Text := "title: ".toList ++ title ++ "\n".toList

theorem readNote_fenced_dash :
    ∃ es ∈ mapped? (titled "a--b".toList),
      stripFrontmatter (fenced (titled "a--b".toList) "text\n".toList) = "text\n".toList ∧
      ∃ m, readNote (fenced (titled "a--b".toList) "text\n".toList) "a.md".toList =
        .ok (m, "text\n".toList) ∧ m.raw = some es := by
  have hlast : (titled "a--b".toList).getLast? = some '\n' := by decide
  have hpart : ¬fence <:+: titled "a--b".toList := by decide
  have hstart : (titled "a--b".toList).head? ≠ some byteOrderMark := by decide
  have hloaded : ∃ es ∈ mapped? (titled "a--b".toList), (writtenInts es).all isShort = true := by
    decide +kernel
  obtain ⟨es, hmap, hshort⟩ := hloaded
  obtain ⟨hstrip, hread⟩ := readNote_fenced_iff hlast hmap
  exact ⟨es, hmap, hstrip.mpr hpart, hread.mpr ⟨hpart, hshort, fun h => absurd h hstart⟩⟩

/-- A title with three dashes in it ends the frontmatter, although no line of it is a fence. -/
theorem readNote_splits_title :
    (titled "a---b".toList).getLast? = some '\n' ∧ fence ∉ lines (titled "a---b".toList) ∧
      (∃ es ∈ mapped? (titled "a---b".toList),
        readOptional (Value.lookup "title".toList es) = .ok (some "a---b".toList)) ∧
      stripFrontmatter (fenced (titled "a---b".toList) "text\n".toList) ≠
        bodyAfter "text\n".toList ∧
      ∃ r ∈ (readNote (fenced (titled "a---b".toList) "text\n".toList) "a.md".toList).toOption,
        r.2 = "b\n---\ntext\n".toList ∧
        r.1.raw.map (fun es => readOptional (Value.lookup "title".toList es)) =
          some (.ok (some "a".toList)) := by
  decide +kernel

end VaultSearch.Note
