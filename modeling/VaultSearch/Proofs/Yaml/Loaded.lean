import VaultSearch.Proofs.Time.Stamp
import VaultSearch.Proofs.Yaml.Load
import VaultSearch.Proofs.Yaml.Origin

namespace VaultSearch.Yaml

open Time

def Scalar.IsRead (s : Scalar) : Prop := ∃ label tag t, Scalar.ofText label tag t = .ok s

namespace Scalar

/-- The offsets of documents are whole minutes. -/
theorem readOffset_readable {zone : Option Zone} {o : Offset}
    (h : Scalar.readOffset zone = .ok (some o)) :
    o.micros = 0 ∨ secondMicros ≤ o.micros.natAbs := by
  cases zone with
  | none => cases h
  | some zone =>
      cases zone with
      | utc =>
          cases h
          exact .inl rfl
      | offset negative hours minutes =>
          rw [Scalar.readOffset] at h
          split at h
          · rename_i hmicros
            cases h
            rw [Offset.micros_of_ofMicros? hmicros]
            generalize zoneSeconds negative hours minutes = n
            simp only [secondMicros]
            omega
          · cases h

theorem IsRead.readable {label : Option Nat} {s : Stamp} (h : (stamp label s).IsRead) :
    s.IsReadable := by
  obtain ⟨id, tag, t, h⟩ := h
  rw [ofText.eq_def] at h
  cases tag with
  | timestamp =>
      simp only [readTimestamp] at h
      split at h
      · cases h
      · rename_i f hf
        rw [ofFields] at h
        split at h
        · rw [mapError_eq_ok_iff, map_eq_ok_iff] at h
          obtain ⟨d, -, heq⟩ := h
          cases heq
        · obtain ⟨offset, hoffset, h⟩ := bind_eq_ok_iff.mp h
          obtain ⟨shown, -, h⟩ := bind_eq_ok_iff.mp h
          cases h
          intro o ho
          obtain rfl : offset = some o := ho
          exact readOffset_readable hoffset
  | bool =>
      simp only at h
      split at h <;> cases h
  | int =>
      obtain ⟨n, -, heq⟩ := map_eq_ok_iff.mp h
      cases heq
  | float =>
      obtain ⟨x, -, heq⟩ := map_eq_ok_iff.mp h
      cases heq
  | binary =>
      simp only [readBytes] at h
      split at h
      · split at h <;> cases h
      · cases h
  | _ => cases h

end Scalar

namespace Loader

/-- Every scalar found so far is one that a text of the document stands for. -/
def Valued (l : Loader) : Prop := ∀ id s, l.part? id = some (.scalar s) → s.IsRead

variable {l : Loader}

theorem part?_setPart (l : Loader) (id j : NodeId) (p : Part) :
    (l.setPart id p).part? j = if id = j ∧ id < l.parts.size then some p else l.part? j := by
  simp only [part?, setPart, Array.getD_eq_getD_getElem?, Array.getElem?_setIfInBounds]
  by_cases hid : id = j
  · subst hid
    by_cases hsize : id < l.parts.size
    · simp [hsize]
    · simp [hsize]
  · simp [hid]

theorem Valued.setPart (h : l.Valued) (id : NodeId) {p : Part}
    (hp : ∀ s, p = .scalar s → s.IsRead) : (l.setPart id p).Valued := by
  intro j s hs
  rw [part?_setPart] at hs
  split at hs
  · exact hp s (Option.some.inj hs)
  · exact h j s hs

abbrev KeepsValued (x : Except Failure Loader) : Prop := Meets (fun _ => True) Valued x

theorem Valued.visit (h : l.Valued) (id : NodeId) : KeepsValued (l.visit id) := by
  rw [Loader.visit]
  split
  · exact h
  · dsimp only
    split
    · exact h.setPart id fun s hs => by cases hs
    · split
      · trivial
      · have htext : Meets (fun _ => True) (fun _ => True)
            (l.graph.scalarText (l.graph.size + 1) id) := by
          cases l.graph.scalarText (l.graph.size + 1) id <;> trivial
        refine htext.bind fun t _ => ?_
        split
        · trivial
        · cases hs : Scalar.ofText id (l.graph.node id).tag t with
          | error err => trivial
          | ok s =>
              refine h.setPart id fun s' heq => ?_
              cases heq
              exact ⟨_, _, _, hs⟩

theorem Valued.visitAll (h : l.Valued) (ids : List NodeId) : KeepsValued (l.visitAll ids) :=
  Meets.foldlM h fun _ hl id => hl.visit id

theorem Valued.visitEntries (h : l.Valued) (es : List (Scalar × NodeId))
    (ps : List (NodeId × NodeId)) :
    Meets (fun _ => True) (fun a => Valued a.1) (Loader.visitEntries l es ps) := by
  induction ps generalizing l es with
  | nil => exact h
  | cons p ps ih =>
      obtain ⟨k, v⟩ := p
      rw [Loader.visitEntries]
      refine (h.visit k).bind fun l hl => ?_
      have hkey : Meets (fun _ => True) (fun _ => True) (l.key? k) := by
        cases l.key? k <;> trivial
      refine hkey.bind fun s _ => ?_
      exact (hl.visit v).bind fun l hl => ih hl _

theorem Valued.visitPairs (h : l.Valued) (ids : List NodeId) :
    Meets (fun _ => True) (fun a => Valued a.1) (Loader.visitPairs l ids) := by
  induction ids generalizing l with
  | nil => exact h
  | cons id ids ih =>
      rw [Loader.visitPairs]
      split
      · refine (h.visit _).bind fun l hl => ?_
        refine (hl.visit _).bind fun l hl => ?_
        exact (ih hl).bind fun a ha => ha
      · trivial

theorem Valued.openMapping (h : l.Valued) (id : NodeId) :
    Meets (fun _ => True) (fun a => Valued a.1) (l.openMapping id) := by
  rw [Loader.openMapping]
  split
  · have hflat : Meets (fun _ => True) (fun _ => True) (l.graph.flatten id) := by
      cases l.graph.flatten id <;> trivial
    refine hflat.bind fun g _ => ?_
    exact Valued.visitEntries (l := { l with graph := g }) h _ _
  · trivial

theorem Valued.enter (h : l.Valued) (id : NodeId) : KeepsValued (l.enter id) := by
  have hset : ∀ {l : Loader} {p : Part}, (∀ s, p ≠ .scalar s) → l.Valued → (l.setPart id p).Valued :=
    fun hp hl => hl.setPart id fun s hs => absurd hs (hp s)
  rw [Loader.enter]
  split
  · exact (h.visitAll _).map fun l hl => hset (fun _ => Part.noConfusion) hl
  · exact (h.openMapping _).map fun a ha => hset (fun _ => Part.noConfusion) ha
  · exact (h.openMapping _).map fun a ha => hset (fun _ => Part.noConfusion) ha
  · exact (h.visitPairs _).map fun a ha => hset (fun _ => Part.noConfusion) ha
  · exact (h.visitPairs _).map fun a ha => hset (fun _ => Part.noConfusion) ha
  · trivial

theorem Valued.run (n : Nat) (h : l.Valued) : KeepsValued (Loader.run n l) := by
  induction n generalizing l with
  | zero => exact h
  | succ n ih =>
      rw [Loader.run]
      split
      · exact h
      · rename_i id queue _
        exact (Valued.enter (l := { l with queue := queue }) h id).bind fun l hl => ih hl

theorem Valued.object (h : l.Valued) {c : Origin} {s : Scalar} (hs : l.object c = .scalar s) :
    s.IsRead := by
  have hnull : Scalar.null.IsRead := ⟨0, .null, [], rfl⟩
  cases c with
  | node id =>
      rw [Loader.object] at hs
      split at hs <;> cases hs
      · exact hnull
      · rename_i hpart
        exact h id s hpart
  | pair id index =>
      rw [Loader.object] at hs
      split at hs
      · split at hs <;> cases hs
        exact hnull
      · cases hs
        exact hnull

end Loader

theorem load_shows {t : Text} {v : Value} (h : load t = .ok v) :
    ∃ (l : Loader) (c : Origin), l.Valued ∧ v.Shows l [] c := by
  have hstart : ∀ g : Graph, Loader.Valued ⟨g, Array.replicate g.size none, []⟩ := by
    intro g id s hs
    simp only [Loader.part?, Array.getD_eq_getD_getElem?, Array.getElem?_replicate] at hs
    split at hs <;> cases hs
  rw [load] at h
  obtain ⟨read, -, h⟩ := bind_eq_ok_iff.mp h
  cases read with
  | none =>
      cases h
      exact ⟨⟨#[], #[], []⟩, .node 0, hstart #[], rfl⟩
  | some found =>
      obtain ⟨g, root⟩ := found
      obtain ⟨l, hvisit, h⟩ := bind_eq_ok_iff.mp h
      obtain ⟨l', hrun, h⟩ := bind_eq_ok_iff.mp h
      cases h
      have hl : l.Valued := by
        have hmeets := (hstart g).visit root
        rw [hvisit] at hmeets
        exact hmeets
      have hl' : l'.Valued := by
        have hmeets := hl.run (g.size + 1)
        rw [hrun] at hmeets
        exact hmeets
      exact ⟨l', .node root, hl', Loader.value_shows _ (.nil l') (Nat.lt_succ_self _) root⟩

/-- Whatever is taken out of a document is all there: it is no mere name of a collection that it was
inside of. -/
theorem load_taken_ne_again {t : Text} {whole v : Value} (h : load t = .ok whole)
    (hv : Taken whole v) (shape : Shape) (label : Nat) : v ≠ .again shape label := by
  obtain ⟨l, c, -, hwhole⟩ := load_shows h
  obtain ⟨d, hd⟩ := hv.shows hwhole
  rintro rfl
  exact List.not_mem_nil hd.2.1

/-- A stamp that stands in a mapping of a document can be written and read again. -/
theorem load_stamp_readable {t key : Text} {whole : Value} {m label : Option Nat} {es : Entries}
    {s : Stamp} (h : load t = .ok whole) (hm : Taken whole (.map m es))
    (hlookup : Value.lookup key (entriesOf m es) = some (.scalar (.stamp label s))) :
    s.IsReadable := by
  obtain ⟨l, c, hvalued, hwhole⟩ := load_shows h
  obtain ⟨d, hd⟩ := hm.shows hwhole
  obtain ⟨cs, -, hcs⟩ := hd.entriesOf
  obtain ⟨c', hc'⟩ := exists_shows_of_lookup hcs hlookup
  exact (hvalued.object hc').readable

end VaultSearch.Yaml
