import VaultSearch.Proofs.Yaml.Reader
import VaultSearch.Yaml.Load

namespace VaultSearch.Yaml

namespace Graph

variable {g₀ g : Graph} {id : NodeId}

theorem node_set (g : Graph) (i j : NodeId) (n : Node) :
    Graph.node (g.setIfInBounds i n) j = if i = j ∧ i < g.size then n else g.node j := by
  simp only [Graph.node, Array.getD_eq_getD_getElem?, Array.getElem?_setIfInBounds]
  by_cases hij : i = j
  · subst hij
    by_cases hi : i < g.size
    · simp [hi]
    · simp [hi]
  · simp [hij]

/-- Contents that differ in the pairs of a mapping only. -/
inductive Like : Content → Content → Prop
  | scalar (t : Text) : Like (.scalar t) (.scalar t)
  | sequence (items : List NodeId) : Like (.sequence items) (.sequence items)
  | mapping (ps qs : List (NodeId × NodeId)) : Like (.mapping ps) (.mapping qs)

theorem Like.refl (c : Content) : Like c c := by
  cases c <;> constructor

theorem Like.eq_scalar_iff {c d : Content} (h : Like c d) {t : Text} :
    d = .scalar t ↔ c = .scalar t := by
  cases h with
  | scalar | sequence => exact Iff.rfl
  | mapping ps qs => exact iff_of_false Content.noConfusion Content.noConfusion

/-- The graph of a document once some of its merges are carried out: a mapping has other pairs, and a
key that was an equals sign is a text. -/
structure Merged (g₀ g : Graph) : Prop where
  content : ∀ id, Like (g₀.node id).content (g.node id).content
  tag : ∀ id, (g.node id).tag = (g₀.node id).tag ∨ (g.node id).tag = .str

theorem merged_self (g : Graph) : Merged g g := ⟨fun _ => .refl _, fun _ => .inl rfl⟩

theorem Merged.scalar_iff (h : Merged g₀ g) {t : Text} :
    (g.node id).content = .scalar t ↔ (g₀.node id).content = .scalar t :=
  (h.content id).eq_scalar_iff

theorem Merged.isMapping (h : Merged g₀ g) : g.isMapping id = g₀.isMapping id := by
  have hlike := h.content id
  rw [Graph.isMapping, Graph.isMapping]
  generalize (g₀.node id).content = c at hlike ⊢
  generalize (g.node id).content = d at hlike ⊢
  cases hlike with
  | scalar | sequence | mapping => rfl

theorem Merged.setPairs (h : Merged g₀ g) (hmap : g₀.isMapping id = true)
    (ps : List (NodeId × NodeId)) : Merged g₀ (g.setPairs id ps) := by
  constructor
  · intro j
    rw [Graph.setPairs, node_set]
    split
    · rename_i hj
      obtain ⟨rfl, -⟩ := hj
      rw [Graph.isMapping] at hmap
      split at hmap
      · rename_i qs hqs
        rw [hqs]
        exact .mapping qs ps
      · cases hmap
    · exact h.content j
  · intro j
    rw [Graph.setPairs, node_set]
    split
    · rename_i hj
      obtain ⟨rfl, -⟩ := hj
      exact h.tag _
    · exact h.tag j

theorem Merged.plainKeys (h : Merged g₀ g) (id : NodeId) : Merged g₀ (g.plainKeys id) := by
  rw [Graph.plainKeys]
  generalize g.pairs id = ps
  induction ps generalizing g with
  | nil => exact h
  | cons p ps ih =>
      rw [List.foldl_cons]
      apply ih
      dsimp only
      split
      · constructor
        · intro j
          rw [node_set]
          split
          · rename_i hj
            exact hj.1 ▸ h.content p.1
          · exact h.content j
        · intro j
          rw [node_set]
          split
          · exact .inr rfl
          · exact h.tag j
      · exact h

theorem flattenFrom_meets (n : Nat) (h : Merged g₀ g) (hmap : g₀.isMapping id = true)
    (merged : List (NodeId × NodeId)) :
    Meets (· = .malformed) (Merged g₀) (flattenFrom n g id merged) := by
  -- Every graph on the way is merged, so that the graph from before tells which nodes are mappings.
  induction n generalizing g id merged with
  | zero => exact rfl
  | succ n ih =>
      rw [flattenFrom]
      have hplain := h.plainKeys id
      dsimp only
      split
      · exact hplain.setPairs hmap _
      · rename_i target rest hfirst
        have hrest := hplain.setPairs hmap rest
        split
        · exact rfl
        · rename_i ps hps
          have htarget : g₀.isMapping target = true := by
            rw [← hrest.isMapping, Graph.isMapping, hps]
          exact (ih hrest htarget []).bind fun g' hg' => ih hg' hmap _
        · refine Meets.bind (Q := fun s => Merged g₀ s.1) ?_ fun s hs => ih hs hmap _
          refine Meets.foldlM hrest fun s hs item => ?_
          split
          · rename_i hitem
            exact (ih hs (hs.isMapping ▸ hitem) []).map fun g' hg' => hg'
          · exact rfl

theorem scalarText_meets (n : Nat) (g : Graph) (id : NodeId) :
    Meets (· = .malformed)
      (fun t => (g.node id).content = .scalar t ∨
        g.isMapping id = true ∧ ∃ j, (g.node j).content = .scalar t)
      (g.scalarText n id) := by
  induction n generalizing id with
  | zero => exact rfl
  | succ n ih =>
      rw [Graph.scalarText]
      split
      · rename_i t ht
        exact .inl ht
      · exact rfl
      · rename_i ps hps
        have hmap : g.isMapping id = true := by rw [Graph.isMapping, hps]
        split
        · rename_i k v hfind
          have hv := ih v
          cases ht : g.scalarText n v with
          | error err =>
              rw [ht] at hv
              exact hv
          | ok t =>
              rw [ht] at hv
              rcases hv with hv | ⟨-, hv⟩
              · exact .inr ⟨hmap, v, hv⟩
              · exact .inr ⟨hmap, hv⟩
        · exact rfl

end Graph

/-- Some scalar of a document has a text that its tag has no value for. A mapping with an equals sign
among its keys can stand for a scalar. -/
inductive Unvalued (g : Graph) : Failure → Prop
  | scalar {id : NodeId} {t : Text} {err : Failure} (ht : (g.node id).content = .scalar t)
      (h : Scalar.ofText id (g.node id).tag t = .error err) : Unvalued g err
  | equals {id j : NodeId} {t : Text} {err : Failure} (hid : g.isMapping id = true)
      (ht : (g.node j).content = .scalar t) (h : Scalar.ofText id (g.node id).tag t = .error err) :
      Unvalued g err
  | mapping {id : NodeId} (hid : g.isMapping id = true) (h : (g.node id).tag = .timestamp) :
      Unvalued g .timestampOfMapping

namespace Loader

abbrev Loads (g₀ : Graph) (x : Except Failure Loader) : Prop :=
  Meets (fun err => err = .malformed ∨ Unvalued g₀ err) (fun l => g₀.Merged l.graph) x

variable {g₀ : Graph} {l : Loader}

theorem unvalued_of_ofText (h : g₀.Merged l.graph) {id : NodeId} {t : Text} {err : Failure}
    (ht : (l.graph.node id).content = .scalar t ∨
      l.graph.isMapping id = true ∧ ∃ j, (l.graph.node j).content = .scalar t)
    (herr : Scalar.ofText id (l.graph.node id).tag t = .error err) : Unvalued g₀ err := by
  rcases h.tag id with htag | htag
  · rw [htag] at herr
    rcases ht with ht | ⟨hid, j, ht⟩
    · exact .scalar (h.scalar_iff.mp ht) herr
    · exact .equals (h.isMapping ▸ hid) (h.scalar_iff.mp ht) herr
  · rw [htag] at herr
    cases herr

theorem visit_loads (h : g₀.Merged l.graph) (id : NodeId) : Loads g₀ (l.visit id) := by
  rw [visit]
  split
  · exact h
  · dsimp only
    split
    · exact h
    · split
      · exact .inl rfl
      · have htext := Graph.scalarText_meets (l.graph.size + 1) l.graph id
        cases ht : l.graph.scalarText (l.graph.size + 1) id with
        | error err =>
            rw [ht] at htext
            exact .inl htext
        | ok t =>
            rw [ht] at htext
            change Meets _ _ (if _ then _ else _)
            split
            · rename_i hstamp
              simp only [Bool.and_eq_true, decide_eq_true_eq] at hstamp
              have htag : (g₀.node id).tag = .timestamp := by
                rcases h.tag id with htag | htag
                · exact htag.symm.trans hstamp.1
                · cases htag.symm.trans hstamp.1
              exact .inr (.mapping (h.isMapping ▸ hstamp.2) htag)
            · cases hs : Scalar.ofText id (l.graph.node id).tag t with
              | error err => exact .inr (unvalued_of_ofText h htext hs)
              | ok s => exact h

theorem visitAll_loads (h : g₀.Merged l.graph) (ids : List NodeId) :
    Loads g₀ (l.visitAll ids) :=
  Meets.foldlM h fun _ hl id => visit_loads hl id

theorem key_meets (l : Loader) (id : NodeId) :
    Meets (fun err => err = .malformed ∨ Unvalued g₀ err) (fun _ => True) (l.key? id) := by
  rw [key?]
  split
  · trivial
  · exact .inl rfl

theorem visitEntries_meets (h : g₀.Merged l.graph) (es : List (Scalar × NodeId))
    (ps : List (NodeId × NodeId)) :
    Meets (fun err => err = .malformed ∨ Unvalued g₀ err) (fun a => g₀.Merged a.1.graph)
      (visitEntries l es ps) := by
  induction ps generalizing l es with
  | nil => exact h
  | cons p ps ih =>
      obtain ⟨k, v⟩ := p
      rw [visitEntries]
      refine (visit_loads h k).bind fun l hl => ?_
      refine (key_meets l k).bind fun s _ => ?_
      exact (visit_loads hl v).bind fun l hl => ih hl _

theorem visitPairs_meets (h : g₀.Merged l.graph) (ids : List NodeId) :
    Meets (fun err => err = .malformed ∨ Unvalued g₀ err) (fun a => g₀.Merged a.1.graph)
      (visitPairs l ids) := by
  induction ids generalizing l with
  | nil => exact h
  | cons id ids ih =>
      rw [visitPairs]
      split
      · refine (visit_loads h _).bind fun l hl => ?_
        refine (visit_loads hl _).bind fun l hl => ?_
        exact (ih hl).bind fun a ha => ha
      · exact .inl rfl

theorem openMapping_meets (h : g₀.Merged l.graph) (id : NodeId) :
    Meets (fun err => err = .malformed ∨ Unvalued g₀ err) (fun a => g₀.Merged a.1.graph)
      (l.openMapping id) := by
  rw [openMapping]
  split
  · rename_i hid
    have hflat := Graph.flattenFrom_meets (l.graph.pairCount + 1) h (h.isMapping ▸ hid) []
    refine (hflat.weaken fun err => .inl).bind fun g hg => ?_
    have hmerged : g₀.Merged { l with graph := g }.graph := hg
    exact visitEntries_meets hmerged _ _
  · exact .inl rfl

theorem enter_loads (h : g₀.Merged l.graph) (id : NodeId) : Loads g₀ (l.enter id) := by
  rw [enter]
  split
  · exact (visitAll_loads h _).map fun l hl => hl
  · exact (openMapping_meets h _).map fun a ha => ha
  · exact (openMapping_meets h _).map fun a ha => ha
  · exact (visitPairs_meets h _).map fun a ha => ha
  · exact (visitPairs_meets h _).map fun a ha => ha
  · exact .inl rfl

theorem run_loads (n : Nat) (h : g₀.Merged l.graph) : Loads g₀ (run n l) := by
  induction n generalizing l with
  | zero => exact h
  | succ n ih =>
      rw [run]
      split
      · exact h
      · rename_i id queue hqueue
        have hnext : g₀.Merged { l with queue := queue }.graph := h
        exact (enter_loads hnext id).bind fun l hl => ih hl

end Loader

/-- A text stands for no value because it is malformed, because its tokens cannot be read, or because
of one of its scalars. -/
theorem load_error_cases {t : Text} {err : Failure} (h : load t = .error err) :
    err = .malformed ∨ err = (Tokens.ofText t).failure ∨
      ∃ g root, Graph.ofText t = .ok (some (g, root)) ∧ Unvalued g err := by
  have hgraph := Graph.ofText_meets t
  rw [load] at h
  cases hg : Graph.ofText t with
  | error cause =>
      rw [hg] at h hgraph
      cases h
      rcases hgraph with hmal | htokens
      · exact .inl hmal
      · exact .inr (.inl htokens)
  | ok read =>
      rw [hg] at h
      cases read with
      | none => cases h
      | some found =>
          obtain ⟨g, root⟩ := found
          have hvisit := Loader.visit_loads (l := ⟨g, Array.replicate g.size none, []⟩)
            (Graph.merged_self g) root
          have hload := hvisit.bind fun l hl => (Loader.run_loads (g.size + 1) hl).bind
            (f := fun l => (.ok (l.value (l.parts.size + 1) [] root) : Except Failure Value))
            (R := fun _ => True) fun _ _ => trivial
          rcases hload.of_error h with hmal | hscalar
          · exact .inl hmal
          · exact .inr (.inr ⟨g, root, rfl, hscalar⟩)

end VaultSearch.Yaml
