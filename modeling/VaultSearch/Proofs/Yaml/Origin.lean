import Mathlib.Data.List.Perm.Subperm
import VaultSearch.Proofs.Yaml.Parts

namespace VaultSearch.Yaml

/-- What a value comes from: a node, or one of the pairs that a node gives. -/
inductive Origin
  | node (id : NodeId)
  | pair (id : NodeId) (index : Nat)

inductive Object
  | scalar (s : Scalar)
  | list (items : List Origin)
  | map (entries : List (Scalar × Origin))
  | set (members : List Scalar)
  | tuple (first second : Origin)

def Object.shape? : Object → Option Shape
  | list _ => some .list
  | map _ => some .map
  | tuple _ _ => some .tuple
  | scalar _ | set _ => none

namespace Loader

def object (l : Loader) : Origin → Object
  | .node id =>
    match l.part? id with
    | none => .scalar .null
    | some (.scalar s) => .scalar s
    | some (.list items) => .list (items.map .node)
    | some (.map es) => .map (es.map fun (k, v) => (k, .node v))
    | some (.set ks) => .set ks
    | some (.pairs ps) => .list (ps.mapIdx fun index _ => .pair id index)
  | .pair id index =>
    match l.part? id with
    | some (.pairs ps) => match ps[index]? with
      | some (k, v) => .tuple (.node k) (.node v)
      | none => .scalar .null
    | _ => .scalar .null

def labelOf (l : Loader) : Origin → Nat
  | .node id => id
  | .pair id index => l.tupleLabel id index

def Encloses (l : Loader) (c : Origin) : Prop := (l.object c).shape?.isSome = true

variable {l : Loader} {c d : Origin}

theorem encloses_of_shape? {shape : Shape} (h : (l.object c).shape? = some shape) : l.Encloses c := by
  rw [Encloses, h]
  rfl

theorem encloses_of_object {o : Object} (h : l.object c = o) (ho : o.shape?.isSome = true) :
    l.Encloses c := by
  rw [Encloses, h]
  exact ho

theorem lt_size_of_part? {id : NodeId} {p : Part} (h : l.part? id = some p) : id < l.parts.size := by
  rw [part?, Array.getD_eq_getD_getElem?] at h
  by_contra hsize
  rw [Array.getElem?_eq_none (Nat.le_of_not_lt hsize)] at h
  cases h

theorem Encloses.node_lt {id : NodeId} (h : l.Encloses (.node id)) : id < l.parts.size := by
  cases hpart : l.part? id with
  | none => simp [Encloses, object, hpart, Object.shape?] at h
  | some p => exact lt_size_of_part? hpart

theorem Encloses.pair_lt {id : NodeId} {index : Nat} (h : l.Encloses (.pair id index)) :
    id < l.parts.size := by
  cases hpart : l.part? id with
  | none => simp [Encloses, object, hpart, Object.shape?] at h
  | some p => exact lt_size_of_part? hpart

theorem tupleLabel_ne_of_lt {i j : NodeId} (h : j < l.parts.size) (a : Nat) : l.tupleLabel i a ≠ j := by
  have hle : l.parts.size ≤ l.parts.size * (a + 1) := Nat.le_mul_of_pos_right _ (Nat.succ_pos a)
  exact Nat.ne_of_gt (Nat.lt_of_lt_of_le h (Nat.le_trans hle (Nat.le_add_right _ _)))

theorem tupleLabel_inj {i j : NodeId} {a b : Nat} (hi : i < l.parts.size) (hj : j < l.parts.size)
    (h : l.tupleLabel i a = l.tupleLabel j b) : i = j ∧ a = b := by
  rw [tupleLabel, tupleLabel] at h
  have hmod := congrArg (· % l.parts.size) h
  simp only [Nat.mul_add_mod, Nat.mod_eq_of_lt hi, Nat.mod_eq_of_lt hj] at hmod
  subst hmod
  have hplace := Nat.eq_of_mul_eq_mul_left (Nat.zero_lt_of_lt hi) (Nat.add_right_cancel h)
  exact ⟨rfl, Nat.succ.inj hplace⟩

/-- A label stands for one collection. -/
theorem Encloses.eq_of_labelOf (hc : l.Encloses c) (hd : l.Encloses d)
    (h : l.labelOf c = l.labelOf d) : c = d := by
  cases c with
  | node i =>
      cases d with
      | node j => exact congrArg Origin.node h
      | pair j b => exact absurd h.symm (tupleLabel_ne_of_lt hc.node_lt b)
  | pair i a =>
      cases d with
      | node j => exact absurd h (tupleLabel_ne_of_lt hd.node_lt a)
      | pair j b =>
          obtain ⟨rfl, rfl⟩ := tupleLabel_inj hc.pair_lt hd.pair_lt h
          rfl

end Loader

mutual

/-- The value is what comes from `c` inside the collections in `around`: each collection has its label,
and one that is around is only named. -/
def Value.Shows (l : Loader) (around : List Origin) : Value → Origin → Prop
  | .scalar s, c => l.object c = .scalar s
  | .list label vs, c => label = some (l.labelOf c) ∧ c ∉ around ∧
      ∃ cs, l.object c = .list cs ∧ itemsShow l (c :: around) vs cs
  | .map label es, c => label = some (l.labelOf c) ∧ c ∉ around ∧
      ∃ cs, l.object c = .map cs ∧ entriesShow l (c :: around) es cs
  | .set label ks, c => label = some (l.labelOf c) ∧ l.object c = .set ks
  | .tuple label v w, c => label = some (l.labelOf c) ∧ c ∉ around ∧
      ∃ a b, l.object c = .tuple a b ∧ v.Shows l (c :: around) a ∧ w.Shows l (c :: around) b
  | .again shape label, c => label = l.labelOf c ∧ c ∈ around ∧ (l.object c).shape? = some shape

def itemsShow (l : Loader) (around : List Origin) : List Value → List Origin → Prop
  | [], [] => True
  | v :: vs, c :: cs => v.Shows l around c ∧ itemsShow l around vs cs
  | _, _ => False

def entriesShow (l : Loader) (around : List Origin) : Entries → List (Scalar × Origin) → Prop
  | [], [] => True
  | (k, v) :: es, (s, c) :: cs => k = .scalar s ∧ v.Shows l around c ∧ entriesShow l around es cs
  | _, _ => False

end

section Within

variable {l : Loader} {p : List Nat} {inner outer : List Origin}

def Loader.Adds (l : Loader) (p : List Nat) (inner outer : List Origin) : Prop :=
  ∀ d, l.Encloses d → (d ∈ outer ↔ l.labelOf d ∈ p ∨ d ∈ inner)

theorem Loader.Adds.cons (h : l.Adds p inner outer) (c : Origin) : l.Adds p (c :: inner) (c :: outer) := by
  intro d hd
  rw [List.mem_cons, List.mem_cons, h d hd, or_left_comm]

/-- A collection is cut exactly if it is around its new place. -/
theorem Loader.Adds.cut (h : l.Adds p inner outer) {c : Origin} (hc : l.Encloses c) (hin : c ∉ inner) :
    ((some (l.labelOf c)).filter p.elem = some (l.labelOf c) ∧ c ∈ outer) ∨
      ((some (l.labelOf c)).filter p.elem = none ∧ c ∉ outer) := by
  by_cases hp : l.labelOf c ∈ p
  · exact .inl ⟨by simp [Option.filter, hp], (h c hc).mpr (.inl hp)⟩
  · exact .inr ⟨by simp [Option.filter, hp], fun hout => ((h c hc).mp hout).elim hp hin⟩

mutual

theorem Value.within_shows {l : Loader} {p : List Nat} {inner outer : List Origin}
    (hadds : l.Adds p inner outer) (v : Value) (c : Origin) (h : v.Shows l inner c) :
    (v.within p).Shows l outer c := by
  cases v with
  | scalar | set =>
      rw [Value.within]
      exact h
  | list label vs =>
      rw [Value.Shows] at h
      obtain ⟨rfl, hc, cs, hcs, hvs⟩ := h
      have hshape : (l.object c).shape? = some .list := by rw [hcs]; rfl
      rw [Value.within]
      rcases hadds.cut (Loader.encloses_of_shape? hshape) hc with ⟨hcut, hout⟩ | ⟨hcut, hout⟩
      · rw [hcut]
        exact ⟨rfl, hout, hshape⟩
      · rw [hcut]
        exact ⟨rfl, hout, cs, hcs, itemsWithin_show (hadds.cons c) vs cs hvs⟩
  | map label es =>
      rw [Value.Shows] at h
      obtain ⟨rfl, hc, cs, hcs, hes⟩ := h
      have hshape : (l.object c).shape? = some .map := by rw [hcs]; rfl
      rw [Value.within]
      rcases hadds.cut (Loader.encloses_of_shape? hshape) hc with ⟨hcut, hout⟩ | ⟨hcut, hout⟩
      · rw [hcut]
        exact ⟨rfl, hout, hshape⟩
      · rw [hcut]
        exact ⟨rfl, hout, cs, hcs, entriesWithin_show (hadds.cons c) es cs hes⟩
  | tuple label v w =>
      rw [Value.Shows] at h
      obtain ⟨rfl, hc, a, b, hab, hv, hw⟩ := h
      have hshape : (l.object c).shape? = some .tuple := by rw [hab]; rfl
      rw [Value.within]
      rcases hadds.cut (Loader.encloses_of_shape? hshape) hc with ⟨hcut, hout⟩ | ⟨hcut, hout⟩
      · rw [hcut]
        exact ⟨rfl, hout, hshape⟩
      · rw [hcut]
        exact ⟨rfl, hout, a, b, hab, v.within_shows (hadds.cons c) a hv,
          w.within_shows (hadds.cons c) b hw⟩
  | again shape m =>
      rw [Value.Shows] at h
      obtain ⟨rfl, hc, hshape⟩ := h
      rw [Value.within]
      exact ⟨rfl, (hadds c (Loader.encloses_of_shape? hshape)).mpr (.inr hc), hshape⟩

theorem itemsWithin_show {l : Loader} {p : List Nat} {inner outer : List Origin}
    (hadds : l.Adds p inner outer) (vs : List Value) (cs : List Origin)
    (h : itemsShow l inner vs cs) : itemsShow l outer (itemsWithin p vs) cs := by
  cases vs with
  | nil => cases cs <;> exact h
  | cons v vs =>
      cases cs with
      | nil => exact h.elim
      | cons c cs =>
          exact ⟨v.within_shows hadds c h.1, itemsWithin_show hadds vs cs h.2⟩

theorem entriesWithin_show {l : Loader} {p : List Nat} {inner outer : List Origin}
    (hadds : l.Adds p inner outer) (es : Entries) (cs : List (Scalar × Origin))
    (h : entriesShow l inner es cs) : entriesShow l outer (entriesWithin p es) cs := by
  cases es with
  | nil => cases cs <;> exact h
  | cons e es =>
      obtain ⟨k, v⟩ := e
      cases cs with
      | nil => exact h.elim
      | cons c cs =>
          exact ⟨h.1, v.within_shows hadds c.2 h.2.1, entriesWithin_show hadds es cs h.2.2⟩

end

end Within

section Resolving

/-- A value inside the collection `root` and those in `outer`, which have the labels in `p`, is to stand
without `root`. -/
structure Loader.Leaves (l : Loader) (p : List Nat) (root : Origin) (inner outer : List Origin) :
    Prop where
  encloses : l.Encloses root
  labels : ∀ d, l.Encloses d → (l.labelOf d ∈ p ↔ d ∈ outer)
  around : ∀ d, d ∈ inner ↔ d = root ∨ d ∈ outer

variable {l : Loader} {p : List Nat} {root c : Origin} {inner outer : List Origin} {whole : Value}

namespace Loader.Leaves

theorem cons (h : l.Leaves p root inner outer) (hc : l.Encloses c) :
    l.Leaves (l.labelOf c :: p) root (c :: inner) (c :: outer) := by
  refine ⟨h.encloses, fun d hd => ?_, fun d => ?_⟩
  · rw [List.mem_cons, List.mem_cons, h.labels d hd]
    exact or_congr_left ⟨fun heq => hd.eq_of_labelOf hc heq, congrArg l.labelOf⟩
  · rw [List.mem_cons, List.mem_cons, h.around d, or_left_comm]

theorem label_ne (h : l.Leaves p root inner outer) (hc : l.Encloses c) (hin : c ∉ inner) :
    some (l.labelOf c) ≠ some (l.labelOf root) := by
  intro heq
  exact hin ((h.around c).mpr (.inl (hc.eq_of_labelOf h.encloses (Option.some.inj heq))))

theorem notMem_outer (h : l.Leaves p root inner outer) (hin : c ∉ inner) : c ∉ outer :=
  fun hout => hin ((h.around c).mpr (.inr hout))

theorem adds (h : l.Leaves p root inner outer) : l.Adds p [] outer := by
  intro d hd
  rw [h.labels d hd, or_iff_left List.not_mem_nil]

end Loader.Leaves

mutual

theorem Value.resolve_shows {l : Loader} {p : List Nat} {root : Origin} {inner outer : List Origin}
    {whole : Value} (hwhole : whole.Shows l [] root) (hleaves : l.Leaves p root inner outer)
    (v : Value) (c : Origin) (h : v.Shows l inner c) :
    (Value.resolve (l.labelOf root) whole p v).Shows l outer c := by
  cases v with
  | scalar | set =>
      rw [Value.resolve]
      exact h
  | list label vs =>
      rw [Value.Shows] at h
      obtain ⟨rfl, hc, cs, hcs, hvs⟩ := h
      have hencloses := Loader.encloses_of_object hcs rfl
      rw [Value.resolve, if_neg (hleaves.label_ne hencloses hc)]
      exact ⟨rfl, hleaves.notMem_outer hc, cs, hcs,
        resolveItems_show hwhole (hleaves.cons hencloses) vs cs hvs⟩
  | map label es =>
      rw [Value.Shows] at h
      obtain ⟨rfl, hc, cs, hcs, hes⟩ := h
      have hencloses := Loader.encloses_of_object hcs rfl
      rw [Value.resolve, if_neg (hleaves.label_ne hencloses hc)]
      exact ⟨rfl, hleaves.notMem_outer hc, cs, hcs,
        resolveEntries_show hwhole (hleaves.cons hencloses) es cs hes⟩
  | tuple label v w =>
      rw [Value.Shows] at h
      obtain ⟨rfl, hc, a, b, hab, hv, hw⟩ := h
      have hencloses := Loader.encloses_of_object hab rfl
      rw [Value.resolve, if_neg (hleaves.label_ne hencloses hc)]
      exact ⟨rfl, hleaves.notMem_outer hc, a, b, hab,
        Value.resolve_shows hwhole (hleaves.cons hencloses) v a hv,
        Value.resolve_shows hwhole (hleaves.cons hencloses) w b hw⟩
  | again shape m =>
      rw [Value.Shows] at h
      obtain ⟨rfl, hc, hshape⟩ := h
      have hencloses := Loader.encloses_of_shape? hshape
      rw [Value.resolve]
      split
      · rename_i hroot
        obtain rfl := hencloses.eq_of_labelOf hleaves.encloses hroot
        exact whole.within_shows hleaves.adds c hwhole
      · rename_i hother
        refine ⟨rfl, ((hleaves.around c).mp hc).resolve_left ?_, hshape⟩
        rintro rfl
        exact hother rfl

theorem resolveItems_show {l : Loader} {p : List Nat} {root : Origin} {inner outer : List Origin}
    {whole : Value} (hwhole : whole.Shows l [] root) (hleaves : l.Leaves p root inner outer)
    (vs : List Value) (cs : List Origin) (h : itemsShow l inner vs cs) :
    itemsShow l outer (resolveItems (l.labelOf root) whole p vs) cs := by
  cases vs with
  | nil => cases cs <;> exact h
  | cons v vs =>
      cases cs with
      | nil => exact h.elim
      | cons c cs =>
          exact ⟨Value.resolve_shows hwhole hleaves v c h.1, resolveItems_show hwhole hleaves vs cs h.2⟩

theorem resolveEntries_show {l : Loader} {p : List Nat} {root : Origin} {inner outer : List Origin}
    {whole : Value} (hwhole : whole.Shows l [] root) (hleaves : l.Leaves p root inner outer)
    (es : Entries) (cs : List (Scalar × Origin)) (h : entriesShow l inner es cs) :
    entriesShow l outer (resolveEntries (l.labelOf root) whole p es) cs := by
  cases es with
  | nil => cases cs <;> exact h
  | cons e es =>
      obtain ⟨k, v⟩ := e
      cases cs with
      | nil => exact h.elim
      | cons c cs =>
          exact ⟨h.1, Value.resolve_shows hwhole hleaves v c.2 h.2.1,
            resolveEntries_show hwhole hleaves es cs h.2.2⟩

end

theorem Loader.leaves_root (hroot : l.Encloses root) : l.Leaves [] root [root] [] := by
  refine ⟨hroot, fun d _ => iff_of_false List.not_mem_nil List.not_mem_nil, fun d => ?_⟩
  rw [List.mem_singleton, or_iff_left List.not_mem_nil]

variable {label : Option Nat}

/-- What is taken out of a list shows the items of the list, with nothing around it. -/
theorem Value.Shows.itemsOf {vs : List Value} (h : (Value.list label vs).Shows l [] c) :
    ∃ cs, l.object c = .list cs ∧ itemsShow l [] (itemsOf label vs) cs := by
  have hwhole := h
  rw [Value.Shows] at h
  obtain ⟨rfl, -, cs, hcs, hvs⟩ := h
  have hencloses := Loader.encloses_of_object hcs rfl
  have hparts := resolveItems_show hwhole (Loader.leaves_root hencloses) vs cs hvs
  rw [resolveItems_eq_map] at hparts
  exact ⟨cs, hcs, hparts⟩

theorem Value.Shows.entriesOf {es : Entries} (h : (Value.map label es).Shows l [] c) :
    ∃ cs, l.object c = .map cs ∧ entriesShow l [] (entriesOf label es) cs := by
  have hwhole := h
  rw [Value.Shows] at h
  obtain ⟨rfl, -, cs, hcs, hes⟩ := h
  have hencloses := Loader.encloses_of_object hcs rfl
  have hparts := resolveEntries_show hwhole (Loader.leaves_root hencloses) es cs hes
  rw [resolveEntries_eq_map] at hparts
  exact ⟨cs, hcs, hparts⟩

theorem Value.Shows.tupleParts {v w : Value} (h : (Value.tuple label v w).Shows l [] c) :
    ∃ a b, l.object c = .tuple a b ∧ ((Value.tuple label v w).part v).Shows l [] a ∧
      ((Value.tuple label v w).part w).Shows l [] b := by
  have hwhole := h
  rw [Value.Shows] at h
  obtain ⟨rfl, -, a, b, hab, hv, hw⟩ := h
  have hencloses := Loader.encloses_of_object hab rfl
  have hleaves := Loader.leaves_root hencloses
  exact ⟨a, b, hab, Value.resolve_shows hwhole hleaves v a hv,
    Value.resolve_shows hwhole hleaves w b hw⟩

end Resolving

section Loading

variable {l : Loader} {path : List NodeId} {around : List Origin}

theorem itemsShow_of_getElem? {vs : List Value} {cs : List Origin} (hlen : vs.length = cs.length)
    (h : ∀ (i : Nat) (v : Value) (c : Origin), vs[i]? = some v → cs[i]? = some c → v.Shows l around c) :
    itemsShow l around vs cs := by
  induction vs generalizing cs with
  | nil =>
      cases cs with
      | nil => trivial
      | cons c cs => cases hlen
  | cons v vs ih =>
      cases cs with
      | nil => cases hlen
      | cons c cs =>
          exact ⟨h 0 v c rfl rfl, ih (Nat.succ.inj hlen) fun i v c hv hc => h (i + 1) v c hv hc⟩

theorem itemsShow_map {f : NodeId → Value} (h : ∀ id, (f id).Shows l around (.node id))
    (ids : List NodeId) : itemsShow l around (ids.map f) (ids.map .node) := by
  induction ids with
  | nil => trivial
  | cons id ids ih => exact ⟨h id, ih⟩

theorem entriesShow_map {f : NodeId → Value} (h : ∀ id, (f id).Shows l around (.node id))
    (es : List (Scalar × NodeId)) :
    entriesShow l around (es.map fun (k, v) => (.scalar k, f v)) (es.map fun (k, v) => (k, .node v)) := by
  induction es with
  | nil => trivial
  | cons e es ih => exact ⟨rfl, h e.2, ih⟩

namespace Loader

theorem pair_mem_cons_iff {id j : NodeId} {index : Nat} :
    Origin.pair j index ∈ .node id :: around ↔ .pair j index ∈ around := by
  simp

/-- What is around a place: the collections of the nodes in `path`, and pairs that these give. -/
structure Around (l : Loader) (path : List NodeId) (around : List Origin) : Prop where
  nodup : path.Nodup
  encloses : ∀ id ∈ path, l.Encloses (.node id)
  nodes : ∀ id, .node id ∈ around ↔ id ∈ path
  pairs : ∀ id index, .pair id index ∈ around → id ∈ path

namespace Around

theorem nil (l : Loader) : l.Around [] [] :=
  ⟨.nil, by simp, by simp, by simp⟩

theorem length_le (h : l.Around path around) : path.length ≤ l.parts.size := by
  have hsub : path ⊆ List.range l.parts.size :=
    fun id hid => List.mem_range.mpr (h.encloses id hid).node_lt
  simpa using (h.nodup.subperm hsub).length_le

theorem cons (h : l.Around path around) {id : NodeId} (hid : l.Encloses (.node id))
    (hnew : id ∉ path) : l.Around (id :: path) (.node id :: around) := by
  refine ⟨List.nodup_cons.mpr ⟨hnew, h.nodup⟩, List.forall_mem_cons.mpr ⟨hid, h.encloses⟩,
    fun j => ?_, fun j index hj => ?_⟩
  · simp [h.nodes j]
  · exact List.mem_cons_of_mem _ (h.pairs j index (pair_mem_cons_iff.mp hj))

theorem cons_pair (h : l.Around path around) {id : NodeId} (hid : id ∈ path) (index : Nat) :
    l.Around path (.pair id index :: around) := by
  refine ⟨h.nodup, h.encloses, fun j => ?_, fun j i hj => ?_⟩
  · simp [h.nodes j]
  · rcases List.mem_cons.mp hj with heq | hj
    · cases heq
      exact hid
    · exact h.pairs j i hj

end Around

theorem shape?_node {id : NodeId} (h : l.Encloses (.node id)) :
    (l.object (.node id)).shape? = some (if l.isMap id then .map else .list) := by
  cases hpart : l.part? id with
  | none => simp [Encloses, object, hpart, Object.shape?] at h
  | some p =>
      cases p with
      | scalar | set => simp [Encloses, object, hpart, Object.shape?] at h
      | list | map | pairs => simp [object, isMap, hpart, Object.shape?]

section Parts

variable {id : NodeId} {f : NodeId → Value}

theorem list_shows {items : List NodeId} (hpart : l.part? id = some (.list items))
    (h : l.Around path around) (hid : id ∉ path)
    (hf : ∀ outer, l.Around (id :: path) outer → ∀ j, (f j).Shows l outer (.node j)) :
    (Value.list (some id) (items.map f)).Shows l around (.node id) := by
  have hobject : l.object (.node id) = .list (items.map .node) := by simp only [object, hpart]
  have hnext := h.cons (encloses_of_object hobject rfl) hid
  exact ⟨rfl, (h.nodes id).not.mpr hid, _, hobject, itemsShow_map (hf _ hnext) items⟩

theorem map_shows {es : List (Scalar × NodeId)} (hpart : l.part? id = some (.map es))
    (h : l.Around path around) (hid : id ∉ path)
    (hf : ∀ outer, l.Around (id :: path) outer → ∀ j, (f j).Shows l outer (.node j)) :
    (Value.map (some id) (es.map fun (k, v) => (.scalar k, f v))).Shows l around (.node id) := by
  have hobject : l.object (.node id) = .map (es.map fun (k, v) => (k, .node v)) := by
    simp only [object, hpart]
  have hnext := h.cons (encloses_of_object hobject rfl) hid
  exact ⟨rfl, (h.nodes id).not.mpr hid, _, hobject, entriesShow_map (hf _ hnext) es⟩

theorem pairs_show {ps : List (NodeId × NodeId)} (hpart : l.part? id = some (.pairs ps))
    (h : l.Around path around) (hid : id ∉ path)
    (hf : ∀ outer, l.Around (id :: path) outer → ∀ j, (f j).Shows l outer (.node j)) :
    (Value.list (some id) (ps.mapIdx fun place (k, v) =>
      .tuple (some (l.tupleLabel id place)) (f k) (f v))).Shows l around (.node id) := by
  have hobject : l.object (.node id) = .list (ps.mapIdx fun index _ => .pair id index) := by
    simp only [object, hpart]
  have hnext := h.cons (encloses_of_object hobject rfl) hid
  have hpairs : ∀ index, Origin.pair id index ∉ Origin.node id :: around :=
    fun index hmem => hid (h.pairs id index (pair_mem_cons_iff.mp hmem))
  refine ⟨rfl, (h.nodes id).not.mpr hid, _, hobject,
    itemsShow_of_getElem? (by simp) fun i v c hv hc => ?_⟩
  rw [List.getElem?_mapIdx, Option.map_eq_some_iff] at hv hc
  obtain ⟨⟨a, b⟩, hab, rfl⟩ := hv
  obtain ⟨-, -, rfl⟩ := hc
  have hpair : l.object (.pair id i) = .tuple (.node a) (.node b) := by
    simp only [object, hpart, hab]
  have hinside := hf _ (hnext.cons_pair List.mem_cons_self i)
  exact ⟨rfl, hpairs i, _, _, hpair, hinside a, hinside b⟩

end Parts

/-- The loader makes the value that comes from the node. -/
theorem value_shows (n : Nat) (h : l.Around path around) (hfuel : l.parts.size < n + path.length)
    (id : NodeId) : (l.value n path id).Shows l around (.node id) := by
  induction n generalizing path around id with
  | zero =>
      have := h.length_le
      omega
  | succ n ih =>
      rw [value]
      split
      · rename_i hmem
        have hid : id ∈ path := List.elem_iff.mp hmem
        exact ⟨rfl, (h.nodes id).mpr hid, shape?_node (h.encloses id hid)⟩
      · rename_i hmem
        have hid : id ∉ path := fun hid => hmem (List.elem_iff.mpr hid)
        have hbelow : l.parts.size < n + (id :: path).length := by
          rw [List.length_cons]
          omega
        have hf := fun outer (hnext : l.Around (id :: path) outer) => ih hnext hbelow
        dsimp only
        split
        · rename_i hpart
          simp only [Value.Shows, object, hpart]
        · rename_i s hpart
          simp only [Value.Shows, object, hpart]
        · rename_i items hpart
          exact list_shows hpart h hid hf
        · rename_i es hpart
          exact map_shows hpart h hid hf
        · rename_i ks hpart
          exact ⟨rfl, by simp only [object, hpart]⟩
        · rename_i ps hpart
          exact pairs_show hpart h hid hf

end Loader

end Loading

section Taking

/-- The value is taken out of another, or out of one that was. -/
inductive Taken (whole : Value) : Value → Prop
  | self : Taken whole whole
  | item {label : Option Nat} {vs : List Value} {v : Value} (h : Taken whole (.list label vs))
      (hv : v ∈ itemsOf label vs) : Taken whole v
  | entry {label : Option Nat} {es : Entries} {e : MapKey × Value} (h : Taken whole (.map label es))
      (he : e ∈ entriesOf label es) : Taken whole e.2
  | first {label : Option Nat} {v w : Value} (h : Taken whole (.tuple label v w)) :
      Taken whole ((Value.tuple label v w).part v)
  | second {label : Option Nat} {v w : Value} (h : Taken whole (.tuple label v w)) :
      Taken whole ((Value.tuple label v w).part w)

variable {l : Loader} {whole v : Value} {c : Origin}

theorem exists_shows_of_mem {vs : List Value} {cs : List Origin} (h : itemsShow l [] vs cs)
    (hv : v ∈ vs) : ∃ c ∈ cs, v.Shows l [] c := by
  induction vs generalizing cs with
  | nil => cases hv
  | cons w vs ih =>
      cases cs with
      | nil => exact h.elim
      | cons c cs =>
          rcases List.mem_cons.mp hv with rfl | hv
          · exact ⟨c, List.mem_cons_self, h.1⟩
          · obtain ⟨d, hd, hshows⟩ := ih h.2 hv
            exact ⟨d, List.mem_cons_of_mem _ hd, hshows⟩

theorem exists_shows_of_mem_entries {es : Entries} {cs : List (Scalar × Origin)} {e : MapKey × Value}
    (h : entriesShow l [] es cs) (he : e ∈ es) : ∃ c ∈ cs, e.2.Shows l [] c.2 := by
  induction es generalizing cs with
  | nil => cases he
  | cons f es ih =>
      obtain ⟨k, v⟩ := f
      cases cs with
      | nil => exact h.elim
      | cons c cs =>
          rcases List.mem_cons.mp he with rfl | he
          · exact ⟨c, List.mem_cons_self, h.2.1⟩
          · obtain ⟨d, hd, hshows⟩ := ih h.2.2 he
            exact ⟨d, List.mem_cons_of_mem _ hd, hshows⟩

theorem exists_shows_of_lookup {es : Entries} {cs : List (Scalar × Origin)} {key : Text}
    (h : entriesShow l [] es cs) (hv : Value.lookup key es = some v) : ∃ c, v.Shows l [] c := by
  obtain ⟨e, hfind, rfl⟩ := Option.map_eq_some_iff.mp hv
  obtain ⟨c, -, hc⟩ := exists_shows_of_mem_entries h (List.mem_of_find?_eq_some hfind)
  exact ⟨c.2, hc⟩

theorem Taken.shows (hv : Taken whole v) (h : whole.Shows l [] c) : ∃ d, v.Shows l [] d := by
  induction hv with
  | self => exact ⟨c, h⟩
  | item _ hitem ih =>
      obtain ⟨d, hd⟩ := ih
      obtain ⟨cs, -, hcs⟩ := hd.itemsOf
      obtain ⟨d', -, hd'⟩ := exists_shows_of_mem hcs hitem
      exact ⟨d', hd'⟩
  | entry _ hentry ih =>
      obtain ⟨d, hd⟩ := ih
      obtain ⟨cs, -, hcs⟩ := hd.entriesOf
      obtain ⟨d', -, hd'⟩ := exists_shows_of_mem_entries hcs hentry
      exact ⟨_, hd'⟩
  | first _ ih =>
      obtain ⟨d, hd⟩ := ih
      obtain ⟨a, -, -, ha, -⟩ := hd.tupleParts
      exact ⟨a, ha⟩
  | second _ ih =>
      obtain ⟨d, hd⟩ := ih
      obtain ⟨-, b, -, -, hb⟩ := hd.tupleParts
      exact ⟨b, hb⟩

end Taking

end VaultSearch.Yaml
