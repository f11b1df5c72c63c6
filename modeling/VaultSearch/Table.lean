namespace VaultSearch

/-- A map that lists its keys in the order in which they were first put. -/
structure Table (K V : Type) where
  entries : List (K × V) := []
  nodup : (entries.map Prod.fst).Nodup := by exact List.nodup_nil

namespace Table

variable {K V : Type} [DecidableEq K]

def keys (t : Table K V) : List K := t.entries.map Prod.fst

def values (t : Table K V) : List V := t.entries.map Prod.snd

def size (t : Table K V) : Nat := t.entries.length

def get? (t : Table K V) (k : K) : Option V := (t.entries.find? (·.1 = k)).map Prod.snd

def contains (t : Table K V) (k : K) : Bool := (t.get? k).isSome

def replace (k : K) (v : V) (e : K × V) : K × V := if e.1 = k then (k, v) else e

omit [DecidableEq K] in
theorem nodup_keys (t : Table K V) : t.keys.Nodup := t.nodup

theorem map_fst_replace (k : K) (v : V) (es : List (K × V)) :
    (es.map (replace k v)).map Prod.fst = es.map Prod.fst := by
  rw [List.map_map]
  apply List.map_congr_left
  intro e _
  simp only [Function.comp, replace]
  split <;> simp_all

/-- A key that is there keeps its place. -/
def put (t : Table K V) (k : K) (v : V) : Table K V :=
  if h : k ∈ t.keys then ⟨t.entries.map (replace k v), by rw [map_fst_replace]; exact t.nodup⟩
  else ⟨t.entries ++ [(k, v)], by
    rw [List.map_append, List.nodup_append]
    refine ⟨t.nodup, by simp, ?_⟩
    intro a ha b hb hab
    simp only [List.map_cons, List.map_nil, List.mem_singleton] at hb
    subst hb hab
    exact h ha⟩

def erase (t : Table K V) (k : K) : Table K V :=
  ⟨t.entries.filter (·.1 ≠ k), t.nodup.sublist (List.filter_sublist.map _)⟩

def ofList (es : List (K × V)) : Table K V := es.foldl (fun t e => t.put e.1 e.2) {}

omit [DecidableEq K] in
def mapValues {W : Type} (f : V → W) (t : Table K V) : Table K W :=
  ⟨t.entries.map fun e => (e.1, f e.2), by rw [List.map_map]; exact t.nodup⟩

end Table

end VaultSearch
