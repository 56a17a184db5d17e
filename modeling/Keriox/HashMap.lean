import Mathlib.Data.List.AList
import Mathlib.Data.List.Perm.Basic

/-!
# `std::collections::HashMap`

Every table of the in-memory backend is a `HashMap` behind its own `RwLock`. A map is modelled by
its entries, one per key (an `AList`), and the backend reaches it through `get`, `insert`, and
`entry(k).or_default()` followed by `push` or `extend`, or `get_mut(k)` followed by `retain`.

`HashMap::iter` visits every entry once, in an order the map does not promise and which may change
whenever the map is written. An iteration is therefore any permutation of the entries
(`HashMap.Iter`), and a function that iterates is given the order as an argument.

## Main definitions

* `HashMap.extend`, `HashMap.push`: `entry(k).or_default()` followed by `extend` or `push`
* `HashMap.retain`: `get_mut(k)` followed by `retain`
* `HashMap.Iter m`: the orders in which `m.iter()` may visit the entries of `m`

## Main results

* `HashMap.get_insert`, `HashMap.get_extend`, `HashMap.get_retain`, `HashMap.getD_extend`: what
  a write leaves under each key
* `HashMap.exists_flatMap_filter_iter`: collecting the values of the entries an iteration keeps
  is collecting the values of the kept keys, in an order that permutes them
* `HashMap.exists_iter_eq_of_getD_eq`: maps holding the same values are iterated to the same
  results
-/

namespace Keriox

/-- A `HashMap<K, V>`: its entries, one per key. -/
abbrev HashMap (K V : Type) := AList (fun _ : K => V)

namespace HashMap

variable {K V : Type} [DecidableEq K]

/-- `HashMap::new()`. -/
def new : HashMap K V := ∅

/-- `map.get(&k)`, cloned. -/
def get (m : HashMap K V) (k : K) : Option V := m.lookup k

/-- `map.insert(k, v)`, its result dropped. -/
def insert (m : HashMap K V) (k : K) (v : V) : HashMap K V := AList.insert k v m

/-- `map.entry(k).or_default().extend(vs)`. -/
def extend (m : HashMap K (List V)) (k : K) (vs : List V) : HashMap K (List V) :=
  m.insert k ((m.get k).getD [] ++ vs)

/-- `map.entry(k).or_default().push(v)`. -/
def push (m : HashMap K (List V)) (k : K) (v : V) : HashMap K (List V) := m.extend k [v]

/-- `if let Some(vs) = map.get_mut(&k) { vs.retain(p) }`. -/
def retain (m : HashMap K (List V)) (k : K) (p : V → Bool) : HashMap K (List V) :=
  match m.get k with
  | some vs => m.insert k (vs.filter p)
  | none => m

@[simp] theorem get_new (k : K) : (new : HashMap K V).get k = none := rfl

@[simp] theorem get_insert (m : HashMap K V) (k k' : K) (v : V) :
    (m.insert k v).get k' = if k' = k then some v else m.get k' := by
  split_ifs with h
  · subst h; exact AList.lookup_insert m
  · exact AList.lookup_insert_ne h

@[simp] theorem get_extend (m : HashMap K (List V)) (k k' : K) (vs : List V) :
    (m.extend k vs).get k' = if k' = k then some ((m.get k).getD [] ++ vs) else m.get k' :=
  get_insert _ _ _ _

@[simp] theorem get_push (m : HashMap K (List V)) (k k' : K) (v : V) :
    (m.push k v).get k' = if k' = k then some ((m.get k).getD [] ++ [v]) else m.get k' :=
  get_extend _ _ _ _

@[simp] theorem get_retain (m : HashMap K (List V)) (k k' : K) (p : V → Bool) :
    (m.retain k p).get k' = if k' = k then (m.get k).map (List.filter p) else m.get k' := by
  unfold retain
  split <;> rename_i h <;> split_ifs with hk <;> simp [hk, h]

/-- The value a map holds at a key, or the empty list:
`map.get(&k).cloned().unwrap_or_default()`. -/
def getD (m : HashMap K (List V)) (k : K) : List V := (m.get k).getD []

@[simp] theorem getD_extend (m : HashMap K (List V)) (k k' : K) (vs : List V) :
    (m.extend k vs).getD k' = if k' = k then m.getD k ++ vs else m.getD k' := by
  unfold getD; split_ifs <;> simp_all

@[simp] theorem getD_push (m : HashMap K (List V)) (k k' : K) (v : V) :
    (m.push k v).getD k' = if k' = k then m.getD k ++ [v] else m.getD k' :=
  getD_extend _ _ _ _

theorem mem_getD_push {m : HashMap K (List V)} {k k' : K} {v x : V} :
    x ∈ (m.push k v).getD k' ↔ x ∈ m.getD k' ∨ k' = k ∧ x = v := by
  rw [getD_push]
  split_ifs with h
  · subst h; simp
  · simp [h]

@[simp] theorem getD_retain (m : HashMap K (List V)) (k k' : K) (p : V → Bool) :
    (m.retain k p).getD k' = if k' = k then (m.getD k).filter p else m.getD k' := by
  simp only [getD, get_retain]
  split_ifs <;> cases m.get k <;> rfl

theorem get_eq_of_mem {m : HashMap K V} {e : Sigma fun _ : K => V} (h : e ∈ m.entries) :
    m.get e.1 = some e.2 :=
  AList.mem_lookup_iff.2 h

/-! ## Iteration -/

/-- The orders in which `m.iter()` may visit `m`: every entry once, in any order. -/
def Iter (m : HashMap K V) := {l : List (Sigma fun _ : K => V) // l.Perm m.entries}

/-- The order in which the entries are stored is one the map may be iterated in. -/
def Iter.stored (m : HashMap K V) : m.Iter := ⟨m.entries, List.Perm.refl _⟩

/-- **Collecting what an iteration keeps.** Flattening the values of the entries that an
iteration of `m` keeps is flattening, under some order of the kept keys, the value under each. -/
theorem exists_flatMap_filter_iter {W : Type} (m : HashMap K (List W)) (it : m.Iter)
    (q : K → Bool) :
    ∃ ks : List K, ks.Perm (m.keys.filter q) ∧
      (it.1.filter fun e => q e.1).flatMap (·.2) = ks.flatMap m.getD := by
  refine ⟨(it.1.filter fun e => q e.1).map (·.1), ?_, ?_⟩
  · have h : (it.1.filter fun e => q e.1).map (·.1) = (it.1.map (·.1)).filter q := by
      rw [List.filter_map]; rfl
    exact h ▸ (it.2.map _).filter q
  · rw [List.flatMap_map]
    refine List.flatMap_congr fun e he => ?_
    have hm : e ∈ m.entries := it.2.subset (List.mem_filter.1 he).1
    simp [getD, get_eq_of_mem hm]

/-- Maps with the same keys list them in orders that permute each other. -/
theorem keys_perm {m₁ m₂ : HashMap K V} (h : ∀ k, (m₁.get k).isSome = (m₂.get k).isSome) :
    m₁.keys.Perm m₂.keys :=
  (List.perm_ext_iff_of_nodup m₁.keys_nodup m₂.keys_nodup).2 fun k => by
    rw [← AList.mem_keys, ← AList.mem_keys, ← AList.lookup_isSome, ← AList.lookup_isSome]
    exact h k ▸ Iff.rfl

theorem mem_entries_iff_getD {W : Type} {m : HashMap K (List W)} {e : Sigma fun _ : K => List W}
    (he : e.2 ≠ []) : e ∈ m.entries ↔ m.getD e.1 = e.2 := by
  rw [← AList.mem_lookup_iff, getD, get]
  cases h : m.lookup e.1 <;> simp [eq_comm, he]

omit [DecidableEq K] in
/-- Entries holding the empty list add nothing when the values are flattened. -/
theorem flatMap_filter_nonempty {W : Type} (l : List (Sigma fun _ : K => List W)) :
    (l.filter fun e => !e.2.isEmpty).flatMap (·.2) = l.flatMap (·.2) := by
  induction l with
  | nil => rfl
  | cons e l ih => cases h : e.2 <;> simp_all [List.filter_cons]

/-- **Iteration sees values only.** Two maps that hold the same lists under every key, an absent
key read as the empty list, are iterated to the same results: whatever the entries an iteration
of one keeps flatten to, some iteration of the other keeps entries that flatten to the same. -/
theorem exists_iter_eq_of_getD_eq {W : Type} {m₁ m₂ : HashMap K (List W)}
    (h : ∀ k, m₁.getD k = m₂.getD k) (it₁ : m₁.Iter) (q : K → Bool) :
    ∃ it₂ : m₂.Iter, (it₂.1.filter fun e => q e.1).flatMap (·.2) =
      (it₁.1.filter fun e => q e.1).flatMap (·.2) := by
  let ne : (Sigma fun _ : K => List W) → Bool := fun e => !e.2.isEmpty
  have hne : (m₁.entries.filter ne).Perm (m₂.entries.filter ne) := by
    refine (List.perm_ext_iff_of_nodup (m₁.nodupKeys.nodup.filter _)
      (m₂.nodupKeys.nodup.filter _)).2 fun e => ?_
    by_cases he : e.2 = []
    · simp [ne, he]
    · simp only [List.mem_filter, mem_entries_iff_getD he, h]
  refine ⟨⟨it₁.1.filter ne ++ m₂.entries.filter (!ne ·), ?_⟩, ?_⟩
  · exact (((it₁.2.filter ne).trans hne).append_right _).trans (List.filter_append_perm _ _)
  · have hnil : ((m₂.entries.filter (!ne ·)).filter fun e => q e.1).flatMap (·.2) = [] := by
      simp [ne, List.flatMap_eq_nil_iff, List.mem_filter]
    rw [List.filter_append, List.flatMap_append, hnil, List.append_nil,
      ← flatMap_filter_nonempty (it₁.1.filter fun e => q e.1), List.filter_filter,
      List.filter_filter]
    simp only [ne, Bool.and_comm]

end HashMap

end Keriox
