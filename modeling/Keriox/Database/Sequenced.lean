import Keriox.HashMap
import Mathlib.Data.List.Sort

/-!
# The sequenced index: `MemorySequencedEventDb`

An escrow's index maps `(identifier, sn)` to the digests filed there, in the order they were
inserted. `insert` pushes without looking at what is there, and `remove` erases every copy of a
digest under one key, leaving the key in the map with whatever remains.

`get_greater_than` walks the whole map with `HashMap::iter`, keeps the entries of the identifier
at or above the sequence number and concatenates their digests: in the order of the iteration,
which the map does not promise.

## Main definitions

* `MemorySequencedEventDb.insert`, `get`, `get_greater_than`, `remove`
* `MemorySequencedEventDb.stored_sns`: the sequence numbers at or above `sn` under which an
  identifier has an entry

## Main results

* `MemorySequencedEventDb.get_greater_than_perm`: `get_greater_than` is the concatenation of
  `get` over the stored sequence numbers, taken in some order
* `MemorySequencedEventDb.exists_get_greater_than_eq_of_get_eq`: two indexes that hold the same
  digests under every key return the same possible results from `get_greater_than`
-/

namespace Keriox

/-- `MemorySequencedEventDb`: the digests filed under each `(identifier, sn)`. -/
structure MemorySequencedEventDb (Id Dig : Type) where
  data : HashMap (Id × UInt64) (List Dig)

namespace MemorySequencedEventDb

variable {Id Dig : Type} [DecidableEq Id]

/-- `MemorySequencedEventDb::new()`. -/
def new : MemorySequencedEventDb Id Dig := ⟨.new⟩

/-- `insert`: the digest is pushed under the key, which always succeeds. -/
def insert (db : MemorySequencedEventDb Id Dig) (identifier : Id) (sn : UInt64) (digest : Dig) :
    MemorySequencedEventDb Id Dig :=
  ⟨db.data.push (identifier, sn) digest⟩

/-- `get`: the digests under the key, none when it is absent. -/
def get (db : MemorySequencedEventDb Id Dig) (identifier : Id) (sn : UInt64) : List Dig :=
  db.data.getD (identifier, sn)

/-- `get_greater_than`, when the map is iterated in the order `it`: the digests of every entry of
the identifier at or above `sn`. -/
def get_greater_than (db : MemorySequencedEventDb Id Dig) (it : db.data.Iter) (identifier : Id)
    (sn : UInt64) : List Dig :=
  (it.1.filter fun e => decide (e.1.1 = identifier) && decide (e.1.2 ≥ sn)).flatMap (·.2)

/-- The sequence numbers at or above `sn` under which `identifier` has an entry. -/
def stored_sns (db : MemorySequencedEventDb Id Dig) (identifier : Id) (sn : UInt64) : List UInt64 :=
  (db.data.keys.filter fun k => decide (k.1 = identifier) && decide (k.2 ≥ sn)).map Prod.snd

@[simp] theorem get_new (identifier : Id) (sn : UInt64) :
    (new : MemorySequencedEventDb Id Dig).get identifier sn = [] := rfl

@[simp] theorem get_insert (db : MemorySequencedEventDb Id Dig) (identifier i : Id) (sn s : UInt64)
    (digest : Dig) :
    (db.insert identifier sn digest).get i s =
      if (i, s) = (identifier, sn) then db.get identifier sn ++ [digest] else db.get i s :=
  HashMap.getD_push _ _ _ _

theorem mem_get_insert {db : MemorySequencedEventDb Id Dig} {identifier i : Id} {sn s : UInt64}
    {digest d : Dig} :
    d ∈ (db.insert identifier sn digest).get i s ↔
      d ∈ db.get i s ∨ (i, s) = (identifier, sn) ∧ d = digest := by
  rw [get_insert]
  split_ifs with hk
  · obtain ⟨rfl, rfl⟩ := Prod.mk.inj hk; simp
  · simp [hk]

@[simp] theorem isSome_get_insert (db : MemorySequencedEventDb Id Dig) (identifier : Id)
    (sn : UInt64) (digest : Dig) (k : Id × UInt64) :
    ((db.insert identifier sn digest).data.get k).isSome =
      (decide (k = (identifier, sn)) || (db.data.get k).isSome) := by
  simp only [insert, HashMap.push, HashMap.get_extend]
  split_ifs with h <;> simp [h]

/-- **What `get_greater_than` returns.** Under any order of iteration, `get_greater_than` is the
concatenation of `get` over the stored sequence numbers at or above `sn`, taken in some order:
each key's digests stay together and in insertion order, none is missing, none is repeated and
none is another identifier's; the order of the keys is the iteration's. -/
theorem get_greater_than_perm (db : MemorySequencedEventDb Id Dig) (it : db.data.Iter)
    (identifier : Id) (sn : UInt64) :
    ∃ sns : List UInt64, sns.Perm (db.stored_sns identifier sn) ∧
      db.get_greater_than it identifier sn = sns.flatMap (db.get identifier) := by
  obtain ⟨ks, hks, heq⟩ := HashMap.exists_flatMap_filter_iter db.data it
    fun k => decide (k.1 = identifier) && decide (k.2 ≥ sn)
  refine ⟨ks.map Prod.snd, hks.map _, heq.trans ?_⟩
  rw [List.flatMap_map]
  refine List.flatMap_congr fun k hk => ?_
  have hid : k.1 = identifier ∧ sn ≤ k.2 := by simpa using (List.mem_filter.1 (hks.subset hk)).2
  rw [get, ← hid.1]

theorem mem_stored_sns {db : MemorySequencedEventDb Id Dig} {identifier : Id} {sn s : UInt64} :
    s ∈ db.stored_sns identifier sn ↔ (db.data.get (identifier, s)).isSome ∧ sn ≤ s := by
  simp only [stored_sns, List.mem_map, List.mem_filter, Bool.and_eq_true, decide_eq_true_eq,
    ← AList.mem_keys, ← AList.lookup_isSome]
  constructor
  · rintro ⟨⟨i, s⟩, ⟨hk, rfl, hs⟩, rfl⟩; exact ⟨hk, hs⟩
  · rintro ⟨hk, hs⟩; exact ⟨(identifier, s), ⟨hk, rfl, hs⟩, rfl⟩

theorem nodup_stored_sns (db : MemorySequencedEventDb Id Dig) (identifier : Id) (sn : UInt64) :
    (db.stored_sns identifier sn).Nodup := by
  refine List.Nodup.map_on (fun k hk k' hk' hs => ?_) (db.data.keys_nodup.filter _)
  simp only [List.mem_filter, Bool.and_eq_true, decide_eq_true_eq] at hk hk'
  exact Prod.ext (hk.2.1.trans hk'.2.1.symm) hs

/-- Collecting, over a list without repeats, a value at one element collects it once if the
element is there. -/
theorem flatMap_ite_eq_of_nodup {α β : Type} [DecidableEq α] {l : List α} (hl : l.Nodup)
    (a : α)
    (b : β) : l.flatMap (fun x => if x = a then [b] else []) = if a ∈ l then [b] else [] := by
  induction l with
  | nil => simp
  | cons x l ih =>
    rw [List.nodup_cons] at hl
    by_cases hx : x = a
    · subst hx; simp [ih hl.2, hl.1]
    · simp [hx, Ne.symm hx, ih hl.2]

/-- Over the stored sequence numbers of `i`, collecting a value at one stored key collects it once
when that key is `i`'s and in range. -/
theorem flatMap_stored_sns_ite {β : Type} (db : MemorySequencedEventDb Id Dig) {p : Id}
    {n : UInt64} (hkey : (db.data.get (p, n)).isSome) (i : Id) (sn : UInt64) (b : β) :
    (db.stored_sns i sn).flatMap (fun s => if (i, s) = (p, n) then [b] else []) =
      if i = p ∧ sn ≤ n then [b] else [] := by
  by_cases hi : i = p
  · subst hi
    simp only [Prod.mk.injEq, true_and]
    rw [flatMap_ite_eq_of_nodup (db.nodup_stored_sns _ _)]
    exact if_congr (mem_stored_sns.trans (and_iff_right hkey)) rfl rfl
  · simp [hi]

theorem mem_get_greater_than {db : MemorySequencedEventDb Id Dig} {it : db.data.Iter}
    {identifier : Id} {sn : UInt64} {d : Dig} (h : d ∈ db.get_greater_than it identifier sn) :
    ∃ s, d ∈ db.get identifier s := by
  obtain ⟨sns, -, heq⟩ := db.get_greater_than_perm it identifier sn
  obtain ⟨s, -, hs⟩ := List.mem_flatMap.1 (heq ▸ h)
  exact ⟨s, hs⟩

/-- Indexes with the same keys store the same sequence numbers. -/
theorem stored_sns_perm {db₁ db₂ : MemorySequencedEventDb Id Dig}
    (h : ∀ k, (db₁.data.get k).isSome = (db₂.data.get k).isSome) (identifier : Id)
    (sn : UInt64) :
    (db₁.stored_sns identifier sn).Perm (db₂.stored_sns identifier sn) :=
  ((HashMap.keys_perm h).filter _).map _

/-- Indexes that hold the same digests under every key return the same possible results from
`get_greater_than`. -/
theorem exists_get_greater_than_eq_of_get_eq {db₁ db₂ : MemorySequencedEventDb Id Dig}
    (h : ∀ i s, db₁.get i s = db₂.get i s) (it₁ : db₁.data.Iter) (identifier : Id)
    (sn : UInt64) :
    ∃ it₂ : db₂.data.Iter,
      db₂.get_greater_than it₂ identifier sn = db₁.get_greater_than it₁ identifier sn :=
  have hg : ∀ k, db₁.data.getD k = db₂.data.getD k := fun k => h k.1 k.2
  HashMap.exists_iter_eq_of_getD_eq hg it₁ fun k =>
    decide (k.1 = identifier) && decide (k.2 ≥ sn)

variable [DecidableEq Dig]

/-- `remove`: every copy of the digest leaves the key's list, when the key is present. -/
def remove (db : MemorySequencedEventDb Id Dig) (identifier : Id) (sn : UInt64) (said : Dig) :
    MemorySequencedEventDb Id Dig :=
  ⟨db.data.retain (identifier, sn) fun d => d != said⟩

@[simp] theorem get_remove (db : MemorySequencedEventDb Id Dig) (identifier i : Id) (sn s : UInt64)
    (said : Dig) :
    (db.remove identifier sn said).get i s =
      if (i, s) = (identifier, sn) then (db.get identifier sn).filter (· != said)
      else db.get i s :=
  HashMap.getD_retain _ _ _ _

end MemorySequencedEventDb

end Keriox
