import Keriox.Database.Log
import Keriox.Database.Sequenced

/-!
# Escrows: `MemoryEscrowDb`

An escrow is a sequenced index of its own over the log it shares with the database: `insert`
files an event's digest under the event's own prefix and sequence number and logs the event,
`insert_key_value` does the same under a key the caller gives, `save_digest` files a digest
without logging anything, and `remove` erases an event's digest from under the event's own key,
leaving the log as it is. Readers hydrate the digests of a key, or of every key from a sequence
number on, back into signed events through the log.

## Main definitions

* `MemoryEscrowDb`: an escrow's own index and the shared log
* `MemoryEscrowDb.insert`, `insert_key_value`, `save_digest`, `remove`, and the readers `get`,
  `get_from_sn`, `contains`
* `MemoryEscrowDb.Op`, `MemoryEscrowDb.run`: sequences of escrow writes
* `MemoryEscrowDb.Op.files`: whether a write files or removes a digest under a key
* `MemoryEscrowDb.GetFromSn`: the results `get_from_sn` may return, one per order in which the
  index may be iterated

## Main results

* `MemoryEscrowDb.get_from_sn_perm`: `get_from_sn` is the concatenation of `get` over the stored
  sequence numbers, in the order the index is iterated in
* `MemoryEscrowDb.insert_insert_files_digest_twice`: a second `insert` files the digest once more
* `MemoryEscrowDb.remove_undoes_insert`: `remove` undoes an `insert` under the event's own key
* `MemoryEscrowDb.contains_run`: `contains` is decided by the last write that files or removes the
  digest under the key
-/

namespace Keriox

open scoped List

/-- `MemoryEscrowDb`: the escrow's own sequenced table and the log it shares with the
database. -/
structure MemoryEscrowDb (Id Dig Ev Sig Nt Seal : Type) where
  sequenced : MemorySequencedEventDb Id Dig
  log : MemoryLogDatabase Dig Ev Sig Nt Seal

namespace MemoryEscrowDb

variable {Id Dig Ev St Sig Nt Seal : Type} [DecidableEq Id] [DecidableEq Dig]
variable (K : KeriCore Id Dig Ev St)

/-- `save_digest`: the digest is filed under the key; the log is not written. -/
def save_digest (db : MemoryEscrowDb Id Dig Ev Sig Nt Seal) (id : Id) (sn : UInt64)
    (event_digest : Dig) : MemoryEscrowDb Id Dig Ev Sig Nt Seal :=
  { db with sequenced := db.sequenced.insert id sn event_digest }

/-- `insert_key_value`: when the event has a digest, the digest is filed under the key and then
the event is logged; otherwise the digest's error is returned and nothing is written. -/
def insert_key_value (db : MemoryEscrowDb Id Dig Ev Sig Nt Seal) (id : Id) (sn : UInt64)
    (event : SignedEventMessage Ev Sig) :
    Except Error Unit × MemoryEscrowDb Id Dig Ev Sig Nt Seal :=
  match K.digest event.event_message with
  | .error err => (.error err, db)
  | .ok digest =>
    (.ok (), ⟨db.sequenced.insert id sn digest, db.log.log_event_internal K event⟩)

/-- `insert`: `insert_key_value` under the event's own prefix and sequence number. -/
def insert (db : MemoryEscrowDb Id Dig Ev Sig Nt Seal) (event : SignedEventMessage Ev Sig) :
    Except Error Unit × MemoryEscrowDb Id Dig Ev Sig Nt Seal :=
  db.insert_key_value K ( K.get_prefix event.event_message) (K.get_sn event.event_message) event

/-- `get`: the digests under the key, each hydrated through the log; a digest the log lacks is
skipped. -/
def get (db : MemoryEscrowDb Id Dig Ev Sig Nt Seal) (identifier : Id) (sn : UInt64) :
    List (SignedEventMessage Ev Sig) :=
  (db.sequenced.get identifier sn).filterMap db.log.get_signed_event

/-- `get_from_sn`, when the index is iterated in the order `it`: the digests `get_greater_than`
returns, hydrated through the log. -/
def get_from_sn (db : MemoryEscrowDb Id Dig Ev Sig Nt Seal) (it : db.sequenced.data.Iter)
    (identifier : Id) (sn : UInt64) : List (SignedEventMessage Ev Sig) :=
  (db.sequenced.get_greater_than it identifier sn).filterMap db.log.get_signed_event

/-- `contains`: whether the digest is filed under the key. -/
def contains (db : MemoryEscrowDb Id Dig Ev Sig Nt Seal) (id : Id) (sn : UInt64) (digest : Dig) :
    Bool :=
  decide (digest ∈ db.sequenced.get id sn)

/-- `remove`: when the event has a digest, every copy of it leaves the list under the event's own
prefix and sequence number; the log keeps the event. -/
def remove (db : MemoryEscrowDb Id Dig Ev Sig Nt Seal) (event : Ev) :
    MemoryEscrowDb Id Dig Ev Sig Nt Seal :=
  match K.digest event with
  | .ok digest =>
    { db with sequenced := db.sequenced.remove ( K.get_prefix event) (K.get_sn event) digest }
  | .error _ => db

/-- The results `get_from_sn` may return: one for each order the index may be iterated in. -/
def GetFromSn (db : MemoryEscrowDb Id Dig Ev Sig Nt Seal) (identifier : Id) (sn : UInt64)
    (events : List (SignedEventMessage Ev Sig)) : Prop :=
  ∃ it, db.get_from_sn it identifier sn = events

/-- The escrow writes. -/
inductive Op (Id Dig Ev Sig : Type) where
  | save_digest (id : Id) (sn : UInt64) (event_digest : Dig)
  | insert (event : SignedEventMessage Ev Sig)
  | insert_key_value (id : Id) (sn : UInt64) (event : SignedEventMessage Ev Sig)
  | remove (event : Ev)

/-- One escrow write, its result dropped. -/
def step (db : MemoryEscrowDb Id Dig Ev Sig Nt Seal) :
    Op Id Dig Ev Sig → MemoryEscrowDb Id Dig Ev Sig Nt Seal
  | .save_digest id sn d => db.save_digest id sn d
  | .insert e => (db.insert K e).2
  | .insert_key_value id sn e => (db.insert_key_value K id sn e).2
  | .remove e => db.remove K e

/-- Escrow writes made one after another. -/
def run (db : MemoryEscrowDb Id Dig Ev Sig Nt Seal) (ops : List (Op Id Dig Ev Sig)) :
    MemoryEscrowDb Id Dig Ev Sig Nt Seal :=
  ops.foldl (step K) db

/-- Whether an escrow write files (`true`) or removes (`false`) the digest `d` under `(id, sn)`,
if it does either: `save_digest` of it there, an insert there of an event with digest `d`, or a
`remove` of an event with digest `d` whose own key is `(id, sn)`. -/
def Op.files (id : Id) (sn : UInt64) (d : Dig) : Op Id Dig Ev Sig → Option Bool
  | .save_digest id' sn' d' => if (id', sn', d') = (id, sn, d) then some true else none
  | .insert e =>
    if K.key e.event_message = (id, sn) ∧ K.digest e.event_message = .ok d then some true
    else none
  | .insert_key_value id' sn' e =>
    if (id', sn') = (id, sn) ∧ K.digest e.event_message = .ok d then some true else none
  | .remove ev => if K.key ev = (id, sn) ∧ K.digest ev = .ok d then some false else none

/-- The escrow `create_escrow_db` hands out: an empty index over the database's log. -/
def create (log : MemoryLogDatabase Dig Ev Sig Nt Seal) : MemoryEscrowDb Id Dig Ev Sig Nt Seal :=
  ⟨.new, log⟩

section Spec

variable {K}
variable {db : MemoryEscrowDb Id Dig Ev Sig Nt Seal} {e : SignedEventMessage Ev Sig} {d : Dig}

theorem insert_key_value_of_digest (hd : K.digest e.event_message = .ok d) (id : Id) (sn : UInt64) :
    db.insert_key_value K id sn e =
      (.ok (), ⟨db.sequenced.insert id sn d, db.log.log_event_internal K e⟩) := by
  simp only [insert_key_value, hd]

theorem remove_of_digest {ev : Ev} (hd : K.digest ev = .ok d) :
    db.remove K ev =
      { db with sequenced := db.sequenced.remove ( K.get_prefix ev) (K.get_sn ev) d } := by
  simp only [remove, hd]

/-- An escrow write logs events only: the receipt couplets of the log are left as they were. -/
@[simp] theorem step_nontrans_couplets (op : Op Id Dig Ev Sig) :
    (db.step K op).log.nontrans_couplets = db.log.nontrans_couplets := by
  cases op <;> simp only [step, save_digest, insert, insert_key_value, remove] <;> split <;>
    simp

/-- What an escrow write does to the log: nothing, or `log_event_internal` of one event. -/
theorem step_log (db : MemoryEscrowDb Id Dig Ev Sig Nt Seal) (op : Op Id Dig Ev Sig) :
    (db.step K op).log = db.log ∨ ∃ e, (db.step K op).log = db.log.log_event_internal K e := by
  cases op with
  | insert e | insert_key_value _ _ e =>
    simp only [step, insert, insert_key_value]
    split
    · exact .inl rfl
    · exact .inr ⟨e, rfl⟩
  | save_digest => exact .inl rfl
  | remove ev => simp only [step, remove]; split <;> exact .inl rfl

/-- What an escrow write leaves under a key: what was there, the digest `save_digest` files, or a
digest the log now holds; `remove` only takes away. -/
theorem mem_step_sequenced {op : Op Id Dig Ev Sig} {i : Id} {s : UInt64}
    (h : d ∈ (db.step K op).sequenced.get i s) :
    d ∈ db.sequenced.get i s ∨ op = .save_digest i s d ∨
      ((db.step K op).log.get_signed_event d).isSome := by
  cases op with
  | save_digest id sn d' =>
    rcases MemorySequencedEventDb.mem_get_insert.1 h with h | ⟨hk, rfl⟩
    · exact .inl h
    · obtain ⟨rfl, rfl⟩ := Prod.mk.inj hk; exact .inr (.inl rfl)
  | insert e | insert_key_value _ _ e =>
    cases hd : K.digest e.event_message with
    | error => simp only [step, insert, insert_key_value, hd] at h; exact .inl h
    | ok d' =>
      simp only [step, insert, insert_key_value_of_digest hd] at h ⊢
      rcases MemorySequencedEventDb.mem_get_insert.1 h with h | ⟨-, rfl⟩
      · exact .inl h
      · simp [MemoryLogDatabase.get_signed_event_log_event_internal_of_digest hd]
  | remove ev =>
    refine .inl ?_
    simp only [step, remove] at h
    split at h
    · rw [MemorySequencedEventDb.get_remove] at h
      split_ifs at h with hk
      · obtain ⟨rfl, rfl⟩ := Prod.mk.inj hk; exact (List.mem_filter.1 h).1
      · exact h
    · exact h

/-- An escrow write changes the index by what the index holds, whatever the log. -/
theorem step_sequenced_of_sequenced_eq {db₁ db₂ : MemoryEscrowDb Id Dig Ev Sig Nt Seal}
    (h : db₁.sequenced = db₂.sequenced) (op : Op Id Dig Ev Sig) :
    (db₁.step K op).sequenced = (db₂.step K op).sequenced := by
  cases op with
  | save_digest => simp only [step, save_digest, h]
  | insert e | insert_key_value _ _ e =>
    cases hd : K.digest e.event_message <;> simp only [step, insert, insert_key_value, hd, h]
  | remove ev => cases hd : K.digest ev <;> simp only [step, remove, hd, h]

variable (K) in
theorem run_sequenced_of_sequenced_eq {db₁ db₂ : MemoryEscrowDb Id Dig Ev Sig Nt Seal}
    (h : db₁.sequenced = db₂.sequenced) (ops : List (Op Id Dig Ev Sig)) :
    (db₁.run K ops).sequenced = (db₂.run K ops).sequenced := by
  induction ops generalizing db₁ db₂ with
  | nil => exact h
  | cons op ops ih => exact ih (step_sequenced_of_sequenced_eq h op)

/-- A write sets `contains` of a digest under a key when it files or removes it there, and leaves
it otherwise. -/
theorem contains_step (op : Op Id Dig Ev Sig) (id : Id) (sn : UInt64) (d : Dig) :
    (db.step K op).contains id sn d = (op.files K id sn d).getD (db.contains id sn d) := by
  cases op with
  | save_digest id' sn' d' =>
    by_cases hk : id' = id ∧ sn' = sn ∧ d' = d
    · obtain ⟨rfl, rfl, rfl⟩ := hk; simp [step, save_digest, contains, Op.files]
    · simp only [step, save_digest, contains, Op.files, MemorySequencedEventDb.mem_get_insert,
        Prod.mk.injEq, if_neg hk, Option.getD_none]
      exact decide_eq_decide.2 (or_iff_left fun ⟨⟨h₁, h₂⟩, h₃⟩ => hk ⟨h₁.symm, h₂.symm, h₃.symm⟩)
  | insert e | insert_key_value _ _ e =>
    cases hd : K.digest e.event_message with
    | error err => simp [step, insert, insert_key_value, hd, Op.files]
    | ok d' =>
      simp only [step, insert, insert_key_value_of_digest hd, contains, Op.files, hd,
        MemorySequencedEventDb.mem_get_insert, KeriCore.key, Except.ok.injEq]
      split_ifs with hk <;> aesop
  | remove ev =>
    cases hd : K.digest ev with
    | error err => simp [step, remove, hd, Op.files]
    | ok d' =>
      simp only [step, remove_of_digest hd, contains, Op.files, hd, KeriCore.key,
        MemorySequencedEventDb.get_remove, Except.ok.injEq]
      split_ifs <;> aesop

variable (K) in
theorem run_concat (ops : List (Op Id Dig Ev Sig)) (op : Op Id Dig Ev Sig) :
    db.run K (ops ++ [op]) = (db.run K ops).step K op := by
  simp only [run, List.foldl_append, List.foldl_cons, List.foldl_nil]

/-- **The last write decides `contains`.** After any sequence of escrow writes,
`contains(id, sn, d)` is what the last write that files `d` under `(id, sn)` or removes it from
there makes it: true after `save_digest` of it or an insert there of an event with digest `d`,
false after a `remove` of an event with digest `d` and key `(id, sn)`, which drops every copy;
and as before when no write does either. -/
theorem contains_run (db : MemoryEscrowDb Id Dig Ev Sig Nt Seal) (ops : List (Op Id Dig Ev Sig))
    (id : Id) (sn : UInt64) (d : Dig) :
    (db.run K ops).contains id sn d =
      (ops.filterMap (Op.files K id sn d)).getLast?.getD (db.contains id sn d) := by
  induction ops using List.reverseRecOn with
  | nil => rfl
  | append_singleton ops op ih =>
    rw [run_concat, contains_step, ih, List.filterMap_append]
    cases hf : op.files K id sn d <;> simp [hf]

/-- `get_from_sn` hydrates what `get_greater_than` collects, key by key. -/
theorem get_from_sn_of_get_greater_than {it : db.sequenced.data.Iter} {identifier : Id}
    {sn : UInt64} {sns : List UInt64}
    (h : db.sequenced.get_greater_than it identifier sn =
      sns.flatMap (db.sequenced.get identifier)) :
    db.get_from_sn it identifier sn = sns.flatMap (db.get identifier) := by
  rw [get_from_sn, h, List.filterMap_flatMap]; rfl

/-- **What `get_from_sn` returns.** Under any order of iteration, `get_from_sn` is the
concatenation of `get` over the sequence numbers at or above `sn` stored for the identifier,
taken in the order the index is iterated in. -/
theorem get_from_sn_perm (it : db.sequenced.data.Iter) (identifier : Id) (sn : UInt64) :
    ∃ sns : List UInt64, sns.Perm (db.sequenced.stored_sns identifier sn) ∧
      db.get_from_sn it identifier sn = sns.flatMap (db.get identifier) := by
  obtain ⟨sns, hsns, heq⟩ := db.sequenced.get_greater_than_perm it identifier sn
  exact ⟨sns, hsns, get_from_sn_of_get_greater_than heq⟩

/-- Escrows with the same keys, the second of which holds under each sequence number of `i` what
the first holds followed by `extra`, give from `get_from_sn` what the first gives followed by
`extra` over its stored sequence numbers, up to the order of iteration. -/
theorem get_from_sn_perm_append {db₁ db₂ : MemoryEscrowDb Id Dig Ev Sig Nt Seal}
    (hkeys : ∀ k, (db₂.sequenced.data.get k).isSome = (db₁.sequenced.data.get k).isSome)
    {i : Id}
    {extra : UInt64 → List (SignedEventMessage Ev Sig)}
    (hget : ∀ s, db₂.get i s = db₁.get i s ++ extra s) (sn : UInt64)
    (it₂ : db₂.sequenced.data.Iter) (it₁ : db₁.sequenced.data.Iter) :
    (db₂.get_from_sn it₂ i sn).Perm
      (db₁.get_from_sn it₁ i sn ++ (db₁.sequenced.stored_sns i sn).flatMap extra) := by
  obtain ⟨sns₂, hsns₂, heq₂⟩ := db₂.sequenced.get_greater_than_perm it₂ i sn
  obtain ⟨sns₁, hsns₁, heq₁⟩ := db₁.sequenced.get_greater_than_perm it₁ i sn
  rw [get_from_sn_of_get_greater_than heq₂, get_from_sn_of_get_greater_than heq₁]
  calc sns₂.flatMap (db₂.get i)
      _ ~ sns₁.flatMap (db₂.get i) :=
        (hsns₂.trans ((MemorySequencedEventDb.stored_sns_perm hkeys i sn).trans
          hsns₁.symm)).flatMap_right _
      _ = sns₁.flatMap fun s => db₁.get i s ++ extra s := congrArg sns₁.flatMap (funext hget)
      _ ~ sns₁.flatMap (db₁.get i) ++ sns₁.flatMap extra :=
        (List.flatMap_append_perm _ _ _).symm
      _ ~ _ := (hsns₁.flatMap_right _).append_left _

end Spec

/-- Two events of identifier `0`, at sequence numbers `1` and `2`, with digests `11` and `12`. -/
def escrowed₁ : SignedEventMessage KeyEvent Nat :=
  ⟨⟨0, 1, .interaction, some 10, some 11⟩, []⟩

@[inherit_doc escrowed₁]
def escrowed₂ : SignedEventMessage KeyEvent Nat :=
  ⟨⟨0, 2, .interaction, some 11, some 12⟩, []⟩

/-- The escrow `create_escrow_db` hands out on a fresh database, for the spec's events. -/
def fresh : MemoryEscrowDb Nat Nat KeyEvent Nat Nat Nat := create .new

/-- `fresh` after `insert(escrowed₁)` and `insert(escrowed₂)`. -/
def twoEscrowed : MemoryEscrowDb Nat Nat KeyEvent Nat Nat Nat :=
  fresh.run specCore [.insert escrowed₁, .insert escrowed₂]

/-- **`get_from_sn` is not in ascending order**: iterated in the order the index stores them,
the two events come out `escrowed₂` first, while the ascending concatenation of `get` puts
`escrowed₁` first. -/
theorem get_from_sn_not_ascending :
    twoEscrowed.get_from_sn (HashMap.Iter.stored _) 0 0 ≠
      ((twoEscrowed.sequenced.stored_sns 0 0).insertionSort (· ≤ ·)).flatMap
        (twoEscrowed.get 0) := by
  decide

section Spec

variable {K}
variable {db : MemoryEscrowDb Id Dig Ev Sig Nt Seal} {e : SignedEventMessage Ev Sig} {d : Dig}

/-- **A second `insert` files the digest once more.** Inserting an event that has a digest twice
leaves `contains` as one `insert` leaves it, while `get` at the event's key returns the event
once more, and so, up to the order of iteration, does `get_from_sn` when that key is in range. -/
theorem insert_insert_files_digest_twice (hd : K.digest e.event_message = .ok d) :
    let once := (db.insert K e).2
    let twice := (once.insert K e).2
    (∀ i s d', twice.contains i s d' = once.contains i s d') ∧
    (∀ i s, twice.get i s =
      once.get i s ++ if (i, s) = K.key e.event_message then [e] else []) ∧
    ∀ i s (it₂ : twice.sequenced.data.Iter) (it₁ : once.sequenced.data.Iter),
      (twice.get_from_sn it₂ i s).Perm (once.get_from_sn it₁ i s ++
        if i = K.get_prefix e.event_message ∧ s ≤ K.get_sn e.event_message then [e]
        else []) := by
  intro once twice
  set p := K.get_prefix e.event_message
  set n := K.get_sn e.event_message
  have h₁ : once = ⟨db.sequenced.insert p n d, db.log.log_event_internal K e⟩ := by
    simp only [once, insert, insert_key_value_of_digest hd]
  have h₂ : twice = ⟨once.sequenced.insert p n d, once.log.log_event_internal K e⟩ := by
    simp only [twice, insert, insert_key_value_of_digest hd]
  have hstored : once.log.get_signed_event d = some e := by
    rw [h₁, MemoryLogDatabase.get_signed_event_log_event_internal_of_digest hd, if_pos rfl]
  have hlog := MemoryLogDatabase.get_signed_event_log_event_internal_of_stored hd hstored
  have hmem : d ∈ once.sequenced.get p n := by simp [h₁]
  have hget : ∀ i s, twice.get i s = once.get i s ++
      if (i, s) = K.key e.event_message then [e] else [] := by
    intro i s
    simp only [get, h₂, hlog, MemorySequencedEventDb.get_insert, KeriCore.key]
    split_ifs with hk
    · obtain ⟨rfl, rfl⟩ := Prod.mk.inj hk
      simp [hstored]
    · simp
  refine ⟨fun i s d' => ?_, hget, fun i s it₂ it₁ => ?_⟩
  · simp only [contains, h₂, decide_eq_decide, MemorySequencedEventDb.mem_get_insert]
    refine or_iff_left_of_imp fun ⟨hk, hd'⟩ => ?_
    obtain ⟨rfl, rfl⟩ := Prod.mk.inj hk
    exact hd' ▸ hmem
  · have hkey : (once.sequenced.data.get (p, n)).isSome := by simp [h₁]
    have hkeys : ∀ k,
        (twice.sequenced.data.get k).isSome = (once.sequenced.data.get k).isSome := by
      intro k
      rw [h₂, MemorySequencedEventDb.isSome_get_insert]
      by_cases hk : k = (p, n) <;> simp [hk, hkey]
    have h := get_from_sn_perm_append hkeys (hget i) s it₂ it₁
    rwa [KeriCore.key, MemorySequencedEventDb.flatMap_stored_sns_ite _ hkey] at h

end Spec

/-- `insert_insert_files_digest_twice` at the fresh escrow and `escrowed₁`. -/
theorem insert_twice_escrowed₁ :
    specCore.digest escrowed₁.event_message = .ok 11 ∧
    let once := (fresh.insert specCore escrowed₁).2
    let twice := (once.insert specCore escrowed₁).2
    (∀ i s d', twice.contains i s d' = once.contains i s d') ∧
    (∀ i s, twice.get i s = once.get i s ++
      if (i, s) = specCore.key escrowed₁.event_message then [escrowed₁] else []) ∧
    ∀ i s (it₂ : twice.sequenced.data.Iter) (it₁ : once.sequenced.data.Iter),
      (twice.get_from_sn it₂ i s).Perm (once.get_from_sn it₁ i s ++
        if i = specCore.get_prefix escrowed₁.event_message ∧
          s ≤ specCore.get_sn escrowed₁.event_message then [escrowed₁] else []) :=
  ⟨rfl, insert_insert_files_digest_twice rfl⟩

/-- **The index keeps duplicates**: inserting `escrowed₁` twice files its digest twice under its
key, and `get` returns the event twice where one `insert` returns it once. -/
theorem insert_twice_duplicates :
    (fresh.run specCore [.insert escrowed₁, .insert escrowed₁]).sequenced.get 0 1 = [11, 11] ∧
      (fresh.run specCore [.insert escrowed₁, .insert escrowed₁]).get 0 1 =
        [escrowed₁, escrowed₁] ∧
      (fresh.run specCore [.insert escrowed₁]).get 0 1 = [escrowed₁] := by
  decide

section Spec

variable {K}
variable {db : MemoryEscrowDb Id Dig Ev Sig Nt Seal} {e : SignedEventMessage Ev Sig} {d : Dig}

/-- Logging `e` again changes the hydration of no digest the escrow holds, when every key
holding `e`'s digest hydrated it to `e`. -/
theorem get_signed_event_log_event_internal_of_held (hd : K.digest e.event_message = .ok d)
    (hlog : ∀ i s, d ∈ db.sequenced.get i s → db.log.get_signed_event d = some e) {d' : Dig}
    {i : Id} {s : UInt64} (h : d' ∈ db.sequenced.get i s) :
    (db.log.log_event_internal K e).get_signed_event d' = db.log.get_signed_event d' := by
  rw [MemoryLogDatabase.get_signed_event_log_event_internal_of_digest hd]
  split_ifs with hdd
  · subst hdd; exact (hlog i s h).symm
  · rfl

/-- Escrows with the same index, whose logs hydrate the digests it holds alike, have the same
possible results of `get_from_sn`. -/
theorem GetFromSn.of_get_eq {db₁ db₂ : MemoryEscrowDb Id Dig Ev Sig Nt Seal}
    (hseq : ∀ i s, db₁.sequenced.get i s = db₂.sequenced.get i s)
    (hhyd : ∀ d i s, d ∈ db₁.sequenced.get i s →
      db₁.log.get_signed_event d = db₂.log.get_signed_event d)
    {i : Id} {s : UInt64} {evs : List (SignedEventMessage Ev Sig)} (h : db₁.GetFromSn i s evs) :
    db₂.GetFromSn i s evs := by
  obtain ⟨it, rfl⟩ := h
  obtain ⟨it', hit'⟩ := MemorySequencedEventDb.exists_get_greater_than_eq_of_get_eq hseq it i s
  refine ⟨it', ?_⟩
  rw [get_from_sn, get_from_sn, hit']
  refine (List.filterMap_congr fun d hd => ?_).symm
  obtain ⟨s', hs'⟩ := MemorySequencedEventDb.mem_get_greater_than hd
  exact hhyd d i s' hs'

/-- **`remove` undoes an `insert`.** When an event's digest is not filed under the event's own
key, `insert` followed by `remove` restores the index under every key, hence `contains`; it
restores `get` and the possible results of `get_from_sn` too when every key that already held
the digest hydrated it to the event, the log keeping the copy it was last given. Under any other
key, `insert_key_value` followed by `remove` leaves the digest in place. -/
theorem remove_undoes_insert (hd : K.digest e.event_message = .ok d)
    (hfresh : d ∉ db.sequenced.get ( K.get_prefix e.event_message) (K.get_sn e.event_message)) :
    let undone := (db.insert K e).2.remove K e.event_message
    (∀ i s, undone.sequenced.get i s = db.sequenced.get i s) ∧
    (∀ i s d', undone.contains i s d' = db.contains i s d') ∧
    ((∀ i s, d ∈ db.sequenced.get i s → db.log.get_signed_event d = some e) →
      (∀ i s, undone.get i s = db.get i s) ∧
      ∀ i s evs, undone.GetFromSn i s evs ↔ db.GetFromSn i s evs) ∧
    ∀ i s, (i, s) ≠ K.key e.event_message →
      d ∈ ((db.insert_key_value K i s e).2.remove K e.event_message).sequenced.get i s := by
  intro undone
  have hundone : undone = ⟨(db.sequenced.insert ( K.get_prefix e.event_message)
      (K.get_sn e.event_message) d).remove ( K.get_prefix e.event_message)
      (K.get_sn e.event_message) d, db.log.log_event_internal K e⟩ := by
    simp only [undone, insert, insert_key_value_of_digest hd, remove_of_digest hd]
  have hseq : ∀ i s, undone.sequenced.get i s = db.sequenced.get i s := by
    intro i s
    simp only [hundone, MemorySequencedEventDb.get_remove, MemorySequencedEventDb.get_insert]
    split_ifs with hk
    · obtain ⟨rfl, rfl⟩ := Prod.mk.inj hk
      rw [List.filter_append,
        List.filter_eq_self.2 fun d' hd' => by simpa using ne_of_mem_of_not_mem hd' hfresh]
      simp
    · rfl
  refine ⟨hseq, fun i s d' => by simp only [contains, hseq], fun hlog => ?_, fun i s hk => ?_⟩
  · have hhyd : ∀ d' i s, d' ∈ db.sequenced.get i s →
        undone.log.get_signed_event d' = db.log.get_signed_event d' := fun _ _ _ h => by
      rw [hundone]; exact get_signed_event_log_event_internal_of_held hd hlog h
    refine ⟨fun i s => ?_, fun i s evs => ⟨GetFromSn.of_get_eq hseq fun d' i s h =>
      hhyd d' i s (hseq i s ▸ h), GetFromSn.of_get_eq (fun i s => (hseq i s).symm)
        fun d' i s h => (hhyd d' i s h).symm⟩⟩
    simp only [get, hseq]
    exact List.filterMap_congr fun d' h => hhyd d' i s h
  · have hk' : (i, s) ≠ ( K.get_prefix e.event_message, K.get_sn e.event_message) := hk
    simp [insert_key_value_of_digest hd, remove_of_digest hd, hk']

end Spec

/-- An escrow of a fresh database holding `escrowed₁` under `(0, 5)`, a key not its own. -/
def escrowedElsewhere : MemoryEscrowDb Nat Nat KeyEvent Nat Nat Nat :=
  (fresh.insert_key_value specCore 0 5 escrowed₁).2

/-- `remove_undoes_insert` at an escrow that holds the digest `11` of `escrowed₁` under `(0, 5)`,
not under its own key `(0, 1)`, and hydrates it to `escrowed₁`. -/
theorem remove_undoes_insert_held_elsewhere :
    specCore.digest escrowed₁.event_message = .ok 11 ∧
    11 ∉ escrowedElsewhere.sequenced.get 0 1 ∧ 11 ∈ escrowedElsewhere.sequenced.get 0 5 ∧
    (∀ i s, 11 ∈ escrowedElsewhere.sequenced.get i s →
      escrowedElsewhere.log.get_signed_event 11 = some escrowed₁) ∧
    let undone := (escrowedElsewhere.insert specCore escrowed₁).2.remove specCore
      escrowed₁.event_message
    (∀ i s, undone.sequenced.get i s = escrowedElsewhere.sequenced.get i s) ∧
    (∀ i s d', undone.contains i s d' = escrowedElsewhere.contains i s d') ∧
    ((∀ i s, 11 ∈ escrowedElsewhere.sequenced.get i s →
        escrowedElsewhere.log.get_signed_event 11 = some escrowed₁) →
      (∀ i s, undone.get i s = escrowedElsewhere.get i s) ∧
      ∀ i s evs, undone.GetFromSn i s evs ↔ escrowedElsewhere.GetFromSn i s evs) ∧
    ∀ i s, (i, s) ≠ specCore.key escrowed₁.event_message →
      11 ∈ ((escrowedElsewhere.insert_key_value specCore i s escrowed₁).2.remove specCore
        escrowed₁.event_message).sequenced.get i s :=
  ⟨rfl, by decide, by decide, fun _ _ _ => by decide,
    remove_undoes_insert rfl (show 11 ∉ escrowedElsewhere.sequenced.get 0 1 by decide)⟩

/-- `escrowed₁` signed with the signature `1`. -/
def resigned₁ : SignedEventMessage KeyEvent Nat := ⟨escrowed₁.event_message, [1]⟩

/-- A fresh escrow of a fresh database holding `resigned₁` under `(0, 5)`, a key not its own. -/
def heldElsewhere : MemoryEscrowDb Nat Nat KeyEvent Nat Nat Nat :=
  fresh.run specCore [.insert_key_value 0 5 resigned₁]

/-- **`remove` does not undo every insertion.** Under a key other than the event's own,
`insert_key_value` followed by `remove` leaves the digest filed; and `insert` followed by `remove`
at the event's own key leaves the log holding the copy just inserted, which another key's entry
now hydrates to. -/
theorem remove_leaves_traces :
    ((fresh.insert_key_value specCore 0 5 escrowed₁).2.remove specCore
        escrowed₁.event_message).contains 0 5 11 = true ∧
      fresh.contains 0 5 11 = false ∧
    heldElsewhere.contains 0 1 11 = false ∧
      ((heldElsewhere.insert specCore escrowed₁).2.remove specCore
        escrowed₁.event_message).get 0 5 = [escrowed₁] ∧
      heldElsewhere.get 0 5 = [resigned₁] := by
  decide

end MemoryEscrowDb

end Keriox
