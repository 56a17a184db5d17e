import Keriox.Concurrency.Writers

/-!
# The whole database: KEL threads and escrow threads together

A `MemoryDatabase` is written by calls of `add_kel_finalized_event`, read by readers of the KELs,
and written and read through its escrow handles, all at once. A handle holds its own sequenced
table and the database's log, an `Arc` of each: a section of a thread on an escrow runs on what
the handle reaches and leaves its writes there. The KEL threads and the escrow threads share
only the log.

The KEL threads read and write the key states and the KELs, which no escrow thread touches, and
what they do to them does not depend on the log. So in every interleaving of the two kinds, the
KEL threads, the key states and the KELs are those of the KEL threads run alone, on the schedule
with the escrow threads' turns left out: what `Keriox.Concurrency.Kel` and
`Keriox.Concurrency.Writers` show of KEL threads holds with escrow threads running too. Over the
log both kinds only add, so every event of every KEL stays in the log, and so does the event of
every escrow insert that has returned `Ok`. A handle's table is written only through that
handle, so no filing in it is lost or repeated, whatever else runs. Calls run one after another,
each to its end, are the database's own writes, `MemoryDatabase.run`, made in that order.

## Main definitions

* `DbThread`, `DbThread.next`: a KEL thread, or an escrow thread through a handle
* `DbThread.KelProjects`: a run of the whole database against a run of its KEL threads alone
* `DbThread.TablesAccounted`: what each escrow table holds against what was filed through it
* `DbThread.Call`, `DbThread.serial`: the writes threads make, and the schedule that runs them
  one after another

## Main results

* `DbThread.run_kel_projects`: the KEL threads of every interleaving behave as if alone
* `DbThread.logged_interleaved`: KEL events and the events of returned escrow inserts stay in
  the log, under every schedule of both kinds
* `DbThread.tables_accounted_interleaved`: each allocated table holds each filing through its
  handle once, whatever the KEL threads and the other handles do
* `DbThread.run_serial_writes`: calls run one after another are the database's writes made in
  that order
-/

namespace Keriox

/-- A thread on the whole database: a call or a reader on the KELs, or a thread on the escrow a
handle reaches. -/
inductive DbThread (Id Dig Ev St Sig : Type) where
  | kel (t : KelThread Id Ev St Sig)
  | escrow (h : EscrowHandle) (t : EscrowThread Id Dig Ev Sig)
  deriving DecidableEq, Repr

namespace MemoryDatabase

variable {Id Dig Ev St Sig Nt Seal : Type}

/-- What a handle's writes leave in the database: its table, and the log. -/
def set_escrow (db : MemoryDatabase Id Dig Ev St Sig Nt Seal) (h : EscrowHandle)
    (e : MemoryEscrowDb Id Dig Ev Sig Nt Seal) : MemoryDatabase Id Dig Ev St Sig Nt Seal :=
  { db with escrows := db.escrows.set h.sequenced e.sequenced, log_db := e.log }

@[simp] theorem set_escrow_states (db : MemoryDatabase Id Dig Ev St Sig Nt Seal) (h : EscrowHandle)
    (e : MemoryEscrowDb Id Dig Ev Sig Nt Seal) : (db.set_escrow h e).states = db.states := rfl

@[simp] theorem set_escrow_events (db : MemoryDatabase Id Dig Ev St Sig Nt Seal) (h : EscrowHandle)
    (e : MemoryEscrowDb Id Dig Ev Sig Nt Seal) : (db.set_escrow h e).events = db.events := rfl

@[simp] theorem set_escrow_log_db (db : MemoryDatabase Id Dig Ev St Sig Nt Seal) (h : EscrowHandle)
    (e : MemoryEscrowDb Id Dig Ev Sig Nt Seal) : (db.set_escrow h e).log_db = e.log := rfl

@[simp] theorem escrow_log (db : MemoryDatabase Id Dig Ev St Sig Nt Seal) (h : EscrowHandle) :
    (db.escrow h).log = db.log_db := rfl

/-- What a handle reaches after its writes: the table written, when the handle's table is
allocated, and the log. -/
theorem escrow_set_escrow (db : MemoryDatabase Id Dig Ev St Sig Nt Seal) (h : EscrowHandle)
    (e : MemoryEscrowDb Id Dig Ev Sig Nt Seal) :
    (db.set_escrow h e).escrow h =
      ⟨if h.sequenced < db.escrows.length then e.sequenced else .new, e.log⟩ := by
  simp only [escrow, set_escrow, List.getD_eq_getElem?_getD, List.getElem?_set, if_true]
  split_ifs <;> rfl

/-- A handle's writes leave the table of every other handle. -/
theorem escrow_set_escrow_of_ne (db : MemoryDatabase Id Dig Ev St Sig Nt Seal)
    {h h' : EscrowHandle} (hne : h' ≠ h) (e : MemoryEscrowDb Id Dig Ev Sig Nt Seal) :
    (db.set_escrow h' e).escrow h = ⟨(db.escrow h).sequenced, e.log⟩ := by
  have hseq : h'.sequenced ≠ h.sequenced := fun hs => hne (by cases h; cases h'; simp_all)
  simp only [escrow, set_escrow, List.getD_eq_getElem?_getD, List.getElem?_set_ne hseq]

@[simp] theorem set_escrow_set_escrow (db : MemoryDatabase Id Dig Ev St Sig Nt Seal)
    (h : EscrowHandle) (e e' : MemoryEscrowDb Id Dig Ev Sig Nt Seal) :
    (db.set_escrow h e).set_escrow h e' = db.set_escrow h e' := by
  simp only [set_escrow, List.set_set]

/-- A write to a table that is not allocated is lost. -/
@[simp] theorem set_escrow_ite_allocated (db : MemoryDatabase Id Dig Ev St Sig Nt Seal)
    (h : EscrowHandle) (s : MemorySequencedEventDb Id Dig)
    (log : MemoryLogDatabase Dig Ev Sig Nt Seal) :
    db.set_escrow h ⟨if h.sequenced < db.escrows.length then s else .new, log⟩ =
      db.set_escrow h ⟨s, log⟩ := by
  split_ifs with hh
  · rfl
  · simp only [set_escrow, List.set_eq_of_length_le (not_lt.1 hh)]

@[simp] theorem set_escrow_escrow (db : MemoryDatabase Id Dig Ev St Sig Nt Seal)
    (h : EscrowHandle) : db.set_escrow h (db.escrow h) = db := by
  by_cases hh : h.sequenced < db.escrows.length
  · have hget := List.getElem?_eq_getElem hh
    simp [set_escrow, escrow, hget, Interleaving.set_self hget]
  · simp [set_escrow, List.set_eq_of_length_le (not_lt.1 hh)]

/-- A write through a handle is the escrow's write on what the handle reaches, left in the
database. -/
theorem escrow_step_eq_set_escrow [DecidableEq Id] [DecidableEq Dig] (K : KeriCore Id Dig Ev St)
    (db : MemoryDatabase Id Dig Ev St Sig Nt Seal) (h : EscrowHandle)
    (op : MemoryEscrowDb.Op Id Dig Ev Sig) :
    db.escrow_step K h op = db.set_escrow h ((db.escrow h).step K op) := rfl

end MemoryDatabase

namespace DbThread

variable {Id Dig Ev St Sig Nt Seal : Type} [DecidableEq Id] [DecidableEq Dig]
variable (K : KeriCore Id Dig Ev St)

/-- The section a thread runs next: a KEL thread's on the database, an escrow thread's on what its
handle reaches. -/
def next : DbThread Id Dig Ev St Sig → MemoryDatabase Id Dig Ev St Sig Nt Seal →
    Option (DbThread Id Dig Ev St Sig × MemoryDatabase Id Dig Ev St Sig Nt Seal)
  | kel t, db => (KelThread.next K t db).map fun r => (kel r.1, r.2)
  | escrow h t, db =>
    (EscrowThread.next K t (db.escrow h)).map fun r => (escrow h r.1, db.set_escrow h r.2)

/-- Threads started together on the whole database: calls of `add_kel_finalized_event` and readers
of the KELs, then inserts and readers through handles. -/
def starting (calls : List (SignedEventMessage Ev Sig × Id)) (readers : List Id)
    (inserts : List (EscrowHandle × Id × UInt64 × SignedEventMessage Ev Sig))
    (checks : List (EscrowHandle × Id × UInt64 × Dig)) : List (DbThread Id Dig Ev St Sig) :=
  (KelThread.adding calls ++ readers.map fun r => KelThread.read r .start).map kel ++
    (inserts.map fun x => escrow x.1 (.insert_key_value x.2.1 x.2.2.1 x.2.2.2 .start)) ++
    checks.map fun x => escrow x.1 (.contains_get x.2.1 x.2.2.1 x.2.2.2 .start)

/-- **What a section of the whole database is**: a KEL thread's section, or an escrow thread's on
what its handle reaches, left in the database. -/
theorem next_cases {K} {cur cur' : MemoryDatabase Id Dig Ev St Sig Nt Seal}
    {t t' : DbThread Id Dig Ev St Sig} (hn : next K t cur = some (t', cur')) :
    (∃ k k', t = kel k ∧ t' = kel k' ∧ KelThread.next K k cur = some (k', cur')) ∨
      ∃ h e e' db', t = escrow h e ∧ t' = escrow h e' ∧
        EscrowThread.next K e (cur.escrow h) = some (e', db') ∧ cur' = cur.set_escrow h db' := by
  cases t with
  | kel k =>
    obtain ⟨⟨k', s⟩, hk, he⟩ := Option.map_eq_some'.1 hn
    obtain ⟨rfl, rfl⟩ := Prod.mk.inj he
    exact .inl ⟨k, k', rfl, rfl, hk⟩
  | escrow h e =>
    obtain ⟨⟨e', db'⟩, he, heq⟩ := Option.map_eq_some'.1 hn
    obtain ⟨rfl, rfl⟩ := Prod.mk.inj heq
    exact .inr ⟨h, e, e', db', rfl, rfl, he, rfl⟩

/-! ## The KEL threads as if alone -/

section Projection

/-- The threads of `c` are the KEL threads of `k`, in order, followed by escrow threads; and `c`
has the key states and the KELs of `k`. -/
def KelProjects
    (k : Interleaving (KelThread Id Ev St Sig) (MemoryDatabase Id Dig Ev St Sig Nt Seal))
    (c : Interleaving (DbThread Id Dig Ev St Sig) (MemoryDatabase Id Dig Ev St Sig Nt Seal)) :
    Prop :=
  (∃ es : List (EscrowHandle × EscrowThread Id Dig Ev Sig),
    c.threads = k.threads.map kel ++ es.map fun e => escrow e.1 e.2) ∧
  c.shared.states = k.shared.states ∧ c.shared.events = k.shared.events

variable {K}

/-- **A KEL thread reads only the key states and the KELs**, and writes them alike whatever the
rest of the database holds. -/
theorem KelThread.next_kel_tables {db₁ db₂ : MemoryDatabase Id Dig Ev St Sig Nt Seal}
    (hs : db₁.states = db₂.states) (he : db₁.events = db₂.events) (t : KelThread Id Ev St Sig) :
    (KelThread.next K t db₁).map (fun r => (r.1, r.2.states, r.2.events)) =
      (KelThread.next K t db₂).map (fun r => (r.1, r.2.states, r.2.events)) := by
  rcases t with ⟨event, id, _ | new_state | _ | _ | _ | r⟩ | ⟨id, _ | state | ⟨state, kel⟩⟩ <;>
    simp only [KelThread.next, MemoryDatabase.current_state, MemoryDatabase.get_key_state,
      MemoryDatabase.get_kel_finalized_events, hs, he, Option.map_some', Option.map_none']
  case start => split <;> simp [hs, he]

/-- An escrow thread's section leaves the key states and the KELs. -/
theorem next_escrow {db db' : MemoryDatabase Id Dig Ev St Sig Nt Seal} {h : EscrowHandle}
    {t : EscrowThread Id Dig Ev Sig} {u : DbThread Id Dig Ev St Sig}
    (hn : next K (escrow h t) db = some (u, db')) :
    ∃ t', u = escrow h t' ∧ db'.states = db.states ∧ db'.events = db.events := by
  rcases next_cases hn with ⟨_, _, ⟨⟩, -⟩ | ⟨_, _, t', _, ⟨⟩, rfl, -, rfl⟩
  exact ⟨t', rfl, rfl, rfl⟩

theorem KelProjects.step {k : Interleaving (KelThread Id Ev St Sig)
      (MemoryDatabase Id Dig Ev St Sig Nt Seal)}
    {c : Interleaving (DbThread Id Dig Ev St Sig) (MemoryDatabase Id Dig Ev St Sig Nt Seal)}
    (h : KelProjects k c) (i : Nat) :
    KelProjects (if i < k.threads.length then k.step (KelThread.next K) i else k)
      (c.step (next K) i) := by
  obtain ⟨⟨es, hc⟩, hs, he⟩ := h
  split_ifs with hi
  · -- a KEL thread's turn: it runs the same section in both
    obtain ⟨l, hl⟩ : ∃ l, k.threads[i]? = some l := ⟨_, List.getElem?_eq_getElem hi⟩
    have hcl : c.threads[i]? = some (kel l) := by
      rw [hc, List.getElem?_append_left (by simpa using hi), List.getElem?_map, hl]; rfl
    have hcong := KelThread.next_kel_tables (K := K) hs he l
    cases hk : KelThread.next K l k.shared with
    | none =>
      rw [hk, Option.map_none', Option.map_eq_none'] at hcong
      simp only [Interleaving.step, hcl, hl, next, hcong, hk, Option.map_none']
      exact ⟨⟨es, hc⟩, hs, he⟩
    | some r =>
      obtain ⟨l', s'⟩ := r
      rw [hk, Option.map_some'] at hcong
      obtain ⟨⟨l'', s''⟩, hn, heq⟩ := Option.map_eq_some'.1 hcong
      simp only [Prod.mk.injEq] at heq
      obtain ⟨rfl, hs', he'⟩ := heq
      rw [Interleaving.step_of_next hcl (show next K (kel l) c.shared = some (kel l'', s'') by
        simp [next, hn]), Interleaving.step_of_next hl hk]
      refine ⟨⟨es, ?_⟩, hs', he'⟩
      rw [hc, List.set_append_left _ _ (by simpa using hi), List.map_set]
  · -- an escrow thread's turn: the KEL threads, key states and KELs stay
    have hle : (k.threads.map kel : List (DbThread Id Dig Ev St Sig)).length ≤ i := by
      simpa using hi
    rcases Interleaving.step_cases c i with hstep | ⟨u, u', s', hu, hn, hstep⟩ <;> rw [hstep]
    · exact ⟨⟨es, hc⟩, hs, he⟩
    rw [hc, List.getElem?_append_right hle, List.getElem?_map] at hu
    obtain ⟨e, -, rfl⟩ := Option.map_eq_some'.1 hu
    obtain ⟨t', rfl, hs', he'⟩ := next_escrow hn
    refine ⟨⟨es.set (i - k.threads.length) (e.1, t'), ?_⟩, hs'.trans hs, he'.trans he⟩
    rw [hc, List.set_append_right _ _ hle, List.map_set, List.length_map]

theorem KelProjects.run {k : Interleaving (KelThread Id Ev St Sig)
      (MemoryDatabase Id Dig Ev St Sig Nt Seal)}
    {c : Interleaving (DbThread Id Dig Ev St Sig) (MemoryDatabase Id Dig Ev St Sig Nt Seal)}
    (h : KelProjects k c) (sched : List Nat) :
    KelProjects (k.run (KelThread.next K) (sched.filter (· < k.threads.length)))
      (c.run (next K) sched) := by
  induction sched generalizing k c with
  | nil => exact h
  | cons i sched ih =>
    have := ih (h.step (K := K) i)
    by_cases hi : i < k.threads.length <;> simpa [hi, List.filter_cons] using this

/-- **The KEL threads behave as if alone.** Under every schedule of KEL threads and escrow threads
started together on a database, the KEL threads are, in order, those of the KEL threads run alone
on the schedule with the escrow threads' turns left out, and the key states and the KELs are
those that run leaves. -/
theorem run_kel_projects (db : MemoryDatabase Id Dig Ev St Sig Nt Seal)
    (kels : List (KelThread Id Ev St Sig))
    (escrows : List (EscrowHandle × EscrowThread Id Dig Ev Sig)) (sched : List Nat) :
    let c := (Interleaving.mk db (kels.map kel ++ escrows.map fun e => escrow e.1 e.2)).run
      (next K) sched
    let k := (KelThread.concurrently db kels).run (KelThread.next K)
      (sched.filter (· < kels.length))
    c.threads.take kels.length = k.threads.map kel ∧ c.shared.states = k.shared.states ∧
      c.shared.events = k.shared.events := by
  obtain ⟨⟨es, hc⟩, hs, he⟩ := KelProjects.run (K := K) (k := KelThread.concurrently db kels)
    (c := ⟨db, kels.map kel ++ escrows.map fun e => escrow e.1 e.2⟩) ⟨⟨escrows, rfl⟩, rfl, rfl⟩
    sched
  refine ⟨?_, hs, he⟩
  rw [hc, List.take_append_of_le_length (by simp [KelThread.concurrently]),
    List.take_of_length_le (by simp [KelThread.concurrently])]
  rfl

end Projection

/-! ## The log under both kinds -/

section Logged

/-- What a thread holds of the log: a KEL thread, what `LogHeld` says; a thread on an escrow, what
`Wrote` says of what its handle reaches. -/
def Holds (db : MemoryDatabase Id Dig Ev St Sig Nt Seal) : DbThread Id Dig Ev St Sig → Prop
  | kel t => KelThread.LogHeld K db t
  | escrow h t => EscrowThread.Wrote K (db.escrow h) t

variable {K}
variable {cur cur' : MemoryDatabase Id Dig Ev St Sig Nt Seal} {t t' : DbThread Id Dig Ev St Sig}

/-- No section of either kind drops a key of the log. -/
theorem next_log_grows (hn : next K t cur = some (t', cur')) (d : Dig)
    (hd : (cur.log_db.get_signed_event d).isSome) : (cur'.log_db.get_signed_event d).isSome := by
  rcases next_cases hn with ⟨_, _, rfl, rfl, hk⟩ | ⟨_, _, _, _, rfl, rfl, he, rfl⟩
  exacts [KelThread.next_log_grows hk d hd, EscrowThread.next_log_grows he d hd]

omit [DecidableEq Id] in
theorem Holds.grow (h : Holds K cur t)
    (hg : ∀ d, (cur.log_db.get_signed_event d).isSome → (cur'.log_db.get_signed_event d).isSome) :
    Holds K cur' t := by
  cases t with
  | kel t => exact KelThread.LogHeld.grow h hg
  | escrow h' t => exact EscrowThread.Wrote.grow h hg

/-- A section of either kind keeps the KELs in the log, and the thread what `Holds` says: an escrow
thread touches no KEL and only adds to the log. -/
theorem kelLogged_next (h : cur.KelLogged K) (ht : Holds K cur t)
    (hn : next K t cur = some (t', cur')) : cur'.KelLogged K ∧ Holds K cur' t' := by
  rcases next_cases hn with ⟨_, _, rfl, rfl, hk⟩ | ⟨_, _, _, _, rfl, rfl, he, rfl⟩
  · exact KelThread.kelLogged_next h ht hk
  · exact ⟨fun id ev d hev hd => EscrowThread.next_log_grows he d (h id ev d hev hd),
      (EscrowThread.Wrote.next ht he).grow fun _ hd => hd⟩

/-- **Both kinds keep the log.** Under every schedule of calls of `add_kel_finalized_event`,
readers of the KELs, and inserts and readers through escrow handles, started together on a
database whose KEL events are in its log: every event of every KEL, and every event a reader has
read from a KEL, has its digest as a key of the log, and so has the event of every escrow insert
that has returned `Ok`. -/
theorem logged_interleaved {db : MemoryDatabase Id Dig Ev St Sig Nt Seal} (hdb : db.KelLogged K)
    (calls : List (SignedEventMessage Ev Sig × Id)) (readers : List Id)
    (inserts : List (EscrowHandle × Id × UInt64 × SignedEventMessage Ev Sig))
    (checks : List (EscrowHandle × Id × UInt64 × Dig)) (sched : List Nat) :
    let c := (Interleaving.mk db (starting calls readers inserts checks)).run (next K) sched
    c.shared.KelLogged K ∧
      (∀ id state kel, DbThread.kel (.read id (.returned state kel)) ∈ c.threads →
        ∀ e ∈ kel.getD [], ∀ d, K.digest e.event_message = .ok d →
          (c.shared.log_db.get_signed_event d).isSome) ∧
      ∀ h id sn event,
        DbThread.escrow h (.insert_key_value id sn event (.returned (.ok ()))) ∈ c.threads →
        ∃ d, K.digest event.event_message = .ok d ∧
          (c.shared.log_db.get_signed_event d).isSome := by
  have h₀ : db.KelLogged K ∧ ∀ t ∈ starting calls readers inserts checks, Holds K db t := by
    refine ⟨hdb, fun t ht => ?_⟩
    simp only [starting, KelThread.adding, List.mem_append, List.mem_map] at ht
    rcases ht with (⟨_, ⟨_, -, rfl⟩ | ⟨_, -, rfl⟩, rfl⟩ | ⟨_, -, rfl⟩) | ⟨_, -, rfl⟩ <;> trivial
  obtain ⟨hkel, hthreads⟩ := Interleaving.run_induction
    (fun c : Interleaving (DbThread Id Dig Ev St Sig) (MemoryDatabase Id Dig Ev St Sig Nt Seal) =>
      c.shared.KelLogged K ∧ ∀ t ∈ c.threads, Holds K c.shared t)
    (c := ⟨db, starting calls readers inserts checks⟩) h₀
    (fun c i l l' s' ⟨h, ht⟩ hi hn => by
      obtain ⟨h', hl'⟩ := kelLogged_next h (ht l (List.getElem?_mem hi)) hn
      refine ⟨h', fun t hm => ?_⟩
      rcases Interleaving.mem_of_mem_set hm with rfl | hm
      exacts [hl', (ht t hm).grow (next_log_grows hn)]) sched
  exact ⟨hkel, fun id state kel hm => hthreads _ hm, fun h id sn event hm => hthreads _ hm⟩

end Logged

/-- A call of `add_kel_finalized_event` with the inception, a reader of its KEL, and an insert and
a reader of `escrowed₁` through the escrow of `created`, interleaved. -/
def bothKinds :
    Interleaving (DbThread Nat Nat KeyEvent IdentifierState Nat)
      (MemoryDatabase Nat Nat KeyEvent IdentifierState Nat Nat Nat) :=
  (Interleaving.mk MemoryDatabase.created (starting [(KelThread.inception, 0)] [0]
    [(⟨0⟩, 0, 1, MemoryEscrowDb.escrowed₁)] [(⟨0⟩, 0, 1, 11)])).run (next specCore)
      [0, 2, 0, 1, 2, 0, 3, 3, 0, 2, 3, 3, 0, 1, 3]

theorem both_kinds_logged :
    MemoryDatabase.created.KelLogged specCore ∧ bothKinds.shared.KelLogged specCore :=
  have h : MemoryDatabase.created.KelLogged specCore :=
    MemoryDatabase.kelLogged_new.step (.create_escrow_db "escrow")
  ⟨h, (logged_interleaved h [(KelThread.inception, 0)] [0] [(⟨0⟩, 0, 1, MemoryEscrowDb.escrowed₁)]
    [(⟨0⟩, 0, 1, 11)] [0, 2, 0, 1, 2, 0, 3, 3, 0, 2, 3, 3, 0, 1, 3]).1⟩

/-! ## The escrow tables under both kinds -/

section Tables

/-- The digest a thread has filed under `key` in the table of the handle `h`. -/
def filedAt (h : EscrowHandle) (key : Id × UInt64) : DbThread Id Dig Ev St Sig → Option Dig
  | kel _ => none
  | escrow h' t => if h' = h then EscrowThread.filedAt K key t else none

/-- Under each key of each table allocated in `db`, the table holds what it held in `db`
followed, in some order, by the digests the inserts through its handle have filed there; and
every thread on an escrow holds what `Wrote` says of what its handle reaches. -/
structure TablesAccounted (db : MemoryDatabase Id Dig Ev St Sig Nt Seal)
    (c : Interleaving (DbThread Id Dig Ev St Sig) (MemoryDatabase Id Dig Ev St Sig Nt Seal)) :
    Prop where
  length_eq : c.shared.escrows.length = db.escrows.length
  filed : ∀ h : EscrowHandle, h.sequenced < db.escrows.length → ∀ id sn, ∃ filed : List Dig,
    filed.Perm (c.threads.filterMap (filedAt K h (id, sn))) ∧
      (c.shared.escrow h).sequenced.get id sn = (db.escrow h).sequenced.get id sn ++ filed
  wrote : ∀ h t, escrow h t ∈ c.threads → EscrowThread.Wrote K (c.shared.escrow h) t

variable {K}

/-- A KEL thread touches no escrow table. -/
theorem KelThread.next_escrows {t t' : KelThread Id Ev St Sig}
    {cur cur' : MemoryDatabase Id Dig Ev St Sig Nt Seal}
    (h : KelThread.next K t cur = some (t', cur')) : cur'.escrows = cur.escrows := by
  rcases t with ⟨event, id, _ | new_state | _ | _ | _ | r⟩ | ⟨id, _ | state | ⟨state, kel⟩⟩ <;>
    simp only [KelThread.next, Option.some.injEq, Prod.mk.injEq, reduceCtorEq] at h
  case start => split at h <;> obtain ⟨rfl, rfl⟩ := h <;> rfl
  all_goals obtain ⟨rfl, rfl⟩ := h; rfl

/-- What a section does to the table of an allocated handle `h`: an insert through `h` files its
event's digest under its key; every other section leaves the table and what each thread has filed
in it. -/
theorem next_filed {t t' : DbThread Id Dig Ev St Sig}
    {cur cur' : MemoryDatabase Id Dig Ev St Sig Nt Seal} {h : EscrowHandle}
    (hw : ∀ e, t = escrow h e → EscrowThread.Wrote K (cur.escrow h) e)
    (hh : h.sequenced < cur.escrows.length) (hn : next K t cur = some (t', cur')) :
    ((cur'.escrow h).sequenced = (cur.escrow h).sequenced ∧
        ∀ key, filedAt K h key t' = filedAt K h key t) ∨
      ∃ id sn event d, t = escrow h (.insert_key_value id sn event .start) ∧
        t' = escrow h (.insert_key_value id sn event (.indexed d)) ∧
        (cur'.escrow h).sequenced = (cur.escrow h).sequenced.insert id sn d := by
  rcases next_cases hn with ⟨k, k', rfl, rfl, hk⟩ | ⟨h', e, e', db', rfl, rfl, he, rfl⟩
  · exact .inl ⟨by simp only [MemoryDatabase.escrow, KelThread.next_escrows hk], fun _ => rfl⟩
  by_cases hne : h' = h
  · subst hne
    rw [MemoryDatabase.escrow_set_escrow, if_pos hh]
    rcases EscrowThread.next_filed (hw e rfl) he with ⟨hseq, hsame⟩ |
      ⟨id, sn, event, d, rfl, rfl, hseq⟩
    · exact .inl ⟨hseq, fun key => by simp [filedAt, hsame]⟩
    · exact .inr ⟨id, sn, event, d, rfl, rfl, hseq⟩
  · rw [MemoryDatabase.escrow_set_escrow_of_ne _ hne]
    exact .inl ⟨rfl, fun _ => by simp [filedAt, hne]⟩

theorem TablesAccounted.step {db : MemoryDatabase Id Dig Ev St Sig Nt Seal}
    {c : Interleaving (DbThread Id Dig Ev St Sig) (MemoryDatabase Id Dig Ev St Sig Nt Seal)}
    {i : Nat} {l l' : DbThread Id Dig Ev St Sig} {s' : MemoryDatabase Id Dig Ev St Sig Nt Seal}
    (h : TablesAccounted K db c) (hi : c.threads[i]? = some l)
    (hn : next K l c.shared = some (l', s')) : TablesAccounted K db ⟨s', c.threads.set i l'⟩ := by
  have hl : ∀ e h', l = escrow h' e → EscrowThread.Wrote K (c.shared.escrow h') e :=
    fun e h' he => h.wrote h' e (he ▸ List.getElem?_mem hi)
  have hlen : s'.escrows.length = c.shared.escrows.length := by
    rcases next_cases hn with ⟨k, k', rfl, rfl, hk⟩ | ⟨h', e, e', db', rfl, rfl, he, rfl⟩
    · rw [KelThread.next_escrows hk]
    · simp [MemoryDatabase.set_escrow]
  refine ⟨hlen.trans h.length_eq, fun hh hhd id sn => ?_, fun h' t ht => ?_⟩
  · -- the table of `hh` grows by what the step files through it
    obtain ⟨filed, hperm, hidx⟩ := h.filed hh hhd id sn
    refine Interleaving.filed_set (filedAt K hh (id, sn)) hi l' hperm hidx ?_
    rcases next_filed (fun e he => hl e hh he) (h.length_eq ▸ hhd) hn with ⟨hseq, hsame⟩ |
      ⟨id', sn', event, d, rfl, rfl, hseq⟩
    · exact .inl ⟨by rw [hseq], hsame _⟩
    · rw [hseq, MemorySequencedEventDb.get_insert]
      by_cases hk : (id', sn') = (id, sn)
      · obtain ⟨rfl, rfl⟩ := Prod.mk.inj hk
        exact .inr ⟨d, by simp [filedAt, EscrowThread.filedAt], by simp [filedAt,
          EscrowThread.filedAt], by simp⟩
      · exact .inl ⟨if_neg (Ne.symm hk), by simp [filedAt, EscrowThread.filedAt, hk]⟩
  · -- every thread on an escrow holds what it wrote, the log only growing
    rcases Interleaving.mem_of_mem_set ht with rfl | ht
    · rcases next_cases hn with ⟨_, _, -, ⟨⟩, -⟩ | ⟨h'', e, e', db', rfl, heq, he, rfl⟩
      cases heq
      exact (EscrowThread.Wrote.next (hl e h' rfl) he).grow fun _ hd => hd
    · exact (h.wrote h' t ht).grow (next_log_grows hn)

/-- **No filing is lost across handles.** Under every schedule of calls of
`add_kel_finalized_event`, readers of the KELs, and inserts and readers through escrow handles,
started together on a database, the table of every handle allocated in it holds under each key
what it held followed, in some order, by the digest of each insert through that handle that has
filed there, once: neither the KEL threads nor the threads through other handles change it. -/
theorem tables_accounted_interleaved (db : MemoryDatabase Id Dig Ev St Sig Nt Seal)
    (calls : List (SignedEventMessage Ev Sig × Id)) (readers : List Id)
    (inserts : List (EscrowHandle × Id × UInt64 × SignedEventMessage Ev Sig))
    (checks : List (EscrowHandle × Id × UInt64 × Dig)) (sched : List Nat)
    (h : EscrowHandle) (hh : h.sequenced < db.escrows.length) (id : Id) (sn : UInt64) :
    let c := (Interleaving.mk db (starting calls readers inserts checks)).run (next K) sched
    ∃ filed : List Dig, filed.Perm (c.threads.filterMap (filedAt K h (id, sn))) ∧
      (c.shared.escrow h).sequenced.get id sn = (db.escrow h).sequenced.get id sn ++ filed := by
  have hstart : ∀ t ∈ starting calls readers inserts checks,
      (∀ h key, filedAt K h key (t : DbThread Id Dig Ev St Sig) = none) ∧
        ∀ h' e, t = escrow h' e → EscrowThread.Wrote K (db.escrow h') e := by
    intro t ht
    simp only [starting, KelThread.adding, List.mem_append, List.mem_map] at ht
    rcases ht with (⟨_, ⟨_, -, rfl⟩ | ⟨_, -, rfl⟩, rfl⟩ | ⟨_, -, rfl⟩) | ⟨_, -, rfl⟩ <;>
      exact ⟨fun _ _ => by simp [filedAt, EscrowThread.filedAt], fun _ _ he => by
        cases he <;> trivial⟩
  have h₀ : TablesAccounted K db ⟨db, starting calls readers inserts checks⟩ := by
    refine ⟨rfl, fun h _ id sn => ⟨[], ?_, by simp⟩, fun h' e he => (hstart _ he).2 h' e rfl⟩
    rw [List.filterMap_eq_nil_iff.2 fun t ht => (hstart t ht).1 h (id, sn)]
  exact (Interleaving.run_induction _ h₀ (fun _ _ _ _ _ h hi hn => h.step hi hn) sched).filed
    h hh id sn

/-- The filings under `(0, 1)` in the table of `created` after `bothKinds`. -/
theorem both_kinds_table_accounted :
    0 < MemoryDatabase.created.escrows.length ∧
      ∃ filed : List Nat, filed.Perm (bothKinds.threads.filterMap (filedAt specCore ⟨0⟩ (0, 1))) ∧
        (bothKinds.shared.escrow ⟨0⟩).sequenced.get 0 1 =
          (MemoryDatabase.created.escrow ⟨0⟩).sequenced.get 0 1 ++ filed :=
  ⟨by decide, tables_accounted_interleaved MemoryDatabase.created [(KelThread.inception, 0)] [0]
    [(⟨0⟩, 0, 1, MemoryEscrowDb.escrowed₁)] [(⟨0⟩, 0, 1, 11)]
    [0, 2, 0, 1, 2, 0, 3, 3, 0, 2, 3, 3, 0, 1, 3] ⟨0⟩ (by decide) 0 1⟩

end Tables

/-! ## Serial schedules -/

section Serial

variable [DecidableEq Nt]

/-- A write a thread makes on the whole database: a call of `add_kel_finalized_event`, or of
`insert_key_value` through a handle. -/
inductive Call (Id Ev Sig : Type) where
  | add_kel_finalized_event (event : SignedEventMessage Ev Sig) (id : Id)
  | insert_key_value (h : EscrowHandle) (id : Id) (sn : UInt64) (event : SignedEventMessage Ev Sig)

namespace Call

/-- The thread that makes the call, once it has returned `r`; `start` for one not yet started. -/
def thread (r : Option (Except Error Unit)) : Call Id Ev Sig → DbThread Id Dig Ev St Sig
  | add_kel_finalized_event e id => kel (.add e id (r.elim .start .returned))
  | insert_key_value h id sn e => escrow h (.insert_key_value id sn e (r.elim .start .returned))

/-- The number of sections the call runs. -/
def sections : Call Id Ev Sig → Nat
  | add_kel_finalized_event .. => 5
  | insert_key_value .. => 3

/-- The write of the database the call is. -/
def op : Call Id Ev Sig → MemoryDatabase.Op Id Dig Ev Sig Nt Seal
  | add_kel_finalized_event e id => .add_kel_finalized_event e id
  | insert_key_value h id sn e => .escrow h (.insert_key_value id sn e)

/-- What the call returns, made alone on `db`. -/
def result (db : MemoryDatabase Id Dig Ev St Sig Nt Seal) :
    Call Id Ev Sig → Except Error Unit
  | add_kel_finalized_event e id => (db.add_kel_finalized_event K e id).1
  | insert_key_value h id sn e => ((db.escrow h).insert_key_value K id sn e).1

end Call

/-- The calls made one after another from `db`: their results. -/
def results (db : MemoryDatabase Id Dig Ev St Sig Nt Seal) :
    List (Call Id Ev Sig) → List (Except Error Unit)
  | [] => []
  | call :: calls => call.result K db :: results (db.step K call.op) calls

/-- The schedule that runs the threads `k`, `k + 1`, ... one after another, each to its end. -/
def serial (k : Nat) : List (Call Id Ev Sig) → List Nat
  | [] => []
  | call :: calls => List.replicate call.sections k ++ serial (k + 1) calls

variable {K}

/-- **A call run alone is the database's write.** When the sections of a call run with no other
section between them, the database is the one the call's write leaves, and the thread has
returned what the call returns. -/
theorem run_call_alone {c : Interleaving (DbThread Id Dig Ev St Sig)
      (MemoryDatabase Id Dig Ev St Sig Nt Seal)} {i : Nat} {call : Call Id Ev Sig}
    (hi : c.threads[i]? = some (call.thread none)) :
    c.run (next K) (List.replicate call.sections i) =
      ⟨c.shared.step K call.op,
        c.threads.set i (call.thread (some (call.result K c.shared)))⟩ := by
  have hlen : i < c.threads.length := (List.getElem?_eq_some_iff.1 hi).1
  cases call with
  | add_kel_finalized_event e id =>
    cases happ : K.apply (c.shared.current_state K id) e.event_message with
    | error err =>
      simp [MemoryDatabase.add_kel_finalized_event_of_error happ, Call.thread, Call.sections,
        Call.op, Call.result, MemoryDatabase.step, List.replicate, Interleaving.step, hi, next,
        KelThread.next, happ, List.getElem?_set_self hlen]
    | ok new_state =>
      simp [MemoryDatabase.add_kel_finalized_event_of_ok happ, Call.thread, Call.sections,
        Call.op, Call.result, MemoryDatabase.step, List.replicate, Interleaving.step, hi, next,
        KelThread.next, happ, List.getElem?_set_self hlen,
        MemoryLogDatabase.log_event_internal_eq_sections]
  | insert_key_value h id sn e =>
    cases hd : K.digest e.event_message <;>
      simp [Call.thread, Call.sections, Call.op, Call.result, MemoryDatabase.step,
        MemoryDatabase.escrow_step_eq_set_escrow, MemoryEscrowDb.step,
        MemoryEscrowDb.insert_key_value, List.replicate, Interleaving.step, hi, next,
        EscrowThread.next, hd, List.getElem?_set_self hlen, MemoryDatabase.escrow_set_escrow,
        MemoryLogDatabase.log_event_internal_eq_sections]

theorem run_serial_append (done : List (DbThread Id Dig Ev St Sig))
    (db : MemoryDatabase Id Dig Ev St Sig Nt Seal) (calls : List (Call Id Ev Sig)) :
    (Interleaving.mk db (done ++ calls.map (Call.thread none))).run (next K)
        (serial done.length calls) =
      ⟨db.run K (calls.map Call.op),
        done ++ List.zipWith (fun call r => call.thread (some r)) calls (results K db calls)⟩ := by
  induction calls generalizing done db with
  | nil => simp [serial, results, MemoryDatabase.run]
  | cons call calls ih =>
    have hi : (Interleaving.mk db (done ++ (call :: calls).map (Call.thread none))).threads[
        done.length]? = some (call.thread none) := by
      simp [List.getElem?_append_right (le_refl _)]
    rw [serial, Interleaving.run_append, run_call_alone hi]
    have h := ih (done ++ [call.thread (some (call.result K db))]) (db.step K call.op)
    simp only [List.length_append, List.length_singleton, List.append_assoc,
      List.singleton_append] at h
    simpa [List.set_append_right, results, MemoryDatabase.run] using h

/-- **Serial schedules refine the sequential database.** Calls of `add_kel_finalized_event` and
of `insert_key_value` through handles, whose sections run one call after another, leave the
database the writes made one after another in the same order leave, and each call returns what
it returns made alone at its turn. -/
theorem run_serial_writes (db : MemoryDatabase Id Dig Ev St Sig Nt Seal)
    (calls : List (Call Id Ev Sig)) :
    (Interleaving.mk db (calls.map (Call.thread none))).run (next K) (serial 0 calls) =
      ⟨db.run K (calls.map Call.op),
        List.zipWith (fun call r => call.thread (some r)) calls (results K db calls)⟩ :=
  run_serial_append [] db calls

end Serial

end DbThread

end Keriox
