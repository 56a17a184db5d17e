import Keriox.Concurrency.Kel
import Keriox.Concurrency.Escrow

/-!
# What concurrent writers keep

`Keriox.Concurrency.Kel` shows that two calls of `add_kel_finalized_event` on one identifier are
not linearizable, and `Keriox.Concurrency.Escrow` that an escrow's index runs ahead of its log.
This module collects what every interleaving does keep.

Each call of `add_kel_finalized_event` writes the key state and the KEL of its own identifier
and nothing else of them; the log it writes is keyed by digest. Calls on distinct identifiers
therefore do not see each other: each returns what it returns alone, and leaves its identifier
as it would alone, whatever the schedule. The log is written before the KEL, and no section
removes a key of the log, so every event a KEL holds, and every event a reader has read from a
KEL, can be fetched from the log by its digest.

On an escrow, an insert files its digest in one section and logs its event in the next ones.
Under every schedule of inserts and readers, the index under each key is what it held followed,
in some order, by the digests of the inserts that have filed there, each once: no filing is lost
or repeated. An insert that has returned `Ok` has its event's digest in the log.

An insert logs its event in one section and the event's signatures in the next. When the inserts
of events with one digest insert one signed event, the log stays coherent under every digest no
insert is between those two sections on. Two copies of one event signed apart can interleave so
that the log holds one copy's event and the other copy's signatures, with neither insert left
between its sections.

## Main definitions

* `KelThread.writes`: the identifier whose key state and KEL a thread writes
* `KelThread.AsAlone`: what a call has done to its identifier, against what it does alone
* `KelThread.LogHeld`: what a call or a reader holds of the log
* `EscrowThread.filedAt`: the digest an insert has filed under a key
* `EscrowThread.CopiesLogged`: what inserts that agree keep of the log

## Main results

* `KelThread.next_footprint`: a section leaves the key state and KEL of every other identifier
* `KelThread.add_kel_finalized_event_disjoint`: calls on distinct identifiers each behave as if
  alone, under every schedule
* `KelThread.kel_events_logged`: every event of a KEL, and every event a reader has read from a
  KEL, is in the log, under every schedule
* `EscrowThread.insert_key_value_accounted`: the index holds each filing once, under every
  schedule of inserts and readers
* `EscrowThread.insert_key_value_log_coherent`: inserts that agree keep the log coherent, under
  every schedule
* `EscrowThread.insert_key_value_copies_mix`: copies signed apart can leave the log incoherent
-/

namespace Keriox

namespace KelThread

variable {Id Dig Ev St Sig Nt Seal : Type} [DecidableEq Id] [DecidableEq Dig]
variable (K : KeriCore Id Dig Ev St)

/-! ## Calls on distinct identifiers -/

section Disjoint

/-- The identifier whose key state and KEL a thread writes: a call's own; a reader writes none. -/
def writes : KelThread Id Ev St Sig → Option Id
  | add _ id _ => some id
  | read _ _ => none

/-- What a call has done to its identifier's key state and KEL, against the database `db` it
started on: nothing before it writes the key state; from then until its push, the key state
`apply` gave, with the KEL as it was; and once it has returned, what `add_kel_finalized_event`
does alone on `db`, its result included. -/
def AsAlone (db cur : MemoryDatabase Id Dig Ev St Sig Nt Seal) : KelThread Id Ev St Sig → Prop
  | add _ id .start => cur.states.get id = db.states.get id ∧ cur.events.get id = db.events.get id
  | add event id (.applied new_state) =>
    (cur.states.get id = db.states.get id ∧ cur.events.get id = db.events.get id) ∧
      K.apply (db.current_state K id) event.event_message = .ok new_state
  | add event id .state_written | add event id .event_logged | add event id .logged =>
    ∃ new_state, K.apply (db.current_state K id) event.event_message = .ok new_state ∧
      cur.states.get id = some new_state ∧ cur.events.get id = db.events.get id
  | add event id (.returned r) =>
    r = (db.add_kel_finalized_event K event id).1 ∧
      cur.states.get id = (db.add_kel_finalized_event K event id).2.states.get id ∧
      cur.events.get id = (db.add_kel_finalized_event K event id).2.events.get id
  | read _ _ => True

/-- While calls on distinct identifiers run: no two threads write one identifier, and each call
has done to its identifier what `AsAlone` says. -/
structure Disjoint (db : MemoryDatabase Id Dig Ev St Sig Nt Seal)
    (c : Interleaving (KelThread Id Ev St Sig) (MemoryDatabase Id Dig Ev St Sig Nt Seal)) :
    Prop where
  distinct : ∀ (i j : Nat) (id : Id), c.threads[i]?.bind writes = some id →
    c.threads[j]?.bind writes = some id → i = j
  as_alone : ∀ t ∈ c.threads, AsAlone K db c.shared t

variable {K}
variable {db cur cur' : MemoryDatabase Id Dig Ev St Sig Nt Seal} {t t' : KelThread Id Ev St Sig}

/-- **A section writes its own identifier only.** After any section, the key state and the KEL
of every identifier but the one the thread writes are what they were, and the thread still
writes the same identifier. -/
theorem next_footprint (h : next K t cur = some (t', cur')) :
    t'.writes = t.writes ∧ ∀ id, t.writes ≠ some id →
      cur'.states.get id = cur.states.get id ∧ cur'.events.get id = cur.events.get id := by
  rcases t with ⟨event, id', _ | new_state | _ | _ | _ | r⟩ | ⟨id', _ | state | ⟨state, kel⟩⟩ <;>
    simp only [next, Option.some.injEq, Prod.mk.injEq, reduceCtorEq] at h
  case start =>
    split at h <;> obtain ⟨rfl, rfl⟩ := h <;> exact ⟨rfl, fun _ _ => ⟨rfl, rfl⟩⟩
  case applied =>
    obtain ⟨rfl, rfl⟩ := h
    exact ⟨rfl, fun id hid => ⟨by simp [Ne.symm (Option.some_injective _ |>.ne_iff.1 hid)], rfl⟩⟩
  case logged =>
    obtain ⟨rfl, rfl⟩ := h
    exact ⟨rfl, fun id hid => ⟨rfl, by simp [Ne.symm (Option.some_injective _ |>.ne_iff.1 hid)]⟩⟩
  all_goals obtain ⟨rfl, rfl⟩ := h; exact ⟨rfl, fun _ _ => ⟨rfl, rfl⟩⟩

/-- What a call has done to its identifier depends on its identifier's key state and KEL
alone. -/
theorem AsAlone.frame (h : AsAlone K db cur t)
    (hkeep : ∀ id, t.writes = some id →
      cur'.states.get id = cur.states.get id ∧ cur'.events.get id = cur.events.get id) :
    AsAlone K db cur' t := by
  rcases t with ⟨event, id, pc⟩ | _
  · obtain ⟨hs, he⟩ := hkeep id rfl
    cases pc <;> simp only [AsAlone, hs, he] at h ⊢ <;> exact h
  · trivial

/-- A call's section keeps what `AsAlone` says of it. -/
theorem AsAlone.next (h : AsAlone K db cur t) (hn : next K t cur = some (t', cur')) :
    AsAlone K db cur' t' := by
  rcases t with ⟨event, id, _ | new_state | _ | _ | _ | r⟩ | ⟨id, pc⟩
  · -- `apply`, on the key state `db` has
    have hcur : cur.current_state K id = db.current_state K id := by
      simp only [MemoryDatabase.current_state, h.1]
    simp only [next, hcur] at hn
    split at hn <;> obtain ⟨rfl, rfl⟩ := Prod.mk.inj (Option.some.inj hn)
    · rw [AsAlone, MemoryDatabase.add_kel_finalized_event_of_error ‹_›]
      exact ⟨rfl, h⟩
    · exact ⟨h, ‹_›⟩
  · -- the key state is written
    obtain ⟨rfl, rfl⟩ := Prod.mk.inj (Option.some.inj hn)
    exact ⟨new_state, h.2, by simp, h.1.2⟩
  · obtain ⟨rfl, rfl⟩ := Prod.mk.inj (Option.some.inj hn); exact h
  · obtain ⟨rfl, rfl⟩ := Prod.mk.inj (Option.some.inj hn); exact h
  · -- the event is pushed, and the call returns
    obtain ⟨rfl, rfl⟩ := Prod.mk.inj (Option.some.inj hn)
    obtain ⟨new_state, happ, hs, he⟩ := h
    rw [AsAlone, MemoryDatabase.add_kel_finalized_event_of_ok happ]
    simp [hs, he]
  · cases hn
  · cases pc with
    | returned => cases hn
    | _ => obtain ⟨rfl, rfl⟩ := Prod.mk.inj (Option.some.inj hn); trivial

omit [DecidableEq Id] [DecidableEq Dig] in
/-- A thread that keeps the identifier it writes keeps who writes what. -/
theorem bind_writes_set {ts : List (KelThread Id Ev St Sig)} {i : Nat}
    {l l' : KelThread Id Ev St Sig}
    (hi : ts[i]? = some l) (hw : l'.writes = l.writes) (j : Nat) :
    (ts.set i l')[j]?.bind writes = ts[j]?.bind writes := by
  rcases eq_or_ne i j with rfl | hij
  · rw [List.getElem?_set_self (List.getElem?_eq_some_iff.1 hi).1, hi]; exact hw
  · rw [List.getElem?_set_ne hij]

theorem Disjoint.step
    {c : Interleaving (KelThread Id Ev St Sig) (MemoryDatabase Id Dig Ev St Sig Nt Seal)} {i : Nat}
    {l l' : KelThread Id Ev St Sig} {s' : MemoryDatabase Id Dig Ev St Sig Nt Seal}
    (h : Disjoint K db c) (hi : c.threads[i]? = some l) (hn : next K l c.shared = some (l', s')) :
    Disjoint K db ⟨s', c.threads.set i l'⟩ := by
  obtain ⟨hw, hkeep⟩ := next_footprint hn
  have hset := bind_writes_set hi hw
  refine ⟨fun j k id hj hk => h.distinct j k id (hset j ▸ hj) (hset k ▸ hk), fun t ht => ?_⟩
  obtain ⟨j, hj⟩ := List.mem_iff_getElem?.1 ht
  rcases eq_or_ne i j with rfl | hij
  · rw [List.getElem?_set_self (List.getElem?_eq_some_iff.1 hi).1] at hj
    cases hj
    exact (h.as_alone l (List.getElem?_mem hi)).next hn
  · rw [List.getElem?_set_ne hij] at hj
    refine (h.as_alone t (List.getElem?_mem hj)).frame fun id hid => hkeep id fun hl => hij ?_
    exact h.distinct i j id (by rw [hi]; exact hl) (by rw [hj]; exact hid)

variable (K)

omit [DecidableEq Id] [DecidableEq Dig] in
/-- The calls write their own identifiers, in order, and the readers none. -/
theorem bind_writes_started (calls : List (SignedEventMessage Ev Sig × Id)) (readers : List Id)
    (i : Nat) :
    (adding calls ++ readers.map fun r => read r .start : List (KelThread Id Ev St Sig))[i]?.bind
      writes = (calls.map Prod.snd)[i]? := by
  rcases lt_or_le i calls.length with hi | hi
  · rw [List.getElem?_append_left (by simpa [adding] using hi)]
    simp [adding, hi, writes]
  · rw [List.getElem?_append_right (by simpa [adding] using hi)]
    simp only [List.getElem?_map, List.getElem?_eq_none (by simpa using hi)]
    cases readers[i - (adding calls).length]? <;> rfl

/-- **Calls on distinct identifiers are linearizable.** Under every schedule of calls of
`add_kel_finalized_event` on pairwise distinct identifiers, started together on a database with
any readers, a call that has returned has returned what it returns alone on that database, and
its identifier has the key state and the KEL the call leaves alone: calls on distinct
identifiers never disturb one another. -/
theorem add_kel_finalized_event_disjoint (db : MemoryDatabase Id Dig Ev St Sig Nt Seal)
    (calls : List (SignedEventMessage Ev Sig × Id)) (hids : (calls.map Prod.snd).Nodup)
    (readers : List Id) (sched : List Nat) :
    let c := (concurrently db (adding calls ++ readers.map fun r => read r .start)).run (next K)
      sched
    ∀ event id r, add event id (.returned r) ∈ c.threads →
      r = (db.add_kel_finalized_event K event id).1 ∧
        c.shared.get_key_state id = (db.add_kel_finalized_event K event id).2.get_key_state id ∧
        c.shared.get_kel_finalized_events K (.All id) =
          (db.add_kel_finalized_event K event id).2.get_kel_finalized_events K (.All id) := by
  intro c event id r hr
  have h₀ :
      Disjoint K db (concurrently db (adding calls ++ readers.map fun r => read r .start)) := by
    refine ⟨fun i j id hi hj => ?_, fun t ht => ?_⟩
    · simp only [concurrently, bind_writes_started] at hi hj
      exact List.getElem?_inj (List.getElem?_eq_some_iff.1 hi).1 hids (hi.trans hj.symm)
    · simp only [concurrently, adding, List.mem_append, List.mem_map] at ht
      rcases ht with ⟨_, -, rfl⟩ | ⟨_, -, rfl⟩
      exacts [⟨rfl, rfl⟩, trivial]
  exact (Interleaving.run_induction _ h₀ (fun _ _ _ _ _ h hi hn => h.step hi hn) sched).as_alone
    _ hr

end Disjoint

/-- An inception of identifier `1`, with digest `9`. -/
def inception₁ : SignedEventMessage KeyEvent Nat := ⟨⟨1, 0, .inception, none, some 9⟩, []⟩

/-- The inceptions of identifiers `0` and `1`, their sections alternating, and then a reader of
`0`. -/
def inceptionsAlternating :
    Interleaving (KelThread Nat KeyEvent IdentifierState Nat)
      (MemoryDatabase Nat Nat KeyEvent IdentifierState Nat Nat Nat) :=
  (concurrently .new
    (adding [(inception, 0), (inception₁, 1)] ++ [0].map fun r => read r .start)).run
    (next specCore) [0, 1, 0, 1, 0, 1, 0, 1, 0, 1, 2, 2]

theorem inceptions_alternating_as_alone :
    ([(inception, 0), (inception₁, 1)].map Prod.snd).Nodup ∧
      add inception₁ 1 (.returned (.ok ())) ∈ inceptionsAlternating.threads ∧
      inceptionsAlternating.shared.get_kel_finalized_events specCore (.All 1) =
        ((MemoryDatabase.new : MemoryDatabase Nat Nat KeyEvent IdentifierState Nat Nat Nat
          ).add_kel_finalized_event specCore inception₁ 1).2.get_kel_finalized_events specCore
          (.All 1) :=
  have hids : ([(inception, 0), (inception₁, 1)].map Prod.snd).Nodup := by decide
  have hr : add inception₁ 1 (.returned (.ok ())) ∈ inceptionsAlternating.threads := by decide
  ⟨hids, hr, (add_kel_finalized_event_disjoint specCore .new _ hids [0]
    [0, 1, 0, 1, 0, 1, 0, 1, 0, 1, 2, 2] inception₁ 1 _ hr).2.2⟩

/-! ## The log under the KELs -/

section Logged

/-- What a thread holds of the log: a call that has logged its event, and not yet pushed it, finds
its digest a key of the log; a reader finds so every event it has read from a KEL. -/
def LogHeld (db : MemoryDatabase Id Dig Ev St Sig Nt Seal) : KelThread Id Ev St Sig → Prop
  | add event _ .event_logged | add event _ .logged =>
    ∀ d, K.digest event.event_message = .ok d → (db.log_db.get_signed_event d).isSome
  | read _ (.returned _ kel) =>
    ∀ e ∈ kel.getD [], ∀ d, K.digest e.event_message = .ok d →
      (db.log_db.get_signed_event d).isSome
  | _ => True

variable {K}
variable {cur cur' : MemoryDatabase Id Dig Ev St Sig Nt Seal} {t t' : KelThread Id Ev St Sig}

/-- No section drops a key of the log. -/
theorem next_log_grows (h : next K t cur = some (t', cur')) (d : Dig)
    (hd : (cur.log_db.get_signed_event d).isSome) : (cur'.log_db.get_signed_event d).isSome := by
  rcases t with ⟨event, id', _ | new_state | _ | _ | _ | r⟩ | ⟨id', _ | state | ⟨state, kel⟩⟩ <;>
    simp only [next, Option.some.injEq, Prod.mk.injEq, reduceCtorEq] at h
  case start => split at h <;> obtain ⟨rfl, rfl⟩ := h <;> exact hd
  case state_written => obtain ⟨rfl, rfl⟩ := h; exact EscrowThread.isSome_insert_event hd
  case event_logged =>
    obtain ⟨rfl, rfl⟩ := h; rwa [EscrowThread.get_signed_event_insert_signatures]
  all_goals obtain ⟨rfl, rfl⟩ := h; exact hd

omit [DecidableEq Id] in
theorem LogHeld.grow (h : LogHeld K cur t)
    (hg : ∀ d, (cur.log_db.get_signed_event d).isSome → (cur'.log_db.get_signed_event d).isSome) :
    LogHeld K cur' t := by
  rcases t with ⟨event, id, _ | _ | _ | _ | _ | _⟩ | ⟨id, _ | _ | ⟨_, kel⟩⟩ <;> try trivial
  · exact fun d hd => hg d (h d hd)
  · exact fun d hd => hg d (h d hd)
  · exact fun e he d hd => hg d (h e he d hd)

/-- A section keeps the KELs in the log, and the thread holds what `LogHeld` says: a call logs its
event before it pushes it, and a reader reads a KEL that is in the log. -/
theorem kelLogged_next (h : cur.KelLogged K) (ht : LogHeld K cur t)
    (hn : next K t cur = some (t', cur')) : cur'.KelLogged K ∧ LogHeld K cur' t' := by
  rcases t with ⟨event, id, _ | new_state | _ | _ | _ | r⟩ | ⟨id, _ | state | ⟨state, kel⟩⟩ <;>
    simp only [next, Option.some.injEq, Prod.mk.injEq, reduceCtorEq] at hn
  case start => split at hn <;> obtain ⟨rfl, rfl⟩ := hn <;> exact ⟨h, trivial⟩
  case applied => obtain ⟨rfl, rfl⟩ := hn; exact ⟨h, trivial⟩
  case state_written =>
    -- the event is logged under its digest
    obtain ⟨rfl, rfl⟩ := hn
    refine ⟨fun id e d he hd => EscrowThread.isSome_insert_event (h id e d he hd), fun d hd => ?_⟩
    simp [MemoryLogDatabase.get_signed_event_insert_event, hd]
  case event_logged =>
    obtain ⟨rfl, rfl⟩ := hn
    simp only [MemoryDatabase.KelLogged, LogHeld, EscrowThread.get_signed_event_insert_signatures]
    exact ⟨h, ht⟩
  case logged =>
    -- the event is pushed, its digest already a key of the log
    obtain ⟨rfl, rfl⟩ := hn
    refine ⟨fun id' e d he hd => ?_, trivial⟩
    rcases HashMap.mem_getD_push.1 he with he | ⟨-, rfl⟩
    exacts [h id' e d he hd, ht d hd]
  case read.start => obtain ⟨rfl, rfl⟩ := hn; exact ⟨h, trivial⟩
  case read.state_read =>
    -- the reader reads a KEL of the database
    obtain ⟨rfl, rfl⟩ := hn
    exact ⟨h, fun e he d hd => h id e d he hd⟩

/-- **Every event read from a KEL is in the log.** Under every schedule of any calls of
`add_kel_finalized_event` and readers, started together on a database whose KEL events are in its
log, every event of every KEL has its digest as a key of the log, and so has every event a reader
has read from a KEL: a call logs its event before it pushes it, and no section drops a key of the
log. -/
theorem kel_events_logged {db : MemoryDatabase Id Dig Ev St Sig Nt Seal} (hdb : db.KelLogged K)
    (calls : List (SignedEventMessage Ev Sig × Id)) (readers : List Id) (sched : List Nat) :
    let c := (concurrently db (adding calls ++ readers.map fun r => read r .start)).run (next K)
      sched
    c.shared.KelLogged K ∧ ∀ id state kel, read id (.returned state kel) ∈ c.threads →
      ∀ e ∈ kel.getD [], ∀ d, K.digest e.event_message = .ok d →
        (c.shared.log_db.get_signed_event d).isSome := by
  have h₀ : db.KelLogged K ∧ ∀ t ∈ adding calls ++ readers.map fun r => read r .start,
      LogHeld K db t := by
    refine ⟨hdb, fun t ht => ?_⟩
    simp only [adding, List.mem_append, List.mem_map] at ht
    rcases ht with ⟨_, -, rfl⟩ | ⟨_, -, rfl⟩ <;> trivial
  obtain ⟨hkel, hthreads⟩ := Interleaving.run_induction
    (fun c : Interleaving (KelThread Id Ev St Sig) (MemoryDatabase Id Dig Ev St Sig Nt Seal) =>
      c.shared.KelLogged K ∧ ∀ t ∈ c.threads, LogHeld K c.shared t)
    (c := concurrently db (adding calls ++ readers.map fun r => read r .start)) h₀
    (fun c i l l' s' ⟨h, ht⟩ hi hn => by
      obtain ⟨h', hl'⟩ := kelLogged_next h (ht l (List.getElem?_mem hi)) hn
      refine ⟨h', fun t hm => ?_⟩
      rcases Interleaving.mem_of_mem_set hm with rfl | hm
      exacts [hl', (ht t hm).grow (next_log_grows hn)]) sched
  exact ⟨hkel, fun id state kel hm => hthreads _ hm⟩

end Logged

/-- The inception's call and a reader of `0` that reads the key state inside the call's window
and the KEL after the push. -/
def readAroundInception :
    Interleaving (KelThread Nat KeyEvent IdentifierState Nat)
      (MemoryDatabase Nat Nat KeyEvent IdentifierState Nat Nat Nat) :=
  (concurrently .new (adding [(inception, 0)] ++ [0].map fun r => read r .start)).run
    (next specCore) [0, 0, 1, 0, 0, 0, 1]

theorem inception_read_logged :
    (MemoryDatabase.new : MemoryDatabase Nat Nat KeyEvent IdentifierState Nat Nat Nat).KelLogged
        specCore ∧
      readAroundInception.shared.KelLogged specCore :=
  ⟨MemoryDatabase.kelLogged_new,
    (kel_events_logged MemoryDatabase.kelLogged_new [(inception, 0)] [0]
      [0, 0, 1, 0, 0, 0, 1]).1⟩

end KelThread

/-! ## Inserts into one escrow -/

namespace EscrowThread

variable {Id Dig Ev St Sig Nt Seal : Type} [DecidableEq Id] [DecidableEq Dig]
variable (K : KeriCore Id Dig Ev St)

section Filed

/-- The digest an insert has filed under `key`: none before its index write, and from then on its
event's digest, when `key` is the insert's key. -/
def filedAt (key : Id × UInt64) : EscrowThread Id Dig Ev Sig → Option Dig
  | insert_key_value id sn _ (.indexed d) | insert_key_value id sn _ (.event_logged d) =>
    if (id, sn) = key then some d else none
  | insert_key_value id sn event (.returned (.ok ())) =>
    if (id, sn) = key then (K.digest event.event_message).toOption else none
  | _ => none

/-- What an insert has written: the digest it holds is its event's, and from its log write on,
that digest is a key of the log. -/
def Wrote (db : MemoryEscrowDb Id Dig Ev Sig Nt Seal) : EscrowThread Id Dig Ev Sig → Prop
  | insert_key_value _ _ event (.indexed d) => K.digest event.event_message = .ok d
  | insert_key_value _ _ event (.event_logged d) =>
    K.digest event.event_message = .ok d ∧ (db.log.get_signed_event d).isSome
  | insert_key_value _ _ event (.returned (.ok ())) =>
    ∃ d, K.digest event.event_message = .ok d ∧ (db.log.get_signed_event d).isSome
  | _ => True

/-- Under each key, the index holds what it held in `db` followed, in some order, by the digests
the inserts have filed there. -/
def Accounted (db : MemoryEscrowDb Id Dig Ev Sig Nt Seal)
    (c : Interleaving (EscrowThread Id Dig Ev Sig) (MemoryEscrowDb Id Dig Ev Sig Nt Seal)) :
    Prop :=
  ∀ id sn, ∃ filed : List Dig, filed.Perm (c.threads.filterMap (filedAt K (id, sn))) ∧
    c.shared.sequenced.get id sn = db.sequenced.get id sn ++ filed

variable {K}
variable {cur cur' : MemoryEscrowDb Id Dig Ev Sig Nt Seal} {t t' : EscrowThread Id Dig Ev Sig}

/-- What a section does to the index: an insert's index write files its event's digest under its
key; every other section leaves the index and what each thread has filed. -/
theorem next_filed (hw : Wrote K cur t) (h : next K t cur = some (t', cur')) :
    (cur'.sequenced = cur.sequenced ∧ ∀ key, filedAt K key t' = filedAt K key t) ∨
      ∃ id sn event d, t = insert_key_value id sn event .start ∧
        t' = insert_key_value id sn event (.indexed d) ∧
        cur'.sequenced = cur.sequenced.insert id sn d := by
  rcases t with ⟨id, sn, event, _ | d | d | r⟩ | ⟨id, sn, d, _ | _ | ⟨_ | ⟨d', ds⟩, looked⟩ | _⟩ <;>
    simp only [next, Option.some.injEq, Prod.mk.injEq, reduceCtorEq] at h
  case start =>
    split at h <;> obtain ⟨rfl, rfl⟩ := h
    · exact .inl ⟨rfl, fun _ => rfl⟩
    · exact .inr ⟨id, sn, event, _, rfl, rfl, rfl⟩
  case event_logged =>
    obtain ⟨rfl, rfl⟩ := h
    exact .inl ⟨rfl, fun key => by simp [filedAt, hw.1, Except.toOption]⟩
  case contains_get.start =>
    split at h <;> obtain ⟨rfl, rfl⟩ := h <;> exact .inl ⟨rfl, fun _ => rfl⟩
  all_goals obtain ⟨rfl, rfl⟩ := h; exact .inl ⟨rfl, fun _ => rfl⟩

/-- No section drops a key of the log. -/
theorem next_log_grows (h : next K t cur = some (t', cur')) (d : Dig)
    (hd : (cur.log.get_signed_event d).isSome) : (cur'.log.get_signed_event d).isSome := by
  rcases t with ⟨id, sn, event, _ | d | d | r⟩ | ⟨id, sn, d, _ | _ | ⟨_ | ⟨d', ds⟩, looked⟩ | _⟩ <;>
    simp only [next, Option.some.injEq, Prod.mk.injEq, reduceCtorEq] at h
  case start => split at h <;> obtain ⟨rfl, rfl⟩ := h <;> exact hd
  case indexed => obtain ⟨rfl, rfl⟩ := h; exact isSome_insert_event hd
  case event_logged => obtain ⟨rfl, rfl⟩ := h; rwa [get_signed_event_insert_signatures]
  case contains_get.start => split at h <;> obtain ⟨rfl, rfl⟩ := h <;> exact hd
  all_goals obtain ⟨rfl, rfl⟩ := h; exact hd

omit [DecidableEq Id] in
theorem Wrote.grow (h : Wrote K cur t)
    (hg : ∀ d, (cur.log.get_signed_event d).isSome → (cur'.log.get_signed_event d).isSome) :
    Wrote K cur' t := by
  rcases t with ⟨id, sn, event, _ | d | d | _ | _⟩ | _ <;> try exact h
  · exact ⟨h.1, hg d h.2⟩
  · obtain ⟨d, hd, hlog⟩ := h; exact ⟨d, hd, hg d hlog⟩

/-- An insert's section keeps what `Wrote` says of it: it logs the digest it filed. -/
theorem Wrote.next (h : Wrote K cur t) (hn : next K t cur = some (t', cur')) :
    Wrote K cur' t' := by
  rcases t with ⟨id, sn, event, _ | d | d | r⟩ | ⟨id, sn, d, _ | _ | ⟨_ | ⟨d', ds⟩, looked⟩ | _⟩ <;>
    simp only [next, Option.some.injEq, Prod.mk.injEq, reduceCtorEq] at hn
  case start => split at hn <;> obtain ⟨rfl, rfl⟩ := hn; exacts [trivial, ‹_›]
  case indexed =>
    obtain ⟨rfl, rfl⟩ := hn
    have hd : K.digest event.event_message = .ok d := h
    exact ⟨hd, by simp [MemoryLogDatabase.get_signed_event_insert_event, hd]⟩
  case event_logged =>
    obtain ⟨rfl, rfl⟩ := hn
    exact ⟨d, h.1, by rw [get_signed_event_insert_signatures]; exact h.2⟩
  case contains_get.start => split at hn <;> obtain ⟨rfl, rfl⟩ := hn <;> trivial
  all_goals obtain ⟨rfl, rfl⟩ := hn; trivial

theorem Accounted.step {db : MemoryEscrowDb Id Dig Ev Sig Nt Seal}
    {c : Interleaving (EscrowThread Id Dig Ev Sig) (MemoryEscrowDb Id Dig Ev Sig Nt Seal)} {i : Nat}
    {l l' : EscrowThread Id Dig Ev Sig} {s' : MemoryEscrowDb Id Dig Ev Sig Nt Seal}
    (h : Accounted K db c) (hw : Wrote K c.shared l) (hi : c.threads[i]? = some l)
    (hn : next K l c.shared = some (l', s')) : Accounted K db ⟨s', c.threads.set i l'⟩ := by
  intro id sn
  obtain ⟨filed, hperm, hidx⟩ := h id sn
  refine Interleaving.filed_set (filedAt K (id, sn)) hi l' hperm hidx ?_
  rcases next_filed hw hn with ⟨hseq, hsame⟩ | ⟨id', sn', event, d, rfl, rfl, hseq⟩
  · exact .inl ⟨by rw [hseq], hsame _⟩
  · rw [hseq, MemorySequencedEventDb.get_insert]
    by_cases hk : (id', sn') = (id, sn)
    · obtain ⟨rfl, rfl⟩ := Prod.mk.inj hk
      exact .inr ⟨d, rfl, by simp [filedAt], by simp⟩
    · exact .inl ⟨if_neg (Ne.symm hk), by simp [filedAt, hk]⟩

/-- **No filing is lost or repeated.** Under every schedule of inserts and of readers that call
`contains` and then `get` on one escrow, the index under each key holds what it held followed,
in some order, by the digest of each insert that has filed there, once; and an insert that has
returned `Ok` has its event's digest as a key of the log. -/
theorem insert_key_value_accounted (db : MemoryEscrowDb Id Dig Ev Sig Nt Seal)
    (inserts : List (Id × UInt64 × SignedEventMessage Ev Sig))
    (checks : List (Id × UInt64 × Dig)) (sched : List Nat) :
    let c := (concurrently db (inserting inserts ++ checking checks)).run (next K) sched
    (∀ id sn, ∃ filed : List Dig, filed.Perm (c.threads.filterMap (filedAt K (id, sn))) ∧
      c.shared.sequenced.get id sn = db.sequenced.get id sn ++ filed) ∧
    ∀ id sn event, insert_key_value id sn event (.returned (.ok ())) ∈ c.threads →
      ∃ d, K.digest event.event_message = .ok d ∧ (c.shared.log.get_signed_event d).isSome := by
  have hstart : ∀ t ∈ inserting inserts ++ checking checks,
      (∀ key, filedAt K key (t : EscrowThread Id Dig Ev Sig) = none) ∧ Wrote K db t := by
    intro t ht
    simp only [inserting, checking, List.mem_append, List.mem_map] at ht
    rcases ht with ⟨_, -, rfl⟩ | ⟨_, -, rfl⟩ <;> exact ⟨fun _ => rfl, trivial⟩
  have h₀ : Accounted K db (concurrently db (inserting inserts ++ checking checks)) ∧
      ∀ t ∈ inserting inserts ++ checking checks, Wrote K db t := by
    refine ⟨fun id sn => ⟨[], ?_, by simp [concurrently]⟩, fun t ht => (hstart t ht).2⟩
    rw [concurrently, List.filterMap_eq_nil_iff.2 fun t ht => (hstart t ht).1 (id, sn)]
  obtain ⟨hacc, hw⟩ := Interleaving.run_induction
    (fun c : Interleaving (EscrowThread Id Dig Ev Sig) (MemoryEscrowDb Id Dig Ev Sig Nt Seal) =>
      Accounted K db c ∧ ∀ t ∈ c.threads, Wrote K c.shared t)
    (c := concurrently db (inserting inserts ++ checking checks)) h₀
    (fun c i l l' s' ⟨h, hw⟩ hi hn => by
      have hl := hw l (List.getElem?_mem hi)
      refine ⟨h.step hl hi hn, fun t hm => ?_⟩
      rcases Interleaving.mem_of_mem_set hm with rfl | hm
      exacts [hl.next hn, (hw t hm).grow (next_log_grows hn)]) sched
  exact ⟨hacc, fun id sn event hm => hw _ hm⟩

end Filed

/-! ## Copies of one event logged together -/

section Copies

/-- The event an insert logs; a reader logs none. -/
def insertEvent : EscrowThread Id Dig Ev Sig → Option (SignedEventMessage Ev Sig)
  | insert_key_value _ _ event _ => some event
  | contains_get .. => none

/-- The inserts that log events with one digest log one signed event. -/
def Agree (ts : List (EscrowThread Id Dig Ev Sig)) : Prop :=
  ∀ t₁ ∈ ts, ∀ t₂ ∈ ts, ∀ e₁ e₂ d, t₁.insertEvent = some e₁ → t₂.insertEvent = some e₂ →
    K.digest e₁.event_message = .ok d → K.digest e₂.event_message = .ok d → e₁ = e₂

/-- An insert has logged its event under `d`, and not yet its signatures. -/
def Logging (ts : List (EscrowThread Id Dig Ev Sig)) (d : Dig) : Prop :=
  ∃ id sn event, insert_key_value id sn event (.event_logged d) ∈ ts

/-- What inserts that agree keep of the log: each event sits under its digest, an insert between
its two log writes finds its own event under its digest, and every other digest holds the
signatures of the event under it. -/
structure CopiesLogged
    (c : Interleaving (EscrowThread Id Dig Ev Sig) (MemoryEscrowDb Id Dig Ev Sig Nt Seal)) :
    Prop where
  agree : Agree K c.threads
  wrote : ∀ t ∈ c.threads, Wrote K c.shared t
  digest_eq : ∀ d e, c.shared.log.get_signed_event d = some e → K.digest e.event_message = .ok d
  logging : ∀ id sn event d, insert_key_value id sn event (.event_logged d) ∈ c.threads →
    c.shared.log.get_signed_event d = some event
  signatures_eq : ∀ d, ¬Logging c.threads d →
    c.shared.log.get_signatures d = (c.shared.log.get_signed_event d).map (·.signatures)

variable {K}
variable {cur cur' : MemoryEscrowDb Id Dig Ev Sig Nt Seal} {t t' : EscrowThread Id Dig Ev Sig}

/-- **What a section does to the log**: nothing, and the thread is between its two log writes
neither before nor after; or an insert's first log write, the event; or its second, the
signatures. -/
theorem next_log_cases (h : next K t cur = some (t', cur')) :
    (cur'.log = cur.log ∧ (∀ id sn e d, t ≠ insert_key_value id sn e (.event_logged d)) ∧
        ∀ id sn e d, t' ≠ insert_key_value id sn e (.event_logged d)) ∨
      (∃ id sn e d, t = insert_key_value id sn e (.indexed d) ∧
        t' = insert_key_value id sn e (.event_logged d) ∧ cur'.log = cur.log.insert_event K e) ∨
      ∃ id sn e d, t = insert_key_value id sn e (.event_logged d) ∧
        t' = insert_key_value id sn e (.returned (.ok ())) ∧
        cur'.log = cur.log.insert_signatures K e := by
  rcases t with ⟨id, sn, event, _ | d | d | r⟩ | ⟨id, sn, d, _ | _ | ⟨_ | ⟨d', ds⟩, looked⟩ | _⟩ <;>
    simp only [next, Option.some.injEq, Prod.mk.injEq, reduceCtorEq] at h
  case indexed => obtain ⟨rfl, rfl⟩ := h; exact .inr (.inl ⟨id, sn, event, d, rfl, rfl, rfl⟩)
  case event_logged =>
    obtain ⟨rfl, rfl⟩ := h; exact .inr (.inr ⟨id, sn, event, d, rfl, rfl, rfl⟩)
  case start => split at h <;> obtain ⟨rfl, rfl⟩ := h <;> exact .inl ⟨rfl, nofun, nofun⟩
  case contains_get.start =>
    split at h <;> obtain ⟨rfl, rfl⟩ := h <;> exact .inl ⟨rfl, nofun, nofun⟩
  all_goals obtain ⟨rfl, rfl⟩ := h; exact .inl ⟨rfl, nofun, nofun⟩

theorem next_insertEvent (h : next K t cur = some (t', cur')) : t'.insertEvent = t.insertEvent := by
  rcases t with ⟨id, sn, event, _ | d | d | r⟩ | ⟨id, sn, d, _ | _ | ⟨_ | ⟨d', ds⟩, looked⟩ | _⟩ <;>
    simp only [next, Option.some.injEq, Prod.mk.injEq, reduceCtorEq] at h
  case start => split at h <;> obtain ⟨rfl, rfl⟩ := h <;> rfl
  case contains_get.start => split at h <;> obtain ⟨rfl, rfl⟩ := h <;> rfl
  all_goals obtain ⟨rfl, rfl⟩ := h; rfl

omit [DecidableEq Id] [DecidableEq Dig] in
theorem Agree.set {ts : List (EscrowThread Id Dig Ev Sig)} {i : Nat}
    {l l' : EscrowThread Id Dig Ev Sig} (h : Agree K ts) (hi : ts[i]? = some l)
    (hl : l'.insertEvent = l.insertEvent) : Agree K (ts.set i l') := by
  have hmem : ∀ t ∈ ts.set i l', ∃ u ∈ ts, t.insertEvent = u.insertEvent := fun t ht =>
    (Interleaving.mem_of_mem_set ht).elim (fun h => ⟨l, List.getElem?_mem hi, h ▸ hl⟩)
      fun h => ⟨t, h, rfl⟩
  intro t₁ h₁ t₂ h₂ e₁ e₂ d he₁ he₂
  obtain ⟨u₁, hu₁, hq₁⟩ := hmem t₁ h₁
  obtain ⟨u₂, hu₂, hq₂⟩ := hmem t₂ h₂
  exact h u₁ hu₁ u₂ hu₂ e₁ e₂ d (hq₁ ▸ he₁) (hq₂ ▸ he₂)

omit [DecidableEq Id] [DecidableEq Dig] in
/-- An insert between its log writes on `d` before a step still is after it, unless it is the
thread that stepped. -/
theorem Logging.set {ts : List (EscrowThread Id Dig Ev Sig)} {i : Nat}
    {l l' : EscrowThread Id Dig Ev Sig} {d : Dig} (hi : ts[i]? = some l)
    (hl : ∀ id sn e, l ≠ insert_key_value id sn e (.event_logged d)) (h : Logging ts d) :
    Logging (ts.set i l') d :=
  let ⟨id, sn, e, ht⟩ := h
  ⟨id, sn, e, Interleaving.mem_set_of_mem_of_ne hi ht (hl id sn e).symm⟩

theorem CopiesLogged.step
    {c : Interleaving (EscrowThread Id Dig Ev Sig) (MemoryEscrowDb Id Dig Ev Sig Nt Seal)} {i : Nat}
    {l l' : EscrowThread Id Dig Ev Sig} {s' : MemoryEscrowDb Id Dig Ev Sig Nt Seal}
    (h : CopiesLogged K c) (hi : c.threads[i]? = some l) (hn : next K l c.shared = some (l', s')) :
    CopiesLogged K ⟨s', c.threads.set i l'⟩ := by
  have hl := h.wrote l (List.getElem?_mem hi)
  have agree := h.agree.set hi (next_insertEvent hn)
  have wrote : ∀ t ∈ c.threads.set i l', Wrote K s' t := fun t ht =>
    (Interleaving.mem_of_mem_set ht).elim (fun h' => h' ▸ hl.next hn)
      fun ht => (h.wrote t ht).grow (next_log_grows hn)
  rcases next_log_cases hn with ⟨hlog, hnl, hnl'⟩ | ⟨id, sn, e, d, rfl, rfl, hlog⟩ |
    ⟨id, sn, e, d, rfl, rfl, hlog⟩
  · -- the log is as it was, and neither `l` nor `l'` is between its log writes
    refine ⟨agree, wrote, fun d e => hlog ▸ h.digest_eq d e, fun id sn e d ht => ?_,
      fun d hd => hlog ▸ h.signatures_eq d fun hL => hd (hL.set hi fun id sn e => hnl id sn e d)⟩
    rcases Interleaving.mem_of_mem_set ht with heq | ht
    exacts [absurd heq.symm (hnl' id sn e d), hlog ▸ h.logging id sn e d ht]
  · -- the first log write: the event under its digest, which no other copy disagrees with
    have hd : K.digest e.event_message = .ok d := hl
    refine ⟨agree, wrote, fun d' e' he' => ?_, fun id' sn' e' d' ht => ?_, fun d' hd' => ?_⟩
    · rw [hlog, MemoryLogDatabase.get_signed_event_insert_event] at he'
      split_ifs at he' with hdd
      · cases he'; exact hdd
      · exact h.digest_eq d' e' he'
    · rw [hlog, MemoryLogDatabase.get_signed_event_insert_event]
      rcases Interleaving.mem_of_mem_set ht with heq | ht
      · cases heq; simp [hd]
      · have hd' : K.digest e'.event_message = .ok d' := (h.wrote _ ht).1
        split_ifs with hdd
        · exact congrArg some (h.agree _ (List.getElem?_mem hi) _ ht e e' d' rfl rfl hdd hd')
        · exact h.logging id' sn' e' d' ht
    · have hne : d ≠ d' := fun hdd => hd' ⟨id, sn, e, hdd ▸ Interleaving.mem_set_self hi⟩
      rw [hlog, MemoryLogDatabase.get_signed_event_insert_event, hd, if_neg (by simpa using hne),
        MemoryLogDatabase.get_signatures_insert_event]
      exact h.signatures_eq d' fun hL => hd' (hL.set hi fun _ _ _ => by simp)
  · -- the second log write: the signatures of the event the insert finds under its digest
    have hd : K.digest e.event_message = .ok d := hl.1
    have hown := h.logging id sn e d (List.getElem?_mem hi)
    refine ⟨agree, wrote, fun d' e' he' => ?_, fun id' sn' e' d' ht => ?_, fun d' hd' => ?_⟩
    · rw [hlog, EscrowThread.get_signed_event_insert_signatures] at he'
      exact h.digest_eq d' e' he'
    · rw [hlog, EscrowThread.get_signed_event_insert_signatures]
      rcases Interleaving.mem_of_mem_set ht with heq | ht
      · exact nomatch heq
      · exact h.logging id' sn' e' d' ht
    · rw [hlog, EscrowThread.get_signed_event_insert_signatures,
        MemoryLogDatabase.get_signatures_insert_signatures, hd]
      by_cases hdd : d = d'
      · subst hdd; simp [hown]
      · rw [if_neg (by simpa using hdd)]
        exact h.signatures_eq d' fun hL => hd' (hL.set hi fun _ _ _ => by simp [hdd])

/-- **Copies that agree keep the log coherent.** From an escrow whose log is coherent, under every
schedule of inserts and of readers, when the inserts of events with one digest insert one signed
event: every event of the log is under its own digest, and under every digest that no insert is
between its two log writes on, the log holds the signatures of the event under it. -/
theorem insert_key_value_log_coherent (db : MemoryEscrowDb Id Dig Ev Sig Nt Seal)
    (hlog : db.log.Coherent K) (inserts : List (Id × UInt64 × SignedEventMessage Ev Sig))
    (hagree : ∀ x ∈ inserts, ∀ y ∈ inserts, ∀ d, K.digest x.2.2.event_message = .ok d →
      K.digest y.2.2.event_message = .ok d → x.2.2 = y.2.2)
    (checks : List (Id × UInt64 × Dig)) (sched : List Nat) :
    let c := (concurrently db (inserting inserts ++ checking checks)).run (next K) sched
    (∀ d e, c.shared.log.get_signed_event d = some e → K.digest e.event_message = .ok d) ∧
    ∀ d, ¬Logging c.threads d →
      c.shared.log.get_signatures d = (c.shared.log.get_signed_event d).map (·.signatures) := by
  have hstart : ∀ t ∈ inserting inserts ++ checking checks, Wrote K db t ∧
      (∀ id sn e d, t ≠ insert_key_value id sn e (.event_logged d)) ∧
      ∀ e, t.insertEvent = some e → ∃ x ∈ inserts, x.2.2 = e := by
    intro t ht
    simp only [inserting, checking, List.mem_append, List.mem_map] at ht
    rcases ht with ⟨x, hx, rfl⟩ | ⟨_, -, rfl⟩
    · exact ⟨trivial, by simp, fun e he => ⟨x, hx, Option.some.inj he⟩⟩
    · exact ⟨trivial, by simp, nofun⟩
  have h₀ : CopiesLogged K (concurrently db (inserting inserts ++ checking checks)) := by
    refine ⟨fun t₁ h₁ t₂ h₂ e₁ e₂ d he₁ he₂ hd₁ hd₂ => ?_, fun t ht => (hstart t ht).1,
      hlog.digest_eq, fun id sn e d ht => absurd rfl ((hstart _ ht).2.1 id sn e d),
      fun d _ => hlog.signatures_eq d⟩
    obtain ⟨x, hx, rfl⟩ := (hstart t₁ h₁).2.2 e₁ he₁
    obtain ⟨y, hy, rfl⟩ := (hstart t₂ h₂).2.2 e₂ he₂
    exact hagree x hx y hy d hd₁ hd₂
  have h := Interleaving.run_induction _ h₀ (fun _ _ _ _ _ h hi hn => h.step hi hn) sched
  exact ⟨h.digest_eq, h.signatures_eq⟩

/-- Two inserts of `escrowed₁` at its own key. -/
def escrowedTwice : List (Nat × UInt64 × SignedEventMessage KeyEvent Nat) :=
  [(0, 1, MemoryEscrowDb.escrowed₁), (0, 1, MemoryEscrowDb.escrowed₁)]

/-- The inserts of `escrowedTwice` on a fresh escrow, run so that one logs its event, the other
runs to the end, and the first then logs its signatures. -/
theorem escrowed_twice_log_coherent :
    MemoryEscrowDb.fresh.log.Coherent specCore ∧
      (∀ x ∈ escrowedTwice, ∀ y ∈ escrowedTwice, ∀ d,
        specCore.digest x.2.2.event_message = .ok d →
        specCore.digest y.2.2.event_message = .ok d → x.2.2 = y.2.2) ∧
      let c := (concurrently MemoryEscrowDb.fresh (inserting escrowedTwice ++ checking [])).run
        (next specCore) [0, 0, 1, 1, 1, 0]
      (∀ d e, c.shared.log.get_signed_event d = some e → specCore.digest e.event_message = .ok d) ∧
      ∀ d, ¬Logging c.threads d →
        c.shared.log.get_signatures d = (c.shared.log.get_signed_event d).map (·.signatures) :=
  have hagree : ∀ x ∈ escrowedTwice, ∀ y ∈ escrowedTwice, ∀ d,
      specCore.digest x.2.2.event_message = .ok d →
      specCore.digest y.2.2.event_message = .ok d → x.2.2 = y.2.2 := by
    simp [escrowedTwice]
  ⟨MemoryLogDatabase.coherent_new, hagree, insert_key_value_log_coherent MemoryEscrowDb.fresh
    MemoryLogDatabase.coherent_new escrowedTwice hagree [] [0, 0, 1, 1, 1, 0]⟩

/-- **Copies that disagree can leave the log incoherent**, so that `insert_key_value_log_coherent`
needs the inserts to agree. Two inserts of events with one digest `d`, run so that the first logs
its event, the second runs to the end, and the first then logs its signatures, leave no insert
between its two log writes, the second event under `d`, and the first event's signatures under
`d`. -/
theorem insert_key_value_copies_mix (db : MemoryEscrowDb Id Dig Ev Sig Nt Seal)
    {id₁ id₂ : Id} {sn₁ sn₂ : UInt64} {e₁ e₂ : SignedEventMessage Ev Sig} {d : Dig}
    (h₁ : K.digest e₁.event_message = .ok d) (h₂ : K.digest e₂.event_message = .ok d) :
    let c := (concurrently db (inserting [(id₁, sn₁, e₁), (id₂, sn₂, e₂)])).run (next K)
      [0, 0, 1, 1, 1, 0]
    ¬Logging c.threads d ∧ c.shared.log.get_signed_event d = some e₂ ∧
      c.shared.log.get_signatures d = some e₁.signatures := by
  simp [concurrently, inserting, Interleaving.step, next, h₁, h₂, Logging,
    MemoryLogDatabase.get_signatures_insert_signatures, get_signed_event_insert_signatures,
    MemoryLogDatabase.get_signed_event_insert_event]

/-- Two inserts of copies of one inception, signed by `1` and by `2`, run so that they mix: the
log holds the second copy, signed by `2`, with the signatures `[1]` of the first. -/
theorem copies_signed_apart_mix :
    specCore.digest MemoryLogDatabase.copiesSignedApart.1.event_message = .ok 7 ∧
      specCore.digest MemoryLogDatabase.copiesSignedApart.2.event_message = .ok 7 ∧
      let c := (concurrently MemoryEscrowDb.fresh (inserting
        [(0, 0, MemoryLogDatabase.copiesSignedApart.1),
          (0, 0, MemoryLogDatabase.copiesSignedApart.2)])).run (next specCore) [0, 0, 1, 1, 1, 0]
      ¬Logging c.threads 7 ∧
        c.shared.log.get_signed_event 7 = some MemoryLogDatabase.copiesSignedApart.2 ∧
        c.shared.log.get_signatures 7 = some MemoryLogDatabase.copiesSignedApart.1.signatures :=
  ⟨rfl, rfl, insert_key_value_copies_mix MemoryEscrowDb.fresh rfl rfl⟩

end Copies

end EscrowThread

end Keriox
