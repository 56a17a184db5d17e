import Keriox.Database.Memory
import Keriox.Concurrency.Interleaving

/-!
# Concurrent writers and readers of the KELs

`add_kel_finalized_event` runs four lock-protected sections: it reads `states` (and applies the
event to what it read, holding no lock), writes `states`, logs the event (whose two sections
write the log's `events` and then its `signatures`), and pushes the event onto `events`. A
reader that calls `get_key_state` and then `get_kel_finalized_events` runs one section for each.
Between any two sections, any other thread may run.

Nothing orders two calls on one identifier: both may read the key state before either writes it,
and both then return `Ok`, so the same inception submitted twice is pushed twice onto the KEL and
the key state accounts for one of them; and a call that reads the key state another has written
may push before it, so that the KEL is out of sequence order. What does hold for any number of
calls is that each call that returns `Ok` pushes its event exactly once, and no push is lost; and
calls run one after another, with no section interleaved, are `add_kel_finalized_event` called in
that order.

The key state is written before the KEL: a reader scheduled between a call's state write and its
push reads the new key state and then a KEL without the event that produced it. A reader's view
is otherwise consistent: with one writer, the key state it reads is the fold of the KEL it then
reads, or, when it read before the writer wrote the key state, of that KEL without the writer's
event, pushed after the read.

## Main definitions

* `AddKel`, `ReadKel`, `KelThread`: where a call of `add_kel_finalized_event`, or a reader, is
* `KelThread.next`: the section each runs next
* `KelThread.Seen`: how a key state read stands to the KEL read after it, by where the writer was
  at the read

## Main results

* `KelThread.run_add_alone`: a call whose sections run with none interleaved is
  `add_kel_finalized_event`
* `KelThread.run_serial`: calls run one after another are the calls made in that order
* `KelThread.add_kel_finalized_event_interleaved`: under every schedule, each KEL is its
  first contents followed by the events of the calls that have returned `Ok`, once each
* `KelThread.get_key_state_interleaved`: what a reader may see of a KEL being written, by where
  the writer was when the reader read the key state
-/

namespace Keriox

/-- Where a call of `add_kel_finalized_event` is. -/
inductive AddKel (St : Type) where
  /-- It reads the key state next. -/
  | start
  /-- It has applied the event to the key state it read. -/
  | applied (new_state : St)
  /-- It has written the new key state. -/
  | state_written
  /-- It has logged the event, not yet its signatures. -/
  | event_logged
  /-- It has logged the event and its signatures. -/
  | logged
  /-- It has returned. -/
  | returned (result : Except Error Unit)
  deriving DecidableEq, Repr

/-- Where a reader that calls `get_key_state(id)` and then `get_kel_finalized_events(All{id})`
is. -/
inductive ReadKel (Ev St Sig : Type) where
  | start
  | state_read (state : Option St)
  | returned (state : Option St) (kel : Option (List (SignedEventMessage Ev Sig)))
  deriving DecidableEq, Repr

/-- A thread on a database: a call of `add_kel_finalized_event`, or a reader. -/
inductive KelThread (Id Ev St Sig : Type) where
  | add (event : SignedEventMessage Ev Sig) (id : Id) (pc : AddKel St)
  | read (id : Id) (pc : ReadKel Ev St Sig)
  deriving DecidableEq, Repr

/-- A call that has not yet written the key state. -/
def AddKel.BeforeWrite {St : Type} : AddKel St → Prop
  | .start | .applied _ => True
  | _ => False

/-- A call between its write of the key state and its push onto the KEL. -/
def AddKel.InWindow {St : Type} : AddKel St → Prop
  | .state_written | .event_logged | .logged => True
  | _ => False

namespace KelThread

variable {Id Dig Ev St Sig Nt Seal : Type} [DecidableEq Id] [DecidableEq Dig]
variable (K : KeriCore Id Dig Ev St)

/-- The section a thread runs next, on the database. -/
def next : KelThread Id Ev St Sig → MemoryDatabase Id Dig Ev St Sig Nt Seal →
    Option (KelThread Id Ev St Sig × MemoryDatabase Id Dig Ev St Sig Nt Seal)
  | add event id .start, db =>
    match K.apply (db.current_state K id) event.event_message with
    | .error err => some (add event id (.returned (.error err)), db)
    | .ok new_state => some (add event id (.applied new_state), db)
  | add event id (.applied new_state), db =>
    some (add event id .state_written, { db with states := db.states.insert id new_state })
  | add event id .state_written, db =>
    some (add event id .event_logged, { db with log_db := db.log_db.insert_event K event })
  | add event id .event_logged, db =>
    some (add event id .logged, { db with log_db := db.log_db.insert_signatures K event })
  | add event id .logged, db =>
    some (add event id (.returned (.ok ())), { db with events := db.events.push id event })
  | add _ _ (.returned _), _ => none
  | read id .start, db => some (read id (.state_read (db.get_key_state id)), db)
  | read id (.state_read state), db =>
    some (read id (.returned state (db.get_kel_finalized_events K (.All id))), db)
  | read _ (.returned _ _), _ => none

/-- Threads started together on a database. -/
def concurrently (db : MemoryDatabase Id Dig Ev St Sig Nt Seal)
    (threads : List (KelThread Id Ev St Sig)) :
    Interleaving (KelThread Id Ev St Sig) (MemoryDatabase Id Dig Ev St Sig Nt Seal) :=
  ⟨db, threads⟩

/-- Calls of `add_kel_finalized_event`, not yet started. -/
def adding (calls : List (SignedEventMessage Ev Sig × Id)) : List (KelThread Id Ev St Sig) :=
  calls.map fun call => add call.1 call.2 .start

/-- The event a call has pushed onto the KEL of `id`: a call pushes as its last section, and
then returns `Ok`. -/
def pushedOnto (id : Id) : KelThread Id Ev St Sig → Option (SignedEventMessage Ev Sig)
  | add event id' (.returned (.ok ())) => if id' = id then some event else none
  | _ => none

/-! ## A call run alone -/

section Alone

variable {K}
variable {c : Interleaving (KelThread Id Ev St Sig) (MemoryDatabase Id Dig Ev St Sig Nt Seal)}

/-- **A call run alone is `add_kel_finalized_event`.** When the five sections of a call run with
no other section between them, the database and the call's result are those of
`add_kel_finalized_event`. -/
theorem run_add_alone {i : Nat} {event : SignedEventMessage Ev Sig} {id : Id}
    (hi : c.threads[i]? = some (add event id .start)) :
    c.run (next K) (List.replicate 5 i) =
      ⟨(c.shared.add_kel_finalized_event K event id).2,
        c.threads.set i
          (add event id (.returned (c.shared.add_kel_finalized_event K event id).1))⟩ := by
  have hlen : i < c.threads.length := (List.getElem?_eq_some_iff.1 hi).1
  cases happ : K.apply (c.shared.current_state K id) event.event_message with
  | error err =>
    simp [MemoryDatabase.add_kel_finalized_event_of_error happ, List.replicate, Interleaving.step,
      hi, next, happ, List.getElem?_set_self hlen]
  | ok new_state =>
    simp [MemoryDatabase.add_kel_finalized_event_of_ok happ, List.replicate, Interleaving.step,
      hi, next, happ, List.getElem?_set_self hlen, MemoryLogDatabase.log_event_internal_eq_sections]

end Alone

/-- The calls made one after another from `db`: their results, and the database after them. -/
def add_each (db : MemoryDatabase Id Dig Ev St Sig Nt Seal) :
    List (SignedEventMessage Ev Sig × Id) →
      List (Except Error Unit) × MemoryDatabase Id Dig Ev St Sig Nt Seal
  | [] => ([], db)
  | (event, id) :: calls =>
    let rest := add_each (db.add_kel_finalized_event K event id).2 calls
    ((db.add_kel_finalized_event K event id).1 :: rest.1, rest.2)

/-- The schedule that runs the threads `k`, ..., `k + n - 1` one after another, each for the five
sections of a call. -/
def serial (k n : Nat) : List Nat :=
  (List.range' k n).flatMap fun i => List.replicate 5 i

/-- The calls after they have returned these results. -/
def returning (calls : List (SignedEventMessage Ev Sig × Id))
    (results : List (Except Error Unit)) :
    List (KelThread Id Ev St Sig) :=
  List.zipWith (fun call r => add call.1 call.2 (.returned r)) calls results

theorem run_serial_append (done : List (KelThread Id Ev St Sig))
    (db : MemoryDatabase Id Dig Ev St Sig Nt Seal)
    (calls : List (SignedEventMessage Ev Sig × Id)) :
    (concurrently db (done ++ adding calls)).run (next K) (serial done.length calls.length) =
      concurrently (add_each K db calls).2 (done ++ returning calls (add_each K db calls).1) := by
  induction calls generalizing done db with
  | nil => simp [serial, adding, returning, add_each, concurrently]
  | cons call calls ih =>
    obtain ⟨event, id⟩ := call
    have hi : (concurrently db (done ++ adding ((event, id) :: calls))).threads[done.length]? =
        some (add event id .start) := by
      rw [concurrently, List.getElem?_append_right (le_refl _), Nat.sub_self]
      simp [adding]
    rw [serial, List.length_cons, List.range'_succ, List.flatMap_cons, Interleaving.run_append,
      run_add_alone hi]
    have h := ih (done ++ [add event id (.returned (db.add_kel_finalized_event K event id).1)])
      (db.add_kel_finalized_event K event id).2
    simp only [List.length_append, List.length_singleton, List.append_assoc,
      List.singleton_append] at h
    simpa [concurrently, adding, returning, add_each, List.set_append_right, serial] using h

/-- **Serial schedules refine the sequential database.** Calls whose sections run one call after
another are the calls made one after another, in the same order. -/
theorem run_serial (db : MemoryDatabase Id Dig Ev St Sig Nt Seal)
    (calls : List (SignedEventMessage Ev Sig × Id)) :
    (concurrently db (adding calls)).run (next K) (serial 0 calls.length) =
      concurrently (add_each K db calls).2 (returning calls (add_each K db calls).1) :=
  run_serial_append K [] db calls

/-! ## Any number of calls -/

section Calls

variable {K}

/-- What a section does to the KELs: nothing, by a thread that has pushed nothing before or after
it; or the push of a call's event, as the call returns `Ok`. -/
theorem next_events {t t' : KelThread Id Ev St Sig}
    {db db' : MemoryDatabase Id Dig Ev St Sig Nt Seal}
    (h : next K t db = some (t', db')) :
    (db'.events = db.events ∧ ∀ id, t.pushedOnto id = none ∧ t'.pushedOnto id = none) ∨
      ∃ event id, t = add event id .logged ∧ t' = add event id (.returned (.ok ())) ∧
        db'.events = db.events.push id event := by
  rcases t with ⟨event, id, _ | new_state | _ | _ | _ | r⟩ |
      ⟨id, _ | state | ⟨state, kel⟩⟩ <;>
    simp only [next, Option.some.injEq, Prod.mk.injEq, reduceCtorEq] at h
  case start =>
    split at h <;> obtain ⟨rfl, rfl⟩ := h <;> exact .inl ⟨rfl, fun _ => ⟨rfl, rfl⟩⟩
  case logged => obtain ⟨rfl, rfl⟩ := h; exact .inr ⟨event, id, rfl, rfl, rfl⟩
  all_goals obtain ⟨rfl, rfl⟩ := h; exact .inl ⟨rfl, fun _ => ⟨rfl, rfl⟩⟩

/-- Each KEL is its contents in `db` followed by the events of the calls that have pushed onto
it, in some order. -/
def KelAccounted (db : MemoryDatabase Id Dig Ev St Sig Nt Seal)
    (c : Interleaving (KelThread Id Ev St Sig) (MemoryDatabase Id Dig Ev St Sig Nt Seal)) : Prop :=
  ∀ id, ∃ pushed : List (SignedEventMessage Ev Sig),
    pushed.Perm (c.threads.filterMap (pushedOnto id)) ∧
      c.shared.events.getD id = db.events.getD id ++ pushed

theorem KelAccounted.step {db : MemoryDatabase Id Dig Ev St Sig Nt Seal}
    {c : Interleaving (KelThread Id Ev St Sig) (MemoryDatabase Id Dig Ev St Sig Nt Seal)} {i : Nat}
    {l l' : KelThread Id Ev St Sig} {s' : MemoryDatabase Id Dig Ev St Sig Nt Seal}
    (h : KelAccounted db c) (hi : c.threads[i]? = some l) (hn : next K l c.shared = some (l', s')) :
    KelAccounted db ⟨s', c.threads.set i l'⟩ := by
  intro id
  obtain ⟨pushed, hperm, hev⟩ := h id
  have hset := Interleaving.filterMap_set_perm (pushedOnto id) hi l'
  rcases next_events hn with ⟨hev', hnone⟩ | ⟨event, id', rfl, rfl, hev'⟩
  · simp only [(hnone id).1, (hnone id).2, Option.toList, List.append_nil] at hset
    exact ⟨pushed, hperm.trans hset.symm, hev' ▸ hev⟩
  · simp only [pushedOnto, Option.toList, List.append_nil] at hset
    refine ⟨pushed ++ (if id' = id then [event] else []), ?_, ?_⟩
    · refine (hperm.append_right _).trans (List.Perm.trans ?_ hset.symm)
      split_ifs <;> rfl
    · simp only [hev', HashMap.getD_push, hev]
      rcases eq_or_ne id' id with rfl | hid
      · simp [hev]
      · simp [hid, Ne.symm hid]

/-- **Concurrent calls of `add_kel_finalized_event`.** Under every schedule of any calls started
together on a database, each KEL is what it was followed, in some order, by the events of the
calls on it that have returned `Ok`, each once: no call pushes twice and no push is lost. And
the schedule that runs the calls one after another, none interleaved, gives the database and the
results of the calls made in that order. -/
theorem add_kel_finalized_event_interleaved (db : MemoryDatabase Id Dig Ev St Sig Nt Seal)
    (calls : List (SignedEventMessage Ev Sig × Id)) (sched : List Nat) :
    (∀ id, ∃ pushed : List (SignedEventMessage Ev Sig),
      pushed.Perm (((concurrently db (adding calls)).run (next K) sched).threads.filterMap
        (pushedOnto id)) ∧
      ((concurrently db (adding calls)).run (next K) sched).shared.events.getD id =
        db.events.getD id ++ pushed) ∧
    (concurrently db (adding calls)).run (next K) (serial 0 calls.length) =
      concurrently (add_each K db calls).2 (returning calls (add_each K db calls).1) := by
  refine ⟨Interleaving.run_induction (KelAccounted db) ?_
    (fun _ _ _ _ _ h hi hn => h.step hi hn) sched, run_serial K db calls⟩
  intro id
  refine ⟨[], ?_, by simp [concurrently]⟩
  simp [concurrently, adding, pushedOnto]

end Calls

/-- An inception of identifier `0`, with digest `7`. -/
def inception : SignedEventMessage KeyEvent Nat := ⟨⟨0, 0, .inception, none, some 7⟩, []⟩

/-- The inception submitted twice on identifier `0`. -/
def inceptionTwice : List (SignedEventMessage KeyEvent Nat × Nat) :=
  [(inception, 0), (inception, 0)]

/-- Both calls read the key state before either writes it, and then run to the end. -/
def twiceInterleaved :
    Interleaving (KelThread Nat KeyEvent IdentifierState Nat)
      (MemoryDatabase Nat Nat KeyEvent IdentifierState Nat Nat Nat) :=
  (concurrently .new (adding inceptionTwice)).run (next specCore) [0, 1, 0, 0, 0, 0, 1, 1, 1, 1]

/-- The two calls made one after the other. -/
def twiceInSequence :
    List (Except Error Unit) × MemoryDatabase Nat Nat KeyEvent IdentifierState Nat Nat Nat :=
  add_each specCore .new inceptionTwice

/-- **Two concurrent calls are not linearizable.** When both calls of the same inception read the
key state before either writes it, both return `Ok` and the inception is pushed twice; made one
after the other, the second call fails and the KEL holds the inception once. -/
theorem add_kel_finalized_event_twice_interleaved :
    twiceInterleaved.threads = returning inceptionTwice [.ok (), .ok ()] ∧
      twiceInterleaved.shared.events.get 0 = some [inception, inception] ∧
      twiceInSequence.1.map Except.toBool = [true, false] ∧
      twiceInSequence.2.events.get 0 = some [inception] := by
  decide

/-- The inception of `0` and the interaction after it, submitted together on identifier `0`. -/
def inceptionAndInteraction : List (SignedEventMessage KeyEvent Nat × Nat) :=
  [(MemoryDatabase.inceptedThenInteracted.1, 0), (MemoryDatabase.inceptedThenInteracted.2, 0)]

/-- The inception's call writes the key state; the interaction's call applies the interaction to
it and runs to the end; then the inception's call logs and pushes. -/
def interactionOvertakes :
    Interleaving (KelThread Nat KeyEvent IdentifierState Nat)
      (MemoryDatabase Nat Nat KeyEvent IdentifierState Nat Nat Nat) :=
  (concurrently .new (adding inceptionAndInteraction)).run (next specCore)
    [0, 0, 1, 1, 1, 1, 1, 0, 0, 0]

/-- A fresh database after the calls are made one after the other, in the order given. -/
def inSequence (calls : List (SignedEventMessage KeyEvent Nat × Nat)) :
    MemoryDatabase Nat Nat KeyEvent IdentifierState Nat Nat Nat :=
  (add_each specCore .new calls).2

/-- **Concurrent calls can push out of sequence order.** When the interaction's call reads the
key state the inception's call has just written and pushes before it, both return `Ok` and the
KEL of `0` holds the interaction, at sequence number `1`, before the inception, at `0`. Made one
after the other, in either order, the calls leave the KEL in sequence order. -/
theorem add_kel_finalized_event_reorders :
    interactionOvertakes.threads = returning inceptionAndInteraction [.ok (), .ok ()] ∧
      (interactionOvertakes.shared.events.get 0).map (·.map (·.event_message.sequence)) =
        some [1, 0] ∧
      ((inSequence inceptionAndInteraction).events.get 0).map
        (·.map (·.event_message.sequence)) = some [0, 1] ∧
      ((inSequence inceptionAndInteraction.reverse).events.get 0).map
        (·.map (·.event_message.sequence)) = some [0] := by
  decide

/-! ## One call and its readers -/

section Readers

variable (event : SignedEventMessage Ev Sig) (id : Id)

/-- How the key state `st` that a reader of `id'` read, while the call adding `event` to `id` was
at `pc`, stands to the KEL `kel` it then read: `st` is the fold of `kel`; or `id' = id` and
either the call had not yet written the key state, and pushed `event` after the read, so that `st`
is the fold of `kel` without it; or the reader read in the call's window, between its state write
and its push, and `st` is the fold of `kel` followed by `event`. -/
def Seen (pc : AddKel St) (id' : Id) (st : St) (kel : List Ev) : Prop :=
  K.fold kel = .ok st ∨
    id' = id ∧
      ((pc.BeforeWrite ∧ ∃ pre, kel = pre ++ [event.event_message] ∧ K.fold pre = .ok st) ∨
        (pc.InWindow ∧ K.fold (kel ++ [event.event_message]) = .ok st))

/-- The database while the call is at `pc`: every key state is the fold of its KEL, except that
of `id` between the call's state write and its push, which is the fold of its KEL followed by
`event`; and a call that has applied the event applied it to the key state that is still there. -/
def WriterInv : AddKel St → MemoryDatabase Id Dig Ev St Sig Nt Seal → Prop
  | .applied new_state, db =>
    db.KelCoherent K ∧ K.apply (db.current_state K id) event.event_message = .ok new_state
  | .state_written, db | .event_logged, db | .logged, db =>
    ({ db with events := db.events.push id event } : MemoryDatabase ..).KelCoherent K
  | _, db => db.KelCoherent K

/-- What a reader of `id` that read the key state `st` while the call was at `pc₀` holds of the
KEL `kel` of `id` while the call is at `pc`. Read before the call's state write, `st` is the fold
of `kel`, and of `kel` without `event` once the call has pushed it; read in the call's window, it
is the fold of `kel` followed by `event`, and of `kel` once the call has pushed; read after the
call returned, it is the fold of `kel`, and the call stays returned. -/
def Holds (pc₀ pc : AddKel St) (st : St) (kel : List Ev) : Prop :=
  match pc₀ with
  | .start | .applied _ =>
    K.fold kel = .ok st ∨
      pc = .returned (.ok ()) ∧ ∃ pre, kel = pre ++ [event.event_message] ∧ K.fold pre = .ok st
  | .state_written | .event_logged | .logged =>
    K.fold (kel ++ [event.event_message]) = .ok st ∨ pc = .returned (.ok ()) ∧ K.fold kel = .ok st
  | .returned r => pc = .returned r ∧ K.fold kel = .ok st

/-- What a reader holds while the call is at `pc`, having read the key state while the call was
at `pc₀`: a key state of `id` as `Holds` says, one of another identifier as the fold of its KEL,
and, once it has read the KEL, what `Seen` says. A reader that found no key state holds nothing;
one that has not read yet has no `pc₀`, and is anchored as it reads (`WriterInv.read_start`). -/
def ReaderAt (pc₀ pc : AddKel St) (db : MemoryDatabase Id Dig Ev St Sig Nt Seal) :
    KelThread Id Ev St Sig → Prop
  | read id' (.state_read (some st)) =>
    if id' = id then Holds K event pc₀ pc st ((db.events.getD id).map (·.event_message))
    else K.fold ((db.events.getD id').map (·.event_message)) = .ok st
  | read id' (.returned (some st) kel) =>
    Seen K event id pc₀ id' st ((kel.getD []).map (·.event_message))
  | read _ (.state_read none) | read _ (.returned none _) => True
  | _ => False

/-- The call at index `0`, at `pc` with the database as `WriterInv` says, and readers after it;
when `tracked` is `some (k, pc₀)`, the `k`th reader holds what it read while the call was at
`pc₀`. -/
def Tracks (tracked : Option (Nat × AddKel St))
    (c : Interleaving (KelThread Id Ev St Sig) (MemoryDatabase Id Dig Ev St Sig Nt Seal)) : Prop :=
  ∃ pc rs, c.threads = add event id pc :: rs ∧ WriterInv K event id pc c.shared ∧
    (∀ r ∈ rs, ∃ id' rpc, r = read id' rpc) ∧
    ∀ k pc₀ r, tracked = some (k, pc₀) → rs[k]? = some r → ReaderAt K event id pc₀ pc c.shared r

variable {K event id}
variable {pc pc' pc₀ : AddKel St} {db db' : MemoryDatabase Id Dig Ev St Sig Nt Seal}
variable {st : St} {kel : List Ev}

omit [DecidableEq Id] [DecidableEq Dig] in
/-- A section of the call other than its push keeps what a reader of `id` holds. -/
theorem Holds.frame (h : Holds K event pc₀ pc st kel)
    (hret : ∀ r, pc = .returned r → pc' = .returned r) : Holds K event pc₀ pc' st kel := by
  cases pc₀
  case returned r => exact ⟨hret r h.1, h.2⟩
  all_goals exact Or.imp_right (And.imp_left (hret _)) h

omit [DecidableEq Id] [DecidableEq Dig] in
/-- The call's push keeps what a reader of `id` holds: one that read before the state write now
reads `event` after the KEL its state folds, and one that read in the window is in step. -/
theorem Holds.push (h : Holds K event pc₀ .logged st kel) :
    Holds K event pc₀ (.returned (.ok ())) st (kel ++ [event.event_message]) := by
  cases pc₀
  case returned => exact absurd h.1 nofun
  case start | applied => exact .inr ⟨rfl, kel, rfl, Or.resolve_right h fun ⟨h, _⟩ => nomatch h⟩
  all_goals exact .inr ⟨rfl, Or.resolve_right h fun ⟨h, _⟩ => nomatch h⟩

omit [DecidableEq Id] [DecidableEq Dig] in
/-- A reader of `id` that then reads the KEL sees it as `Seen` says. -/
theorem Holds.seen (h : Holds K event pc₀ pc st kel) : Seen K event id pc₀ id st kel := by
  cases pc₀
  case returned => exact .inl h.2
  case start | applied => exact Or.imp_right (fun ⟨_, hpre⟩ => ⟨rfl, .inl ⟨trivial, hpre⟩⟩) h
  all_goals exact Or.elim h (fun hf => .inr ⟨rfl, .inr ⟨trivial, hf⟩⟩) fun ⟨_, hf⟩ => .inl hf

omit [DecidableEq Dig] in
/-- What a reader holds depends on the KELs alone, and on where the call is only through whether
it has returned. -/
theorem ReaderAt.frame {r : KelThread Id Ev St Sig} (h : ReaderAt K event id pc₀ pc db r)
    (hev : db'.events = db.events) (hret : ∀ res, pc = .returned res → pc' = .returned res) :
    ReaderAt K event id pc₀ pc' db' r := by
  rcases r with _ | ⟨id', _ | (_ | st) | ⟨_ | st, kel⟩⟩ <;> try exact h
  simp only [ReaderAt, hev] at h ⊢
  split_ifs at h ⊢
  exacts [h.frame hret, h]

omit [DecidableEq Dig] in
/-- The call's push keeps what every reader holds. -/
theorem ReaderAt.push {r : KelThread Id Ev St Sig} (h : ReaderAt K event id pc₀ .logged db r) :
    ReaderAt K event id pc₀ (.returned (.ok ()))
      { db with events := db.events.push id event } r := by
  rcases r with _ | ⟨id', _ | (_ | st) | ⟨_ | st, kel⟩⟩ <;> try exact h
  rcases eq_or_ne id' id with rfl | hid
  · simp only [ReaderAt, HashMap.getD_push, if_true, List.map_append, List.map_singleton] at h ⊢
    exact h.push
  · simpa only [ReaderAt, HashMap.getD_push, hid, if_false] using h

/-- A reader's own section keeps what it holds. -/
theorem ReaderAt.next {r r' : KelThread Id Ev St Sig} (h : ReaderAt K event id pc₀ pc db r)
    (hn : KelThread.next K r db = some (r', db')) : ReaderAt K event id pc₀ pc db r' := by
  rcases r with _ | ⟨id', _ | (_ | st) | ⟨_ | st, kel⟩⟩
  case read.state_read.some =>
    obtain ⟨rfl, -⟩ := Prod.mk.inj (Option.some.inj hn)
    simp only [ReaderAt] at h
    split_ifs at h with hid
    · subst hid; exact h.seen
    · exact .inl h
  case read.state_read.none => obtain ⟨rfl, -⟩ := Prod.mk.inj (Option.some.inj hn); trivial
  case read.returned.none | read.returned.some => cases hn
  all_goals exact (show False from h).elim

/-- A reader reads the key state as `ReaderAt` says, anchored where the call is. -/
theorem WriterInv.read_start (hw : WriterInv K event id pc db) {id' : Id}
    {r' : KelThread Id Ev St Sig} (hn : KelThread.next K (read id' .start) db = some (r', db')) :
    ReaderAt K event id pc pc db r' := by
  obtain ⟨rfl, -⟩ := Prod.mk.inj (Option.some.inj hn)
  cases hst : db.get_key_state id' with
  | none => trivial
  | some st =>
    rcases eq_or_ne id' id with rfl | hid
    · simp only [ReaderAt, if_true]
      cases pc with
      | start => exact .inl (hw.fold_of_get_key_state hst)
      | applied _ => exact .inl (hw.1.fold_of_get_key_state hst)
      | state_written | event_logged | logged =>
        exact .inl (by simpa using hw.fold_of_get_key_state hst)
      | returned _ => exact ⟨rfl, hw.fold_of_get_key_state hst⟩
    · simp only [ReaderAt, hid, if_false]
      cases pc with
      | applied _ => exact hw.1.fold_of_get_key_state hst
      | state_written | event_logged | logged => simpa [hid] using hw.fold_of_get_key_state hst
      | start | returned _ => exact hw.fold_of_get_key_state hst

/-- A reader's section leaves the database, and the reader a reader. -/
theorem next_read {id' : Id} {rpc : ReadKel Ev St Sig} {t' : KelThread Id Ev St Sig}
    (hn : KelThread.next K (read id' rpc) db = some (t', db')) :
    db' = db ∧ ∃ rpc', t' = read id' rpc' := by
  cases rpc <;> simp only [KelThread.next, Option.some.injEq, Prod.mk.injEq, reduceCtorEq] at hn
  all_goals obtain ⟨rfl, rfl⟩ := hn; exact ⟨rfl, _, rfl⟩

/-- The call's section keeps what the database is, and what every reader holds wherever it
read. -/
theorem WriterInv.next (hw : WriterInv K event id pc db) {t' : KelThread Id Ev St Sig}
    (hn : KelThread.next K (add event id pc) db = some (t', db')) :
    ∃ pc', t' = add event id pc' ∧ WriterInv K event id pc' db' ∧
      ∀ pc₀ r, ReaderAt K event id pc₀ pc db r → ReaderAt K event id pc₀ pc' db' r := by
  cases pc with
  | start =>
    simp only [KelThread.next] at hn
    split at hn <;> obtain ⟨rfl, rfl⟩ := Option.some.inj hn |> Prod.mk.inj
    · exact ⟨_, rfl, hw, fun _ _ h => h.frame rfl nofun⟩
    · exact ⟨_, rfl, ⟨hw, ‹_›⟩, fun _ _ h => h.frame rfl nofun⟩
  | applied new_state =>
    obtain ⟨rfl, rfl⟩ := Option.some.inj hn |> Prod.mk.inj
    refine ⟨_, rfl, ?_, fun _ _ h => h.frame rfl nofun⟩
    have h := hw.1.add_kel_finalized_event event id
    rw [MemoryDatabase.add_kel_finalized_event_of_ok hw.2] at h
    exact h.of_frame rfl rfl
  | state_written | event_logged =>
    obtain ⟨rfl, rfl⟩ := Option.some.inj hn |> Prod.mk.inj
    exact ⟨_, rfl, MemoryDatabase.KelCoherent.of_frame hw rfl rfl,
      fun _ _ h => h.frame rfl nofun⟩
  | logged =>
    obtain ⟨rfl, rfl⟩ := Option.some.inj hn |> Prod.mk.inj
    exact ⟨_, rfl, hw, fun _ _ h => h.push⟩
  | returned r => cases hn

theorem Tracks.step {tracked : Option (Nat × AddKel St)}
    {c : Interleaving (KelThread Id Ev St Sig) (MemoryDatabase Id Dig Ev St Sig Nt Seal)}
    {i : Nat} {l l' : KelThread Id Ev St Sig} {s' : MemoryDatabase Id Dig Ev St Sig Nt Seal}
    (h : Tracks K event id tracked c) (hi : c.threads[i]? = some l)
    (hn : KelThread.next K l c.shared = some (l', s')) :
    Tracks K event id tracked ⟨s', c.threads.set i l'⟩ := by
  obtain ⟨pc, rs, hc, hw, hrd, hk⟩ := h
  rw [hc] at hi ⊢
  cases i with
  | zero =>
    obtain rfl := Option.some.inj (List.getElem?_cons_zero.symm.trans hi)
    obtain ⟨pc', rfl, hw', hkeep⟩ := hw.next hn
    exact ⟨pc', rs, rfl, hw', hrd, fun k pc₀ r ht hr => hkeep _ _ (hk k pc₀ r ht hr)⟩
  | succ j =>
    rw [List.getElem?_cons_succ] at hi
    obtain ⟨id', rpc, rfl⟩ := hrd l (List.getElem?_mem hi)
    obtain ⟨rfl, rpc', rfl⟩ := next_read hn
    refine ⟨pc, rs.set j _, rfl, hw,
      fun r hr => (Interleaving.mem_of_mem_set hr).elim (⟨id', rpc', ·⟩) (hrd r),
      fun k pc₀ r ht hr => ?_⟩
    rcases eq_or_ne j k with rfl | hjk
    · rw [List.getElem?_set_self (List.getElem?_eq_some_iff.1 hi).1] at hr
      cases hr
      exact (hk j pc₀ _ ht hi).next hn
    · rw [List.getElem?_set_ne hjk] at hr
      exact hk k pc₀ r ht hr

/-- A reader's read of the key state anchors it where the call is. -/
theorem Tracks.anchor
    {c : Interleaving (KelThread Id Ev St Sig) (MemoryDatabase Id Dig Ev St Sig Nt Seal)}
    {k : Nat} {id' : Id} (h : Tracks K event id none c)
    (hpc : c.threads[0]? = some (add event id pc))
    (hk : c.threads[k + 1]? = some (read id' .start)) :
    Tracks K event id (some (k, pc)) (c.step (next K) (k + 1)) := by
  obtain ⟨pc₁, rs, hc, hw, hrd, -⟩ := h
  have hn : next K (read id' .start) c.shared =
      some (read id' (.state_read (c.shared.get_key_state id')), c.shared) := rfl
  rw [Interleaving.step_of_next hk hn]
  rw [hc, List.getElem?_cons_succ] at hk
  rw [hc, List.getElem?_cons_zero] at hpc
  cases hpc
  refine ⟨pc, rs.set k _, by rw [hc]; rfl, hw,
    fun r hr => (Interleaving.mem_of_mem_set hr).elim (⟨id', _, ·⟩) (hrd r),
    fun k' pc₀ r ht hr => ?_⟩
  obtain ⟨rfl, rfl⟩ := Prod.mk.inj (Option.some.inj ht.symm)
  rw [List.getElem?_set_self (List.getElem?_eq_some_iff.1 hk).1] at hr
  cases hr
  exact hw.read_start hn

/-- **What a reader sees of a KEL being written.** One call of `add_kel_finalized_event` adds
`event` to `id` on a database whose key states are the folds of its KELs, while readers each call
`get_key_state(id')` and then `get_kel_finalized_events(All{id'})`. Under every schedule, made of
any `sched₁`, the read of the key state by reader `j`, and any `sched₂`: if the call was at `pc`
when the reader read the key state `st`, and the reader then read the KEL `kel`, then `st` is the
fold of `kel`; or `id' = id`, and either the call had not yet written the key state and pushed
`event` after the read, so that `kel` is the KEL `st` folds followed by `event`; or the reader
read the key state in the call's window, between its state write and its push, and `kel` lacks
`event`, whose key state `st` is. -/
theorem get_key_state_interleaved {db : MemoryDatabase Id Dig Ev St Sig Nt Seal}
    (hdb : db.KelCoherent K) (event : SignedEventMessage Ev Sig) (id : Id) (readers : List Id)
    (sched₁ sched₂ : List Nat) (j : Nat) {pc : AddKel St} {id' : Id} {st : St}
    {kel : Option (List (SignedEventMessage Ev Sig))} :
    let c := (concurrently db (add event id .start :: readers.map fun r => read r .start)).run
      (next K) sched₁
    c.threads[0]? = some (add event id pc) → c.threads[j]? = some (read id' .start) →
      (c.run (next K) (j :: sched₂)).threads[j]? = some (read id' (.returned (some st) kel)) →
      Seen K event id pc id' st ((kel.getD []).map (·.event_message)) := by
  intro c hpc hj hr
  have h₀ : Tracks K event id none
      (concurrently db (add event id .start :: readers.map fun r => read r .start)) :=
    ⟨.start, _, rfl, hdb, by simp, fun _ _ _ h => nomatch h⟩
  have h₁ : Tracks K event id none c :=
    Interleaving.run_induction _ h₀ (fun _ _ _ _ _ h hi hn => h.step hi hn) sched₁
  obtain _ | k := j
  · obtain ⟨_, _, hc, -⟩ := h₁
    rw [hc, List.getElem?_cons_zero] at hj
    cases hj
  obtain ⟨_, _, hc, -, -, hk⟩ :=
    Interleaving.run_induction _ (h₁.anchor hpc hj) (fun _ _ _ _ _ h hi hn => h.step hi hn) sched₂
  rw [Interleaving.run_cons, hc, List.getElem?_cons_succ] at hr
  exact hk k pc _ rfl hr

end Readers

/-- A reader of identifier `0` that runs between the inception's state write and its push. -/
def readInWindow :
    Interleaving (KelThread Nat KeyEvent IdentifierState Nat)
      (MemoryDatabase Nat Nat KeyEvent IdentifierState Nat Nat Nat) :=
  (concurrently .new [add inception 0 .start, read 0 .start]).run (next specCore) [0, 0, 1, 1]

/-- The reader of `readInWindow` reads the key state with the inception's call in its window,
and sees the key state the inception gives with a KEL that lacks it. -/
theorem get_key_state_in_window :
    Seen specCore inception 0 .state_written 0 ⟨0, some 7⟩ [] :=
  have hnew : (MemoryDatabase.new :
      MemoryDatabase Nat Nat KeyEvent IdentifierState Nat Nat Nat).KelCoherent specCore :=
    MemoryDatabase.kelCoherent_new
  get_key_state_interleaved hnew inception 0 [0] [0, 0] [1] 1 (by decide) (by decide)
    (show _ = some (read 0 (.returned _ none)) by decide)

/-- **The key state is visible before its KEL entry.** A reader that runs between the
inception's state write and its push reads the key state at sequence number `0`, and then no
KEL. -/
theorem get_key_state_ahead_of_kel :
    readInWindow.threads[1]? = some (read 0 (.returned (some ⟨0, some 7⟩) none)) := by
  decide

end KelThread

end Keriox
