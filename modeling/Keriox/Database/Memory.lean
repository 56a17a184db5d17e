import Keriox.Database.Escrow

/-!
# The in-memory database: `MemoryDatabase`

`MemoryDatabase` keeps each identifier's KEL (`events`) and key state (`states`), the receipts by
`(identifier, sn)`, the shared log, and a registry of the escrow tables it has created by name.
Each table sits behind its own lock; this module runs the operations one at a time,
`Keriox.Concurrency.Kel` and `Keriox.Concurrency.Escrow` run their lock-protected sections
interleaved, and `Keriox.Concurrency.System` runs both kinds together.

`add_kel_finalized_event` reads the key state (the default one when there is none), applies the
event, and only then writes: the new state, the event in the log, the event at the end of the
KEL. An `apply` that fails returns its error before any write.

`add_receipt_t` and `add_receipt_nt` push a receipt onto the list under `(id, sn)` whether or not
it is there already, as `log_receipt_internal` extends the couplets under a digest: a receipt sent
twice is listed twice, and only the set of couplets follows set-union and set-difference. A
`Range` query compares sequence numbers with `start + limit` computed in `u64`.

An escrow handle is a pair of `Arc`s, its own sequenced table and the database's log. The tables
`create_escrow_db` allocates are modelled as a heap, `escrows`, and a handle by the address of
its table; every call allocates a new, empty table and files it in the registry under the name,
replacing what was filed there, which nothing reads.

A write leaves the log as it is or makes one of the log's own writes, and none of those drops an
event, so what `add_kel_finalized_event` logs before it pushes stays fetchable, and so does what
an escrow insert logs after it files the digest. A handle's table changes only by writes made
through that handle.

## Main definitions

* `MemoryDatabase.add_kel_finalized_event`, `add_receipt_t`, `add_receipt_nt`,
  `get_key_state`, `get_kel_finalized_events`, `create_escrow_db`
* `MemoryDatabase.Op`, `MemoryDatabase.run`: every write the database and its handles offer
* `MemoryDatabase.KelCoherent`: every key state is the fold of `apply` over its KEL
* `MemoryDatabase.KelLogged`: every event of every KEL is in the log
* `MemoryDatabase.accepted`: the KEL the spec gives the events added to an identifier
* `MemoryDatabase.Op.through`: the escrow write a database write makes through a handle
* `MemoryDatabase.save_reply`, `get_reply` over the `replies` table, and `ReplyCore`: what they
  read of a reply
* `MemoryDatabase.Op.recorded`: the couplets under a digest as a set, as §4.A has them

## Main results

* `MemoryDatabase.get_key_state_eq_fold`: every run from `new()` keeps every key state the fold
  of its KEL, and a failed `add_kel_finalized_event` writes nothing
* `MemoryDatabase.kel_run`: KELs are append-only, extended only by the events added to them, in
  call order
* `MemoryDatabase.kel_run_accepted`: in a coherent database, the KEL is extended by exactly the
  events `apply` accepts
* `MemoryDatabase.escrow_create_escrow_db`: `create_escrow_db` hands out an empty table whatever
  was escrowed under the name before
* `MemoryDatabase.get_kel_finalized_events_range`: a range query returns the events in
  `[start, start + limit)` over the naturals when the sum fits in a `u64`, and none when it wraps
* `MemoryDatabase.receipts_run`: the receipts under a key are those filed there, in call order,
  repeats included
* `MemoryDatabase.couplets_run`: the couplets under a digest, as a set, are the spec's set
* `MemoryDatabase.kel_event_in_log`: every event of every KEL can be fetched from the log by its
  digest, with its signatures, after any run from `new()`
* `MemoryDatabase.escrow_contains_get`: what `contains` finds in a handle's table, `get` returns,
  unless `save_digest` filed it
* `MemoryDatabase.escrow_run_through`: a handle's table is what the writes through that handle
  alone make of it
* `MemoryDatabase.get_trans_receipts_run`: the log never holds a transferable receipt
* `MemoryDatabase.get_reply_save_replies`: `get_reply` returns the last reply saved for the
  identifier and signer
-/

namespace Keriox

/-- A `MemoryEscrowDb` handed out by `create_escrow_db`: the address of its `Arc`'d sequenced
table. Its log is the database's own. -/
structure EscrowHandle where
  sequenced : Nat
  deriving DecidableEq, Repr

/-- `QueryParameters`: a whole KEL, the events at one sequence number, or a range of them. -/
inductive QueryParameters (Id : Type) where
  | All (id : Id)
  | BySn (id : Id) (sn : UInt64)
  | Range (id : Id) (start limit : UInt64)

/-- `MemoryDatabase`: KELs and key states by identifier, receipts by `(identifier, sn)`, the log,
the registry of escrow tables by name, and the heap of escrow tables. The `replies` table of the
`query` feature sits behind its own lock and is touched by `save_reply` and `get_reply` only; they
are modelled over it alone, at the end of this module. -/
structure MemoryDatabase (Id Dig Ev St Sig Nt Seal : Type) where
  events : HashMap Id (List (SignedEventMessage Ev Sig))
  states : HashMap Id St
  receipts_t : HashMap (Id × UInt64) (List (Transferable Seal Sig))
  receipts_nt : HashMap (Id × UInt64) (List (SignedNontransferableReceipt Dig Nt))
  log_db : MemoryLogDatabase Dig Ev Sig Nt Seal
  escrow_db : HashMap String Nat
  escrows : List (MemorySequencedEventDb Id Dig)

namespace MemoryDatabase

variable {Id Dig Ev St Sig Nt Seal : Type} [DecidableEq Id] [DecidableEq Dig]
variable (K : KeriCore Id Dig Ev St)

/-- `MemoryDatabase::new()`. -/
def new : MemoryDatabase Id Dig Ev St Sig Nt Seal := ⟨.new, .new, .new, .new, .new, .new, []⟩

/-- The `current_state` of `add_kel_finalized_event`: the identifier's key state, the default one
when it has none. -/
def current_state (db : MemoryDatabase Id Dig Ev St Sig Nt Seal) (id : Id) : St :=
  (db.states.get id).getD K.default

/-- `add_kel_finalized_event`: `apply` the event to the `current_state`; on success write the new
state, log the event, and push it onto the KEL. -/
def add_kel_finalized_event (db : MemoryDatabase Id Dig Ev St Sig Nt Seal)
    (event : SignedEventMessage Ev Sig) (id : Id) :
    Except Error Unit × MemoryDatabase Id Dig Ev St Sig Nt Seal :=
  match K.apply (db.current_state K id) event.event_message with
  | .error err => (.error err, db)
  | .ok new_state =>
    (.ok (), { db with states := db.states.insert id new_state,
                       log_db := db.log_db.log_event_internal K event,
                       events := db.events.push id event })

/-- `add_receipt_t`: the receipt's seal and signatures are pushed under `(id, sn)`. -/
def add_receipt_t (db : MemoryDatabase Id Dig Ev St Sig Nt Seal)
    (receipt : SignedTransferableReceipt Dig Seal Sig) (id : Id) :
    MemoryDatabase Id Dig Ev St Sig Nt Seal :=
  let transferable := Transferable.Seal receipt.validator_seal receipt.signatures
  { db with receipts_t := db.receipts_t.push (id, receipt.body.sn) transferable }

/-- `add_receipt_nt`: the receipt is pushed under `(id, sn)`. -/
def add_receipt_nt (db : MemoryDatabase Id Dig Ev St Sig Nt Seal)
    (receipt : SignedNontransferableReceipt Dig Nt) (id : Id) :
    MemoryDatabase Id Dig Ev St Sig Nt Seal :=
  { db with receipts_nt := db.receipts_nt.push (id, receipt.body.sn) receipt }

/-- `get_key_state`. -/
def get_key_state (db : MemoryDatabase Id Dig Ev St Sig Nt Seal) (id : Id) : Option St :=
  db.states.get id

/-- `get_kel_finalized_events`. `start + limit` is `u64` addition: it wraps here, as in a release
build, where a debug build panics. -/
def get_kel_finalized_events (db : MemoryDatabase Id Dig Ev St Sig Nt Seal) :
    QueryParameters Id → Option (List (SignedEventMessage Ev Sig))
  | .All id => db.events.get id
  | .BySn id sn => (db.events.get id).map (·.filter fun e => K.get_sn e.event_message == sn)
  | .Range id start limit => (db.events.get id).map (·.filter fun e =>
      decide (K.get_sn e.event_message ≥ start) &&
        decide (K.get_sn e.event_message < start + limit))

/-- `get_receipts_t`: only by sequence number. -/
def get_receipts_t (db : MemoryDatabase Id Dig Ev St Sig Nt Seal) :
    QueryParameters Id → Option (List (Transferable Seal Sig))
  | .BySn id sn => db.receipts_t.get (id, sn)
  | _ => none

/-- `get_receipts_nt`: only by sequence number. -/
def get_receipts_nt (db : MemoryDatabase Id Dig Ev St Sig Nt Seal) :
    QueryParameters Id → Option (List (SignedNontransferableReceipt Dig Nt))
  | .BySn id sn => db.receipts_nt.get (id, sn)
  | _ => none

/-- `create_escrow_db`: a new, empty table is allocated and filed under the name, replacing what
was filed there; the handle holds it and the database's log. -/
def create_escrow_db (db : MemoryDatabase Id Dig Ev St Sig Nt Seal) (table_name : String) :
    EscrowHandle × MemoryDatabase Id Dig Ev St Sig Nt Seal :=
  (⟨db.escrows.length⟩,
    { db with escrows := db.escrows ++ [.new],
              escrow_db := db.escrow_db.insert table_name db.escrows.length })

/-- What a handle reaches: its table and the database's log. -/
def escrow (db : MemoryDatabase Id Dig Ev St Sig Nt Seal) (h : EscrowHandle) :
    MemoryEscrowDb Id Dig Ev Sig Nt Seal :=
  ⟨db.escrows.getD h.sequenced .new, db.log_db⟩

/-- A write through a handle: to its table and to the database's log. -/
def escrow_step (db : MemoryDatabase Id Dig Ev St Sig Nt Seal) (h : EscrowHandle)
    (op : MemoryEscrowDb.Op Id Dig Ev Sig) : MemoryDatabase Id Dig Ev St Sig Nt Seal :=
  let after := (db.escrow h).step K op
  { db with escrows := db.escrows.set h.sequenced after.sequenced, log_db := after.log }

/-- A fresh database on which `create_escrow_db("escrow")` is called, `escrowed₁` inserted
through the handle, and `create_escrow_db("escrow")` called again: the two handles. -/
def escrowCreatedTwice :
    (EscrowHandle × EscrowHandle) × MemoryDatabase Nat Nat KeyEvent IdentifierState Nat Nat Nat :=
  let (h₁, db) := new.create_escrow_db "escrow"
  let (h₂, db) :=
    (db.escrow_step specCore h₁ (.insert MemoryEscrowDb.escrowed₁)).create_escrow_db
    "escrow"
  ((h₁, h₂), db)

/-- **A second `create_escrow_db` under a name hides what the first escrowed**: the event
inserted through the first handle is in its table, and not in the table of the second. -/
theorem create_escrow_db_hides_entries :
    (escrowCreatedTwice.2.escrow escrowCreatedTwice.1.1).contains 0 1 11 = true ∧
      (escrowCreatedTwice.2.escrow escrowCreatedTwice.1.2).contains 0 1 11 = false ∧
      (escrowCreatedTwice.2.escrow escrowCreatedTwice.1.2).get 0 1 = [] := by
  decide

/-- Every key state is the fold of `apply` over the identifier's KEL, and an identifier has a key
state exactly when it has a KEL. -/
def KelCoherent (db : MemoryDatabase Id Dig Ev St Sig Nt Seal) : Prop :=
  ∀ id, (db.get_key_state id).map .ok =
    (db.get_kel_finalized_events K (.All id)).map fun kel => K.fold (kel.map (·.event_message))

/-- Every event of every KEL is in the log: its digest, when it has one, is a key of the event
table. -/
def KelLogged (db : MemoryDatabase Id Dig Ev St Sig Nt Seal) : Prop :=
  ∀ id e d, e ∈ db.events.getD id → K.digest e.event_message = .ok d →
    (db.log_db.get_signed_event d).isSome

section Spec

variable {K}
variable {db : MemoryDatabase Id Dig Ev St Sig Nt Seal}
variable {event : SignedEventMessage Ev Sig} {id : Id}

theorem add_kel_finalized_event_of_error {err : Error}
    (h : K.apply (db.current_state K id) event.event_message = .error err) :
    db.add_kel_finalized_event K event id = (.error err, db) := by
  simp only [add_kel_finalized_event, h]

theorem add_kel_finalized_event_of_ok {new_state : St}
    (h : K.apply (db.current_state K id) event.event_message = .ok new_state) :
    db.add_kel_finalized_event K event id =
      (.ok (), { db with states := db.states.insert id new_state,
                         log_db := db.log_db.log_event_internal K event,
                         events := db.events.push id event }) := by
  simp only [add_kel_finalized_event, h]

/-- A failed `add_kel_finalized_event` writes nothing. -/
theorem add_kel_finalized_event_error {err : Error}
    (h : (db.add_kel_finalized_event K event id).1 = .error err) :
    (db.add_kel_finalized_event K event id).2 = db := by
  cases happ : K.apply (db.current_state K id) event.event_message with
  | error err' => rw [add_kel_finalized_event_of_error happ]
  | ok st => rw [add_kel_finalized_event_of_ok happ] at h; cases h

omit [DecidableEq Dig] in
/-- In a coherent database, the fold of an identifier's KEL (the empty one when it has none) is
the key state `add_kel_finalized_event` reads. -/
theorem KelCoherent.fold_kel (h : db.KelCoherent K) (id : Id) :
    K.fold (((db.events.get id).getD []).map (·.event_message)) = .ok (db.current_state K id) := by
  have hid := h id
  simp only [get_key_state, get_kel_finalized_events] at hid
  unfold current_state
  cases hs : db.states.get id <;> cases he : db.events.get id <;> simp_all

omit [DecidableEq Dig] in
/-- A key state read from a database whose key states are the folds of their KELs is the fold of
the identifier's KEL. -/
theorem KelCoherent.fold_of_get_key_state (h : db.KelCoherent K) {st : St}
    (hst : db.get_key_state id = some st) :
    K.fold ((db.events.getD id).map (·.event_message)) = .ok st := by
  have hf := h.fold_kel id
  rwa [current_state, show db.states.get id = some st from hst, Option.getD_some] at hf

omit [DecidableEq Dig] in
theorem KelCoherent.of_frame {db' : MemoryDatabase Id Dig Ev St Sig Nt Seal} (h : db.KelCoherent K)
    (he : db'.events = db.events) (hs : db'.states = db.states) : db'.KelCoherent K := by
  intro id
  simpa only [KelCoherent, get_key_state, get_kel_finalized_events, he, hs] using h id

theorem KelCoherent.add_kel_finalized_event (h : db.KelCoherent K)
    (event : SignedEventMessage Ev Sig)
    (id : Id) : (db.add_kel_finalized_event K event id).2.KelCoherent K := by
  cases happ : K.apply (db.current_state K id) event.event_message with
  | error err => rw [add_kel_finalized_event_of_error happ]; exact h
  | ok new_state =>
    rw [add_kel_finalized_event_of_ok happ]
    intro id'
    simp only [get_key_state, get_kel_finalized_events, HashMap.get_insert, HashMap.get_push]
    split_ifs with hid
    · subst hid
      simp [List.map_append, K.fold_append_singleton_of_ok (h.fold_kel id'), happ]
    · exact h id'

omit [DecidableEq Dig] in
theorem kelCoherent_new : (new : MemoryDatabase Id Dig Ev St Sig Nt Seal).KelCoherent K :=
  fun _ => rfl

/-- `add_kel_finalized_event` logs its event before it pushes it onto the KEL, and drops no key of
the log. -/
theorem KelLogged.add_kel_finalized_event (h : db.KelLogged K) (event : SignedEventMessage Ev Sig)
    (id : Id) : (db.add_kel_finalized_event K event id).2.KelLogged K := by
  cases happ : K.apply (db.current_state K id) event.event_message with
  | error err => rwa [add_kel_finalized_event_of_error happ]
  | ok new_state =>
    rw [add_kel_finalized_event_of_ok happ]
    intro id' e d he hd
    rcases HashMap.mem_getD_push.1 he with he | ⟨-, rfl⟩
    · exact MemoryLogDatabase.get_signed_event_log_event_internal_isSome (h id' e d he hd)
    · simp [MemoryLogDatabase.get_signed_event_log_event_internal_of_digest hd]

theorem kelLogged_new : (new : MemoryDatabase Id Dig Ev St Sig Nt Seal).KelLogged K :=
  fun _ _ _ he => by simp [new, HashMap.getD] at he

end Spec

/-! ## Queries by sequence number -/

section Query

/-- The test of a `Range` query, `sn >= start && sn < start + limit` with `u64` addition, holds of
the sequence numbers in `[start, start + limit)` over the naturals when the sum fits in a `u64`,
and of none when it wraps. -/
theorem in_range_iff (sn start limit : UInt64) :
    (sn ≥ start ∧ sn < start + limit) ↔
      start.toNat ≤ sn.toNat ∧ sn.toNat < start.toNat + limit.toNat ∧
        start.toNat + limit.toNat < 2 ^ 64 := by
  have hs : start.toNat < 2 ^ 64 := start.toNat_lt_size
  have hl : limit.toNat < 2 ^ 64 := limit.toNat_lt_size
  have hsum : (start + limit).toNat = (start.toNat + limit.toNat) % 2 ^ 64 := rfl
  change start.toNat ≤ sn.toNat ∧ sn.toNat < (start + limit).toNat ↔ _
  rw [hsum]
  by_cases h : start.toNat + limit.toNat < 2 ^ 64
  · rw [Nat.mod_eq_of_lt h]; omega
  · rw [Nat.mod_eq_sub_mod (by omega), Nat.mod_eq_of_lt (by omega)]; omega

omit [DecidableEq Dig] in
/-- **What a range query returns.** `get_kel_finalized_events(Range{id, start, limit})` is, in KEL
order, the events of `All{id}` whose sequence number lies in `[start, start + limit)` over the
naturals, when `start + limit` fits in a `u64`; when the sum wraps, it is none of them. -/
theorem get_kel_finalized_events_range (db : MemoryDatabase Id Dig Ev St Sig Nt Seal) (id : Id)
    (start limit : UInt64) :
    db.get_kel_finalized_events K (.Range id start limit) =
      (db.get_kel_finalized_events K (.All id)).map (·.filter fun e =>
        decide (start.toNat ≤ (K.get_sn e.event_message).toNat ∧
          (K.get_sn e.event_message).toNat < start.toNat + limit.toNat ∧
          start.toNat + limit.toNat < 2 ^ 64)) := by
  simp only [get_kel_finalized_events, ← Bool.decide_and, in_range_iff]

omit [DecidableEq Dig] in
/-- `BySn{id, sn}` is `Range{id, sn, 1}` for every `sn` whose successor fits in a `u64`, that is
every `sn` but `u64::MAX`. -/
theorem get_kel_finalized_events_by_sn (db : MemoryDatabase Id Dig Ev St Sig Nt Seal) (id : Id)
    {sn : UInt64} (hsn : sn.toNat + 1 < 2 ^ 64) :
    db.get_kel_finalized_events K (.BySn id sn) =
      db.get_kel_finalized_events K (.Range id sn 1) := by
  rw [get_kel_finalized_events_range]
  simp only [get_kel_finalized_events]
  congr 1
  funext kel
  refine List.filter_congr fun e _ => ?_
  have h1 : (1 : UInt64).toNat = 1 := rfl
  rw [h1, Bool.eq_iff_iff, beq_iff_eq, decide_eq_true_iff]
  exact ⟨fun h => by subst h; omega, fun h => UInt64.toNat.inj (by omega)⟩

end Query

/-- An inception of identifier `0` with digest `7`, and an interaction after it with digest
`8`. -/
def inceptedThenInteracted : SignedEventMessage KeyEvent Nat × SignedEventMessage KeyEvent Nat :=
  (⟨⟨0, 0, .inception, none, some 7⟩, []⟩, ⟨⟨0, 1, .interaction, some 7, some 8⟩, []⟩)

/-- A fresh database after the inception and the interaction are added to the KEL of `0`. -/
def interacted : MemoryDatabase Nat Nat KeyEvent IdentifierState Nat Nat Nat :=
  ((new.add_kel_finalized_event specCore inceptedThenInteracted.1 0).2.add_kel_finalized_event
    specCore inceptedThenInteracted.2 0).2

/-- **A range whose end overflows returns nothing.** On the KEL of an inception and an
interaction, `Range{0, 1, u64::MAX}` asks for the sequence numbers from `1` below `2^64`, where
the KEL holds the interaction; `1 + u64::MAX` wraps to `0` and the query returns no event. -/
theorem get_kel_finalized_events_range_wraps :
    (interacted.get_kel_finalized_events specCore (.All 0)).map (·.filter fun e =>
        decide (1 ≤ (specCore.get_sn e.event_message).toNat ∧
          (specCore.get_sn e.event_message).toNat < 1 + 18446744073709551615)) =
      some [inceptedThenInteracted.2] ∧
    interacted.get_kel_finalized_events specCore (.Range 0 1 18446744073709551615) = some [] := by
  decide

variable [DecidableEq Nt]

/-- Every write the database offers: its own, those through `get_log_db()`, the creation of an
escrow and the writes through an escrow handle. -/
inductive Op (Id Dig Ev Sig Nt Seal : Type) where
  | add_kel_finalized_event (event : SignedEventMessage Ev Sig) (id : Id)
  | add_receipt_t (receipt : SignedTransferableReceipt Dig Seal Sig) (id : Id)
  | add_receipt_nt (receipt : SignedNontransferableReceipt Dig Nt) (id : Id)
  | log (w : MemoryLogDatabase.Write Dig Ev Sig Nt)
  | create_escrow_db (table_name : String)
  | escrow (h : EscrowHandle) (op : MemoryEscrowDb.Op Id Dig Ev Sig)

/-- One write, its result dropped. -/
def step (db : MemoryDatabase Id Dig Ev St Sig Nt Seal) :
    Op Id Dig Ev Sig Nt Seal → MemoryDatabase Id Dig Ev St Sig Nt Seal
  | .add_kel_finalized_event e id => (db.add_kel_finalized_event K e id).2
  | .add_receipt_t r id => db.add_receipt_t r id
  | .add_receipt_nt r id => db.add_receipt_nt r id
  | .log w => { db with log_db := db.log_db.write K w }
  | .create_escrow_db name => (db.create_escrow_db name).2
  | .escrow h op => db.escrow_step K h op

/-- Writes made one after another. -/
def run (db : MemoryDatabase Id Dig Ev St Sig Nt Seal) (ops : List (Op Id Dig Ev Sig Nt Seal)) :
    MemoryDatabase Id Dig Ev St Sig Nt Seal :=
  ops.foldl (step K) db

/-- The event a write pushes onto the KEL of `id` when it succeeds, if any. -/
def Op.kel_event_at (id : Id) : Op Id Dig Ev Sig Nt Seal → Option (SignedEventMessage Ev Sig)
  | .add_kel_finalized_event e id' => if id = id' then some e else none
  | _ => none

/-- The KEL the spec gives an identifier after the events `es` are added to it in turn: each is
appended when `apply` accepts it on the key state of the KEL so far, and dropped otherwise. -/
def accepted (kel es : List (SignedEventMessage Ev Sig)) : List (SignedEventMessage Ev Sig) :=
  es.foldl (fun kel e =>
    match K.fold ((kel ++ [e]).map (·.event_message)) with
    | .ok _ => kel ++ [e]
    | .error _ => kel) kel

/-- Writes of every kind from a fresh database: the inception and the interaction of `0` added to
its KEL, a table created with `escrowed₁` inserted through its handle and the digest `13` saved
bare under `(0, 2)`, a second table with `escrowed₂` inserted through it, and the inception of
`0` added again, which `apply` rejects. -/
def mixedWrites : List (Op Nat Nat KeyEvent Nat Nat Nat) :=
  [.add_kel_finalized_event inceptedThenInteracted.1 0, .create_escrow_db "escrow",
    .escrow ⟨0⟩ (.insert MemoryEscrowDb.escrowed₁),
    .add_kel_finalized_event inceptedThenInteracted.2 0, .escrow ⟨0⟩ (.save_digest 0 2 13),
    .create_escrow_db "other", .escrow ⟨1⟩ (.insert MemoryEscrowDb.escrowed₂),
    .add_kel_finalized_event inceptedThenInteracted.1 0]

/-- A fresh database after `mixedWrites`. -/
def mixed : MemoryDatabase Nat Nat KeyEvent IdentifierState Nat Nat Nat :=
  new.run specCore mixedWrites

section Run

variable {K}
variable {db : MemoryDatabase Id Dig Ev St Sig Nt Seal}

theorem KelCoherent.step (h : db.KelCoherent K) (op : Op Id Dig Ev Sig Nt Seal) :
    (db.step K op).KelCoherent K := by
  cases op with
  | add_kel_finalized_event e id => exact h.add_kel_finalized_event e id
  | add_receipt_t r id => exact h.of_frame rfl rfl
  | add_receipt_nt r id => exact h.of_frame rfl rfl
  | log w => exact h.of_frame rfl rfl
  | create_escrow_db name => exact h.of_frame rfl rfl
  | escrow h' op => exact h.of_frame rfl rfl

theorem KelCoherent.run (h : db.KelCoherent K) (ops : List (Op Id Dig Ev Sig Nt Seal)) :
    (db.run K ops).KelCoherent K := by
  induction ops generalizing db with
  | nil => exact h
  | cons op ops ih => exact ih (h.step op)

/-- **The key state is the fold of the KEL.** After any sequence of writes from `new()`, an
identifier has a key state exactly when it has a KEL, and its key state is then the fold of
`apply` over the KEL from the default state; and an `add_kel_finalized_event` that returns an
error leaves the database as it was. -/
theorem get_key_state_eq_fold (ops : List (Op Id Dig Ev Sig Nt Seal)) :
    (∀ id, ((new.run K ops).get_key_state id).map .ok =
      ((new.run K ops : MemoryDatabase Id Dig Ev St Sig Nt Seal).get_kel_finalized_events K
        (.All id)).map fun kel => K.fold (kel.map (·.event_message))) ∧
    ∀ (db : MemoryDatabase Id Dig Ev St Sig Nt Seal) event id (err : Error),
      (db.add_kel_finalized_event K event id).1 = .error err →
        (db.add_kel_finalized_event K event id).2 = db :=
  ⟨kelCoherent_new.run ops, fun _ _ _ _ => add_kel_finalized_event_error⟩

/-- A write extends the KEL of `id` by the event it adds to `id`, or leaves it. -/
theorem kel_step (db : MemoryDatabase Id Dig Ev St Sig Nt Seal) (op : Op Id Dig Ev Sig Nt Seal)
    (id : Id) :
    ∃ added, ((db.step K op).get_kel_finalized_events K (.All id)).getD [] =
      (db.get_kel_finalized_events K (.All id)).getD [] ++ added ∧
      added.Sublist (op.kel_event_at id).toList := by
  cases op with
  | add_kel_finalized_event e id' =>
    cases happ : K.apply (db.current_state K id') e.event_message with
    | error err => exact ⟨[], by rw [step, add_kel_finalized_event_of_error happ, List.append_nil],
        List.nil_sublist _⟩
    | ok st =>
      refine ⟨if id = id' then [e] else [], ?_, ?_⟩
      · simp only [step, add_kel_finalized_event_of_ok happ, get_kel_finalized_events,
          HashMap.get_push]
        split_ifs with h
        · subst h; simp
        · simp
      · simp only [Op.kel_event_at]; split_ifs <;> simp
  | _ => exact ⟨[], (List.append_nil _).symm, List.nil_sublist _⟩

/-- **KELs are append-only.** After any sequence of writes, the KEL of every identifier is the KEL
before followed by some of the events added to that identifier, in call order: no write removes,
replaces or reorders an event of a KEL, and only `add_kel_finalized_event` on the identifier
itself extends it. -/
theorem kel_run (db : MemoryDatabase Id Dig Ev St Sig Nt Seal)
    (ops : List (Op Id Dig Ev Sig Nt Seal)) (id : Id) :
    ∃ added, ((db.run K ops).get_kel_finalized_events K (.All id)).getD [] =
      (db.get_kel_finalized_events K (.All id)).getD [] ++ added ∧
      added.Sublist (ops.filterMap (Op.kel_event_at id)) := by
  induction ops generalizing db with
  | nil => exact ⟨[], (List.append_nil _).symm, List.nil_sublist _⟩
  | cons op ops ih =>
    obtain ⟨a₁, h₁, s₁⟩ := kel_step db op id
    obtain ⟨a₂, h₂, s₂⟩ := ih (db.step K op)
    refine ⟨a₁ ++ a₂, by rw [← List.append_assoc, ← h₁]; exact h₂, ?_⟩
    rw [List.filterMap_eq_flatMap_toList, List.flatMap_cons, ← List.filterMap_eq_flatMap_toList]
    exact s₁.append s₂

/-- In a coherent database, a write leaves the KEL of `id` as the spec's `accepted` does with the
event it adds to `id`. -/
theorem kel_step_accepted (h : db.KelCoherent K) (op : Op Id Dig Ev Sig Nt Seal) (id : Id) :
    ((db.step K op).get_kel_finalized_events K (.All id)).getD [] =
      accepted K ((db.get_kel_finalized_events K (.All id)).getD [])
        (op.kel_event_at id).toList := by
  cases op with
  | add_kel_finalized_event e id' =>
    -- on its own identifier, the call appends exactly when `apply` accepts the fold of the KEL
    have hfold := K.fold_append_singleton_of_ok (h.fold_kel id') e.event_message
    by_cases hid : id = id' <;>
      cases happ : K.apply (db.current_state K id') e.event_message <;>
      simp [step, add_kel_finalized_event_of_error, add_kel_finalized_event_of_ok, happ, hid,
        Op.kel_event_at, accepted, get_kel_finalized_events, hfold]
  | _ => rfl

/-- **The KEL is the events `apply` accepted.** From a database whose key states are the folds of
their KELs, as every run from `new()` leaves it, after any sequence of writes the KEL of every
identifier is the KEL before followed by exactly those of the events added to it, in call order,
that `apply` accepted on the key state of the KEL so far: every rejected event is dropped, and
every accepted one is kept. -/
theorem kel_run_accepted (db : MemoryDatabase Id Dig Ev St Sig Nt Seal) (h : db.KelCoherent K)
    (ops : List (Op Id Dig Ev Sig Nt Seal)) (id : Id) :
    ((db.run K ops).get_kel_finalized_events K (.All id)).getD [] =
      accepted K ((db.get_kel_finalized_events K (.All id)).getD [])
        (ops.filterMap (Op.kel_event_at id)) := by
  induction ops generalizing db with
  | nil => rfl
  | cons op ops ih =>
    rw [run, List.foldl_cons, ← run, ih _ (h.step op), kel_step_accepted h, accepted, accepted,
      accepted, ← List.foldl_append, List.filterMap_cons]
    cases op.kel_event_at id <;> rfl

/-- `kel_run_accepted` from `new()` through `mixedWrites`, at identifier `0`. -/
theorem mixed_kel_accepted :
    (new : MemoryDatabase Nat Nat KeyEvent IdentifierState Nat Nat Nat).KelCoherent specCore ∧
      (mixed.get_kel_finalized_events specCore (.All 0)).getD [] =
        accepted specCore (((new : MemoryDatabase Nat Nat KeyEvent IdentifierState Nat Nat Nat
          ).get_kel_finalized_events specCore (.All 0)).getD [])
          (mixedWrites.filterMap (Op.kel_event_at 0)) :=
  ⟨kelCoherent_new, kel_run_accepted new kelCoherent_new mixedWrites 0⟩

end Run

/-! ## Receipts -/

/-- The receipt a write files in `receipts_nt` under `key`, if any. -/
def Op.receipt_nt_at (key : Id × UInt64) :
    Op Id Dig Ev Sig Nt Seal → Option (SignedNontransferableReceipt Dig Nt)
  | .add_receipt_nt r id => if key = (id, r.body.sn) then some r else none
  | _ => none

/-- The value a write files in `receipts_t` under `key`, if any. -/
def Op.receipt_t_at (key : Id × UInt64) : Op Id Dig Ev Sig Nt Seal → Option (Transferable Seal Sig)
  | .add_receipt_t r id =>
    if key = (id, r.body.sn) then some (.Seal r.validator_seal r.signatures) else none
  | _ => none

/-- The couplets under the digest `d` as a set, as §4.A has them, after a write: only the log's
receipt writes and removals change them. -/
def Op.recorded (d : Dig) (s : Finset Nt) : Op Id Dig Ev Sig Nt Seal → Finset Nt
  | .log w => w.recorded d s
  | _ => s

section Receipts

variable (db : MemoryDatabase Id Dig Ev St Sig Nt Seal)

omit [DecidableEq Nt] in
/-- `add_kel_finalized_event` writes no receipt and no couplet. -/
theorem add_kel_finalized_event_receipts (event : SignedEventMessage Ev Sig) (id : Id) :
    (db.add_kel_finalized_event K event id).2.receipts_nt = db.receipts_nt ∧
      (db.add_kel_finalized_event K event id).2.receipts_t = db.receipts_t ∧
      (db.add_kel_finalized_event K event id).2.log_db.nontrans_couplets =
        db.log_db.nontrans_couplets := by
  unfold add_kel_finalized_event; split <;> simp

/-- A write appends to each receipt table what it files there. -/
theorem receipts_step (op : Op Id Dig Ev Sig Nt Seal) (key : Id × UInt64) :
    (db.step K op).receipts_nt.getD key =
        db.receipts_nt.getD key ++ (op.receipt_nt_at key).toList ∧
      (db.step K op).receipts_t.getD key =
        db.receipts_t.getD key ++ (op.receipt_t_at key).toList := by
  cases op with
  | add_kel_finalized_event e id =>
    simp [step, Op.receipt_nt_at, Op.receipt_t_at, add_kel_finalized_event_receipts K]
  | add_receipt_t r id | add_receipt_nt r id =>
    simp only [step, add_receipt_t, add_receipt_nt, HashMap.getD_push, Op.receipt_nt_at,
      Op.receipt_t_at]
    split_ifs with hk <;> simp [hk]
  | _ => simp [step, create_escrow_db, escrow_step, Op.receipt_nt_at, Op.receipt_t_at]

/-- A write changes the set of couplets under a digest as `Op.recorded` says. -/
theorem couplets_step (op : Op Id Dig Ev Sig Nt Seal) (d : Dig) :
    ((db.step K op).log_db.nontrans_couplets.getD d).toFinset =
      op.recorded d (db.log_db.nontrans_couplets.getD d).toFinset := by
  cases op with
  | log w => exact MemoryLogDatabase.toFinset_write w d
  | add_kel_finalized_event e id =>
    simp [step, Op.recorded, add_kel_finalized_event_receipts K]
  | _ => simp [step, add_receipt_t, add_receipt_nt, create_escrow_db, escrow_step, escrow,
      Op.recorded]

/-- **Receipts are filed as sent.** After any sequence of writes, `get_receipts_nt(BySn{id, sn})`
and `get_receipts_t(BySn{id, sn})` list what they listed before followed by every receipt filed
under `(id, sn)`, in call order, a receipt sent twice listed twice. -/
theorem receipts_run (ops : List (Op Id Dig Ev Sig Nt Seal)) (id : Id) (sn : UInt64) :
    ((db.run K ops).get_receipts_nt (.BySn id sn)).getD [] =
        (db.get_receipts_nt (.BySn id sn)).getD [] ++ ops.filterMap (Op.receipt_nt_at (id, sn)) ∧
      ((db.run K ops).get_receipts_t (.BySn id sn)).getD [] =
        (db.get_receipts_t (.BySn id sn)).getD [] ++ ops.filterMap (Op.receipt_t_at (id, sn)) := by
  induction ops generalizing db with
  | nil => simp [run]
  | cons op ops ih =>
    obtain ⟨hnt, ht⟩ := receipts_step K db op (id, sn)
    simp only [HashMap.getD] at hnt ht
    simp only [get_receipts_nt, get_receipts_t, run, List.foldl_cons,
      List.filterMap_eq_flatMap_toList, List.flatMap_cons, ← List.append_assoc] at ih ⊢
    rw [← hnt, ← ht]
    exact ih _

/-- **The couplets, as a set, are the spec's.** After any sequence of writes, the couplets
`get_nontrans_couplets(d)` returns, taken as a set, are those before with each logged receipt's
couplets added and each removal's couplets deleted, in call order. -/
theorem couplets_run (ops : List (Op Id Dig Ev Sig Nt Seal)) (d : Dig) :
    (((db.run K ops).log_db.get_nontrans_couplets d).getD []).toFinset =
      ops.foldl (fun s op => op.recorded d s)
        ((db.log_db.get_nontrans_couplets d).getD []).toFinset := by
  induction ops generalizing db with
  | nil => rfl
  | cons op ops ih =>
    simp only [run, List.foldl_cons] at ih ⊢
    rw [ih]
    exact congrArg (ops.foldl _) (couplets_step K db op d)

end Receipts

/-- A nontransferable receipt of the event with digest `7` at sequence number `0`, by the couplet
`3`, and a transferable one under the seal `5` with the signature `4`. -/
def receiptsOf₇ : SignedNontransferableReceipt Nat Nat × SignedTransferableReceipt Nat Nat Nat :=
  (⟨⟨7, 0⟩, [3]⟩, ⟨⟨7, 0⟩, 5, [4]⟩)

/-- The writes of one sending of both receipts for identifier `0`: each filed, and the couplet
logged. -/
def receiptsSent : List (Op Nat Nat KeyEvent Nat Nat Nat) :=
  [.add_receipt_nt receiptsOf₇.1 0, .add_receipt_t receiptsOf₇.2 0, .log (.receipt receiptsOf₇.1)]

/-- **Receipts sent again are recorded again.** Sending both receipts a second time lists each
twice under `(0, 0)`, and the couplet `3` twice under digest `7`. -/
theorem receipts_sent_twice :
    let once : MemoryDatabase Nat Nat KeyEvent IdentifierState Nat Nat Nat :=
      new.run specCore receiptsSent
    let twice := once.run specCore receiptsSent
    once.get_receipts_nt (.BySn 0 0) = some [receiptsOf₇.1] ∧
      twice.get_receipts_nt (.BySn 0 0) = some [receiptsOf₇.1, receiptsOf₇.1] ∧
      once.get_receipts_t (.BySn 0 0) = some [.Seal 5 [4]] ∧
      twice.get_receipts_t (.BySn 0 0) = some [.Seal 5 [4], .Seal 5 [4]] ∧
      once.log_db.get_nontrans_couplets 7 = some [3] ∧
      twice.log_db.get_nontrans_couplets 7 = some [3, 3] := by
  decide

omit [DecidableEq Id] [DecidableEq Dig] [DecidableEq Nt] in
/-- The handle `create_escrow_db` returns reaches an empty table and the database's log. -/
theorem escrow_create_escrow_db (db : MemoryDatabase Id Dig Ev St Sig Nt Seal) (name : String) :
    (db.create_escrow_db name).2.escrow (db.create_escrow_db name).1 = ⟨.new, db.log_db⟩ := by
  simp [create_escrow_db, escrow]

/-! ## The log under the KELs and the escrows -/

/-- The escrow write a database write makes through the handle `h`, if any. -/
def Op.through (h : EscrowHandle) :
    Op Id Dig Ev Sig Nt Seal → Option (MemoryEscrowDb.Op Id Dig Ev Sig)
  | .escrow h' op => if h' = h then some op else none
  | _ => none

section Logged

variable {K}
variable {db : MemoryDatabase Id Dig Ev St Sig Nt Seal}

/-- What a write does to the log: nothing, or one of the log's own writes. -/
theorem step_log_db (db : MemoryDatabase Id Dig Ev St Sig Nt Seal)
    (op : Op Id Dig Ev Sig Nt Seal) :
    (db.step K op).log_db = db.log_db ∨ ∃ w, (db.step K op).log_db = db.log_db.write K w := by
  cases op with
  | add_kel_finalized_event e id =>
    cases happ : K.apply (db.current_state K id) e.event_message with
    | error err => exact .inl (by rw [step, add_kel_finalized_event_of_error happ])
    | ok st => exact .inr ⟨.event e, by rw [step, add_kel_finalized_event_of_ok happ]; rfl⟩
  | log w => exact .inr ⟨w, rfl⟩
  | escrow h op =>
    rcases (db.escrow h).step_log op with h' | ⟨e, h'⟩
    exacts [.inl h', .inr ⟨.event e, h'⟩]
  | _ => exact .inl rfl

/-- No write drops a key of the log. -/
theorem get_signed_event_step_isSome (op : Op Id Dig Ev Sig Nt Seal) {d : Dig}
    (h : (db.log_db.get_signed_event d).isSome) :
    ((db.step K op).log_db.get_signed_event d).isSome := by
  rcases step_log_db db op with hl | ⟨w, hl⟩ <;> rw [hl]
  exacts [h, MemoryLogDatabase.get_signed_event_write_isSome w h]

theorem log_coherent_run (db : MemoryDatabase Id Dig Ev St Sig Nt Seal) (h : db.log_db.Coherent K)
    (ops : List (Op Id Dig Ev Sig Nt Seal)) :
    (db.run K ops).log_db.Coherent K := by
  induction ops generalizing db with
  | nil => exact h
  | cons op ops ih =>
    refine ih _ ?_
    rcases step_log_db (K := K) db op with hl | ⟨w, hl⟩ <;> rw [hl]
    exacts [h, h.write w]

theorem KelLogged.step (h : db.KelLogged K) (op : Op Id Dig Ev Sig Nt Seal) :
    (db.step K op).KelLogged K := by
  cases op with
  | add_kel_finalized_event e id => exact h.add_kel_finalized_event e id
  | _ => exact fun id e d he hd => get_signed_event_step_isSome _ (h id e d he hd)

theorem KelLogged.run (h : db.KelLogged K) (ops : List (Op Id Dig Ev Sig Nt Seal)) :
    (db.run K ops).KelLogged K := by
  induction ops generalizing db with
  | nil => exact h
  | cons op ops ih => exact ih (h.step op)

/-- **Every event of a KEL can be fetched from the log.** After any sequence of writes from
`new()`, an event of a KEL that has a digest is stored in the log under it: `get_signed_event`
returns an event with that digest, and `get_signatures` that event's signatures. -/
theorem kel_event_in_log (ops : List (Op Id Dig Ev Sig Nt Seal)) {id : Id}
    {e : SignedEventMessage Ev Sig} {d : Dig}
    (he : e ∈ (((new : MemoryDatabase Id Dig Ev St Sig Nt Seal).run K ops).get_kel_finalized_events
      K (.All id)).getD [])
    (hd : K.digest e.event_message = .ok d) :
    ∃ e', (new.run K ops).log_db.get_signed_event d = some e' ∧
      K.digest e'.event_message = .ok d ∧
      (new.run K ops : MemoryDatabase Id Dig Ev St Sig Nt Seal).log_db.get_signatures d =
        some e'.signatures := by
  have hc := log_coherent_run new (MemoryLogDatabase.coherent_new (K := K)) ops
  obtain ⟨e', he'⟩ := Option.isSome_iff_exists.1 (kelLogged_new.run ops id e d he hd)
  exact ⟨e', he', hc.digest_eq d e' he', by rw [hc.signatures_eq, he']; rfl⟩

/-- `kel_event_in_log` at the interaction `mixedWrites` adds to the KEL of `0`. -/
theorem mixed_interaction_in_log :
    inceptedThenInteracted.2 ∈ (mixed.get_kel_finalized_events specCore (.All 0)).getD [] ∧
      specCore.digest inceptedThenInteracted.2.event_message = .ok 8 ∧
      ∃ e', mixed.log_db.get_signed_event 8 = some e' ∧ specCore.digest e'.event_message = .ok 8 ∧
        mixed.log_db.get_signatures 8 = some e'.signatures :=
  have he : inceptedThenInteracted.2 ∈
      (mixed.get_kel_finalized_events specCore (.All 0)).getD [] := by decide
  ⟨he, rfl, kel_event_in_log (K := specCore) mixedWrites he rfl⟩

theorem trans_receipts_run (ops : List (Op Id Dig Ev Sig Nt Seal)) :
    (db.run K ops).log_db.trans_receipts = db.log_db.trans_receipts := by
  induction ops generalizing db with
  | nil => rfl
  | cons op ops ih =>
    refine ih.trans ?_
    rcases step_log_db (K := K) db op with hl | ⟨w, hl⟩ <;> simp [hl]

/-- **The log never holds a transferable receipt.** After any sequence of writes from `new()`,
`get_trans_receipts` returns nothing under any digest: no write of the database, of its log or
through an escrow files one there, and the transferable receipts `add_receipt_t` files go to the
database's own table, which only `get_receipts_t` reads. -/
theorem get_trans_receipts_run (ops : List (Op Id Dig Ev Sig Nt Seal)) (d : Dig) :
    ((new : MemoryDatabase Id Dig Ev St Sig Nt Seal).run K ops).log_db.get_trans_receipts d =
      [] := by
  rw [MemoryLogDatabase.get_trans_receipts, trans_receipts_run]; rfl

end Logged

section Handles

variable {K}
variable {db : MemoryDatabase Id Dig Ev St Sig Nt Seal}

omit [DecidableEq Nt] in
@[simp] theorem add_kel_finalized_event_escrows (event : SignedEventMessage Ev Sig) (id : Id) :
    (db.add_kel_finalized_event K event id).2.escrows = db.escrows := by
  unfold add_kel_finalized_event; split <;> rfl

/-- No write frees a table. -/
theorem length_escrows_step (op : Op Id Dig Ev Sig Nt Seal) :
    db.escrows.length ≤ (db.step K op).escrows.length := by
  cases op with
  | create_escrow_db name => simp [step, create_escrow_db]
  | add_kel_finalized_event e id => simp [step]
  | escrow h op => simp [step, escrow_step]
  | _ => exact le_rfl

/-- A write changes the table of a handle already handed out only when it is made through that
handle, and then as the escrow's own write does. -/
theorem sequenced_escrow_step (op : Op Id Dig Ev Sig Nt Seal) {h : EscrowHandle}
    (hh : h.sequenced < db.escrows.length) :
    ((db.step K op).escrow h).sequenced =
      ((db.escrow h).run K (op.through h).toList).sequenced := by
  cases op with
  | add_kel_finalized_event e id => simp [step, escrow, Op.through, MemoryEscrowDb.run]
  | create_escrow_db name =>
    simp [step, create_escrow_db, escrow, List.getElem?_append_left hh, Op.through,
      MemoryEscrowDb.run]
  | escrow h' op =>
    by_cases hh' : h' = h
    · subst hh'; simp [step, escrow_step, escrow, hh, Op.through, MemoryEscrowDb.run]
    · have hne : h'.sequenced ≠ h.sequenced := fun e => hh' (by cases h; cases h'; cases e; rfl)
      simp [step, escrow_step, escrow, hne, hh', Op.through, MemoryEscrowDb.run]
  | _ => rfl

/-- A write leaves the table of a handle not yet handed out as it was: empty. -/
theorem sequenced_escrow_step_of_le (op : Op Id Dig Ev Sig Nt Seal) {h : EscrowHandle}
    (hh : db.escrows.length ≤ h.sequenced) :
    ((db.step K op).escrow h).sequenced = (db.escrow h).sequenced := by
  cases op with
  | add_kel_finalized_event e id => simp [step, escrow]
  | create_escrow_db name =>
    simp only [step, create_escrow_db, escrow, List.getD_eq_getElem?_getD,
      List.getElem?_append_right hh, List.getElem?_eq_none hh]
    cases h.sequenced - db.escrows.length <;> rfl
  | escrow h' op =>
    simp only [step, escrow_step, escrow, List.getD_eq_getElem?_getD, List.getElem?_set,
      List.getElem?_eq_none hh]
    split_ifs <;> first | rfl | omega
  | _ => rfl

omit [DecidableEq Id] [DecidableEq Dig] [DecidableEq Nt] in
theorem Op.eq_escrow_of_through {op : Op Id Dig Ev Sig Nt Seal} {h : EscrowHandle}
    {op' : MemoryEscrowDb.Op Id Dig Ev Sig} (ht : op.through h = some op') :
    op = .escrow h op' := by
  cases op with
  | escrow h' o =>
    simp only [Op.through] at ht
    split_ifs at ht with hh
    cases ht; rw [hh]
  | _ => cases ht

/-- What a write leaves in a handle's table under a key: what was there, the digest a
`save_digest` through that handle files, or a digest the log now holds. -/
theorem mem_escrow_step {op : Op Id Dig Ev Sig Nt Seal} {h : EscrowHandle} {i : Id} {s : UInt64}
    {d : Dig} (hd : d ∈ ((db.step K op).escrow h).sequenced.get i s) :
    d ∈ (db.escrow h).sequenced.get i s ∨ op = .escrow h (.save_digest i s d) ∨
      ((db.step K op).log_db.get_signed_event d).isSome := by
  by_cases hh : h.sequenced < db.escrows.length
  · rw [sequenced_escrow_step op hh] at hd
    cases ht : op.through h with
    | none => rw [ht] at hd; exact .inl hd
    | some op' =>
      obtain rfl := Op.eq_escrow_of_through ht
      rw [ht] at hd
      rcases MemoryEscrowDb.mem_step_sequenced hd with
        hd | rfl | hd
      exacts [.inl hd, .inr (.inl rfl), .inr (.inr hd)]
  · rw [sequenced_escrow_step_of_le op (not_lt.1 hh)] at hd; exact .inl hd

variable (K) in
theorem run_concat (ops : List (Op Id Dig Ev Sig Nt Seal)) (op : Op Id Dig Ev Sig Nt Seal) :
    db.run K (ops ++ [op]) = (db.run K ops).step K op := by
  simp only [run, List.foldl_append, List.foldl_cons, List.foldl_nil]

/-- Every digest in an escrow's table is a key of the log, unless `save_digest` filed it. -/
theorem escrow_digest_logged (ops : List (Op Id Dig Ev Sig Nt Seal)) {h : EscrowHandle} {i : Id}
    {s : UInt64} {d : Dig}
    (hd : d ∈ (((new : MemoryDatabase Id Dig Ev St Sig Nt Seal).run K ops).escrow h).sequenced.get
      i s) :
    ((new.run K ops : MemoryDatabase Id Dig Ev St Sig Nt Seal).log_db.get_signed_event d).isSome ∨
      Op.escrow h (.save_digest i s d) ∈ ops := by
  induction ops using List.reverseRecOn generalizing h i s d with
  | nil => simp [run, new, escrow] at hd
  | append_singleton ops op ih =>
    rw [run_concat] at hd ⊢
    rcases mem_escrow_step hd with hd | rfl | hd
    · rcases ih hd with hl | hm
      exacts [.inl (get_signed_event_step_isSome op hl), .inr (List.mem_append_left _ hm)]
    · exact .inr (List.mem_append_right _ (List.mem_singleton_self _))
    · exact .inl hd

/-- **`contains` finds what `get` returns, unless saved bare.** After any sequence of writes from
`new()`, a digest `contains` finds under a key of a handle's table is the digest of an event `get`
returns under that key, unless a `save_digest` through that handle filed it there, which logs
nothing. -/
theorem escrow_contains_get (ops : List (Op Id Dig Ev Sig Nt Seal)) {h : EscrowHandle} {i : Id}
    {s : UInt64} {d : Dig}
    (hd : (((new : MemoryDatabase Id Dig Ev St Sig Nt Seal).run K ops).escrow h).contains i s d) :
    (∃ e ∈ ((new.run K ops : MemoryDatabase Id Dig Ev St Sig Nt Seal).escrow h).get i s,
        K.digest e.event_message = .ok d) ∨
      Op.escrow h (.save_digest i s d) ∈ ops := by
  have hc := log_coherent_run new (MemoryLogDatabase.coherent_new (K := K)) ops
  rcases escrow_digest_logged ops (of_decide_eq_true hd) with hl | hm
  · obtain ⟨e, he⟩ := Option.isSome_iff_exists.1 hl
    exact .inl ⟨e, List.mem_filterMap.2 ⟨d, of_decide_eq_true hd, he⟩, hc.digest_eq d e he⟩
  · exact .inr hm

/-- `escrow_contains_get` at `escrowed₁`'s digest in the first table of `mixed`. -/
theorem mixed_contains_get :
    (mixed.escrow ⟨0⟩).contains 0 1 11 = true ∧
      ((∃ e ∈ (mixed.escrow ⟨0⟩).get 0 1, specCore.digest e.event_message = .ok 11) ∨
        Op.escrow ⟨0⟩ (.save_digest 0 1 11) ∈ mixedWrites) :=
  have hc : (mixed.escrow ⟨0⟩).contains 0 1 11 = true := by decide
  ⟨hc, escrow_contains_get (K := specCore) mixedWrites hc⟩

/-- **Each handle is an escrow of its own.** After any sequence of writes, the table of a handle
already handed out holds what its escrow's table holds after the writes made through that handle
alone, in the same order: no write to the KELs, the receipts or the log, no write through another
handle and no new table touches it, and what the log holds makes no difference to it. -/
theorem escrow_run_through (db : MemoryDatabase Id Dig Ev St Sig Nt Seal)
    (ops : List (Op Id Dig Ev Sig Nt Seal)) {h : EscrowHandle}
    (hh : h.sequenced < db.escrows.length) :
    ((db.run K ops).escrow h).sequenced =
      ((db.escrow h).run K (ops.filterMap (Op.through h))).sequenced := by
  induction ops generalizing db with
  | nil => rfl
  | cons op ops ih =>
    calc ((db.run K (op :: ops)).escrow h).sequenced
        = (((db.step K op).escrow h).run K (ops.filterMap (Op.through h))).sequenced :=
          ih _ (hh.trans_le (length_escrows_step op))
      _ = (((db.escrow h).run K (op.through h).toList).run K
            (ops.filterMap (Op.through h))).sequenced :=
          MemoryEscrowDb.run_sequenced_of_sequenced_eq K (sequenced_escrow_step op hh) _
      _ = _ := by rw [List.filterMap_cons]; cases op.through h <;> rfl

/-- A fresh database after `create_escrow_db("escrow")`. -/
def created : MemoryDatabase Nat Nat KeyEvent IdentifierState Nat Nat Nat :=
  (new.create_escrow_db "escrow").2

/-- `escrow_run_through` for the table of `created`, run through `mixedWrites`. -/
theorem created_run_through :
    0 < created.escrows.length ∧
      ((created.run specCore mixedWrites).escrow ⟨0⟩).sequenced =
        ((created.escrow ⟨0⟩).run specCore (mixedWrites.filterMap (Op.through ⟨0⟩))).sequenced :=
  ⟨by decide, escrow_run_through created mixedWrites (h := ⟨0⟩) (by decide)⟩

end Handles

end MemoryDatabase

/-! ## Replies

`save_reply` and `get_reply`, of the `query` feature, read and write the `replies` table only,
which sits behind its own lock; they are modelled over that table. -/

/-- What `save_reply` reads of a `SignedReply`, which src/ does not hold: the prefix of the
reply's data, and the signer of its signature, which it may lack. -/
structure ReplyCore (Id Rpy : Type) where
  /-- `reply.reply.get_prefix()`. -/
  get_prefix : Rpy → Id
  /-- `reply.signature.get_signer()`. -/
  get_signer : Rpy → Option Id

namespace MemoryDatabase

section Replies

variable {Id Rpy : Type} [DecidableEq Id] (R : ReplyCore Id Rpy)

/-- `save_reply`: a reply without a signer is refused before the table is touched; otherwise it
is filed under its prefix and signer, replacing what was filed there. -/
def save_reply (replies : HashMap (Id × Id) Rpy) (reply : Rpy) :
    Except Error Unit × HashMap (Id × Id) Rpy :=
  match R.get_signer reply with
  | none => (.error (.SemanticError "Missing signer"), replies)
  | some signer => (.ok (), replies.insert (R.get_prefix reply, signer) reply)

/-- `get_reply`. -/
def get_reply (replies : HashMap (Id × Id) Rpy) (id from_who : Id) : Option Rpy :=
  replies.get (id, from_who)

/-- `save_reply` called on each reply in turn, its results dropped. -/
def save_replies (replies : HashMap (Id × Id) Rpy) (rs : List Rpy) : HashMap (Id × Id) Rpy :=
  rs.foldl (fun m r => (save_reply R m r).2) replies

/-- Whether `get_reply(id, from_who)` may return the reply: its prefix is `id` and its signer
`from_who`. -/
def answers (id from_who : Id) (reply : Rpy) : Bool :=
  decide (R.get_prefix reply = id) && decide (R.get_signer reply = some from_who)

variable {R}

/-- After one `save_reply`, `get_reply` returns the reply if it answers, and what it returned
before otherwise. -/
theorem get_reply_save_reply (replies : HashMap (Id × Id) Rpy) (reply : Rpy) (id from_who : Id) :
    get_reply (save_reply R replies reply).2 id from_who =
      (if answers R id from_who reply then some reply else none).or
        (get_reply replies id from_who) := by
  cases hs : R.get_signer reply with
  | none => simp [save_reply, answers, hs]
  | some signer =>
    simp only [save_reply, get_reply, answers, hs, HashMap.get_insert, Prod.mk.injEq,
      Option.some.injEq, Bool.and_eq_true, decide_eq_true_eq]
    by_cases hk : R.get_prefix reply = id ∧ signer = from_who
    · obtain ⟨rfl, rfl⟩ := hk; simp
    · rw [if_neg fun h => hk ⟨h.1.symm, h.2.symm⟩, if_neg hk]; rfl

/-- **The last reply saved is the one returned.** After `save_reply` is called on each of `rs` in
turn, `get_reply(id, from_who)` returns the last of them whose prefix is `id` and whose signer is
`from_who`, and what it returned before when there is none: a later reply of a signer replaces
the earlier one, and a reply without a signer, which `save_reply` refuses with
`Missing signer`, is never returned. -/
theorem get_reply_save_replies (replies : HashMap (Id × Id) Rpy) (rs : List Rpy)
    (id from_who : Id) :
    get_reply (save_replies R replies rs) id from_who =
      (rs.filter (answers R id from_who)).getLast?.or (get_reply replies id from_who) := by
  induction rs using List.reverseRecOn with
  | nil => rfl
  | append_singleton rs r ih =>
    rw [save_replies, List.foldl_append, List.foldl_cons, List.foldl_nil, ← save_replies,
      get_reply_save_reply, ih, List.filter_append, List.getLast?_append, Option.or_assoc]
    by_cases h : answers R id from_who r <;> simp [h]

end Replies

end MemoryDatabase

end Keriox
