import Mathlib.Data.Finset.Basic
import Keriox.HashMap
import Keriox.State

/-!
# The log: `MemoryLogDatabase`

The log keeps, under an event's digest, the signed event and its signatures, and under a receipted
event's digest the nontransferable couplets of its receipts. It is shared: the database logs the
events it adds to a KEL, and every escrow logs the events it holds.

`log_event_internal` writes the event and then its signatures with `insert`, so a second write
under one digest replaces the first, signatures included, while `log_receipt_internal` extends
the couplets already there. The stored event is wrapped with the wall-clock time of the write
(`Timestamped::new`), which no function under src/ reads; the model stores the signed event alone.

## Main definitions

* `MemoryLogDatabase.log_event_internal`, `MemoryLogDatabase.log_receipt_internal`
* `MemoryLogDatabase.Write`, `MemoryLogDatabase.run`: the writes the log's users make
* `MemoryLogDatabase.Coherent`: the signatures under a digest are those of the event under it,
  which is stored under its own digest
* `MemoryLogDatabase.Write.recorded`: the couplets under a digest as a set, as §4.A has them
* `MemoryLogDatabase.Write.logs`: the event a write stores under a digest

## Main results

* `MemoryLogDatabase.log_event_internal_of_stored`: logging again the event stored under its
  digest changes nothing a reader sees, in a coherent log
* `MemoryLogDatabase.get_signatures_replaced`: logging a second copy of an event drops the
  signatures of the first
* `MemoryLogDatabase.toFinset_write`: each write changes the set of couplets under a digest as
  `Write.recorded` says
* `MemoryLogDatabase.get_signed_event_run`: under each digest the log returns the last event
  logged there, with that event's signatures
-/

namespace Keriox

/-- `MemoryLogDatabase`: signed events, their signatures, receipt couplets and transferable
receipts, each table keyed by event digest. -/
structure MemoryLogDatabase (Dig Ev Sig Nt Seal : Type) where
  events : HashMap Dig (SignedEventMessage Ev Sig)
  signatures : HashMap Dig (List Sig)
  nontrans_couplets : HashMap Dig (List Nt)
  trans_receipts : HashMap Dig (List (Transferable Seal Sig))

namespace MemoryLogDatabase

variable {Id Dig Ev St Sig Nt Seal : Type} [DecidableEq Dig]
variable (K : KeriCore Id Dig Ev St)

/-- `MemoryLogDatabase::new()`. -/
def new : MemoryLogDatabase Dig Ev Sig Nt Seal := ⟨.new, .new, .new, .new⟩

/-- `get_signed_event`, which always returns `Ok`. -/
def get_signed_event (log : MemoryLogDatabase Dig Ev Sig Nt Seal) (said : Dig) :
    Option (SignedEventMessage Ev Sig) :=
  log.events.get said

/-- `get_event`, which always returns `Ok`. -/
def get_event (log : MemoryLogDatabase Dig Ev Sig Nt Seal) (said : Dig) : Option Ev :=
  (log.events.get said).map (·.event_message)

/-- `get_signatures`, which always returns `Ok`. -/
def get_signatures (log : MemoryLogDatabase Dig Ev Sig Nt Seal) (said : Dig) : Option (List Sig) :=
  log.signatures.get said

/-- `get_nontrans_couplets`, which always returns `Ok`. -/
def get_nontrans_couplets (log : MemoryLogDatabase Dig Ev Sig Nt Seal) (said : Dig) :
    Option (List Nt) :=
  log.nontrans_couplets.get said

/-- `get_trans_receipts`, which always returns `Ok`. -/
def get_trans_receipts (log : MemoryLogDatabase Dig Ev Sig Nt Seal) (said : Dig) :
    List (Transferable Seal Sig) :=
  log.trans_receipts.getD said

/-- `log_event_internal`: when the event has a digest, the event and then its signatures are
inserted under it. -/
def log_event_internal (log : MemoryLogDatabase Dig Ev Sig Nt Seal)
    (event : SignedEventMessage Ev Sig) : MemoryLogDatabase Dig Ev Sig Nt Seal :=
  match K.digest event.event_message with
  | .ok digest =>
    { log with events := log.events.insert digest event,
               signatures := log.signatures.insert digest event.signatures }
  | .error _ => log

@[simp] theorem log_event_internal_nontrans_couplets (log : MemoryLogDatabase Dig Ev Sig Nt Seal)
    (event : SignedEventMessage Ev Sig) :
    (log.log_event_internal K event).nontrans_couplets = log.nontrans_couplets := by
  unfold log_event_internal; split <;> rfl

/-- `log_receipt_internal`: the receipt's couplets extend those under the receipted digest. -/
def log_receipt_internal (log : MemoryLogDatabase Dig Ev Sig Nt Seal)
    (receipt : SignedNontransferableReceipt Dig Nt) : MemoryLogDatabase Dig Ev Sig Nt Seal :=
  { log with nontrans_couplets :=
      log.nontrans_couplets.extend receipt.body.receipted_event_digest receipt.signatures }

@[simp] theorem log_receipt_internal_events (log : MemoryLogDatabase Dig Ev Sig Nt Seal)
    (receipt : SignedNontransferableReceipt Dig Nt) :
    (log.log_receipt_internal receipt).events = log.events := rfl

@[simp] theorem log_receipt_internal_signatures (log : MemoryLogDatabase Dig Ev Sig Nt Seal)
    (receipt : SignedNontransferableReceipt Dig Nt) :
    (log.log_receipt_internal receipt).signatures = log.signatures := rfl

section Writes

variable [DecidableEq Nt]

/-- `remove_nontrans_receipt` and its `_with_new_transaction` twin: the given couplets leave the
list under the digest, when there is one. -/
def remove_nontrans_receipt (log : MemoryLogDatabase Dig Ev Sig Nt Seal) (said : Dig)
    (nontrans : List Nt) : MemoryLogDatabase Dig Ev Sig Nt Seal :=
  { log with
    nontrans_couplets := log.nontrans_couplets.retain said fun n => !decide (n ∈ nontrans) }

/-- The writes the log's users make. An event is logged by `log_event`,
`log_event_with_new_transaction`, `add_kel_finalized_event` and an escrow's `insert` and
`insert_key_value`, all through `log_event_internal`; a receipt by `log_receipt` and its twin;
couplets leave by `remove_nontrans_receipt` and its twin. -/
inductive Write (Dig Ev Sig Nt : Type) where
  | event (signed_event : SignedEventMessage Ev Sig)
  | receipt (signed_receipt : SignedNontransferableReceipt Dig Nt)
  | remove (said : Dig) (nontrans : List Nt)

/-- One write. -/
def write (log : MemoryLogDatabase Dig Ev Sig Nt Seal) :
    Write Dig Ev Sig Nt → MemoryLogDatabase Dig Ev Sig Nt Seal
  | .event e => log.log_event_internal K e
  | .receipt r => log.log_receipt_internal r
  | .remove said nontrans => log.remove_nontrans_receipt said nontrans

/-- Writes made one after another. -/
def run (log : MemoryLogDatabase Dig Ev Sig Nt Seal) (ws : List (Write Dig Ev Sig Nt)) :
    MemoryLogDatabase Dig Ev Sig Nt Seal :=
  ws.foldl (write K) log

end Writes

/-- Two copies of one inception, signed by signatures `1` and `2`. -/
def copiesSignedApart : SignedEventMessage KeyEvent Nat × SignedEventMessage KeyEvent Nat :=
  let icp : KeyEvent := ⟨0, 0, .inception, none, some 7⟩
  (⟨icp, [1]⟩, ⟨icp, [2]⟩)

/-- **Logging a second copy of an event drops the first copy's signatures**: `log_event_internal`
puts the signatures of the event logged in place of those under its digest, so after both copies
of one event are logged, the signature `1` of the first is gone from `get_signatures`. -/
theorem get_signatures_replaced :
    specCore.digest copiesSignedApart.1.event_message = .ok 7 ∧
      1 ∈ copiesSignedApart.1.signatures ∧
      (new.run specCore [.event copiesSignedApart.1, .event copiesSignedApart.2] :
        MemoryLogDatabase Nat KeyEvent Nat Nat Nat).get_signatures 7 = some [2] := by
  decide

/-- The first lock-protected section of `log_event_internal`: the event under its digest. -/
def insert_event (log : MemoryLogDatabase Dig Ev Sig Nt Seal) (event : SignedEventMessage Ev Sig) :
    MemoryLogDatabase Dig Ev Sig Nt Seal :=
  match K.digest event.event_message with
  | .ok digest => { log with events := log.events.insert digest event }
  | .error _ => log

/-- The second lock-protected section of `log_event_internal`: the event's signatures under its
digest. -/
def insert_signatures (log : MemoryLogDatabase Dig Ev Sig Nt Seal)
    (event : SignedEventMessage Ev Sig) : MemoryLogDatabase Dig Ev Sig Nt Seal :=
  match K.digest event.event_message with
  | .ok digest => { log with signatures := log.signatures.insert digest event.signatures }
  | .error _ => log

/-- `log_event_internal` is its two sections, one after the other. -/
theorem log_event_internal_eq_sections (log : MemoryLogDatabase Dig Ev Sig Nt Seal)
    (event : SignedEventMessage Ev Sig) :
    log.log_event_internal K event = (log.insert_event K event).insert_signatures K event := by
  cases h : K.digest event.event_message <;>
    simp only [log_event_internal, insert_event, insert_signatures, h]

@[simp] theorem insert_signatures_events (log : MemoryLogDatabase Dig Ev Sig Nt Seal)
    (event : SignedEventMessage Ev Sig) : (log.insert_signatures K event).events = log.events := by
  unfold insert_signatures; split <;> rfl

@[simp] theorem insert_event_signatures (log : MemoryLogDatabase Dig Ev Sig Nt Seal)
    (event : SignedEventMessage Ev Sig) :
    (log.insert_event K event).signatures = log.signatures := by
  unfold insert_event; split <;> rfl

/-- A log as its writers leave it: the signatures under a digest are those of the event under it,
and every event is stored under its own digest. -/
structure Coherent (log : MemoryLogDatabase Dig Ev Sig Nt Seal) : Prop where
  signatures_eq : ∀ d, log.get_signatures d = (log.get_signed_event d).map (·.signatures)
  digest_eq : ∀ d e, log.get_signed_event d = some e → K.digest e.event_message = .ok d

section Spec

variable {K}
variable {log : MemoryLogDatabase Dig Ev Sig Nt Seal} {event : SignedEventMessage Ev Sig}

/-- The first section of `log_event_internal` stores the event under its digest and nowhere
else. -/
theorem get_signed_event_insert_event (d : Dig) :
    (log.insert_event K event).get_signed_event d =
      if K.digest event.event_message = .ok d then some event else log.get_signed_event d := by
  unfold insert_event
  split <;> rename_i h <;> simp [get_signed_event, h, eq_comm]

/-- The first section of `log_event_internal` leaves the signatures. -/
@[simp] theorem get_signatures_insert_event (d : Dig) :
    (log.insert_event K event).get_signatures d = log.get_signatures d := by
  simp only [get_signatures, insert_event_signatures]

/-- The second section of `log_event_internal` stores the event's signatures under its digest
and nowhere else. -/
theorem get_signatures_insert_signatures (d : Dig) :
    (log.insert_signatures K event).get_signatures d =
      if K.digest event.event_message = .ok d then some event.signatures
      else log.get_signatures d := by
  unfold insert_signatures
  split <;> rename_i h <;> simp [get_signatures, h, eq_comm]

/-- `log_event_internal` stores the event under its digest and nowhere else. -/
theorem get_signed_event_log_event_internal (d : Dig) :
    (log.log_event_internal K event).get_signed_event d =
      if K.digest event.event_message = .ok d then some event else log.get_signed_event d := by
  rw [log_event_internal_eq_sections, ← get_signed_event_insert_event]
  simp only [get_signed_event, insert_signatures_events]

theorem get_signed_event_log_event_internal_of_digest {d : Dig}
    (hd : K.digest event.event_message = .ok d) (d' : Dig) :
    (log.log_event_internal K event).get_signed_event d' =
      if d = d' then some event else log.get_signed_event d' := by
  rw [get_signed_event_log_event_internal, hd]
  simp

/-- Logging the event a log holds under its digest changes no hydration. -/
theorem get_signed_event_log_event_internal_of_stored {d : Dig}
    (hd : K.digest event.event_message = .ok d) (he : log.get_signed_event d = some event) :
    (log.log_event_internal K event).get_signed_event = log.get_signed_event := by
  funext d'
  rw [get_signed_event_log_event_internal_of_digest hd]
  split_ifs with h
  · rw [← h, he]
  · rfl

/-- `log_event_internal` replaces the signatures under the event's digest by the event's. -/
theorem get_signatures_log_event_internal (d : Dig) :
    (log.log_event_internal K event).get_signatures d =
      if K.digest event.event_message = .ok d then some event.signatures
      else log.get_signatures d := by
  unfold log_event_internal
  split <;> rename_i h <;> simp [get_signatures, h, eq_comm]

/-- The keys of the event table only grow. -/
theorem get_signed_event_log_event_internal_isSome {d : Dig}
    (h : (log.get_signed_event d).isSome) :
    ((log.log_event_internal K event).get_signed_event d).isSome := by
  rw [get_signed_event_log_event_internal]; split_ifs <;> simp [h]

theorem Coherent.log_event_internal (h : log.Coherent K) :
    (log.log_event_internal K event).Coherent K where
  signatures_eq d := by
    simp only [get_signed_event_log_event_internal, get_signatures_log_event_internal]
    split_ifs
    · rfl
    · exact h.signatures_eq d
  digest_eq d e := by
    rw [get_signed_event_log_event_internal]
    split_ifs with hd
    · rintro ⟨⟩; exact hd
    · exact h.digest_eq d e

theorem coherent_new : (new : MemoryLogDatabase Dig Ev Sig Nt Seal).Coherent K :=
  ⟨fun _ => rfl, fun _ _ h => nomatch h⟩

/-- **Logging the stored event again changes nothing a reader sees.** In a coherent log, logging
the signed event stored under its digest leaves every `get_signed_event` and `get_signatures` as
it was. -/
theorem log_event_internal_of_stored (h : log.Coherent K) {d : Dig}
    (hd : log.get_signed_event d = some event) (d' : Dig) :
    (log.log_event_internal K event).get_signed_event d' = log.get_signed_event d' ∧
      (log.log_event_internal K event).get_signatures d' = log.get_signatures d' := by
  have hdig := h.digest_eq d event hd
  rw [get_signed_event_log_event_internal, get_signatures_log_event_internal, hdig,
    h.signatures_eq d']
  by_cases hdd : d = d'
  · subst hdd; simp [hd]
  · simp [hdd]

end Spec

variable [DecidableEq Nt]

/-- The couplets under the digest `d` as a set, as §4.A has them: a receipt of `d` adds its
couplets (append set-union), a removal at `d` deletes those it names, and an event leaves them. -/
def Write.recorded (d : Dig) (s : Finset Nt) : Write Dig Ev Sig Nt → Finset Nt
  | .event _ => s
  | .receipt r => if d = r.body.receipted_event_digest then s ∪ r.signatures.toFinset else s
  | .remove said nontrans => if d = said then s \ nontrans.toFinset else s

/-- The event a write stores under the digest `d`, if any. -/
def Write.logs (d : Dig) : Write Dig Ev Sig Nt → Option (SignedEventMessage Ev Sig)
  | .event e => if K.digest e.event_message = .ok d then some e else none
  | _ => none

section Run

variable {K}
variable {log : MemoryLogDatabase Dig Ev Sig Nt Seal}

@[simp] theorem remove_nontrans_receipt_events (said : Dig) (nontrans : List Nt) :
    (log.remove_nontrans_receipt said nontrans).events = log.events := rfl

@[simp] theorem remove_nontrans_receipt_signatures (said : Dig) (nontrans : List Nt) :
    (log.remove_nontrans_receipt said nontrans).signatures = log.signatures := rfl

/-- A write changes the set of couplets under a digest as `Write.recorded` says. -/
theorem toFinset_write (w : Write Dig Ev Sig Nt) (d : Dig) :
    ((log.write K w).nontrans_couplets.getD d).toFinset =
      w.recorded d (log.nontrans_couplets.getD d).toFinset := by
  cases w with
  | event e => simp [write, Write.recorded]
  | receipt r =>
    simp only [write, log_receipt_internal, HashMap.getD_extend, Write.recorded]
    split_ifs with hd
    · rw [List.toFinset_append, hd]
    · rfl
  | remove said nontrans =>
    simp only [write, remove_nontrans_receipt, HashMap.getD_retain, Write.recorded]
    split_ifs with hd
    · rw [List.toFinset_filter, Finset.sdiff_eq_filter, hd]; simp
    · rfl

theorem Coherent.write (h : log.Coherent K) (w : Write Dig Ev Sig Nt) :
    (log.write K w).Coherent K := by
  cases w with
  | event e => exact h.log_event_internal
  | receipt r => exact ⟨h.signatures_eq, h.digest_eq⟩
  | remove said nontrans => exact ⟨h.signatures_eq, h.digest_eq⟩

/-- No write of the log touches its transferable receipts. -/
@[simp] theorem write_trans_receipts (w : Write Dig Ev Sig Nt) :
    (log.write K w).trans_receipts = log.trans_receipts := by
  cases w with
  | event e => simp only [write, log_event_internal]; split <;> rfl
  | receipt r | remove said nontrans => rfl

/-- No write drops a key of the event table. -/
theorem get_signed_event_write_isSome (w : Write Dig Ev Sig Nt) {d : Dig}
    (h : (log.get_signed_event d).isSome) : ((log.write K w).get_signed_event d).isSome := by
  cases w with
  | event e => exact get_signed_event_log_event_internal_isSome h
  | receipt r | remove said nontrans => exact h

/-- A write changes the event under `d` only when it logs one there. -/
theorem get_signed_event_write (w : Write Dig Ev Sig Nt) (d : Dig) :
    (log.write K w).get_signed_event d = (w.logs K d).or (log.get_signed_event d) := by
  cases w with
  | event e => rw [write, get_signed_event_log_event_internal, Write.logs]; split_ifs <;> rfl
  | receipt r | remove said nontrans => rfl

/-- A write changes the signatures under `d` only when it logs an event there. -/
theorem get_signatures_write (w : Write Dig Ev Sig Nt) (d : Dig) :
    (log.write K w).get_signatures d =
      ((w.logs K d).map (·.signatures)).or (log.get_signatures d) := by
  cases w with
  | event e => rw [write, get_signatures_log_event_internal, Write.logs]; split_ifs <;> rfl
  | receipt r | remove said nontrans => rfl

variable (K) in
theorem run_concat (ws : List (Write Dig Ev Sig Nt)) (w : Write Dig Ev Sig Nt) :
    log.run K (ws ++ [w]) = (log.run K ws).write K w := by
  simp only [run, List.foldl_append, List.foldl_cons, List.foldl_nil]

/-- **The log keeps the last event logged under each digest.** After any sequence of writes,
`get_signed_event(d)` returns the last event logged whose digest is `d`, and `get_signatures(d)`
that event's signatures, whatever signatures earlier copies carried; where none was logged, both
return what they returned before. Receipts and removals change neither. -/
theorem get_signed_event_run (log : MemoryLogDatabase Dig Ev Sig Nt Seal)
    (ws : List (Write Dig Ev Sig Nt)) (d : Dig) :
    (log.run K ws).get_signed_event d =
        (ws.filterMap (Write.logs K d)).getLast?.or (log.get_signed_event d) ∧
      (log.run K ws).get_signatures d =
        ((ws.filterMap (Write.logs K d)).getLast?.map (·.signatures)).or
          (log.get_signatures d) := by
  induction ws using List.reverseRecOn with
  | nil => exact ⟨rfl, rfl⟩
  | append_singleton ws w ih =>
    rw [run_concat, get_signed_event_write, get_signatures_write, ih.1, ih.2,
      List.filterMap_append]
    cases hw : w.logs K d <;> simp [hw]

end Run

end MemoryLogDatabase

end Keriox
