import Mathlib.Data.List.AList

/-!
# Signed events, receipts, and what the database calls of `keri_core`

The in-memory database stores signed events and receipts without looking inside them, with four
exceptions: it asks an event for its digest (`KeriEvent::digest`, which can fail), its sequence
number and prefix (`get_sn`, `get_prefix` of the event's data), and it folds events into the key
state with `IdentifierState::apply`, from `IdentifierState::default()`. None of these is under
src/, so they are the fields of `KeriCore`, a parameter of every operation of the database: each
result below holds for every implementation of them.

The types the database only stores and compares (prefixes, digests, signatures, couplets, seals,
events, states) are type parameters.

## Main definitions

* `Error`: the variants of `keri_core::error::Error` the modelled code builds
* `KeriCore`: the parts of `keri_core` the database calls and src/ does not hold
* `SignedEventMessage`, `SignedNontransferableReceipt`, `SignedTransferableReceipt`,
  `Transferable`: the stored values, with the fields the database reads
-/

namespace Keriox

/-- `keri_core::error::Error`, with the variants the modelled code builds. An error from `apply`,
`digest` or an observer is any value of it: the modelled code only passes it on. -/
inductive Error where
  | SemanticError (msg : String)
  | RwLockingError
  deriving DecidableEq, Repr

/-- Results compare by their constructor and value. -/
instance instDecidableEqExcept {ε α : Type} [DecidableEq ε] [DecidableEq α] :
    DecidableEq (Except ε α)
  | .error e, .error e' => decidable_of_iff (e = e') ⟨congrArg _, Except.error.inj⟩
  | .ok a, .ok a' => decidable_of_iff (a = a') ⟨congrArg _, Except.ok.inj⟩
  | .error _, .ok _ => isFalse nofun
  | .ok _, .error _ => isFalse nofun

/-- What the database calls of `keri_core` that is not under src/: the digest of an event, which
can fail; the sequence number and the prefix of its data; the default key state, `apply`, and the
sequence number of a state. -/
structure KeriCore (Id Dig Ev St : Type) where
  /-- `KeriEvent::digest`. -/
  digest : Ev → Except Error Dig
  /-- `event.data.get_sn()`. -/
  get_sn : Ev → UInt64
  /-- `event.data.get_prefix()`. -/
  get_prefix : Ev → Id
  /-- `IdentifierState::default()`. -/
  default : St
  /-- `IdentifierState::apply`. -/
  apply : St → Ev → Except Error St
  /-- `IdentifierState::sn`. -/
  sn : St → UInt64

namespace KeriCore

variable {Id Dig Ev St : Type} (K : KeriCore Id Dig Ev St)

/-- The key an escrow files an event under by `insert`: its own prefix and sequence number. -/
def key (e : Ev) : Id × UInt64 := ( K.get_prefix e, K.get_sn e)

/-- The key state of a KEL: `apply` folded over its events from the default state. -/
def fold (kel : List Ev) : Except Error St := kel.foldlM K.apply K.default

@[simp] theorem fold_nil : K.fold [] = .ok K.default := rfl

theorem fold_append_singleton (kel : List Ev) (e : Ev) :
    K.fold (kel ++ [e]) = K.fold kel >>= fun st => K.apply st e := by
  simp [fold, List.foldlM_append]

theorem fold_append_singleton_of_ok {kel : List Ev} {st : St} (h : K.fold kel = .ok st) (e : Ev) :
    K.fold (kel ++ [e]) = K.apply st e := by
  rw [fold_append_singleton, h]; rfl

end KeriCore

/-- `SignedEventMessage`: an event and its indexed signatures. Its witness receipts and delegator
seal are read by no modelled function. -/
structure SignedEventMessage (Ev Sig : Type) where
  event_message : Ev
  signatures : List Sig
  deriving DecidableEq, Repr

/-- `Receipt`, the body of a receipt, with the fields the database reads: the receipted event's
digest and sequence number. -/
structure Receipt (Dig : Type) where
  receipted_event_digest : Dig
  sn : UInt64
  deriving DecidableEq, Repr

/-- `SignedNontransferableReceipt`: a receipt and its signer–signature couplets. -/
structure SignedNontransferableReceipt (Dig Nt : Type) where
  body : Receipt Dig
  signatures : List Nt
  deriving DecidableEq, Repr

/-- `SignedTransferableReceipt`: a receipt, the validator's event seal and its signatures. -/
structure SignedTransferableReceipt (Dig Seal Sig : Type) where
  body : Receipt Dig
  validator_seal : Seal
  signatures : List Sig
  deriving DecidableEq, Repr

/-- `Transferable`, in the one variant the database builds. -/
inductive Transferable (Seal Sig : Type) where
  | Seal (validator_seal : Seal) (signatures : List Sig)
  deriving DecidableEq, Repr

end Keriox
