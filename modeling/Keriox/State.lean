import Keriox.Event

/-!
# Key events and their key state, from the spec

`IdentifierState::apply` and `KeriEvent::digest` are not under src/, and the database is modelled
over any implementation of them (`KeriCore`). This module gives one, following the data model of
§3 and the expected-next rule of §4.G, so that the database can be run on concrete events: the
counterexamples and witnesses of the development are runs of it.

## Main definitions

* `KeyEvent`, `IdentifierState`: an event and a key state, with the fields §4.G reads
* `IdentifierState.apply`: §4.G's expected-next rule
* `specCore`: the `KeriCore` these give
-/

namespace Keriox

/-- Modelled from the spec: the event types of §3. -/
inductive EventType where
  | inception
  | rotation
  | interaction
  | delegated_inception
  | delegated_rotation
  deriving DecidableEq, Repr

/-- Modelled from the spec: a `KeriEvent<KeyEvent>`, with the fields §4.G's expected-next rule
reads (identifier, sequence, type, prior digest) and the digest the event carries, absent when
it was built without one. -/
structure KeyEvent where
  identifier : Nat
  sequence : UInt64
  event_type : EventType
  prior_digest : Option Nat
  said : Option Nat
  deriving DecidableEq, Repr

/-- Modelled from the spec: the part of `IdentifierState` that §4.G reads and writes, its sequence
number and the digest of its last event. The default state stands for an identifier with no
state yet. -/
structure IdentifierState where
  sn : UInt64
  last_event_digest : Option Nat
  deriving DecidableEq, Repr

namespace IdentifierState

/-- Modelled from the spec: `IdentifierState::default()`. -/
def default : IdentifierState := ⟨0, none⟩

/-- Modelled from the spec: `IdentifierState::apply`, §4.G's expected-next rule. An inception must
have sequence 0 and apply to the default state; a rotation or an interaction must follow the
state's last event: sequence one more, prior digest that event's. -/
def apply (st : IdentifierState) (ev : KeyEvent) : Except Error IdentifierState :=
  match ev.event_type with
  | .inception | .delegated_inception =>
    if st = default ∧ ev.sequence = 0 then .ok ⟨0, ev.said⟩
    else .error (.SemanticError "Inception of an incepted identifier")
  | .rotation | .interaction | .delegated_rotation =>
    if st.last_event_digest.isSome ∧ ev.sequence = st.sn + 1 ∧
        ev.prior_digest = st.last_event_digest then .ok ⟨ev.sequence, ev.said⟩
    else .error (.SemanticError "Event out of order")

end IdentifierState

/-- Modelled from the spec: `KeriEvent::digest` returns the digest the event carries, and fails
on an event without one. -/
def KeyEvent.digest (ev : KeyEvent) : Except Error Nat :=
  match ev.said with
  | some d => .ok d
  | none => .error (.SemanticError "Missing digest")

/-- The key events, digests and states of the spec, as the database calls them. -/
def specCore : KeriCore Nat Nat KeyEvent IdentifierState where
  digest := KeyEvent.digest
  get_sn := KeyEvent.sequence
  get_prefix := KeyEvent.identifier
  default := IdentifierState.default
  apply := IdentifierState.apply
  sn := IdentifierState.sn

end Keriox
