import Keriox.HashMap
import Keriox.Event

/-!
# The notification bus

`NotificationBus::new()` builds an in-process dispatch, a registry from notification kinds to the
observers registered for them, and sets the dispatch's back-reference to the bus.
`register_observer` pushes the observer under each kind it lists, in order. `notify` looks up
the observers of the notification's kind and calls each in registration order; the `?` after each
call returns the first error at once, so the observers after a failing one are not called.

Observers are trait objects: their calls are modelled by a function `notify` of the observer and
the notification, threading a world `W` through the calls, so that an observer's result may
depend on what earlier observers (and the cascades they publish on the bus) did. A dispatch
returns its result, the world after it, and the calls it made with their results.

## Main definitions

* `Notification`, `JustNotification`, `JustNotification.from`
* `InProcessDispatch.register_observer`, `InProcessDispatch.dispatch`
* `Delivery.UpToFirstError`: the observers called in turn until one fails, with what each
  returned
* `NotificationBus.new`, `NotificationBus.register_observer`, `NotificationBus.notify`

## Main results

* `NotificationBus.observers_registered`: the registry after any registrations from `new()`
* `NotificationBus.notify_calls_registered`: `notify` calls the observers registered for the kind,
  in registration order, up to and including the first that fails, and returns its error
* `NotificationBus.notify_calls_only_registered`: it calls no observer registered only for other
  kinds
-/

namespace Keriox

/-- `Notification`, without the variant of the `query` feature. -/
inductive Notification (Dig Ev Sig Nt Seal : Type) where
  | KeyEventAdded (event : SignedEventMessage Ev Sig)
  | OutOfOrder (event : SignedEventMessage Ev Sig)
  | PartiallySigned (event : SignedEventMessage Ev Sig)
  | PartiallyWitnessed (event : SignedEventMessage Ev Sig)
  | ReceiptAccepted
  | ReceiptEscrowed
  | ReceiptOutOfOrder (receipt : SignedNontransferableReceipt Dig Nt)
  | TransReceiptOutOfOrder (receipt : SignedTransferableReceipt Dig Seal Sig)
  | DupliciousEvent (event : SignedEventMessage Ev Sig)
  | MissingDelegatingEvent (event : SignedEventMessage Ev Sig)

/-- `JustNotification`, the kinds of notification, without those of the `query` and `oobi`
features. -/
inductive JustNotification where
  | KeyEventAdded
  | OutOfOrder
  | PartiallySigned
  | PartiallyWitnessed
  | ReceiptAccepted
  | ReceiptEscrowed
  | ReceiptOutOfOrder
  | TransReceiptOutOfOrder
  | DuplicitousEvent
  | MissingDelegatingEvent
  deriving DecidableEq, Repr

variable {Dig Ev Sig Nt Seal : Type}

/-- `impl From<&Notification> for JustNotification`: the kind of a notification. -/
def JustNotification.from : Notification Dig Ev Sig Nt Seal → JustNotification
  | .KeyEventAdded _ => .KeyEventAdded
  | .OutOfOrder _ => .OutOfOrder
  | .PartiallySigned _ => .PartiallySigned
  | .PartiallyWitnessed _ => .PartiallyWitnessed
  | .ReceiptAccepted => .ReceiptAccepted
  | .ReceiptEscrowed => .ReceiptEscrowed
  | .ReceiptOutOfOrder _ => .ReceiptOutOfOrder
  | .TransReceiptOutOfOrder _ => .TransReceiptOutOfOrder
  | .DupliciousEvent _ => .DuplicitousEvent
  | .MissingDelegatingEvent _ => .MissingDelegatingEvent

/-- `InProcessDispatch`: the observers of each kind, in registration order, and whether the
back-reference to the bus has been set. -/
structure InProcessDispatch (O : Type) where
  observers : HashMap JustNotification (List O)
  bus : Bool

/-- `NotificationBus`, over the in-process dispatch. -/
structure NotificationBus (O : Type) where
  inner : InProcessDispatch O

/-- What a dispatch did: its result, the world after it, and the observers it called, in order,
with what each returned. -/
structure Delivery (O W : Type) where
  result : Except Error Unit
  world : W
  calls : List (O × Except Error Unit)

variable {O W : Type}

/-- `AllOk notify obs w w'`: the observers `obs`, called in turn from the world `w`, each return
`Ok`, and leave the world `w'`. -/
inductive AllOk (notify : O → W → Except Error Unit × W) : List O → W → W → Prop
  | nil (w : W) : AllOk notify [] w w
  | cons {o : O} {os : List O} {w w₁ w' : W} :
    notify o w = (.ok (), w₁) → AllOk notify os w₁ w' → AllOk notify (o :: os) w w'

/-- A delivery to the observers `obs` from the world `w` that stops at the first failure: either
every observer was called, in order, and returned `Ok`, and so did the delivery, which leaves the
world they leave; or the observers before one were called and returned `Ok`, that one, called on
the world they leave, returned an error, which the delivery returns with the world it leaves, and
the observers after it were not called. -/
def Delivery.UpToFirstError (d : Delivery O W) (notify : O → W → Except Error Unit × W)
    (obs : List O) (w : W) : Prop :=
  (AllOk notify obs w d.world ∧ d.result = .ok () ∧ d.calls = obs.map (·, .ok ())) ∨
    ∃ pre o e post w₁, obs = pre ++ o :: post ∧ AllOk notify pre w w₁ ∧
      notify o w₁ = (.error e, d.world) ∧ d.result = .error e ∧
      d.calls = pre.map (·, .ok ()) ++ [(o, .error e)]

/-- The observers called in a delivery that stops at the first failure come first in `obs`, in
its order. -/
theorem Delivery.UpToFirstError.calls_initial_segment {d : Delivery O W}
    {notify : O → W → Except Error Unit × W} {obs : List O} {w : W}
    (h : d.UpToFirstError notify obs w) : d.calls.map Prod.fst <+: obs := by
  rcases h with ⟨-, -, hc⟩ | ⟨pre, o, e, post, w₁, rfl, -, -, -, hc⟩
  · simp [hc, Function.comp_def]
  · exact ⟨post, by simp [hc, Function.comp_def]⟩

namespace InProcessDispatch

/-- `InProcessDispatch::new()`: no observers, no back-reference. -/
def new : InProcessDispatch O := ⟨.new, false⟩

/-- `register_observer`: the observer is pushed under each kind listed, in order. -/
def register_observer (d : InProcessDispatch O) (observer : O)
    (notifications : List JustNotification) : InProcessDispatch O :=
  { d with observers := notifications.foldl (fun obs n => obs.push n observer) d.observers }

/-- `for esc in obs.iter() { esc.notify(notification, bus)?; }`: the observers are called in turn,
the world threaded through, until one fails. The calls made are listed with their results. -/
def notify_each (notify : O → W → Except Error Unit × W) : List O → W → Delivery O W
  | [], w => ⟨.ok (), w, []⟩
  | esc :: obs, w =>
    match notify esc w with
    | (.error err, w') => ⟨.error err, w', [(esc, .error err)]⟩
    | (.ok (), w') =>
      let rest := notify_each notify obs w'
      { rest with calls := (esc, .ok ()) :: rest.calls }

/-- The dispatch loop calls the observers in order and stops at the first that fails, with what
each returned. -/
theorem notify_each_upToFirstError (notify : O → W → Except Error Unit × W) (obs : List O)
    (w : W) : (notify_each notify obs w).UpToFirstError notify obs w := by
  induction obs generalizing w with
  | nil => exact .inl ⟨.nil w, rfl, rfl⟩
  | cons esc obs ih =>
    unfold notify_each
    rcases hn : notify esc w with ⟨_ | ⟨⟩, w'⟩
    · exact .inr ⟨[], esc, _, obs, w, rfl, .nil w, hn, rfl, rfl⟩
    · rcases ih w' with ⟨ha, hr, hc⟩ | ⟨pre, o, e, post, w₁, rfl, ha, ho, hr, hc⟩
      · exact .inl ⟨.cons hn ha, hr, by simp [hc]⟩
      · exact .inr ⟨esc :: pre, o, e, post, w₁, rfl, .cons hn ha, ho, hr, by simp [hc]⟩

/-- `dispatch`: without the back-reference, an error; otherwise the observers of the
notification's kind are called in turn. -/
def dispatch (d : InProcessDispatch O) (notification : Notification Dig Ev Sig Nt Seal)
    (notify : O → Notification Dig Ev Sig Nt Seal → W → Except Error Unit × W) (w : W) :
    Delivery O W :=
  if d.bus then
    match d.observers.get (JustNotification.from notification) with
    | some obs => notify_each (fun o => notify o notification) obs w
    | none => ⟨.ok (), w, []⟩
  else ⟨.error (.SemanticError "InProcessDispatch: bus back-reference not set"), w, []⟩

/-- Registering pushes the observer once under each listing of a kind. -/
@[simp] theorem getD_register_observer (d : InProcessDispatch O) (observer : O)
    (notifications : List JustNotification) (k : JustNotification) :
    (d.register_observer observer notifications).observers.getD k =
      d.observers.getD k ++
        (notifications.filter fun n => decide (n = k)).map fun _ => observer := by
  unfold register_observer
  induction notifications generalizing d with
  | nil => simp
  | cons n ns ih =>
    rw [List.foldl_cons, ih ⟨_, d.bus⟩]
    by_cases h : n = k
    · subst h; simp
    · simp [h, Ne.symm h]

/-- With the back-reference set, a dispatch runs the loop over the observers of the kind, none
when the kind has no entry. -/
theorem dispatch_of_bus {d : InProcessDispatch O} (h : d.bus = true)
    (notification : Notification Dig Ev Sig Nt Seal)
    (notify : O → Notification Dig Ev Sig Nt Seal → W → Except Error Unit × W) (w : W) :
    d.dispatch notification notify w =
      notify_each (fun o => notify o notification)
        (d.observers.getD (JustNotification.from notification)) w := by
  simp only [dispatch, h, if_true, HashMap.getD]
  split <;> simp_all [notify_each]

end InProcessDispatch

namespace NotificationBus

/-- `NotificationBus::new()`: an in-process dispatch whose back-reference is set. -/
def new : NotificationBus O := ⟨{ InProcessDispatch.new with bus := true }⟩

/-- `register_observer`, whose result is dropped. -/
def register_observer (bus : NotificationBus O) (escrow : O)
    (notification : List JustNotification) : NotificationBus O :=
  ⟨bus.inner.register_observer escrow notification⟩

/-- `notify`. -/
def notify (bus : NotificationBus O) (notification : Notification Dig Ev Sig Nt Seal)
    (notify : O → Notification Dig Ev Sig Nt Seal → W → Except Error Unit × W) (w : W) :
    Delivery O W :=
  bus.inner.dispatch notification notify w

/-- Registrations made one after another from `new()`. -/
def registered (regs : List (O × List JustNotification)) : NotificationBus O :=
  regs.foldl (fun bus r => bus.register_observer r.1 r.2) new

/-- The observers that `regs` registers for the kind `k`, once per listing of `k`, in
registration order. -/
def registrations (regs : List (O × List JustNotification)) (k : JustNotification) : List O :=
  regs.flatMap fun r => (r.2.filter fun n => decide (n = k)).map fun _ => r.1

theorem mem_registrations {regs : List (O × List JustNotification)} {k : JustNotification}
    {o : O} : o ∈ registrations regs k ↔ ∃ ns, (o, ns) ∈ regs ∧ k ∈ ns := by
  simp only [registrations, List.mem_flatMap, List.mem_map, List.mem_filter, decide_eq_true_eq]
  constructor
  · rintro ⟨⟨o, ns⟩, hr, _, ⟨hk, rfl⟩, rfl⟩; exact ⟨ns, hr, hk⟩
  · rintro ⟨ns, hr, hk⟩; exact ⟨(o, ns), hr, k, ⟨hk, rfl⟩, rfl⟩

/-- Registrations from any bus keep its back-reference and append to its registry. -/
theorem foldl_register_observer (regs : List (O × List JustNotification)) (bus : NotificationBus O)
    (k : JustNotification) :
    let bus' := regs.foldl (fun bus r => bus.register_observer r.1 r.2) bus
    bus'.inner.bus = bus.inner.bus ∧
      bus'.inner.observers.getD k = bus.inner.observers.getD k ++ registrations regs k := by
  induction regs generalizing bus with
  | nil => simp [registrations]
  | cons r regs ih =>
    obtain ⟨hbus, hobs⟩ := ih (bus.register_observer r.1 r.2)
    refine ⟨hbus, ?_⟩
    rw [List.foldl_cons, hobs]
    simp [register_observer, registrations]

/-- **The registry after any registrations from `new()`.** The back-reference is set and each
kind holds its registrations, in order. -/
theorem observers_registered (regs : List (O × List JustNotification)) (k : JustNotification) :
    (registered regs).inner.bus = true ∧
      (registered regs).inner.observers.getD k = registrations regs k :=
  foldl_register_observer regs new k

/-- On a bus built by registrations from `new()`, `notify` is the dispatch loop over the
registrations of the notification's kind. -/
theorem notify_registered (regs : List (O × List JustNotification))
    (notification : Notification Dig Ev Sig Nt Seal)
    (notify : O → Notification Dig Ev Sig Nt Seal → W → Except Error Unit × W) (w : W) :
    (registered regs).notify notification notify w =
      InProcessDispatch.notify_each (fun o => notify o notification)
        (registrations regs (JustNotification.from notification)) w := by
  obtain ⟨hbus, hobs⟩ := observers_registered regs (JustNotification.from notification)
  rw [NotificationBus.notify, InProcessDispatch.dispatch_of_bus hbus, hobs]

/-- **`notify` delivers up to the first failure.** On a bus built by any registrations from
`new()`, `notify` calls the observers registered for the notification's kind, once per
registration and in registration order, the world threaded through, until one returns an error;
it returns that error, and the observers registered after it are not called. It returns `Ok`
exactly when every one of them was called and returned `Ok`. -/
theorem notify_calls_registered (regs : List (O × List JustNotification))
    (notification : Notification Dig Ev Sig Nt Seal)
    (notify : O → Notification Dig Ev Sig Nt Seal → W → Except Error Unit × W) (w : W) :
    ((registered regs).notify notification notify w).UpToFirstError
      (fun o => notify o notification) (registrations regs (JustNotification.from notification))
      w := by
  rw [notify_registered]
  exact InProcessDispatch.notify_each_upToFirstError _ _ _

/-- `notify` calls no observer that was not registered for the notification's kind. -/
theorem notify_calls_only_registered (regs : List (O × List JustNotification))
    (notification : Notification Dig Ev Sig Nt Seal)
    (notify : O → Notification Dig Ev Sig Nt Seal → W → Except Error Unit × W) (w : W)
    {call : O × Except Error Unit}
    (h : call ∈ ((registered regs).notify notification notify w).calls) :
    ∃ ns, (call.1, ns) ∈ regs ∧ JustNotification.from notification ∈ ns := by
  rw [notify_registered] at h
  exact mem_registrations.1
    ((InProcessDispatch.notify_each_upToFirstError _ _ _).calls_initial_segment.subset
      (List.mem_map_of_mem _ h))

/-- Two observers of `ReceiptAccepted`, the first of which fails. -/
def firstFails : List (Nat × List JustNotification) :=
  [(1, [.ReceiptAccepted]), (2, [.ReceiptAccepted])]

/-- The first observer rejects every notification, the others accept it. -/
def rejectsFirst (o : Nat) (_ : Notification Nat Nat Nat Nat Nat) (w : Unit) :
    Except Error Unit × Unit :=
  (if o = 1 then .error (.SemanticError "rejected") else .ok (), w)

/-- When the first of two observers of a kind fails, the second is never called. -/
theorem notify_skips_after_error :
    registrations firstFails .ReceiptAccepted = [1, 2] ∧
      ((registered firstFails).notify .ReceiptAccepted rejectsFirst ()).calls.map Prod.fst =
        [1] := by
  decide

end NotificationBus

end Keriox
