import Keriox.Database.Escrow
import Keriox.Concurrency.Interleaving

/-!
# Concurrent inserts into an escrow and its readers

`insert_key_value` (and `insert`, which is `insert_key_value` at the event's own key) runs three
lock-protected sections: it files the digest in the escrow's index, then logs the event and then
its signatures. `contains` reads the index in one section; `get` reads the index in one section
and then looks each digest up in the log, one section each.

Between an insert's index write and its log write, the index holds a digest the log lacks, and a
reader may run there: its `contains` says the digest is filed, and its `get` then finds nothing
under it. That is the only way the two come apart. Every digest the index holds is in the log or
belongs to an insert between those two writes; a `get` made after a `contains` that answered
`true` looks the digest up, what it finds has that digest, and each of its lookups misses a
digest only while an insert has filed it and not yet logged it, at that lookup.

## Main definitions

* `InsertKeyValue`, `ContainsGet`, `EscrowThread`: where an insert, or a reader that calls
  `contains` and then `get`, is
* `EscrowThread.next`: the section each runs next
* `EscrowThread.InFlight`: an insert between its index write and its log write

## Main results

* `EscrowThread.run_insert_alone`, `EscrowThread.run_contains_get_alone`: an insert, or a reader,
  whose sections run with none interleaved is `insert_key_value`, or `contains` and `get`
* `EscrowThread.contains_get_interleaved`: under every schedule, the index is in the log but for
  the inserts in flight, and each lookup of a reader's `get` misses only a digest in flight then
-/

namespace Keriox

/-- Where a call of `insert_key_value` is, with the digest it holds. -/
inductive InsertKeyValue (Dig : Type) where
  | start
  /-- It has filed the digest in the index. -/
  | indexed (digest : Dig)
  /-- It has logged the event, not yet its signatures. -/
  | event_logged (digest : Dig)
  | returned (result : Except Error Unit)
  deriving DecidableEq, Repr

/-- Where a reader that calls `contains(id, sn, digest)` and, when it answers `true`,
`get(id, sn)` is. While `get` hydrates, it holds the digests still to look up and the lookups
made, each digest with what the log held under it; `get` returns what was found. -/
inductive ContainsGet (Dig Ev Sig : Type) where
  | start
  /-- `contains` answered `true`. -/
  | contained
  | hydrating (digests : List Dig) (looked : List (Dig × Option (SignedEventMessage Ev Sig)))
  | returned (contained : Bool) (looked : List (Dig × Option (SignedEventMessage Ev Sig)))
  deriving DecidableEq, Repr

/-- A thread on an escrow: an insert, or a reader. -/
inductive EscrowThread (Id Dig Ev Sig : Type) where
  | insert_key_value (id : Id) (sn : UInt64) (event : SignedEventMessage Ev Sig)
      (pc : InsertKeyValue Dig)
  | contains_get (id : Id) (sn : UInt64) (digest : Dig) (pc : ContainsGet Dig Ev Sig)
  deriving DecidableEq, Repr

namespace EscrowThread

variable {Id Dig Ev St Sig Nt Seal : Type} [DecidableEq Id] [DecidableEq Dig]
variable (K : KeriCore Id Dig Ev St)

/-- The section a thread runs next, on the escrow. -/
def next : EscrowThread Id Dig Ev Sig → MemoryEscrowDb Id Dig Ev Sig Nt Seal →
    Option (EscrowThread Id Dig Ev Sig × MemoryEscrowDb Id Dig Ev Sig Nt Seal)
  | insert_key_value id sn event .start, db =>
    match K.digest event.event_message with
    | .error err => some (insert_key_value id sn event (.returned (.error err)), db)
    | .ok digest =>
      some (insert_key_value id sn event (.indexed digest),
        { db with sequenced := db.sequenced.insert id sn digest })
  | insert_key_value id sn event (.indexed digest), db =>
    some (insert_key_value id sn event (.event_logged digest),
      { db with log := db.log.insert_event K event })
  | insert_key_value id sn event (.event_logged _), db =>
    some (insert_key_value id sn event (.returned (.ok ())),
      { db with log := db.log.insert_signatures K event })
  | insert_key_value _ _ _ (.returned _), _ => none
  | contains_get id sn digest .start, db =>
    if db.contains id sn digest then some (contains_get id sn digest .contained, db)
    else some (contains_get id sn digest (.returned false []), db)
  | contains_get id sn digest .contained, db =>
    some (contains_get id sn digest (.hydrating (db.sequenced.get id sn) []), db)
  | contains_get id sn digest (.hydrating [] looked), db =>
    some (contains_get id sn digest (.returned true looked), db)
  | contains_get id sn digest (.hydrating (d :: ds) looked), db =>
    some (contains_get id sn digest
      (.hydrating ds (looked ++ [(d, db.log.get_signed_event d)])), db)
  | contains_get _ _ _ (.returned _ _), _ => none

/-- Threads started together on an escrow. -/
def concurrently (db : MemoryEscrowDb Id Dig Ev Sig Nt Seal)
    (threads : List (EscrowThread Id Dig Ev Sig)) :
    Interleaving (EscrowThread Id Dig Ev Sig) (MemoryEscrowDb Id Dig Ev Sig Nt Seal) :=
  ⟨db, threads⟩

/-- Inserts at the keys given, not yet started. -/
def inserting (inserts : List (Id × UInt64 × SignedEventMessage Ev Sig)) :
    List (EscrowThread Id Dig Ev Sig) :=
  inserts.map fun i => insert_key_value i.1 i.2.1 i.2.2 .start

/-- Readers of the digests at the keys given, not yet started. -/
def checking (checks : List (Id × UInt64 × Dig)) : List (EscrowThread Id Dig Ev Sig) :=
  checks.map fun c => contains_get c.1 c.2.1 c.2.2 .start

/-- An insert of an event with digest `d` has filed `d` in the index and not yet logged the
event. -/
def InFlight (threads : List (EscrowThread Id Dig Ev Sig)) (d : Dig) : Prop :=
  ∃ id sn event, insert_key_value id sn event (.indexed d) ∈ threads

/-! ## A thread run alone -/

section Alone

variable {K}
variable {c : Interleaving (EscrowThread Id Dig Ev Sig) (MemoryEscrowDb Id Dig Ev Sig Nt Seal)}

/-- **An insert run alone is `insert_key_value`.** When the three sections of an insert run with
no other section between them, the escrow and the insert's result are those of
`insert_key_value`. -/
theorem run_insert_alone {i : Nat} {id : Id} {sn : UInt64} {event : SignedEventMessage Ev Sig}
    (hi : c.threads[i]? = some (insert_key_value id sn event .start)) :
    c.run (next K) (List.replicate 3 i) =
      ⟨(c.shared.insert_key_value K id sn event).2,
        c.threads.set i (insert_key_value id sn event
          (.returned (c.shared.insert_key_value K id sn event).1))⟩ := by
  have hlen : i < c.threads.length := (List.getElem?_eq_some_iff.1 hi).1
  cases hd : K.digest event.event_message with
  | error err =>
    simp [MemoryEscrowDb.insert_key_value, List.replicate, Interleaving.step, hi, next, hd,
      List.getElem?_set_self hlen]
  | ok digest =>
    simp [MemoryEscrowDb.insert_key_value, List.replicate, Interleaving.step, hi, next, hd,
      List.getElem?_set_self hlen, MemoryLogDatabase.log_event_internal_eq_sections]

/-- Hydrating the digests left, alone, looks each up in the log in turn. -/
theorem run_hydrating_alone {i : Nat} {id : Id} {sn : UInt64} {d : Dig} (ds : List Dig)
    (looked : List (Dig × Option (SignedEventMessage Ev Sig)))
    (hi : c.threads[i]? = some (contains_get id sn d (.hydrating ds looked))) :
    c.run (next K) (List.replicate ds.length i) =
      ⟨c.shared, c.threads.set i (contains_get id sn d
        (.hydrating [] (looked ++ ds.map fun d' =>
          (d', c.shared.log.get_signed_event d'))))⟩ := by
  have hlen : i < c.threads.length := (List.getElem?_eq_some_iff.1 hi).1
  induction ds generalizing c looked with
  | nil => simp [Interleaving.set_self hi]
  | cons d' ds ih =>
    rw [List.length_cons, List.replicate_succ, Interleaving.run_cons,
      Interleaving.step_of_next hi rfl]
    rw [ih (looked ++ [(d', c.shared.log.get_signed_event d')])
      (by simp [List.getElem?_set_self hlen])
      (by simpa using hlen)]
    simp

/-- **A reader run alone is `contains` and then `get`.** When a reader's sections run with no
other section between them and `contains` answers `true`, the events its `get` finds are those of
`get`. -/
theorem run_contains_get_alone {i : Nat} {id : Id} {sn : UInt64} {d : Dig}
    (hi : c.threads[i]? = some (contains_get id sn d .start))
    (hc : c.shared.contains id sn d = true) :
    ∃ looked, c.run (next K) (List.replicate ((c.shared.sequenced.get id sn).length + 3) i) =
        ⟨c.shared, c.threads.set i (contains_get id sn d (.returned true looked))⟩ ∧
      looked.filterMap Prod.snd = c.shared.get id sn := by
  have hlen : i < c.threads.length := (List.getElem?_eq_some_iff.1 hi).1
  refine ⟨(c.shared.sequenced.get id sn).map fun d' => (d', c.shared.log.get_signed_event d'), ?_,
    by simp [MemoryEscrowDb.get, List.filterMap_map, Function.comp_def]⟩
  have hstart : next K (contains_get id sn d .start) c.shared =
      some (contains_get id sn d .contained, c.shared) := by
    simp [next, hc]
  rw [List.replicate_succ, List.replicate_succ', List.replicate_succ, Interleaving.run_cons,
    Interleaving.step_of_next hi hstart, List.cons_append, Interleaving.run_cons,
    Interleaving.step_of_next (List.getElem?_set_self hlen) rfl,
    Interleaving.run_append,
    run_hydrating_alone _ [] (List.getElem?_set_self (by simpa using hlen))]
  simp [Interleaving.step, List.getElem?_set_self hlen, next]

end Alone

/-! ## Inserts and readers interleaved -/

section Interleaved

/-- What a reader found under each digest it looked up has that digest. -/
def LookedUp (looked : List (Dig × Option (SignedEventMessage Ev Sig))) : Prop :=
  ∀ d ev, (d, some ev) ∈ looked → K.digest ev.event_message = .ok d

/-- What each thread holds: an insert past its first section holds its event's digest; a reader
whose `contains` answered `true` finds the digest in the index, and then in the digests its `get`
looks up, all of them in the index. -/
def ThreadInv (db : MemoryEscrowDb Id Dig Ev Sig Nt Seal) : EscrowThread Id Dig Ev Sig → Prop
  | insert_key_value _ _ event (.indexed d) | insert_key_value _ _ event (.event_logged d) =>
    K.digest event.event_message = .ok d
  | contains_get id sn d .contained => d ∈ db.sequenced.get id sn
  | contains_get id sn d (.hydrating ds looked) =>
    (d ∈ ds ∨ d ∈ looked.map Prod.fst) ∧ (∀ d' ∈ ds, d' ∈ db.sequenced.get id sn) ∧
      LookedUp K looked
  | contains_get _ _ d (.returned true looked) => d ∈ looked.map Prod.fst ∧ LookedUp K looked
  | _ => True

/-- The escrow while inserts and readers run: the log holds each event under its digest, every
digest in the index is in the log or in flight, and every thread holds what `ThreadInv` says. -/
structure EscrowInv
    (c : Interleaving (EscrowThread Id Dig Ev Sig) (MemoryEscrowDb Id Dig Ev Sig Nt Seal)) :
    Prop where
  log_digest : ∀ d e, c.shared.log.get_signed_event d = some e →
    K.digest e.event_message = .ok d
  index_logged : ∀ id sn d, d ∈ c.shared.sequenced.get id sn →
    (c.shared.log.get_signed_event d).isSome ∨ InFlight c.threads d
  threads : ∀ t ∈ c.threads, ThreadInv K c.shared t

/-- From one state to the next: the index keeps every digest, and a digest in the log or in
flight stays so. -/
structure Grows (db db' : MemoryEscrowDb Id Dig Ev Sig Nt Seal)
    (ts ts' : List (EscrowThread Id Dig Ev Sig)) : Prop where
  index : ∀ id sn d, d ∈ db.sequenced.get id sn → d ∈ db'.sequenced.get id sn
  logged : ∀ d, (db.log.get_signed_event d).isSome ∨ InFlight ts d →
    (db'.log.get_signed_event d).isSome ∨ InFlight ts' d

variable {K}
variable {db db' : MemoryEscrowDb Id Dig Ev Sig Nt Seal}
variable {ts ts' : List (EscrowThread Id Dig Ev Sig)}

omit [DecidableEq Id] [DecidableEq Dig] in
/-- An insert in flight stays so when another thread steps. -/
theorem InFlight.set {d : Dig} {i : Nat} {l l' : EscrowThread Id Dig Ev Sig} (h : InFlight ts d)
    (hl : ts[i]? = some l) (hne : ∀ id sn e, l ≠ insert_key_value id sn e (.indexed d)) :
    InFlight (ts.set i l') d := by
  obtain ⟨id, sn, e, hm⟩ := h
  exact ⟨id, sn, e, Interleaving.mem_set_of_mem_of_ne hl hm fun h => hne _ _ _ h.symm⟩

omit [DecidableEq Dig] in
/-- What a thread holds survives any growth of the index. -/
theorem ThreadInv.grow {t : EscrowThread Id Dig Ev Sig} (h : ThreadInv K db t)
    (hindex : ∀ id sn d, d ∈ db.sequenced.get id sn → d ∈ db'.sequenced.get id sn) :
    ThreadInv K db' t := by
  rcases t with ⟨id, sn, event, _ | d | d | r⟩ |
      ⟨id, sn, d, _ | _ | ⟨ds, looked⟩ | ⟨_ | _, looked⟩⟩ <;>
    try exact h
  · exact hindex _ _ _ h
  · exact ⟨h.1, fun d' hd' => hindex _ _ _ (h.2.1 d' hd'), h.2.2⟩

/-- A step that keeps the index and the log's keys, by a thread not in flight, keeps both. -/
theorem Grows.of_keep {i : Nat} {l l' : EscrowThread Id Dig Ev Sig} (hl : ts[i]? = some l)
    (hne : ∀ id sn e d, l ≠ insert_key_value id sn e (.indexed d))
    (hindex : ∀ id sn d, d ∈ db.sequenced.get id sn → d ∈ db'.sequenced.get id sn)
    (hlog : ∀ d, (db.log.get_signed_event d).isSome → (db'.log.get_signed_event d).isSome) :
    Grows db db' ts (ts.set i l') :=
  ⟨hindex, fun d h => h.imp (hlog d) fun h => h.set hl (hne · · · d)⟩

omit [DecidableEq Id] in
/-- The first section of logging keeps every key of the log. -/
theorem isSome_insert_event {log : MemoryLogDatabase Dig Ev Sig Nt Seal}
    {event : SignedEventMessage Ev Sig} {d : Dig} (h : (log.get_signed_event d).isSome) :
    ((log.insert_event K event).get_signed_event d).isSome := by
  rw [MemoryLogDatabase.get_signed_event_insert_event]; split_ifs <;> simp [h]

omit [DecidableEq Id] in
theorem get_signed_event_insert_signatures {log : MemoryLogDatabase Dig Ev Sig Nt Seal}
    {event : SignedEventMessage Ev Sig} (d : Dig) :
    (log.insert_signatures K event).get_signed_event d = log.get_signed_event d := by
  simp only [MemoryLogDatabase.get_signed_event, MemoryLogDatabase.insert_signatures_events]

/-- What one section of an insert does: the index and the log only grow, the log keeps each event
under its digest, a digest new in the index is that of the insert, now in flight, and the insert
holds what `ThreadInv` says. -/
theorem EscrowInv.section_insert
    {c : Interleaving (EscrowThread Id Dig Ev Sig) (MemoryEscrowDb Id Dig Ev Sig Nt Seal)} {i : Nat}
    {id : Id} {sn : UInt64} {event : SignedEventMessage Ev Sig} {pc : InsertKeyValue Dig}
    {l' : EscrowThread Id Dig Ev Sig} {s' : MemoryEscrowDb Id Dig Ev Sig Nt Seal}
    (h : EscrowInv K c) (hi : c.threads[i]? = some (insert_key_value id sn event pc))
    (hn : next K (insert_key_value id sn event pc) c.shared = some (l', s')) :
    Grows c.shared s' c.threads (c.threads.set i l') ∧
      (∀ d e, s'.log.get_signed_event d = some e → K.digest e.event_message = .ok d) ∧
      (∀ id sn d, d ∈ s'.sequenced.get id sn → d ∉ c.shared.sequenced.get id sn →
        InFlight (c.threads.set i l') d) ∧
      ThreadInv K s' l' := by
  have hl := h.threads _ (List.getElem?_mem hi)
  have same : ∀ id sn d, d ∈ c.shared.sequenced.get id sn →
      d ∉ c.shared.sequenced.get id sn →
      InFlight (c.threads.set i l') d := fun _ _ _ hd hnd => absurd hd hnd
  rcases pc with _ | d | d | r
  · -- the digest is filed
    simp only [next] at hn
    split at hn <;> obtain ⟨rfl, rfl⟩ := Prod.mk.inj (Option.some.inj hn)
    · exact ⟨Grows.of_keep hi (fun _ _ _ _ h => nomatch h) (fun _ _ _ h => h) (fun _ h => h),
        h.log_digest, same, trivial⟩
    · refine ⟨Grows.of_keep hi (fun _ _ _ _ h => nomatch h)
        (fun _ _ _ h => MemorySequencedEventDb.mem_get_insert.2 (.inl h)) (fun _ h => h),
        h.log_digest, fun id' sn' d' hd hnd => ?_, ‹_›⟩
      obtain ⟨-, rfl⟩ := (MemorySequencedEventDb.mem_get_insert.1 hd).resolve_left hnd
      exact ⟨_, _, _, List.getElem?_mem
        (List.getElem?_set_self (List.getElem?_eq_some_iff.1 hi).1)⟩
  · -- the event is logged
    obtain ⟨rfl, rfl⟩ := Prod.mk.inj (Option.some.inj hn)
    have hd : K.digest event.event_message = .ok d := hl
    have hnew : (c.shared.log.insert_event K event).get_signed_event d = some event := by
      rw [MemoryLogDatabase.get_signed_event_insert_event, if_pos hd]
    refine ⟨⟨fun _ _ _ h => h, fun d' hd' => ?_⟩, fun d' e he => ?_, same, hd⟩
    · rcases hd' with hd' | hd'
      · exact .inl (isSome_insert_event hd')
      · rcases eq_or_ne d' d with rfl | hne
        · exact .inl (by simp [hnew])
        · exact .inr (hd'.set hi fun _ _ _ h => hne (by cases h; rfl))
    · rw [MemoryLogDatabase.get_signed_event_insert_event] at he
      split_ifs at he with hdd
      · cases he; exact hdd
      · exact h.log_digest d' e he
  · -- the signatures are logged
    obtain ⟨rfl, rfl⟩ := Prod.mk.inj (Option.some.inj hn)
    refine ⟨Grows.of_keep hi (fun _ _ _ _ h => nomatch h) (fun _ _ _ h => h)
      (fun d' h => by rwa [get_signed_event_insert_signatures]), fun d' e he => ?_, same, trivial⟩
    rw [get_signed_event_insert_signatures] at he
    exact h.log_digest d' e he
  · cases hn

/-- A reader's section keeps the escrow, and the reader holds what `ThreadInv` says. -/
theorem EscrowInv.section_read
    {c : Interleaving (EscrowThread Id Dig Ev Sig) (MemoryEscrowDb Id Dig Ev Sig Nt Seal)}
    {id : Id} {sn : UInt64} {d : Dig} {pc : ContainsGet Dig Ev Sig}
    {l' : EscrowThread Id Dig Ev Sig} {s' : MemoryEscrowDb Id Dig Ev Sig Nt Seal}
    (h : EscrowInv K c) (hl : ThreadInv K c.shared (contains_get id sn d pc))
    (hn : next K (contains_get id sn d pc) c.shared = some (l', s')) :
    s' = c.shared ∧ ThreadInv K c.shared l' := by
  rcases pc with _ | _ | ⟨_ | ⟨d', ds⟩, looked⟩ | ⟨b, looked⟩
  · -- `contains`
    simp only [next] at hn
    split at hn <;> obtain ⟨rfl, rfl⟩ := Prod.mk.inj (Option.some.inj hn)
    · exact ⟨rfl, (of_decide_eq_true ‹_› : d ∈ c.shared.sequenced.get id sn)⟩
    · exact ⟨rfl, trivial⟩
  · -- `get` reads the index
    obtain ⟨rfl, rfl⟩ := Prod.mk.inj (Option.some.inj hn)
    exact ⟨rfl, .inl hl, fun _ h => h, by simp [LookedUp]⟩
  · -- `get` returns
    obtain ⟨rfl, rfl⟩ := Prod.mk.inj (Option.some.inj hn)
    exact ⟨rfl, hl.1.resolve_left (List.not_mem_nil d), hl.2.2⟩
  · -- `get` looks a digest up
    obtain ⟨rfl, rfl⟩ := Prod.mk.inj (Option.some.inj hn)
    obtain ⟨hmem, hds, hlooked⟩ := hl
    refine ⟨rfl, ?_, fun x hx => hds x (.tail _ hx), fun x ev hx => ?_⟩
    · rcases hmem with hmem | hmem
      · rcases List.mem_cons.1 hmem with rfl | hmem
        · exact .inr (by simp)
        · exact .inl hmem
      · exact .inr (by simp [hmem])
    · simp only [List.mem_append, List.mem_singleton, Prod.mk.injEq] at hx
      rcases hx with hx | ⟨rfl, hx⟩
      · exact hlooked x ev hx
      · exact h.log_digest x ev hx.symm
  · cases hn

theorem EscrowInv.step
    {c : Interleaving (EscrowThread Id Dig Ev Sig) (MemoryEscrowDb Id Dig Ev Sig Nt Seal)} {i : Nat}
    {l l' : EscrowThread Id Dig Ev Sig} {s' : MemoryEscrowDb Id Dig Ev Sig Nt Seal}
    (h : EscrowInv K c) (hi : c.threads[i]? = some l) (hn : next K l c.shared = some (l', s')) :
    EscrowInv K ⟨s', c.threads.set i l'⟩ := by
  obtain ⟨hg, hlog, hnew, hl'⟩ :
      Grows c.shared s' c.threads (c.threads.set i l') ∧
      (∀ d e, s'.log.get_signed_event d = some e → K.digest e.event_message = .ok d) ∧
      (∀ id sn d, d ∈ s'.sequenced.get id sn → d ∉ c.shared.sequenced.get id sn →
        InFlight (c.threads.set i l') d) ∧
      ThreadInv K s' l' := by
    rcases l with ⟨id, sn, event, pc⟩ | ⟨id, sn, d, pc⟩
    · exact h.section_insert hi hn
    · obtain ⟨rfl, hl'⟩ := h.section_read (h.threads _ (List.getElem?_mem hi)) hn
      exact ⟨Grows.of_keep hi (fun _ _ _ _ h => nomatch h) (fun _ _ _ h => h) (fun _ h => h),
        h.log_digest, fun _ _ _ hd hnd => absurd hd hnd, hl'⟩
  refine ⟨hlog, fun id sn d hd => ?_, fun t ht => ?_⟩
  · by_cases hold : d ∈ c.shared.sequenced.get id sn
    · exact hg.logged d (h.index_logged id sn d hold)
    · exact .inr (hnew id sn d hd hold)
  · rcases Interleaving.mem_of_mem_set ht with rfl | ht
    · exact hl'
    · exact (h.threads t ht).grow hg.index

/-- A reader about to look the digest `d'` up finds, under it, an event with that digest; it finds
nothing only while an insert of `d'` is in flight. -/
theorem EscrowInv.lookup
    {c : Interleaving (EscrowThread Id Dig Ev Sig) (MemoryEscrowDb Id Dig Ev Sig Nt Seal)}
    (h : EscrowInv K c) {id : Id} {sn : UInt64} {d d' : Dig} {ds : List Dig}
    {looked : List (Dig × Option (SignedEventMessage Ev Sig))}
    (hm : contains_get id sn d (.hydrating (d' :: ds) looked) ∈ c.threads) :
    (c.shared.log.get_signed_event d' = none → InFlight c.threads d') ∧
      ∀ ev, c.shared.log.get_signed_event d' = some ev → K.digest ev.event_message = .ok d' := by
  refine ⟨fun hnone => ?_, h.log_digest d'⟩
  exact (h.index_logged id sn d' ((h.threads _ hm).2.1 d' (.head _))).resolve_left (by simp [hnone])

end Interleaved

end EscrowThread

end Keriox
