import Mathlib.Data.List.Perm.Basic

/-!
# Threads interleaving lock-protected sections

Every table of the in-memory backend sits behind its own `RwLock`, and a call takes and releases
the locks of the tables it touches one after another. Between two of its sections, the call
holds no lock, and any other thread may run any number of its own sections. A call is modelled
as a thread of control: its local state says where it is (the locals it holds and the section it
runs next), and `next` runs that section atomically on the shared state, or says the thread has
returned. Computation on locals alone (`apply`, `digest`) is merged into the section that
follows it.

A schedule is the list of the threads to run, one section each, in order: every interleaving of
the sections is the run of some schedule. A thread that has returned, or an index past the
threads, takes no step.

## Main definitions

* `Interleaving`: the shared state and the local state of each thread
* `Interleaving.step`, `Interleaving.run`: one section of the scheduled thread; a schedule

## Main results

* `Interleaving.run_induction`: a property kept by every section of every thread holds after
  every schedule
* `Interleaving.filterMap_set_perm`: what a thread's step changes in a list collected over the
  threads
-/

namespace Keriox

/-- The shared state and, for each thread, where it is. -/
structure Interleaving (L S : Type) where
  shared : S
  threads : List L

namespace Interleaving

variable {L S : Type} (next : L → S → Option (L × S))

/-- Thread `i` runs its next section; a thread that has returned does nothing. -/
def step (c : Interleaving L S) (i : Nat) : Interleaving L S :=
  match c.threads[i]? with
  | some l =>
    match next l c.shared with
    | some (l', s') => ⟨s', c.threads.set i l'⟩
    | none => c
  | none => c

/-- The threads run their sections in the order of the schedule. -/
def run (c : Interleaving L S) (sched : List Nat) : Interleaving L S :=
  sched.foldl (step next) c

variable {next}

@[simp] theorem run_nil (c : Interleaving L S) : c.run next [] = c := rfl

@[simp] theorem run_cons (c : Interleaving L S) (i : Nat) (sched : List Nat) :
    c.run next (i :: sched) = (c.step next i).run next sched := rfl

theorem run_append (c : Interleaving L S) (s₁ s₂ : List Nat) :
    c.run next (s₁ ++ s₂) = (c.run next s₁).run next s₂ :=
  List.foldl_append _ _ _ _

/-- A step replaces a thread, and keeps the number of threads. -/
@[simp] theorem length_step (c : Interleaving L S) (i : Nat) :
    (c.step next i).threads.length = c.threads.length := by
  unfold step
  split
  · split <;> simp
  · rfl

@[simp] theorem length_run (c : Interleaving L S) (sched : List Nat) :
    (c.run next sched).threads.length = c.threads.length := by
  induction sched generalizing c with
  | nil => rfl
  | cons i sched ih => rw [run_cons, ih, length_step]

/-- Thread `i` taking the section `next` gives it. -/
theorem step_of_next {c : Interleaving L S} {i : Nat} {l l' : L} {s' : S}
    (hl : c.threads[i]? = some l) (h : next l c.shared = some (l', s')) :
    c.step next i = ⟨s', c.threads.set i l'⟩ := by
  simp only [step, hl, h]

/-- What a step is: nothing, or thread `i` taking the section `next` gives it. -/
theorem step_cases (c : Interleaving L S) (i : Nat) :
    c.step next i = c ∨ ∃ l l' s', c.threads[i]? = some l ∧ next l c.shared = some (l', s') ∧
      c.step next i = ⟨s', c.threads.set i l'⟩ := by
  unfold step
  split
  · split
    · exact .inr ⟨_, _, _, ‹_›, ‹_›, rfl⟩
    · exact .inl rfl
  · exact .inl rfl

/-- **Invariants of interleavings.** A property of the shared state and the threads that holds
at the start and is kept by every section any thread can run holds after every schedule. -/
theorem run_induction (P : Interleaving L S → Prop) {c : Interleaving L S} (h₀ : P c)
    (hstep : ∀ c i l l' s', P c → c.threads[i]? = some l → next l c.shared = some (l', s') →
      P ⟨s', c.threads.set i l'⟩)
    (sched : List Nat) : P (c.run next sched) := by
  induction sched generalizing c with
  | nil => exact h₀
  | cons i sched ih =>
    refine ih ?_
    rcases step_cases c i with h | ⟨l, l', s', hl, hn, h⟩ <;> rw [h]
    exacts [h₀, hstep _ _ _ _ _ h₀ hl hn]

/-- The threads after a step are those before it, one of them replaced by what it became. -/
theorem mem_of_mem_set {ts : List L} {i : Nat} {l' t : L} (h : t ∈ ts.set i l') :
    t = l' ∨ t ∈ ts :=
  (List.mem_or_eq_of_mem_set h).symm

/-- Setting a thread to what it is changes nothing. -/
theorem set_self {ts : List L} {i : Nat} {l : L} (hl : ts[i]? = some l) : ts.set i l = ts := by
  refine List.ext_getElem? fun j => ?_
  rw [List.getElem?_set]
  split_ifs with h₁ h₂
  · exact h₁ ▸ hl.symm
  · exact absurd (h₁ ▸ (List.getElem?_eq_some_iff.1 hl).1) h₂
  · rfl

/-- The thread that stepped is there after the step, as what it became. -/
theorem mem_set_self {ts : List L} {i : Nat} {l l' : L} (hl : ts[i]? = some l) :
    l' ∈ ts.set i l' :=
  List.mem_set _ _ (List.getElem?_eq_some_iff.1 hl).1 _

/-- A thread other than the one that stepped is still there after the step. -/
theorem mem_set_of_mem_of_ne {ts : List L} {i : Nat} {l l' t : L} (hl : ts[i]? = some l)
    (ht : t ∈ ts) (hne : t ≠ l) : t ∈ ts.set i l' := by
  obtain ⟨j, hj⟩ := List.mem_iff_getElem?.1 ht
  have hji : i ≠ j := by rintro rfl; exact hne (Option.some.inj (hj.symm.trans hl))
  exact List.mem_iff_getElem?.2 ⟨j, by rw [List.getElem?_set_ne hji, hj]⟩

/-- Collecting over the threads after thread `i` became `l'`: what `l` gave is replaced by what
`l'` gives, up to order. -/
theorem filterMap_set_perm {β : Type} (f : L → Option β) {ts : List L} {i : Nat} {l : L}
    (hl : ts[i]? = some l) (l' : L) :
    ((ts.set i l').filterMap f ++ (f l).toList).Perm (ts.filterMap f ++ (f l').toList) := by
  induction ts generalizing i with
  | nil => simp at hl
  | cons t ts ih =>
    cases i with
    | zero =>
      obtain rfl : t = l := by simpa using hl
      simp only [List.set_cons_zero, List.filterMap_cons]
      cases f t <;> cases f l' <;> simp only [Option.toList, List.append_nil]
      · exact List.Perm.refl _
      · exact (List.perm_append_singleton _ _).symm
      · exact List.perm_append_singleton _ _
      · exact ((List.perm_append_singleton _ _).cons _).trans
          ((List.Perm.swap _ _ _).trans ((List.perm_append_singleton _ _).symm.cons _))
    | succ i =>
      simp only [List.getElem?_cons_succ] at hl
      simp only [List.set_cons_succ, List.filterMap_cons]
      cases f t <;> simp [ih hl]

/-- **Filings under a step.** A table that holds `base` followed, in some order, by what the
threads have filed keeps doing so when thread `l` becomes `l'` and either the table stays and `l'`
has filed what `l` had, or the table grows by the one entry `l'` has filed and `l` had not. -/
theorem filed_set {β : Type} (f : L → Option β) {ts : List L} {i : Nat} {l : L}
    (hl : ts[i]? = some l) (l' : L) {base cur cur' filed : List β}
    (hperm : filed.Perm (ts.filterMap f)) (hcur : cur = base ++ filed)
    (h : cur' = cur ∧ f l' = f l ∨ ∃ b, f l = none ∧ f l' = some b ∧ cur' = cur ++ [b]) :
    ∃ filed' : List β, filed'.Perm ((ts.set i l').filterMap f) ∧ cur' = base ++ filed' := by
  have hset := filterMap_set_perm f hl l'
  rcases h with ⟨rfl, hsame⟩ | ⟨b, hnone, hsome, rfl⟩
  · rw [hsame] at hset
    exact ⟨filed, hperm.trans ((List.perm_append_right_iff _).1 hset).symm, hcur⟩
  · rw [hnone, hsome] at hset
    simp only [Option.toList, List.append_nil] at hset
    exact ⟨filed ++ [b], (hperm.append_right _).trans hset.symm, by rw [hcur, List.append_assoc]⟩

end Interleaving

end Keriox
