/-
Calls on a shared object guarded by mutexes and one condition variable.

The code of a call is a `Script`: lock, unlock, test the object, wait while a
test holds, act on the object, notify one waiter, return. Any number of calls
are in progress at once and every instruction is one step, so a run is any
interleaving at the granularity of lock acquire, lock release, wait and
notify. A parked call may also wake without a notification, and the clients
may change whatever memory of theirs the object can reach at any moment.

Three things are proved once for every set of scripts:

* `Reach.threadOk`: scripts that pass a static check of their locking
  (`Locked`) keep to it in every interleaving -- in particular the set of
  mutexes a call owns is the one its script says;
* `Reach.script`: a property of scripts that is inherited by continuations
  holds of what every running call has left to do;
* `solo`: a call runs by itself until it has returned or has parked, when
  nobody else has a mutex that it may still take.

A thread that makes several calls is several numbers here, one for each call;
that only adds interleavings.
-/
import Mathlib.Algebra.Order.BigOperators.Group.Finset
import Mathlib.Data.Fintype.Card
import Mathlib.Logic.Function.Basic
import Mathlib.Order.BooleanAlgebra.Set

set_option autoImplicit false

namespace Monitor

/-! ## Scripts

A script is a tree: a test has two continuations. It takes and gives back mutexes, waits and
notifies, and touches the object by actions, all of which mean something only for a given
object. -/

/-- The code of one call, over mutexes `M`, tests `P`, actions `A` and return
values `V`. `ret none` returns the local that the last action has filled. -/
inductive Script (M P A V : Type) where
  | ret (v : Option V)
  | lock (m : M) (k : Script M P A V)
  | unlock (m : M) (k : Script M P A V)
  | branch (p : P) (t e : Script M P A V)
  | waitWhile (p : P) (m : M) (k : Script M P A V)
  | act (a : A) (k : Script M P A V)
  | notify (k : Script M P A V)

/-- A call that waits is parked until it is notified or wakes by itself; then
it has to get the mutex back before it goes on. -/
inductive Status where
  | awake
  | parked
  | woken
  deriving DecidableEq

/-- One call: not made yet, in progress with this much of its script left, or
returned. -/
inductive Thread (M P A V C : Type) where
  | unborn
  | running (c : C) (rest : Script M P A V) (out : Option V) (st : Status)
  | done (c : C) (v : Option V)

/-- How a call touched the object. -/
inductive Access (P A V : Type) where
  | test (p : P) (b : Bool)
  | act (a : A) (v : V)

/-- One line of the record of all accesses. -/
structure Entry (P A V C : Type) where
  thread : ℕ
  call : C
  access : Access P A V

/-- The object: the script of each call, what tests and actions mean on its
state `S`, what a caller hands over when it calls, and what the clients may do
to the memory meanwhile. The first number an action takes is the thread, the
second resolves what the language leaves open (which address is free). -/
structure Sem (M P A V C S : Type) where
  script : C → Script M P A V
  test : P → S → Bool
  act : A → ℕ → ℕ → S → Option (S × V)
  enter : C → ℕ → S → S → Prop
  client : S → S → Prop

/-- A configuration. `log` is a history variable: nothing reads it. -/
structure State (M P A V C S : Type) where
  threads : ℕ → Thread M P A V C
  born : ℕ
  owner : M → Option ℕ
  shared : S
  log : List (Entry P A V C)

/-- What a step is: a new call, the next instruction of a call, a waiter that
leaves the condition variable on its own, an action with its choice, a
notification and whom it reaches, or the clients' doing. -/
inductive Label (C : Type) where
  | call (c : C)
  | step (t : ℕ)
  | wake (t : ℕ)
  | act (t d : ℕ)
  | notify (t u : ℕ)
  | client

/-- The call that takes the step. -/
def Label.actor {C : Type} : Label C → Option ℕ
  | .step t | .wake t | .act t _ | .notify t _ => some t
  | .call _ | .client => none

section Semantics

variable {M P A V C S : Type}

namespace State

/-- The state with the thread `t` replaced. -/
def setThread (s : State M P A V C S) (t : ℕ) (x : Thread M P A V C) : State M P A V C S :=
  { s with threads := Function.update s.threads t x }

/-- The state with one more line in the record. -/
def record (s : State M P A V C S) (t : ℕ) (c : C) (x : Access P A V) : State M P A V C S :=
  { s with log := s.log ++ [⟨t, c, x⟩] }

/-- The state with the owner of `m` replaced. -/
def setOwner [DecidableEq M] (s : State M P A V C S) (m : M) (o : Option ℕ) : State M P A V C S :=
  { s with owner := Function.update s.owner m o }

/-- The mutexes that `t` owns. -/
def held (s : State M P A V C S) (t : ℕ) : Set M := {m | s.owner m = some t}

/-- `t` is parked. -/
def Parked (s : State M P A V C S) (t : ℕ) : Prop :=
  ∃ c r o, s.threads t = .running c r o .parked

end State

/-- No call has been made. -/
def State.init (sh : S) : State M P A V C S :=
  ⟨fun _ => .unborn, 0, fun _ => none, sh, []⟩

variable [DecidableEq M]

/-- One step of the system. -/
inductive Step (sem : Sem M P A V C S) : State M P A V C S → Label C → State M P A V C S → Prop
  | call {s} {c : C} {sh : S} (henter : sem.enter c s.born s.shared sh) :
      Step sem s (.call c)
        { s.setThread s.born (.running c (sem.script c) none .awake) with
          born := s.born + 1, shared := sh }
  | lock {s t c m k o} (ht : s.threads t = .running c (.lock m k) o .awake)
      (hm : s.owner m = none) :
      Step sem s (.step t) ((s.setThread t (.running c k o .awake)).setOwner m (some t))
  | unlock {s t c m k o} (ht : s.threads t = .running c (.unlock m k) o .awake)
      (hm : s.owner m = some t) :
      Step sem s (.step t) ((s.setThread t (.running c k o .awake)).setOwner m none)
  | branch {s t c p x y o} (ht : s.threads t = .running c (.branch p x y) o .awake) :
      Step sem s (.step t)
        ((s.setThread t (.running c (if sem.test p s.shared then x else y) o .awake)).record t c
          (.test p (sem.test p s.shared)))
  | pass {s t c p m k o} (ht : s.threads t = .running c (.waitWhile p m k) o .awake)
      (hp : sem.test p s.shared = false) :
      Step sem s (.step t) ((s.setThread t (.running c k o .awake)).record t c (.test p false))
  | park {s t c p m k o} (ht : s.threads t = .running c (.waitWhile p m k) o .awake)
      (hp : sem.test p s.shared = true) (hm : s.owner m = some t) :
      Step sem s (.step t)
        (((s.setThread t (.running c (.waitWhile p m k) o .parked)).setOwner m none).record t c
          (.test p true))
  | wake {s t c r o} (ht : s.threads t = .running c r o .parked) :
      Step sem s (.wake t) (s.setThread t (.running c r o .woken))
  | regain {s t c p m k o} (ht : s.threads t = .running c (.waitWhile p m k) o .woken)
      (hm : s.owner m = none) :
      Step sem s (.step t)
        ((s.setThread t (.running c (.waitWhile p m k) o .awake)).setOwner m (some t))
  | act {s t c a k o d sh v} (ht : s.threads t = .running c (.act a k) o .awake)
      (ha : sem.act a t d s.shared = some (sh, v)) :
      Step sem s (.act t d)
        ({ s.setThread t (.running c k (some v) .awake) with shared := sh }.record t c (.act a v))
  | notifyOne {s t c k o u cu r ou} (ht : s.threads t = .running c (.notify k) o .awake)
      (hu : s.threads u = .running cu r ou .parked) :
      Step sem s (.notify t u)
        ((s.setThread t (.running c k o .awake)).setThread u (.running cu r ou .woken))
  | notifyNone {s t c k o} (ht : s.threads t = .running c (.notify k) o .awake)
      (hnone : ∀ u, ¬ s.Parked u) :
      Step sem s (.step t) (s.setThread t (.running c k o .awake))
  | release {s t c v o m} (ht : s.threads t = .running c (.ret v) o .awake)
      (hm : s.owner m = some t) :
      Step sem s (.step t) (s.setOwner m none)
  | ret {s t c v o} (ht : s.threads t = .running c (.ret v) o .awake)
      (hfree : ∀ m, s.owner m ≠ some t) :
      Step sem s (.step t) (s.setThread t (.done c (v.or o)))
  | client {s} {sh : S} (hsh : sem.client s.shared sh) : Step sem s .client { s with shared := sh }

/-- The states of the runs whose steps all meet `ok`, a condition on the state
before the step and on the step taken. -/
inductive Reach (sem : Sem M P A V C S) (ok : State M P A V C S → Label C → Prop) (sh : S) :
    State M P A V C S → Prop
  | init : Reach sem ok sh (.init sh)
  | step {s l s'} (hs : Reach sem ok sh s) (hok : ok s l) (hstep : Step sem s l s') :
      Reach sem ok sh s'

/-- No condition on the steps. -/
def anyStep : State M P A V C S → Label C → Prop := fun _ _ => True

/-! ## Frame facts of the updates

Three kinds of updates: a thread, a mutex, the record. Each leaves alone what it is not about. -/

namespace State

variable (s : State M P A V C S)

section

omit [DecidableEq M]

/-- A thread that goes on leaves the mutexes and the object, and a line in the record all
else. -/
@[simp] theorem setThread_owner (t : ℕ) (x) : (s.setThread t x).owner = s.owner := rfl
@[simp] theorem setThread_shared (t : ℕ) (x) : (s.setThread t x).shared = s.shared := rfl
@[simp] theorem setThread_log (t : ℕ) (x) : (s.setThread t x).log = s.log := rfl
@[simp] theorem setThread_born (t : ℕ) (x) : (s.setThread t x).born = s.born := rfl
@[simp] theorem record_threads (t : ℕ) (c : C) (x) : (s.record t c x).threads = s.threads := rfl
@[simp] theorem record_owner (t : ℕ) (c : C) (x) : (s.record t c x).owner = s.owner := rfl
@[simp] theorem record_shared (t : ℕ) (c : C) (x) : (s.record t c x).shared = s.shared := rfl
@[simp] theorem record_born (t : ℕ) (c : C) (x) : (s.record t c x).born = s.born := rfl

@[simp] theorem record_log (t : ℕ) (c : C) (x) :
    (s.record t c x).log = s.log ++ [⟨t, c, x⟩] := rfl

@[simp] theorem setThread_self (t : ℕ) (x) : (s.setThread t x).threads t = x :=
  Function.update_self ..

/-- All others are where they were. -/
theorem setThread_of_ne {t u : ℕ} (x) (hut : u ≠ t) :
    (s.setThread t x).threads u = s.threads u := Function.update_of_ne hut ..

@[simp] theorem mem_held (t : ℕ) (m : M) : m ∈ s.held t ↔ s.owner m = some t := Iff.rfl

/-- A call that runs is not one that is parked. -/
theorem ne_of_parked {s : State M P A V C S} {t u : ℕ} {c cu : C} {r ru : Script M P A V}
    {o ou : Option V} (ht : s.threads t = .running c r o .awake)
    (hu : s.threads u = .running cu ru ou .parked) : t ≠ u := by
  rintro rfl
  rw [ht] at hu
  exact absurd hu (by simp)

@[simp] theorem setThread_held (t u : ℕ) (x) : (s.setThread t x).held u = s.held u := rfl

@[simp] theorem record_held (t u : ℕ) (c : C) (x) : (s.record t c x).held u = s.held u := rfl

end

/-- A mutex that is taken or given back leaves all but its owner. -/
@[simp] theorem setOwner_threads (m : M) (o) : (s.setOwner m o).threads = s.threads := rfl
@[simp] theorem setOwner_shared (m : M) (o) : (s.setOwner m o).shared = s.shared := rfl
@[simp] theorem setOwner_log (m : M) (o) : (s.setOwner m o).log = s.log := rfl
@[simp] theorem setOwner_born (m : M) (o) : (s.setOwner m o).born = s.born := rfl

@[simp] theorem setOwner_self (m : M) (o) : (s.setOwner m o).owner m = o :=
  Function.update_self ..

theorem setOwner_of_ne {m m' : M} (o) (hm : m' ≠ m) :
    (s.setOwner m o).owner m' = s.owner m' := Function.update_of_ne hm ..

variable {s}

/-- Taking a free mutex adds it to the taker's set ... -/
theorem held_take {m : M} {t : ℕ} (hm : s.owner m = none) :
    (s.setOwner m (some t)).held t = insert m (s.held t) := by
  ext m'
  by_cases hmm : m' = m
  · subst hmm
    simp
  · simp [setOwner_of_ne _ _ hmm, hmm]

/-- ... and to no other. -/
theorem held_take_of_ne {m : M} {t u : ℕ} (hm : s.owner m = none) (hut : u ≠ t) :
    (s.setOwner m (some t)).held u = s.held u := by
  ext m'
  by_cases hmm : m' = m
  · subst hmm
    simp [hm, Ne.symm hut]
  · simp [setOwner_of_ne _ _ hmm]

/-- Giving a mutex back takes it from the owner's set ... -/
theorem held_drop {m : M} {t : ℕ} : (s.setOwner m none).held t = s.held t \ {m} := by
  ext m'
  by_cases hmm : m' = m
  · subst hmm
    simp
  · simp [setOwner_of_ne _ _ hmm, hmm]

/-- ... and from no other. -/
theorem held_drop_of_ne {m : M} {t u : ℕ} (hm : s.owner m = some t) (hut : u ≠ t) :
    (s.setOwner m none).held u = s.held u := by
  rw [held_drop, Set.sdiff_singleton_eq_self]
  rw [mem_held, hm]
  exact fun h => hut (Option.some.inj h).symm

end State

/-- What a step can do to a call other than the one that takes it: nothing,
wake it, or create it. -/
theorem Step.other {sem : Sem M P A V C S} {s s' : State M P A V C S} {l : Label C} {u : ℕ}
    (hstep : Step sem s l s') (hu : l.actor ≠ some u) :
    s'.held u = s.held u ∧ (s'.threads u = s.threads u
      ∨ (∃ c r o, s.threads u = .running c r o .parked ∧ s'.threads u = .running c r o .woken)
      ∨ ∃ c, l = .call c ∧ u = s.born ∧ s'.threads u = .running c (sem.script c) none .awake) := by
  have hne : ∀ {t : ℕ}, l.actor = some t → u ≠ t := fun ht hut => hu (hut ▸ ht)
  -- by the kinds of steps: only a new call and a notification do something to another thread
  cases hstep with
  | call =>
      refine ⟨rfl, ?_⟩
      by_cases hb : u = s.born
      · subst hb
        exact .inr (.inr ⟨_, rfl, rfl, s.setThread_self ..⟩)
      · exact .inl (s.setThread_of_ne _ hb)
  | lock ht hm =>
      have hut := hne rfl
      exact ⟨State.held_take_of_ne hm hut, .inl (s.setThread_of_ne _ hut)⟩
  | unlock ht hm =>
      have hut := hne rfl
      exact ⟨State.held_drop_of_ne hm hut, .inl (s.setThread_of_ne _ hut)⟩
  | branch ht => exact ⟨rfl, .inl (s.setThread_of_ne _ (hne rfl))⟩
  | pass ht => exact ⟨rfl, .inl (s.setThread_of_ne _ (hne rfl))⟩
  | park ht hp hm =>
      have hut := hne rfl
      exact ⟨State.held_drop_of_ne hm hut, .inl (s.setThread_of_ne _ hut)⟩
  | wake ht => exact ⟨rfl, .inl (s.setThread_of_ne _ (hne rfl))⟩
  | regain ht hm =>
      have hut := hne rfl
      exact ⟨State.held_take_of_ne hm hut, .inl (s.setThread_of_ne _ hut)⟩
  | act ht => exact ⟨rfl, .inl (s.setThread_of_ne _ (hne rfl))⟩
  | @notifyOne t c k o v cu r ou ht hv =>
      refine ⟨rfl, ?_⟩
      by_cases huv : u = v
      · subst huv
        exact .inr (.inl ⟨cu, r, ou, hv, State.setThread_self ..⟩)
      · rw [State.setThread_of_ne _ _ huv]
        exact .inl (s.setThread_of_ne _ (hne rfl))
  | notifyNone ht => exact ⟨rfl, .inl (s.setThread_of_ne _ (hne rfl))⟩
  | release ht hm => exact ⟨State.held_drop_of_ne hm (hne rfl), .inl rfl⟩
  | ret ht => exact ⟨rfl, .inl (s.setThread_of_ne _ (hne rfl))⟩
  | client => exact ⟨rfl, .inl rfl⟩

/-- What a step can do to the object: nothing, hand something over at the start
of a call, act on it, or let the clients change the memory around it. -/
theorem Step.shared {sem : Sem M P A V C S} {s s' : State M P A V C S} {l : Label C}
    (hstep : Step sem s l s') : s'.shared = s.shared
      ∨ (∃ c, l = .call c ∧ sem.enter c s.born s.shared s'.shared)
      ∨ (∃ t d c a k o v, l = .act t d ∧ s.threads t = .running c (.act a k) o .awake
        ∧ sem.act a t d s.shared = some (s'.shared, v))
      ∨ sem.client s.shared s'.shared := by
  cases hstep with
  | call henter => exact .inr (.inl ⟨_, rfl, henter⟩)
  | act ht ha => exact .inr (.inr (.inl ⟨_, _, _, _, _, _, _, rfl, ht, ha⟩))
  | client hsh => exact .inr (.inr (.inr hsh))
  | lock | unlock | branch | pass | park | wake | regain | notifyOne | notifyNone | release | ret =>
      exact .inl rfl

/-- What a step can add to the record: nothing, or one line of the call that
takes it, which was about to test the object or to act on it. -/
theorem Step.log {sem : Sem M P A V C S} {s s' : State M P A V C S} {l : Label C}
    (hstep : Step sem s l s') : s'.log = s.log
      ∨ ∃ t c x, l.actor = some t ∧ s'.log = s.log ++ [⟨t, c, x⟩] := by
  cases hstep with
  | branch | pass | park | act => exact .inr ⟨_, _, _, rfl, rfl⟩
  | call | lock | unlock | wake | regain | notifyOne | notifyNone | release | ret | client =>
      exact .inl rfl

/-! ## The lock discipline

A property of scripts alone, checked along their text, from which a property of all states
follows. -/

/-- What a call must own when it is about to do the first instruction of a
script. -/
abbrev Rules (M P A V : Type) := Set M → Script M P A V → Prop

/-- A script keeps to the rules when it is entered owning exactly `h`: it takes
only what it does not own, gives back only what it owns, waits only with a
mutex it owns, and meets the rule at every instruction. -/
def Locked (r : Rules M P A V) : Set M → Script M P A V → Prop
  | _, .ret _ => True
  | h, .lock m k => r h (.lock m k) ∧ m ∉ h ∧ Locked r (insert m h) k
  | h, .unlock m k => r h (.unlock m k) ∧ m ∈ h ∧ Locked r (h \ {m}) k
  | h, .branch p x y => r h (.branch p x y) ∧ Locked r h x ∧ Locked r h y
  | h, .waitWhile p m k => r h (.waitWhile p m k) ∧ m ∈ h ∧ Locked r h k
  | h, .act a k => r h (.act a k) ∧ Locked r h k
  | h, .notify k => r h (.notify k) ∧ Locked r h k

omit [DecidableEq M] in
/-- A script that keeps to the rules meets them at its next instruction. -/
theorem Locked.rule {r : Rules M P A V} {h : Set M} {x : Script M P A V} (hx : Locked r h x)
    (hret : ∀ v, x ≠ .ret v) : r h x := by
  cases x with
  | ret v => exact absurd rfl (hret v)
  | lock | unlock | branch | waitWhile | act | notify => exact hx.1

/-- A call owns what its script says. A waiting call has lent out the mutex of
its `wait`; a call that is not in progress owns nothing. -/
def ThreadOk (rules : C → Rules M P A V) (h : Set M) : Thread M P A V C → Prop
  | .running c r _ .awake => Locked (rules c) h r
  | .running c r _ .parked | .running c r _ .woken =>
      ∃ p m k, r = .waitWhile p m k ∧ m ∉ h ∧ Locked (rules c) (insert m h) r
  | .unborn | .done _ _ => h = ∅

variable {sem : Sem M P A V C S} {ok : State M P A V C S → Label C → Prop} {sh : S}

/-- Calls are numbered in the order in which they are made. -/
theorem Reach.unborn_iff {s : State M P A V C S} (hs : Reach sem ok sh s) (t : ℕ) :
    s.threads t = .unborn ↔ s.born ≤ t := by
  induction hs with
  | init => simp [State.init]
  | @step s l s' hs hok hstep ih =>
      -- a step of a call that has been made makes none
      have hborn : ∀ {u : ℕ} {x : Thread M P A V C}, s.threads u ≠ .unborn → x ≠ .unborn →
          ((s.setThread u x).threads t = .unborn ↔ s.born ≤ t) := by
        intro u x hu hx
        by_cases htu : t = u
        · subst htu
          simp only [State.setThread_self, hx, false_iff]
          exact fun hle => hu (ih.mpr hle)
        · rw [State.setThread_of_ne _ _ htu, ih]
      cases hstep with
      | call =>
          by_cases htb : t = s.born
          · subst htb
            simp
          · simp only [State.setThread_of_ne _ _ htb, ih]
            omega
      | lock ht => exact hborn (by simp [ht]) (by simp)
      | unlock ht => exact hborn (by simp [ht]) (by simp)
      | branch ht => exact hborn (by simp [ht]) (by simp)
      | pass ht => exact hborn (by simp [ht]) (by simp)
      | park ht => exact hborn (by simp [ht]) (by simp)
      | wake ht => exact hborn (by simp [ht]) (by simp)
      | regain ht => exact hborn (by simp [ht]) (by simp)
      | act ht => exact hborn (by simp [ht]) (by simp)
      | @notifyOne a c k o u cu r ou ht hu =>
          have hau : t = u → ¬ s.born ≤ t := by
            rintro rfl hle
            rw [ih.mpr hle] at hu
            exact absurd hu (by simp)
          by_cases htu : t = u
          · subst htu
            simpa using hau rfl
          · rw [State.setThread_of_ne _ _ htu]
            exact hborn (by simp [ht]) (by simp)
      | notifyNone ht => exact hborn (by simp [ht]) (by simp)
      | release => exact ih
      | ret ht => exact hborn (by simp [ht]) (by simp)
      | client => exact ih

/-- **The lock discipline holds in every interleaving** when every script
keeps to it. -/
theorem Reach.threadOk {rules : C → Rules M P A V} (hscript : ∀ c, Locked (rules c) ∅ (sem.script c))
    {s : State M P A V C S} (hs : Reach sem ok sh s) (t : ℕ) :
    ThreadOk rules (s.held t) (s.threads t) := by
  induction hs with
  | init => ext m; simp [State.init]
  | @step s l s' hs hok hstep ih =>
      by_cases hact : l.actor = some t
      · cases hstep with
        | call | client => cases hact
        | lock ht hm =>
            cases hact
            rw [ht] at ih
            simpa [ThreadOk, State.held_take (s := s.setThread _ _) hm] using ih.2.2
        | unlock ht hm =>
            cases hact
            rw [ht] at ih
            simpa [ThreadOk, State.held_drop] using ih.2.2
        | @branch _ c p x y o ht =>
            cases hact
            rw [ht] at ih
            obtain ⟨-, hx, hy⟩ := ih
            simp only [State.record_threads, State.setThread_self, ThreadOk]
            split
            · exact hx
            · exact hy
        | pass ht hp =>
            cases hact
            rw [ht] at ih
            simpa [ThreadOk] using ih.2.2
        | @park _ c p m k o ht hp hm =>
            cases hact
            rw [ht] at ih
            -- a parked call does not hold the mutex, but will have it again when it goes on
            have hins : insert m (s.held t \ {m}) = s.held t := by
              rw [Set.insert_sdiff_singleton, Set.insert_eq_of_mem ih.2.1]
            simp only [State.record_threads, State.setOwner_threads, State.setThread_self, ThreadOk]
            refine ⟨p, m, k, rfl, ?_, ?_⟩
            · simp
            · exact (State.held_drop (s := s.setThread t _)).symm ▸ hins.symm ▸ ih
        | wake ht =>
            cases hact
            rw [ht] at ih
            simpa [ThreadOk] using ih
        | @regain _ c p m k o ht hm =>
            cases hact
            rw [ht] at ih
            obtain ⟨p', m', k', heq, -, hlock⟩ := ih
            obtain ⟨rfl, rfl, rfl⟩ := Script.waitWhile.inj heq
            simp only [State.setOwner_threads, State.setThread_self, ThreadOk]
            rw [State.held_take (s := s.setThread t _) hm]
            exact hlock
        | act ht ha =>
            cases hact
            rw [ht] at ih
            show ThreadOk rules (s.held t) _
            simpa [ThreadOk] using ih.2
        | @notifyOne _ c k o u cu r ou ht hu =>
            cases hact
            have htu : t ≠ u := State.ne_of_parked ht hu
            rw [ht] at ih
            rw [State.setThread_of_ne _ _ htu, State.setThread_self]
            exact ih.2
        | notifyNone ht =>
            cases hact
            rw [ht] at ih
            simpa [ThreadOk] using ih.2
        | release ht hm =>
            cases hact
            simp only [State.setOwner_threads, ht, ThreadOk, Locked]
        | ret ht hfree =>
            cases hact
            simp only [State.setThread_self, ThreadOk]
            exact Set.eq_empty_iff_forall_notMem.mpr hfree
      · -- another call can at most wake this one, or make it
        obtain ⟨hheld, hsame | ⟨c, r, o, hpark, hwoken⟩ | ⟨c, -, rfl, hnew⟩⟩ := hstep.other hact
        · rw [hheld, hsame]
          exact ih
        · rw [hpark] at ih
          rw [hheld, hwoken]
          exact ih
        · have hunborn : s.threads s.born = .unborn := (hs.unborn_iff _).mpr (Nat.le_refl _)
          rw [hunborn] at ih
          rw [hheld, hnew, ih]
          exact hscript c

/-- The next step of a call that is about to take a mutex is to take it. -/
theorem Step.of_lock {s s' : State M P A V C S} {l : Label C} {t : ℕ} {c : C} {m : M}
    {k : Script M P A V} {o : Option V} (hstep : Step sem s l s')
    (ht : s.threads t = .running c (.lock m k) o .awake) (hact : l.actor = some t) :
    s.owner m = none ∧ s' = (s.setThread t (.running c k o .awake)).setOwner m (some t) := by
  cases hstep with
  | call | client => cases hact
  | lock ht' hm' =>
      cases hact
      rw [ht] at ht'
      cases ht'
      exact ⟨hm', rfl⟩
  | unlock ht' | branch ht' | pass ht' | park ht' | wake ht' | regain ht' | act ht' | notifyOne ht'
    | notifyNone ht' | release ht' | ret ht' =>
      cases hact
      rw [ht] at ht'
      cases ht'

/-- So it takes no step while the mutex is not free. -/
theorem Step.lock_blocked {s s' : State M P A V C S} {l : Label C} {t : ℕ} {c : C} {m : M}
    {k : Script M P A V} {o : Option V} (hstep : Step sem s l s')
    (ht : s.threads t = .running c (.lock m k) o .awake) (hm : s.owner m ≠ none) :
    l.actor ≠ some t := fun hact => hm (hstep.of_lock ht hact).1

/-- Only a call that is about to take a mutex comes to have it: by a `lock`, or at the end of its wait. -/
theorem Step.takes {s s' : State M P A V C S} {l : Label C} {t : ℕ} {m : M} (hstep : Step sem s l s')
    (hm : s'.owner m = some t) (hnot : s.owner m ≠ some t) :
    (∃ c k o, s.threads t = .running c (.lock m k) o .awake ∧ s'.threads t = .running c k o .awake)
      ∨ ∃ c p k o, s.threads t = .running c (.waitWhile p m k) o .woken := by
  -- a step that changes the owner of one mutex only changes that one
  have hset : ∀ {x : State M P A V C S} {m' : M} {o : Option ℕ}, x.owner = s.owner →
      (x.setOwner m' o).owner m = some t → m' = m ∧ o = some t := by
    intro x m' o hx hm
    by_cases hmm : m = m'
    · subst hmm
      exact ⟨rfl, (State.setOwner_self ..).symm.trans hm⟩
    · rw [State.setOwner_of_ne _ _ hmm, hx] at hm
      exact absurd hm hnot
  cases hstep with
  | lock ht =>
      obtain ⟨rfl, ho⟩ := hset rfl hm
      obtain rfl := Option.some.inj ho
      exact .inl ⟨_, _, _, ht, s.setThread_self ..⟩
  | regain ht =>
      obtain ⟨rfl, ho⟩ := hset rfl hm
      obtain rfl := Option.some.inj ho
      exact .inr ⟨_, _, _, _, ht⟩
  | unlock | release => exact absurd (hset rfl hm).2 (by simp)
  | @park u c p m' k o ht hp hm' =>
      have hrec : ((s.setThread u (.running c (.waitWhile p m' k) o .parked)).setOwner m' none).owner m = some t := hm
      exact absurd (hset rfl hrec).2 (by simp)
  | call | branch | pass | wake | act | notifyOne | notifyNone | ret | client => exact absurd hm hnot

/-- Only the call that has a mutex gives it away: by an `unlock`, when it parks, or when it returns. -/
theorem Step.gives {s s' : State M P A V C S} {l : Label C} {t : ℕ} {m : M} (hstep : Step sem s l s')
    (hm : s.owner m = some t) (hnot : s'.owner m ≠ some t) :
    (∃ c k o, s.threads t = .running c (.unlock m k) o .awake ∧ s'.threads t = .running c k o .awake)
      ∨ (∃ c p k o, s.threads t = .running c (.waitWhile p m k) o .awake)
      ∨ ∃ c v o, s.threads t = .running c (.ret v) o .awake := by
  -- a step that frees one mutex frees that one only
  have hset : ∀ {x : State M P A V C S} {m' : M} {o : Option ℕ}, x.owner = s.owner →
      (x.setOwner m' o).owner m ≠ some t → m' = m := by
    intro x m' o hx hne
    by_contra hmm
    rw [State.setOwner_of_ne _ _ (Ne.symm hmm), hx] at hne
    exact hne hm
  have howner : ∀ {u : ℕ}, s.owner m = some u → u = t := fun hu => Option.some.inj (hu.symm.trans hm)
  cases hstep with
  | lock ht hfree | regain ht hfree =>
      obtain rfl := hset rfl hnot
      rw [hm] at hfree
      cases hfree
  | unlock ht hown =>
      obtain rfl := hset rfl hnot
      obtain rfl := howner hown
      exact .inl ⟨_, _, _, ht, s.setThread_self ..⟩
  | @park u c p m' k o ht hp hown =>
      have hrec : ((s.setThread u (.running c (.waitWhile p m' k) o .parked)).setOwner m' none).owner m ≠ some t := hnot
      obtain rfl := hset rfl hrec
      obtain rfl := howner hown
      exact .inr (.inl ⟨_, _, _, _, ht⟩)
  | release ht hown =>
      obtain rfl := hset rfl hnot
      obtain rfl := howner hown
      exact .inr (.inr ⟨_, _, _, ht⟩)
  | call | branch | pass | wake | act | notifyOne | notifyNone | ret | client => exact absurd hm hnot

/-! ## What a call has left to do

What is left of a call is a part of its script that its instructions lead to. -/

/-- After its first instruction the first script may go on with the second. -/
inductive Next : Script M P A V → Script M P A V → Prop
  | lock {m k} : Next (.lock m k) k
  | unlock {m k} : Next (.unlock m k) k
  | thenBranch {p x y} : Next (.branch p x y) x
  | elseBranch {p x y} : Next (.branch p x y) y
  | pass {p m k} : Next (.waitWhile p m k) k
  | act {a k} : Next (.act a k) k
  | notify {k} : Next (.notify k) k

/-- What a step does to the call that takes it: it ends, or it goes on with the
rest of its script. -/
theorem Step.own {s s' : State M P A V C S} {l : Label C} {t : ℕ} (hstep : Step sem s l s')
    (ht : l.actor = some t) : ∃ c r o st, s.threads t = .running c r o st
      ∧ ((∃ v, s'.threads t = .done c v)
        ∨ ∃ r' o' st', s'.threads t = .running c r' o' st' ∧ (r' = r ∨ Next r r')) := by
  -- by the kinds of step: a thread's own step ends its call, moves in the script, or waits with the
  -- script as it is
  cases hstep with
  | call | client => cases ht
  | lock h => cases ht; exact ⟨_, _, _, _, h, .inr ⟨_, _, _, s.setThread_self .., .inr .lock⟩⟩
  | unlock h => cases ht; exact ⟨_, _, _, _, h, .inr ⟨_, _, _, s.setThread_self .., .inr .unlock⟩⟩
  | branch h =>
      cases ht
      refine ⟨_, _, _, _, h, .inr ⟨_, _, _, s.setThread_self .., .inr ?_⟩⟩
      split
      · exact .thenBranch
      · exact .elseBranch
  | pass h => cases ht; exact ⟨_, _, _, _, h, .inr ⟨_, _, _, s.setThread_self .., .inr .pass⟩⟩
  | park h => cases ht; exact ⟨_, _, _, _, h, .inr ⟨_, _, _, s.setThread_self .., .inl rfl⟩⟩
  | wake h => cases ht; exact ⟨_, _, _, _, h, .inr ⟨_, _, _, s.setThread_self .., .inl rfl⟩⟩
  | regain h => cases ht; exact ⟨_, _, _, _, h, .inr ⟨_, _, _, s.setThread_self .., .inl rfl⟩⟩
  | act h => cases ht; exact ⟨_, _, _, _, h, .inr ⟨_, _, _, s.setThread_self .., .inr .act⟩⟩
  | notifyOne h hu =>
      cases ht
      exact ⟨_, _, _, _, h, .inr ⟨_, _, _, (State.setThread_of_ne _ _ (State.ne_of_parked h hu)).trans
        (s.setThread_self ..), .inr .notify⟩⟩
  | notifyNone h => cases ht; exact ⟨_, _, _, _, h, .inr ⟨_, _, _, s.setThread_self .., .inr .notify⟩⟩
  | release h => cases ht; exact ⟨_, _, _, _, h, .inr ⟨_, _, _, h, .inl rfl⟩⟩
  | ret h => cases ht; exact ⟨_, _, _, _, h, .inl ⟨_, s.setThread_self ..⟩⟩

/-- A property of scripts that continuations inherit holds of what every call
in progress has left to do. -/
theorem Reach.script {Q : C → Script M P A V → Prop} (hstart : ∀ c, Q c (sem.script c))
    (hnext : ∀ {c r r'}, Q c r → Next r r' → Q c r') {s : State M P A V C S}
    (hs : Reach sem ok sh s) : ∀ {t c r o st}, s.threads t = .running c r o st → Q c r := by
  induction hs with
  | init => exact fun ht => absurd ht (by simp [State.init])
  | @step s l s' hs hok hstep ih =>
      intro t c r o st ht'
      -- a step of t moves in its script; a step of another thread wakes t at most, or begins its
      -- call
      by_cases hact : l.actor = some t
      · obtain ⟨c₀, r₀, o₀, st₀, ht, ⟨v, hdone⟩ | ⟨r', o', st', hrun, hr⟩⟩ := hstep.own hact
        · rw [hdone] at ht'
          exact absurd ht' (by simp)
        · rw [hrun] at ht'
          obtain ⟨rfl, rfl, rfl, rfl⟩ := Thread.running.inj ht'
          rcases hr with rfl | hr
          · exact ih ht
          · exact hnext (ih ht) hr
      · obtain ⟨-, hsame | ⟨c₀, r₀, o₀, hpark, hwoken⟩ | ⟨c₀, -, rfl, hnew⟩⟩ := hstep.other hact
        · exact ih (hsame ▸ ht')
        · rw [hwoken] at ht'
          obtain ⟨rfl, rfl, rfl, rfl⟩ := Thread.running.inj ht'
          exact ih hpark
        · rw [hnew] at ht'
          obtain ⟨rfl, rfl, rfl, rfl⟩ := Thread.running.inj ht'
          exact hstart _

/-! ## Schedules

A run with a condition on its labels, to say who takes the steps. -/

/-- `s'` follows from `s` by steps whose labels all meet `Q`. -/
inductive Steps (sem : Sem M P A V C S) (Q : Label C → Prop) :
    State M P A V C S → State M P A V C S → Prop
  | refl (s) : Steps sem Q s s
  | tail {s s' l s''} (hsteps : Steps sem Q s s') (hl : Q l) (hstep : Step sem s' l s'') :
      Steps sem Q s s''

namespace Steps

variable {Q : Label C → Prop}

theorem single {s s' : State M P A V C S} {l : Label C} (hstep : Step sem s l s') (hl : Q l) :
    Steps sem Q s s' := .tail (.refl s) hl hstep

theorem trans {s s' s'' : State M P A V C S} (h : Steps sem Q s s') (h' : Steps sem Q s' s'') :
    Steps sem Q s s'' := by
  induction h' with
  | refl => exact h
  | tail _ hl hstep ih => exact .tail ih hl hstep

theorem mono {Q' : Label C → Prop} (hQ : ∀ l, Q l → Q' l) {s s' : State M P A V C S}
    (h : Steps sem Q s s') : Steps sem Q' s s' := by
  induction h with
  | refl => exact .refl _
  | tail _ hl hstep ih => exact .tail ih (hQ _ hl) hstep

theorem reach {s s' : State M P A V C S} (hs : Reach sem anyStep sh s) (h : Steps sem Q s s') :
    Reach sem anyStep sh s' := by
  induction h with
  | refl => exact hs
  | tail _ _ hstep ih => exact .step ih trivial hstep

end Steps

/-! ## Running one call by itself

Nothing but a mutex that another call has, a wait or an action that is stuck can stop a call.
So one call can be run alone, and then it does what its script says. -/

/-- The script may still take the mutex `m`. -/
def Locks (m : M) : Script M P A V → Prop
  | .ret _ => False
  | .lock m' k => m = m' ∨ Locks m k
  | .unlock _ k | .waitWhile _ _ k | .act _ k | .notify k => Locks m k
  | .branch _ x y => Locks m x ∨ Locks m y

/-- The script may still wait on the condition variable. -/
def Waits : Script M P A V → Prop
  | .ret _ => False
  | .waitWhile _ _ _ => True
  | .lock _ k | .unlock _ k | .act _ k | .notify k => Waits k
  | .branch _ x y => Waits x ∨ Waits y

/-- The script still has its action before it. -/
def Acts : Script M P A V → Prop
  | .ret _ => False
  | .act _ _ => True
  | .lock _ k | .unlock _ k | .waitWhile _ _ k | .notify k => Acts k
  | .branch _ x y => Acts x ∨ Acts y

omit [DecidableEq M] in
/-- What comes later comes later. -/
theorem Next.acts {r r' : Script M P A V} (hnext : Next r r') (h : Acts r') : Acts r := by
  cases hnext with
  | lock | unlock | pass | notify => exact h
  | thenBranch => exact .inl h
  | elseBranch => exact .inr h
  | act => trivial

omit [DecidableEq M] in
theorem Next.waits {r r' : Script M P A V} (hnext : Next r r') (h : Waits r') : Waits r := by
  cases hnext with
  | lock | unlock | act | notify => exact h
  | thenBranch => exact .inl h
  | elseBranch => exact .inr h
  | pass => trivial

omit [DecidableEq M] in
theorem Next.locks {r r' : Script M P A V} {m : M} (hnext : Next r r') (h : Locks m r') : Locks m r := by
  cases hnext with
  | lock => exact .inr h
  | unlock | pass | act | notify => exact h
  | thenBranch => exact .inl h
  | elseBranch => exact .inr h

/-- The call `t` takes the step. -/
def By (t : ℕ) (l : Label C) : Prop := l.actor = some t

/-- From `s` to `s'` only `t` has taken or given back mutexes, and nothing has
happened to the other calls but that some were woken. -/
structure Solo (t : ℕ) (s s' : State M P A V C S) : Prop where
  owner : ∀ m u, u ≠ t → (s'.owner m = some u ↔ s.owner m = some u)
  others : ∀ u, u ≠ t → s'.threads u = s.threads u
    ∨ ∃ c r o, s.threads u = .running c r o .parked ∧ s'.threads u = .running c r o .woken
  born : s'.born = s.born

namespace Solo

omit [DecidableEq M] in
theorem refl (t : ℕ) (s : State M P A V C S) : Solo t s s :=
  ⟨fun _ _ _ => Iff.rfl, fun _ _ => .inl rfl, rfl⟩

omit [DecidableEq M] in
theorem trans {t : ℕ} {s s' s'' : State M P A V C S} (h : Solo t s s') (h' : Solo t s' s'') :
    Solo t s s'' where
  owner m u hu := (h'.owner m u hu).trans (h.owner m u hu)
  others u hu := by
    rcases h'.others u hu with heq | ⟨c, r, o, hp, hw⟩
    · rw [heq]
      exact h.others u hu
    · rcases h.others u hu with heq | ⟨c', r', o', -, hw'⟩
      · exact .inr ⟨c, r, o, heq ▸ hp, hw⟩
      · rw [hw'] at hp
        exact absurd hp (by simp)
  born := h'.born.trans h.born

/-- Every step of `t` is of this kind. -/
theorem of_step {t : ℕ} {s s' : State M P A V C S} {l : Label C} (hstep : Step sem s l s')
    (hl : By t l) : Solo t s s' := by
  have hne : ∀ {u : ℕ}, u ≠ t → l.actor ≠ some u := by
    intro u hu
    rw [show l.actor = some t from hl]
    exact fun h => hu (Option.some.inj h).symm
  refine ⟨fun m u hu => ?_, fun u hu => ?_, ?_⟩
  · obtain ⟨hheld, -⟩ := hstep.other (hne hu)
    rw [← State.mem_held, ← State.mem_held, hheld]
  · obtain ⟨-, hsame | hwoken | ⟨c, rfl, -⟩⟩ := hstep.other (hne hu)
    · exact .inl hsame
    · exact .inr hwoken
    · cases hl
  · cases hstep with
    | call => cases hl
    | lock | unlock | branch | pass | park | wake | regain | act | notifyOne | notifyNone | release
      | ret | client => rfl

/-- So is every run of its steps. -/
theorem of_steps {t : ℕ} {s s' : State M P A V C S} (hsteps : Steps sem (By t) s s') :
    Solo t s s' := by
  induction hsteps with
  | refl => exact .refl t _
  | tail _ hl hstep ih => exact ih.trans (.of_step hstep hl)

omit [DecidableEq M] in
/-- A mutex that nobody else had is free when `t` does not have it. -/
theorem owner_none {t : ℕ} {s s' : State M P A V C S} (h : Solo t s s') {m : M}
    (hm : s.owner m = none ∨ s.owner m = some t) (hm' : s'.owner m ≠ some t) : s'.owner m = none := by
  cases ho : s'.owner m with
  | none => rfl
  | some u =>
      have hut : u ≠ t := by
        rintro rfl
        exact hm' ho
      have hold := (h.owner m u hut).mp ho
      rcases hm with hm | hm
      · rw [hm] at hold
        cases hold
      · rw [hm] at hold
        exact absurd (Option.some.inj hold).symm hut

omit [DecidableEq M] in
/-- So `t` can take it, or has it. -/
theorem owner_free {t : ℕ} {s s' : State M P A V C S} (h : Solo t s s') {m : M}
    (hm : s.owner m = none ∨ s.owner m = some t) : s'.owner m = none ∨ s'.owner m = some t := by
  by_cases hmt : s'.owner m = some t
  · exact .inr hmt
  · exact .inl (h.owner_none hm hmt)

end Solo

/-- None of these calls takes the step. -/
def Spares (X : ℕ → Prop) (l : Label C) : Prop := ∀ u, X u → l.actor ≠ some u

theorem By.spares {X : ℕ → Prop} {t : ℕ} (ht : ¬ X t) {l : Label C} (hl : By t l) : Spares X l := by
  intro u hu hlu
  rw [show l.actor = some t from hl] at hlu
  exact ht (Option.some.inj hlu ▸ hu)

/-- A call in progress that is none of these takes the step. -/
def Others (X : ℕ → Prop) (l : Label C) : Prop := ∃ t, ¬ X t ∧ By t l

theorem By.others {X : ℕ → Prop} {t : ℕ} (ht : ¬ X t) {l : Label C} (hl : By t l) : Others X l := ⟨t, ht, hl⟩

theorem Others.spares {X : ℕ → Prop} {l : Label C} (h : Others X l) : Spares X l := by
  obtain ⟨t, ht, hl⟩ := h
  exact hl.spares ht

theorem Others.mono {X Y : ℕ → Prop} {l : Label C} (hXY : ∀ t, X t → Y t) (h : Others Y l) : Others X l := by
  obtain ⟨t, ht, hl⟩ := h
  exact ⟨t, fun hx => ht (hXY t hx), hl⟩

/-- A call that does not take the step stays where it is with what it has, but that it
may be woken. -/
theorem Step.spared {s s' : State M P A V C S} {l : Label C} (hs : Reach sem ok sh s) (hstep : Step sem s l s')
    {t : ℕ} (hl : l.actor ≠ some t) {c : C} {r : Script M P A V} {o : Option V} {st : Status}
    (ht : s.threads t = .running c r o st) :
    s'.held t = s.held t ∧ (s'.threads t = .running c r o st
      ∨ st = .parked ∧ s'.threads t = .running c r o .woken) := by
  obtain ⟨hheld, hsame | ⟨c', r', o', hpark, hwoken⟩ | ⟨c', -, rfl, hnew⟩⟩ := hstep.other hl
  · exact ⟨hheld, .inl (hsame.trans ht)⟩
  · rw [ht] at hpark
    cases hpark
    exact ⟨hheld, .inr ⟨rfl, hwoken⟩⟩
  · -- it was there before
    rw [(hs.unborn_iff _).mpr (Nat.le_refl _)] at ht
    cases ht

/-- So does one that takes no step of a run. -/
theorem Steps.spared {X : ℕ → Prop} {s s' : State M P A V C S} (hs : Reach sem anyStep sh s)
    (hsteps : Steps sem (Spares X) s s') {t : ℕ} (hx : X t) {c : C} {r : Script M P A V}
    {o : Option V} {st : Status} (ht : s.threads t = .running c r o st) :
    s'.held t = s.held t ∧ (s'.threads t = .running c r o st
      ∨ st = .parked ∧ s'.threads t = .running c r o .woken) := by
  induction hsteps with
  | refl => exact ⟨rfl, .inl ht⟩
  | @tail s₁ l s₂ hsteps hl hstep ih =>
      obtain ⟨hheld, hth⟩ := ih
      rcases hth with hth | ⟨hst, hth⟩
      · obtain ⟨hheld', hth'⟩ := hstep.spared (hsteps.reach hs) (hl t hx) hth
        exact ⟨hheld'.trans hheld, hth'⟩
      · obtain ⟨hheld', hth' | ⟨hst', -⟩⟩ := hstep.spared (hsteps.reach hs) (hl t hx) hth
        · exact ⟨hheld'.trans hheld, .inr ⟨hst, hth'⟩⟩
        · cases hst'

/-- With the script `r` left, the call `t` can go on by itself until it has
returned or, if it may wait, has parked. -/
def RunsOut (sem : Sem M P A V C S) (t : ℕ) (c : C) (r : Script M P A V) (s : State M P A V C S) :
    Prop :=
  ∃ s', Steps sem (By t) s s' ∧ ((∃ v, s'.threads t = .done c v)
    ∨ Waits r ∧ ∃ p m k o, s'.threads t = .running c (.waitWhile p m k) o .parked)

/-- Giving back the mutexes of a call that is about to return, one after the
other, and returning. The induction is on how many it still owns. -/
theorem solo_ret [Fintype M] (sem : Sem M P A V C S) {t : ℕ} {c : C} {v o : Option V} (n : ℕ) :
    ∀ {s : State M P A V C S}, s.threads t = .running c (.ret v) o .awake →
      (Finset.univ.filter (fun m => s.owner m = some t)).card ≤ n →
      ∃ s', Steps sem (By t) s s' ∧ s'.threads t = .done c (v.or o) ∧ s'.shared = s.shared := by
  -- by the number of mutexes that it still has: it gives them back, and then it has returned
  induction n with
  | zero =>
      intro s ht hcard
      have hfree : ∀ m, s.owner m ≠ some t := by
        intro m hm
        have hmem : m ∈ Finset.univ.filter (fun m => s.owner m = some t) := by simpa using hm
        exact absurd (Finset.card_pos.mpr ⟨m, hmem⟩) (by omega)
      have hstep : Step sem s _ _ := Step.ret ht hfree
      exact ⟨_, .single hstep rfl, s.setThread_self .., rfl⟩
  | succ n ih =>
      intro s ht hcard
      by_cases hany : ∃ m, s.owner m = some t
      · obtain ⟨m, hm⟩ := hany
        have hstep : Step sem s _ _ := Step.release ht hm
        have hsub : Finset.univ.filter (fun m' => (s.setOwner m none).owner m' = some t)
            ⊂ Finset.univ.filter (fun m' => s.owner m' = some t) := by
          refine (Finset.ssubset_iff_of_subset fun m' hm' => ?_).mpr ⟨m, by simpa using hm, by simp⟩
          by_cases hmm : m' = m
          · subst hmm
            simp at hm'
          · simpa [State.setOwner_of_ne _ _ hmm] using hm'
        have hlt := Finset.card_lt_card hsub
        obtain ⟨s', hsteps, hdone, hshared⟩ := ih (s := s.setOwner m none) (by simpa using ht) (by omega)
        exact ⟨s', (Steps.single (Q := By t) hstep rfl).trans hsteps, hdone, hshared⟩
      · have hstep : Step sem s _ _ := Step.ret ht (fun m hm => hany ⟨m, hm⟩)
        exact ⟨_, .single hstep rfl, s.setThread_self .., rfl⟩

/-- **A call runs by itself until it has returned or has parked**, when nobody
else has a mutex that it may still take and no action can get stuck. The
induction is on what is left of its script, so every case is one step and the
induction hypothesis. -/
theorem solo [Fintype M] {rules : C → Rules M P A V}
    (hscript : ∀ c, Locked (rules c) ∅ (sem.script c))
    (hlive : ∀ {s : State M P A V C S}, Reach sem anyStep sh s → ∀ {t c a k o},
      s.threads t = .running c (.act a k) o .awake → ∃ d sh' v, sem.act a t d s.shared = some (sh', v))
    {t : ℕ} {c : C} (r : Script M P A V) : ∀ {s : State M P A V C S} {o : Option V},
      Reach sem anyStep sh s → s.threads t = .running c r o .awake →
      (∀ m, Locks m r → s.owner m = none ∨ s.owner m = some t) → RunsOut sem t c r s := by
  -- one step, then the induction hypothesis
  have hcont : ∀ {s s₁ : State M P A V C S} {l : Label C} {r k : Script M P A V} {o : Option V},
      (∀ {s : State M P A V C S} {o : Option V}, Reach sem anyStep sh s →
        s.threads t = .running c k o .awake →
        (∀ m, Locks m k → s.owner m = none ∨ s.owner m = some t) → RunsOut sem t c k s) →
      Reach sem anyStep sh s → (∀ m, Locks m r → s.owner m = none ∨ s.owner m = some t) →
      (∀ m, Locks m k → Locks m r) → (Waits k → Waits r) → Step sem s l s₁ → By t l →
      s₁.threads t = .running c k o .awake → RunsOut sem t c r s := by
    intro s s₁ l r k o ih hs hfree hlocks hwaits hstep hl ht
    have hsolo := Solo.of_step hstep hl
    obtain ⟨s', hsteps, hend⟩ := ih (hs.step trivial hstep) ht fun m hm => hsolo.owner_free (hfree m (hlocks m hm))
    exact ⟨s', (Steps.single (Q := By t) hstep hl).trans hsteps,
      hend.imp_right fun ⟨hw, hpark⟩ => ⟨hwaits hw, hpark⟩⟩
  induction r with
  | ret v =>
      intro s o hs ht _
      obtain ⟨s', hsteps, hdone, -⟩ := solo_ret sem _ ht (Nat.le_refl _)
      exact ⟨s', hsteps, .inl ⟨_, hdone⟩⟩
  | lock m k ih =>
      intro s o hs ht hfree
      have hok := hs.threadOk hscript t
      rw [ht] at hok
      have hm : s.owner m = none := (hfree m (.inl rfl)).resolve_right hok.2.1
      exact hcont ih hs hfree (fun _ => .inr) id (Step.lock ht hm) rfl (s.setThread_self ..)
  | unlock m k ih =>
      intro s o hs ht hfree
      have hok := hs.threadOk hscript t
      rw [ht] at hok
      exact hcont ih hs hfree (fun _ => id) id (Step.unlock ht hok.2.1) rfl (s.setThread_self ..)
  | branch p x y ihx ihy =>
      intro s o hs ht hfree
      have hstep : Step sem s _ _ := Step.branch ht
      cases hp : sem.test p s.shared with
      | true =>
          rw [hp] at hstep
          exact hcont ihx hs hfree (fun _ => .inl) .inl hstep rfl (s.setThread_self ..)
      | false =>
          rw [hp] at hstep
          exact hcont ihy hs hfree (fun _ => .inr) .inr hstep rfl (s.setThread_self ..)
  | waitWhile p m k ih =>
      intro s o hs ht hfree
      have hok := hs.threadOk hscript t
      rw [ht] at hok
      cases hp : sem.test p s.shared with
      | true =>
          have hstep : Step sem s _ _ := Step.park ht hp hok.2.1
          exact ⟨_, .single hstep rfl, .inr ⟨trivial, p, m, k, o, s.setThread_self ..⟩⟩
      | false =>
          exact hcont ih hs hfree (fun _ => id) (fun _ => trivial) (Step.pass ht hp) rfl
            (s.setThread_self ..)
  | act a k ih =>
      intro s o hs ht hfree
      obtain ⟨d, sh', v, ha⟩ := hlive hs ht
      exact hcont ih hs hfree (fun _ => id) id (Step.act ht ha) rfl (s.setThread_self ..)
  | notify k ih =>
      intro s o hs ht hfree
      by_cases hany : ∃ u, s.Parked u
      · obtain ⟨u, cu, ru, ou, hu⟩ := hany
        exact hcont ih hs hfree (fun _ => id) id (Step.notifyOne ht hu) rfl
          ((State.setThread_of_ne _ _ (State.ne_of_parked ht hu)).trans (s.setThread_self ..))
      · exact hcont ih hs hfree (fun _ => id) id (Step.notifyNone ht (fun u hu => hany ⟨u, hu⟩)) rfl
          (s.setThread_self ..)

/-- What the script does to the object with nobody else there, and what it returns.
`none`: it waits, or an action gets stuck. -/
def Script.alone (sem : Sem M P A V C S) (t d : ℕ) : Script M P A V → S → Option V → Option (S × Option V)
  | .ret v, σ, o => some (σ, v.or o)
  | .lock _ k, σ, o | .unlock _ k, σ, o | .notify k, σ, o => k.alone sem t d σ o
  | .branch p x y, σ, o => if sem.test p σ then x.alone sem t d σ o else y.alone sem t d σ o
  | .waitWhile p _ k, σ, o => if sem.test p σ then none else k.alone sem t d σ o
  | .act a k, σ, _ =>
      match sem.act a t d σ with
      | none => none
      | some (σ', v) => k.alone sem t d σ' (some v)

/-- **A call that runs by itself** does what its script does with nobody else there. -/
theorem runs_alone [Fintype M] {rules : C → Rules M P A V} (hscript : ∀ c, Locked (rules c) ∅ (sem.script c))
    {t d : ℕ} {c : C} {σ' : S} {v : Option V} (r : Script M P A V) : ∀ {s : State M P A V C S} {o : Option V},
      Reach sem anyStep sh s → s.threads t = .running c r o .awake →
      (∀ m, Locks m r → s.owner m = none ∨ s.owner m = some t) →
      r.alone sem t d s.shared o = some (σ', v) →
      ∃ s', Steps sem (By t) s s' ∧ s'.threads t = .done c v ∧ s'.shared = σ' := by
  -- one step, then the induction hypothesis
  have hcont : ∀ {s s₁ : State M P A V C S} {l : Label C} {r k : Script M P A V} {o : Option V},
      (∀ {s : State M P A V C S} {o : Option V}, Reach sem anyStep sh s → s.threads t = .running c k o .awake →
        (∀ m, Locks m k → s.owner m = none ∨ s.owner m = some t) → k.alone sem t d s.shared o = some (σ', v) →
        ∃ s', Steps sem (By t) s s' ∧ s'.threads t = .done c v ∧ s'.shared = σ') →
      Reach sem anyStep sh s → (∀ m, Locks m r → s.owner m = none ∨ s.owner m = some t) →
      (∀ m, Locks m k → Locks m r) → Step sem s l s₁ → By t l → s₁.threads t = .running c k o .awake →
      k.alone sem t d s₁.shared o = some (σ', v) →
      ∃ s', Steps sem (By t) s s' ∧ s'.threads t = .done c v ∧ s'.shared = σ' := by
    intro s s₁ l r k o ih hs hfree hlocks hstep hl ht halone
    have hsolo := Solo.of_step hstep hl
    obtain ⟨s', hsteps, hend⟩ := ih (hs.step trivial hstep) ht (fun m hm => hsolo.owner_free (hfree m (hlocks m hm))) halone
    exact ⟨s', (Steps.single (Q := By t) hstep hl).trans hsteps, hend⟩
  induction r with
  | ret v' =>
      intro s o hs ht _ halone
      obtain ⟨rfl, rfl⟩ := Prod.mk.inj (Option.some.inj halone)
      exact solo_ret sem _ ht (Nat.le_refl _)
  | lock m k ih =>
      intro s o hs ht hfree halone
      have hok := hs.threadOk hscript t
      rw [ht] at hok
      have hm : s.owner m = none := (hfree m (.inl rfl)).resolve_right hok.2.1
      exact hcont ih hs hfree (fun _ => .inr) (Step.lock ht hm) rfl (s.setThread_self ..) halone
  | unlock m k ih =>
      intro s o hs ht hfree halone
      have hok := hs.threadOk hscript t
      rw [ht] at hok
      exact hcont ih hs hfree (fun _ => id) (Step.unlock ht hok.2.1) rfl (s.setThread_self ..) halone
  | branch p x y ihx ihy =>
      intro s o hs ht hfree halone
      have hstep : Step sem s _ _ := Step.branch ht
      unfold Script.alone at halone
      cases hp : sem.test p s.shared with
      | true =>
          rw [hp] at hstep halone
          exact hcont ihx hs hfree (fun _ => .inl) hstep rfl (s.setThread_self ..) halone
      | false =>
          rw [hp] at hstep halone
          exact hcont ihy hs hfree (fun _ => .inr) hstep rfl (s.setThread_self ..) halone
  | waitWhile p m k ih =>
      intro s o hs ht hfree halone
      unfold Script.alone at halone
      split at halone
      · exact absurd halone.symm (Option.some_ne_none _)
      · next hp =>
          exact hcont ih hs hfree (fun _ => id) (Step.pass ht (Bool.eq_false_iff.mpr hp)) rfl (s.setThread_self ..) halone
  | act a k ih =>
      intro s o hs ht hfree halone
      unfold Script.alone at halone
      split at halone
      · exact absurd halone.symm (Option.some_ne_none _)
      · next σ₁ v₁ ha => exact hcont ih hs hfree (fun _ => id) (Step.act ht ha) rfl (s.setThread_self ..) halone
  | notify k ih =>
      intro s o hs ht hfree halone
      by_cases hany : ∃ u, s.Parked u
      · obtain ⟨u, cu, ru, ou, hu⟩ := hany
        exact hcont ih hs hfree (fun _ => id) (Step.notifyOne ht hu) rfl
          ((State.setThread_of_ne _ _ (State.ne_of_parked ht hu)).trans (s.setThread_self ..)) halone
      · exact hcont ih hs hfree (fun _ => id) (Step.notifyNone ht (fun u hu => hany ⟨u, hu⟩)) rfl (s.setThread_self ..) halone

/-! ## Counting calls

A weight for every thread gives a number for the state. Only calls that have been made have
one. -/

/-- The weights of all calls made so far, added up. -/
def State.total (s : State M P A V C S) (f : Thread M P A V C → ℕ) : ℕ :=
  ∑ t ∈ Finset.range s.born, f (s.threads t)

section

omit [DecidableEq M]

variable {f : Thread M P A V C → ℕ}

/-- Replacing one thread moves the total by the difference of its weights. -/
theorem total_setThread {s : State M P A V C S} {t : ℕ} (x : Thread M P A V C) (ht : t < s.born) :
    (s.setThread t x).total f + f (s.threads t) = s.total f + f x := by
  have hmem : t ∈ Finset.range s.born := Finset.mem_range.mpr ht
  have hrest : ∑ u ∈ (Finset.range s.born).erase t, f ((s.setThread t x).threads u)
      = ∑ u ∈ (Finset.range s.born).erase t, f (s.threads u) :=
    Finset.sum_congr rfl fun u hu => by rw [State.setThread_of_ne _ _ (Finset.ne_of_mem_erase hu)]
  have hold := Finset.add_sum_erase (Finset.range s.born) (fun u => f (s.threads u)) hmem
  have hnew := Finset.add_sum_erase (Finset.range s.born) (fun u => f ((s.setThread t x).threads u)) hmem
  rw [hrest, State.setThread_self] at hnew
  show ∑ u ∈ Finset.range s.born, f ((s.setThread t x).threads u) + _ = ∑ u ∈ _, f (s.threads u) + _
  omega

/-- A new call adds its weight. -/
theorem total_call (s : State M P A V C S) (x : Thread M P A V C) (sh' : S) :
    ({ s.setThread s.born x with born := s.born + 1, shared := sh' } : State M P A V C S).total f
      = s.total f + f x := by
  have hrest : ∑ u ∈ Finset.range s.born, f ((s.setThread s.born x).threads u) = s.total f :=
    Finset.sum_congr rfl fun u hu => by
      rw [State.setThread_of_ne _ _ (Nat.ne_of_lt (Finset.mem_range.mp hu))]
  unfold State.total at hrest ⊢
  rw [Finset.sum_range_succ, ← hrest, State.setThread_self]

/-- A thread with a weight shows in the total. -/
theorem le_total {s : State M P A V C S} {t : ℕ} (ht : t < s.born) : f (s.threads t) ≤ s.total f :=
  Finset.single_le_sum (f := fun u => f (s.threads u)) (fun _ _ => Nat.zero_le _)
    (Finset.mem_range.mpr ht)

/-- The total of threads that have no weight. -/
theorem total_eq_zero {s : State M P A V C S} (hzero : ∀ t < s.born, f (s.threads t) = 0) :
    s.total f = 0 :=
  Finset.sum_eq_zero fun t ht => hzero t (Finset.mem_range.mp ht)

/-- The total when at most one thread has a weight. -/
theorem total_le {s : State M P A V C S} {n : ℕ} (hf : ∀ x, f x ≤ n)
    (hone : ∀ t u, f (s.threads t) ≠ 0 → f (s.threads u) ≠ 0 → t = u) : s.total f ≤ n := by
  by_cases hany : ∃ t, t < s.born ∧ f (s.threads t) ≠ 0
  · obtain ⟨t, ht, hft⟩ := hany
    have hsum : s.total f = f (s.threads t) := Finset.sum_eq_single_of_mem t (Finset.mem_range.mpr ht)
      fun u _ hut => by
        by_contra hfu
        exact hut (hone u t hfu hft)
    rw [hsum]
    exact hf _
  · rw [total_eq_zero fun t ht => by
      by_contra hft
      exact hany ⟨t, ht, hft⟩]
    exact Nat.zero_le n

end

/-! ## Runs that are written down

A run given by its labels can be evaluated, for calls to which nothing is
handed over. -/

/-- The thread is parked. -/
def Thread.isParked : Thread M P A V C → Bool
  | .running _ _ _ .parked => true
  | _ => false

/-- All calls made so far pass the check. -/
def State.every (s : State M P A V C S) (f : Thread M P A V C → Bool) : Bool :=
  (List.range s.born).all fun u => f (s.threads u)

/-- No call made so far is parked. -/
def State.nobodyParked (s : State M P A V C S) : Bool := s.every fun x => !x.isParked

/-- The step that the label names, if it can be taken. -/
def next [Fintype M] (sem : Sem M P A V C S) (s : State M P A V C S) :
    Label C → Option (State M P A V C S)
  | .call c =>
      some { s.setThread s.born (.running c (sem.script c) none .awake) with born := s.born + 1 }
  | .step t =>
      match s.threads t with
      | .running c (.lock m k) o .awake =>
          if s.owner m = none then
            some ((s.setThread t (.running c k o .awake)).setOwner m (some t))
          else none
      | .running c (.unlock m k) o .awake =>
          if s.owner m = some t then
            some ((s.setThread t (.running c k o .awake)).setOwner m none)
          else none
      | .running c (.branch p x y) o .awake =>
          some ((s.setThread t (.running c (if sem.test p s.shared then x else y) o .awake)).record t c
            (.test p (sem.test p s.shared)))
      | .running c (.waitWhile p m k) o .awake =>
          if sem.test p s.shared = true then
            if s.owner m = some t then
              some (((s.setThread t (.running c (.waitWhile p m k) o .parked)).setOwner m none).record t c
                (.test p true))
            else none
          else some ((s.setThread t (.running c k o .awake)).record t c (.test p false))
      | .running c (.waitWhile p m k) o .woken =>
          if s.owner m = none then
            some ((s.setThread t (.running c (.waitWhile p m k) o .awake)).setOwner m (some t))
          else none
      | .running c (.notify k) o .awake =>
          if s.nobodyParked = true then
            some (s.setThread t (.running c k o .awake))
          else none
      | .running c (.ret v) o .awake =>
          if ∀ m, s.owner m ≠ some t then some (s.setThread t (.done c (v.or o))) else none
      | _ => none
  | .wake t =>
      match s.threads t with
      | .running c r o .parked => some (s.setThread t (.running c r o .woken))
      | _ => none
  | .act t d =>
      match s.threads t with
      | .running c (.act a k) _ .awake =>
          match sem.act a t d s.shared with
          | some (sh, v) =>
              some ({ s.setThread t (.running c k (some v) .awake) with shared := sh }.record t c
                (.act a v))
          | none => none
      | _ => none
  | .notify t u =>
      match s.threads t, s.threads u with
      | .running c (.notify k) o .awake, .running cu r ou .parked =>
          some ((s.setThread t (.running c k o .awake)).setThread u (.running cu r ou .woken))
      | _, _ => none
  | .client => none

/-- A check that calls not yet made pass is passed by all. -/
theorem Reach.every {s : State M P A V C S} (hs : Reach sem ok sh s) {f : Thread M P A V C → Bool}
    (hunborn : f .unborn = true) (hall : s.every f = true) (u : ℕ) : f (s.threads u) = true := by
  by_cases hle : s.born ≤ u
  · rw [(hs.unborn_iff u).mpr hle]
    exact hunborn
  · exact List.all_eq_true.mp hall u (List.mem_range.mpr (by omega))

/-- Then no call is. -/
theorem Reach.not_parked {s : State M P A V C S} (hs : Reach sem ok sh s)
    (hnone : s.nobodyParked = true) (u : ℕ) : ¬ s.Parked u := by
  rintro ⟨c, r, o, hu⟩
  have hfalse := hs.every rfl hnone u
  rw [hu] at hfalse
  cases hfalse

/-- What is computed is a step. -/
theorem Reach.next [Fintype M] {s s' : State M P A V C S} {l : Label C} (hs : Reach sem ok sh s)
    (henter : ∀ c, l = .call c → sem.enter c s.born s.shared s.shared)
    (hnext : next sem s l = some s') : Step sem s l s' := by
  -- by the labels: whatever `next` does for one is the step of that name
  cases l with
  | call c =>
      cases hnext
      exact .call (henter c rfl)
  | client => cases hnext
  | wake t =>
      simp only [Monitor.next] at hnext
      split at hnext
      · next ht =>
          cases hnext
          exact .wake ht
      · cases hnext
  | act t d =>
      simp only [Monitor.next] at hnext
      split at hnext
      · next ht =>
          split at hnext
          · next ha =>
              cases hnext
              exact .act ht ha
          · cases hnext
      · cases hnext
  | notify t u =>
      simp only [Monitor.next] at hnext
      split at hnext
      · next ht hu =>
          cases hnext
          exact .notifyOne ht hu
      · cases hnext
  | step t =>
      simp only [Monitor.next] at hnext
      split at hnext
      · next ht =>
          split at hnext
          · next hm =>
              cases hnext
              exact .lock ht hm
          · cases hnext
      · next ht =>
          split at hnext
          · next hm =>
              cases hnext
              exact .unlock ht hm
          · cases hnext
      · next ht =>
          cases hnext
          exact .branch ht
      · next ht =>
          split at hnext
          · next hp =>
              split at hnext
              · next hm =>
                  cases hnext
                  exact .park ht hp hm
              · cases hnext
          · next hp =>
              cases hnext
              exact .pass ht (Bool.eq_false_iff.mpr hp)
      · next ht =>
          split at hnext
          · next hm =>
              cases hnext
              exact .regain ht hm
          · cases hnext
      · next ht =>
          split at hnext
          · next hnone =>
              cases hnext
              exact .notifyNone ht (hs.not_parked hnone)
          · cases hnext
      · next ht =>
          split at hnext
          · next hfree =>
              cases hnext
              exact .ret ht hfree
          · cases hnext
      · cases hnext

/-- The state after the steps with these labels, if they can be taken one after
the other and each of them passes the check. -/
def play [Fintype M] (sem : Sem M P A V C S) (check : State M P A V C S → Bool) :
    List (Label C) → State M P A V C S → Option (State M P A V C S)
  | [], s => some s
  | l :: ls, s => if check s then (next sem s l).bind (play sem check ls) else none

/-- A run that can be played exists. -/
theorem Reach.play [Fintype M] (check : State M P A V C S → Bool)
    (hcheck : ∀ {s}, Reach sem ok sh s → check s = true → ∀ l, ok s l) (ls : List (Label C)) :
    ∀ {s s' : State M P A V C S}, Reach sem ok sh s →
      (∀ c, .call c ∈ ls → ∀ n σ, sem.enter c n σ σ) → Monitor.play sem check ls s = some s' →
      Reach sem ok sh s' := by
  induction ls with
  | nil =>
      intro s s' hs _ hplay
      cases hplay
      exact hs
  | cons l ls ih =>
      intro s s' hs henter hplay
      rw [Monitor.play] at hplay
      split at hplay
      · next hc =>
          obtain ⟨s₁, hnext, hrest⟩ := Option.bind_eq_some_iff.mp hplay
          have hstep := hs.next (fun c hl => henter c (hl ▸ List.mem_cons_self) _ _) hnext
          exact ih (hs.step (hcheck hs hc l) hstep)
            (fun c hc => henter c (List.mem_cons_of_mem _ hc)) hrest
      · cases hplay

/-- So do the steps of a schedule. -/
theorem Steps.play [Fintype M] {Q : Label C → Prop} (ls : List (Label C)) :
    ∀ {s s' : State M P A V C S}, Reach sem anyStep sh s → (∀ l ∈ ls, Q l) →
      (∀ c, .call c ∈ ls → ∀ n σ, sem.enter c n σ σ) →
      Monitor.play sem (fun _ => true) ls s = some s' → Steps sem Q s s' := by
  induction ls with
  | nil =>
      intro s s' _ _ _ hplay
      cases hplay
      exact .refl s
  | cons l ls ih =>
      intro s s' hs hQ henter hplay
      rw [Monitor.play, if_pos rfl] at hplay
      obtain ⟨s₁, hnext, hrest⟩ := Option.bind_eq_some_iff.mp hplay
      have hstep := hs.next (fun c hl => henter c (hl ▸ List.mem_cons_self) _ _) hnext
      exact (Steps.single hstep (hQ l List.mem_cons_self)).trans
        (ih (hs.step trivial hstep) (fun l hl => hQ l (List.mem_cons_of_mem _ hl))
          (fun c hc => henter c (List.mem_cons_of_mem _ hc)) hrest)

end Semantics

end Monitor
