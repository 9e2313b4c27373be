/-
When is a LOW `enqueue` shut out of an empty queue?

A LOW consumer has `m_low_prio_access` from its first instruction to its last, so also
while it waits for an element, and a LOW `enqueue` gets in only when it is through. The
element has to come from a HIGH `enqueue` then: a LOW one, or a `load`, would need the
mutex too. If nobody makes a new call, it has to come from one that is in progress
already (`Pending`), and it must not go to another consumer first (`Due`).

When there is no such call, nothing that the calls in progress do changes that
(`Starved.step`), however the consumer came to be where it is: parked, woken without an
element to be had, or still on its way to the queue. So the LOW `enqueue` behind it never
takes its first mutex (`shut_out`).
-/
import JudoEngine.ConcurBlockingQueue.Fifo

set_option autoImplicit false

open Monitor Linked Words

namespace JudoEngine.ConcurBlockingQueue

variable {T : Type} {h : Heap T} {s s' : Config T} {l : Label (Call T)}

/-- The call, made now, can be run to its end by steps of calls in progress other than
those that are parked now. -/
def CanComplete (s : Config T) (c : Call T) : Prop :=
  ∃ s₁ s' v, Step sem s (.call c) s₁ ∧ Steps sem (Others s.Parked) s₁ s' ∧ s'.threads s.born = .done c v

/-! ## Before the action

Up to its action a call takes `m_data` with `m_next_to_access` in hand, gives the latter
back, and gives back nothing else. -/

/-- What the scripts do to the mutexes before their action. -/
def early : Rules Mutex SizeTest (QueueCall T) (Ret T) := fun h x =>
  match x with
  | .lock .m_next_to_access k => ∃ k', k = .lock .m_data (.unlock .m_next_to_access k')
  | .unlock m k => Acts k → m = .m_next_to_access ∧ .m_data ∈ h
  | _ => True

/-- Every member function keeps to this. -/
theorem early_code (c : Call T) : Locked early ∅ (code c) := by
  rcases c with ⟨d, _ | _⟩ | ⟨_ | _, _ | _⟩ | ⟨_ | _, _ | _⟩ | ⟨p, r, n⟩
  case load =>
    by_cases hn : n ≤ 0
    · simp [code, load, hn, Locked]
    · simp [code, load, hn, Locked, early, Acts]
  all_goals simp [code, enqueue, dequeue, dump, Locked, early, Acts]

/-- After its effect a call does not act any more ... -/
theorem Flow.not_acts {c : Call T} {r : Code T} (hr : Flow c .acted r) : ¬ Acts r := by
  induction r with
  | unlock m k ih | notify k ih => exact ih hr
  | ret => exact id
  | lock | branch | waitWhile | act => exact hr.elim

/-- ... nor when it gives up. -/
theorem Flow.over_of_empty {c : Call T} {r : Code T} (hr : Flow c .empty r) : ¬ Waits r ∧ ¬ Acts r := by
  induction r with
  | unlock m k ih => exact ih hr
  | ret => exact ⟨id, id⟩
  | lock | branch | waitWhile | act | notify => exact hr.elim

/-- With an element in sight it acts. -/
theorem Flow.acts_of_ready {c : Call T} {r : Code T} (hr : Flow c .ready r) : Acts r := by
  cases r with
  | act => trivial
  | ret | lock | unlock | branch | waitWhile | notify => exact hr.elim

/-- Every call acts, if it does not give up, but a `load` of nothing. -/
theorem Flow.acts_or {c : Call T} {r : Code T} (hr : Flow c .entering r) :
    Acts r ∨ (∃ p q n, c = .load p q n ∧ n ≤ 0) ∧ ¬ Waits r := by
  induction r with
  | lock m k ih | unlock m k ih => exact ih hr
  | act => exact .inl trivial
  | ret => exact .inr ⟨hr.1, id⟩
  | branch => exact .inl (.inr hr.2.acts_of_ready)
  | waitWhile p m k => exact .inl (Flow.acts_of_ready (r := k) hr.2.2)
  | notify => exact hr.elim

/-- A call that may wait acts when it has waited. -/
theorem acts_of_waits (hs : Run anyStep h s) {t : ℕ} {c : Call T} {r o st} (ht : s.threads t = .running c r o st)
    (hw : Waits r) : Acts r := by
  have hp := (Inv.reach hs).progress t
  rw [Progress, ht] at hp
  obtain ⟨ph, hflow, -⟩ := hp
  cases ph with
  | entering => exact hflow.acts_or.resolve_right fun hor => hor.2 hw
  | ready => exact hflow.acts_of_ready
  | acted => exact absurd hw hflow.not_waits
  | empty => exact absurd hw hflow.over_of_empty.1

/-- Before it is past its first test a call acts. -/
theorem acts_of_lock (hs : Run anyStep h s) {t : ℕ} {c : Call T} {m k o st}
    (ht : s.threads t = .running c (.lock m k) o st) (hload : ∀ p q n, c = .load p q n → 0 < n) : Acts k := by
  have hp := (Inv.reach hs).progress t
  rw [Progress, ht] at hp
  obtain ⟨ph, hflow, -⟩ := hp
  cases ph with
  | entering =>
      refine (Flow.acts_or (r := k) hflow).resolve_right ?_
      rintro ⟨⟨p, q, n, hl, hn⟩, -⟩
      exact absurd (hload p q n hl) (not_lt.mpr hn)
  | ready | acted | empty => exact hflow.elim

/-- Nobody takes `m_next_to_access` for anything but to take `m_data`. -/
theorem locks_data {r : Code T} : ∀ {held : Set Mutex}, Locked early held r → Locks .m_next_to_access r →
    Locks .m_data r := by
  induction r with
  | ret => exact fun _ hl => hl.elim
  | lock m k ih =>
      intro held hearly hl
      rcases hl with rfl | hl
      · obtain ⟨k', rfl⟩ := hearly.1
        exact .inr (.inl rfl)
      · exact .inr (ih hearly.2.2 hl)
  | unlock m k ih | waitWhile p m k ih => exact fun hearly hl => ih hearly.2.2 hl
  | branch p x y ihx ihy => exact fun hearly hl => hl.imp (ihx hearly.2.1) (ihy hearly.2.2)
  | act a k ih | notify k ih => exact fun hearly hl => ih hearly.2 hl

/-- A call that has its action and `m_data` still before it is about to take a mutex. -/
theorem at_lock (hs : Run anyStep h s) {t : ℕ} {c : Call T} {r o st} (ht : s.threads t = .running c r o st)
    (hacts : Acts r) (hl : Locks .m_data r) : st = .awake ∧ ∃ m k, r = .lock m k := by
  have hnot : s.owner .m_data ≠ some t := fun hm => absurd (locks_later hs ht hm hl) (Nat.lt_irrefl _)
  have hearly := hs.threadOk early_code t
  rw [ht] at hearly
  have hst : st = .awake := by
    by_contra hst
    -- a call that waits has all its mutexes but the one that it has lent out
    obtain ⟨p, k, rfl, -⟩ := waits_for_m_data hs ht hst
    have hok := hs.threadOk ordered_code t
    rw [ht] at hok
    cases st with
    | awake => exact hst rfl
    | parked | woken =>
        obtain ⟨p', m', k', heq, -, hrule, -⟩ := hok
        obtain ⟨rfl, rfl, rfl⟩ := Script.waitWhile.inj heq
        exact absurd (hrule .m_data (Set.mem_insert _ _) .m_data hl) (Nat.lt_irrefl _)
  subst hst
  refine ⟨rfl, ?_⟩
  cases r with
  | lock m k => exact ⟨m, k, rfl⟩
  | ret => exact hacts.elim
  | unlock m k => exact absurd (hearly.1 hacts).2 hnot
  | branch => exact absurd (owner_of_branch hs ht) hnot
  | waitWhile => exact absurd (owner_of_waitWhile hs ht) hnot
  | act => exact absurd (owner_of_act hs ht) hnot
  | notify => exact absurd (owner_of_notify hs ht) hnot

/-- A mutex stays with a call that does not take the step. -/
theorem owner_other (hstep : Step sem s l s') {t : ℕ} (hl : l.actor ≠ some t) (m : Mutex) :
    s'.owner m = some t ↔ s.owner m = some t := by
  obtain ⟨hheld, -⟩ := hstep.other hl
  rw [← State.mem_held, hheld, State.mem_held]

/-- Whoever has `m_next_to_access` is about to take `m_data`, or has it and is about to give
the other back. -/
theorem holder (hs : Run anyStep h s) {u : ℕ} (hu : s.owner .m_next_to_access = some u) : ∃ c r o,
    s.threads u = .running c r o .awake ∧ ((∃ k, r = .lock .m_data (.unlock .m_next_to_access k))
      ∨ s.owner .m_data = some u ∧ ∃ k, r = .unlock .m_next_to_access k) := by
  -- by the steps of the run: it has just been taken, or it is given back only when `m_data` has
  -- been
  induction hs with
  | init => exact absurd hu (by simp [State.init])
  | @step s l s' hs hok hstep ih =>
      by_cases hold : s.owner .m_next_to_access = some u
      · obtain ⟨c, r, o, hrun, hor⟩ := ih hold
        by_cases hl : l.actor = some u
        · -- it goes on, and has not given the mutex back
          rcases hor with ⟨k, rfl⟩ | ⟨-, k, rfl⟩
          · obtain ⟨-, rfl⟩ := hstep.of_lock hrun hl
            exact ⟨c, _, o, s.setThread_self .., .inr ⟨State.setOwner_self .., k, rfl⟩⟩
          · cases hstep with
            | call | client => cases hl
            | unlock ht =>
                cases hl
                rw [hrun] at ht
                cases ht
                exact absurd ((State.setOwner_self ..).symm.trans hu) (by simp)
            | lock ht | branch ht | pass ht | park ht | wake ht | regain ht | act ht | notifyOne ht
              | notifyNone ht | release ht | ret ht =>
                cases hl
                rw [hrun] at ht
                cases ht
        · obtain ⟨-, hsame | ⟨hst, -⟩⟩ := hstep.spared hs hl hrun
          · exact ⟨c, r, o, hsame, hor.imp_right (And.imp_left (owner_other hstep hl _).mpr)⟩
          · cases hst
      · -- it has taken the mutex just now
        rcases hstep.takes hu hold with ⟨c, k, o, ht, ht'⟩ | ⟨c, p, k, o, ht⟩
        · have hearly := hs.threadOk early_code u
          rw [ht] at hearly
          exact ⟨c, k, o, ht', .inl hearly.1⟩
        · obtain ⟨p', k', heq, -⟩ := waits_for_m_data hs ht (by decide)
          cases heq

/-! ## Where the next element can come from

With `m_low_prio_access` in the hands of the consumer `w` nobody but a HIGH `enqueue` can
put an element in, and what it puts in is not for `w` when another consumer is on its way
to `m_data` before it. -/

/-- A HIGH `enqueue` in progress that has not put its element in yet. -/
def Pending (s : Config T) (e : ℕ) : Prop :=
  ∃ d r o st, s.threads e = .running (.enqueue d .HIGH) r o st ∧ Acts r

/-- The call has the mutex still to take. -/
def HasToTake (s : Config T) (w : ℕ) (m : Mutex) : Prop :=
  ∃ c r o st, s.threads w = .running c r o st ∧ Locks m r

/-- The call may still wait for elements. -/
def MayWait (s : Config T) (w : ℕ) : Prop :=
  ∃ c r o st, s.threads w = .running c r o st ∧ Waits r

/-- `e` has `m_data`, and the next to have it is not `w`: another call has
`m_next_to_access`, which `w` has still to take. -/
def Due (s : Config T) (w e : ℕ) : Prop :=
  s.owner .m_data = some e ∧ HasToTake s w .m_next_to_access
    ∧ ∃ u, u ≠ e ∧ s.owner .m_next_to_access = some u

/-- There is no element, and none will come that `w` can get before somebody makes a
call: nobody puts one in; or the one that is put in goes to `u`, which has
`m_next_to_access`; or it is there, and `u` has `m_data` already. -/
inductive Dry (s : Config T) (w : ℕ) : Prop
  | empty (hsize : s.shared.m_queue.getSize = 0) (hnone : ∀ e, ¬ Pending s e)
  | due {u c k o} (hw : HasToTake s w .m_next_to_access) (hown : s.owner .m_next_to_access = some u)
      (hu : s.threads u = .running c (.lock .m_data k) o .awake) (hc : c.consumes ≠ none)
      (hsize : s.shared.m_queue.getSize ≤ 1)
      (hpend : ∀ e, Pending s e → s.owner .m_data = some e ∧ s.shared.m_queue.getSize = 0)
  | taking {u c r o} (hw : HasToTake s w .m_data) (hown : s.owner .m_data = some u)
      (hu : s.threads u = .running c r o .awake) (hacts : Acts r) (hc : c.consumes ≠ none)
      (hsize : s.shared.m_queue.getSize = 1) (hnone : ∀ e, ¬ Pending s e)

/-- `w` has `m_low_prio_access`, may still wait, and gets no element. -/
structure Starved (s : Config T) (w : ℕ) : Prop where
  low : s.owner .m_low_prio_access = some w
  waits : MayWait s w
  dry : Dry s w

/-! ## What a step changes of that

Each part of the condition is followed through a step of another call, and through one of the
consumer itself. -/

/-- Only a new call becomes a HIGH `enqueue` with its element in hand. -/
theorem Pending.back (hstep : Step sem s l s') (hcall : ∀ d, l ≠ .call (.enqueue d .HIGH)) {e : ℕ}
    (he : Pending s' e) : Pending s e := by
  obtain ⟨d, r, o, st, hrun, hacts⟩ := he
  by_cases hl : l.actor = some e
  · obtain ⟨c₀, r₀, o₀, st₀, ht, ⟨v, hdone⟩ | ⟨r', o', st', hrun', hr⟩⟩ := hstep.own hl
    · rw [hrun] at hdone
      cases hdone
    · rw [hrun] at hrun'
      cases hrun'
      rcases hr with rfl | hnext
      · exact ⟨d, _, _, _, ht, hacts⟩
      · exact ⟨d, _, _, _, ht, hnext.acts hacts⟩
  · obtain ⟨-, hsame | ⟨c, r', o', hpark, hwoken⟩ | ⟨c, rfl, -, hnew⟩⟩ := hstep.other hl
    · exact ⟨d, r, o, st, hsame.symm.trans hrun, hacts⟩
    · rw [hrun] at hwoken
      cases hwoken
      exact ⟨d, r, o, .parked, hpark, hacts⟩
    · rw [hrun] at hnew
      cases hnew
      exact absurd rfl (hcall d)

/-- A call that does not take the step has what it had to take, and may wait if it could. -/
theorem HasToTake.other (hs : Run anyStep h s) (hstep : Step sem s l s') {w : ℕ} (hl : l.actor ≠ some w)
    {m : Mutex} (hw : HasToTake s w m) : HasToTake s' w m := by
  obtain ⟨c, r, o, st, hrun, hlocks⟩ := hw
  obtain ⟨-, hsame | ⟨-, hwoken⟩⟩ := hstep.spared hs hl hrun
  · exact ⟨c, r, o, st, hsame, hlocks⟩
  · exact ⟨c, r, o, .woken, hwoken, hlocks⟩

/-- What it has to take ends with `m_data`. -/
theorem HasToTake.data (hs : Run anyStep h s) {w : ℕ} (hw : HasToTake s w .m_next_to_access) : HasToTake s w .m_data := by
  obtain ⟨c, r, o, st, hrun, hlocks⟩ := hw
  refine ⟨c, r, o, st, hrun, ?_⟩
  have hearly := hs.threadOk early_code w
  rw [hrun] at hearly
  cases st with
  | awake => exact locks_data hearly hlocks
  | parked | woken =>
      obtain ⟨p, m, k, rfl, -, hlock⟩ := hearly
      exact locks_data hlock hlocks

/-- So it still may wait when another call takes a step. -/
theorem MayWait.other (hs : Run anyStep h s) (hstep : Step sem s l s') {w : ℕ} (hl : l.actor ≠ some w)
    (hw : MayWait s w) : MayWait s' w := by
  obtain ⟨c, r, o, st, hrun, hwaits⟩ := hw
  obtain ⟨-, hsame | ⟨-, hwoken⟩⟩ := hstep.spared hs hl hrun
  · exact ⟨c, r, o, st, hsame, hwaits⟩
  · exact ⟨c, r, o, .woken, hwoken, hwaits⟩

/-- A HIGH `enqueue` that has `m_data` keeps it until its element is in. -/
theorem Pending.keeps (hs : Run anyStep h s) (hstep : Step sem s l s') (hcall : ∀ d, l ≠ .call (.enqueue d .HIGH))
    {e : ℕ} (he : Pending s' e) (hown : s.owner .m_data = some e) : s'.owner .m_data = some e := by
  obtain ⟨d, r, o, st, hrun, hacts⟩ := he.back hstep hcall
  by_contra hnot
  rcases hstep.gives hown hnot with ⟨c, k, o', ht, ht'⟩ | ⟨c, p, k, o', ht⟩ | ⟨c, v, o', ht⟩
  · obtain ⟨d', r', o'', st', hrun', hacts'⟩ := he
    rw [hrun'] at ht'
    cases ht'
    have hearly := hs.threadOk early_code e
    rw [ht] at hearly
    exact absurd (hearly.1 hacts').1 (by decide)
  · -- it does not wait
    rw [hrun] at ht
    cases ht
    have hp := (Inv.reach hs).progress e
    rw [Progress, hrun] at hp
    obtain ⟨ph, hflow, -⟩ := hp
    cases ph with
    | entering => exact absurd hflow.1 (by simp [Call.consumes])
    | ready | acted | empty => exact hflow.elim
  · rw [hrun] at ht
    cases ht
    exact hacts

/-! ## Who acts

On a queue of one element at most, the one who has `m_data` decides what becomes of it. -/

/-- Nobody puts an element in while `w` has `m_low_prio_access` but a HIGH `enqueue`. -/
theorem Starved.actor (hs : Run anyStep h s) {w t : ℕ} (hlow : s.owner .m_low_prio_access = some w) (hwaits : MayWait s w)
    {c : Call T} {a k o} (ht : s.threads t = .running c (.act a k) o .awake) :
    c.consumes ≠ none ∨ ∃ d, c = .enqueue d .HIGH := by
  have hok := hs.threadOk locked_code t
  rw [ht] at hok
  obtain ⟨⟨-, -, hiff⟩, -⟩ := hok
  have hprio : c.prio = .HIGH := by
    cases hprio : c.prio with
    | HIGH => rfl
    | LOW =>
        -- it would be `w`, which is not there yet
        obtain rfl : t = w := Option.some.inj ((hiff.mpr hprio).symm.trans hlow)
        obtain ⟨c', r', o', st', hrun, hw⟩ := hwaits
        rw [ht] at hrun
        cases hrun
        obtain ⟨-, hflow, -⟩ := (Inv.reach hs).before_act ht
        exact absurd hw hflow.not_waits
  cases c with
  | enqueue d p =>
      obtain rfl : p = .HIGH := hprio
      exact .inr ⟨d, rfl⟩
  | dequeue | dump => exact .inl (by simp [Call.consumes])
  | load => cases hprio

/-- The size of the queue stays as it is, or a call has done its action. -/
theorem size_cases (hs : Run anyStep h s) (hstep : Step sem s l s') :
    s'.shared.m_queue.getSize = s.shared.m_queue.getSize
      ∨ ∃ t c a k o v, l.actor = some t ∧ s.threads t = .running c (.act a k) o .awake
        ∧ s'.threads t = .running c k (some v) .awake ∧ ¬ Acts k ∧ s'.owner = s.owner
        ∧ Shared.Acted s.shared s'.shared c v := by
  rcases size_step hstep with hsame | ⟨t, d, c, a, k, o, rfl, ht⟩
  · exact .inl (by rw [hsame])
  · cases hstep with
    | act ht' ha =>
        rw [ht] at ht'
        cases ht'
        obtain ⟨-, hflow, -⟩ := (Inv.reach hs).before_act ht
        obtain ⟨-, -, hacted⟩ := (Inv.reach hs).acted ht ha
        exact .inr ⟨t, c, a, k, o, _, rfl, ht, s.setThread_self .., hflow.not_acts, rfl, hacted⟩

/-- What is taken out of a queue of at most one element leaves nothing. -/
theorem size_of_consumed (hs : Run anyStep h s) (hs' : Run anyStep h s') {c : Call T} {v : Ret T}
    (hacted : Shared.Acted s.shared s'.shared c v) (hc : c.consumes ≠ none) (hsize : s.shared.m_queue.getSize ≤ 1) :
    s.shared.m_queue.getSize = 1 ∧ s'.shared.m_queue.getSize = 0 := by
  rw [← (Inv.reach hs).shared.length_content] at hsize ⊢
  rw [← (Inv.reach hs').shared.length_content]
  cases hacted with
  | enqueue | load => exact absurd rfl hc
  | dequeue hcont =>
      rw [hcont, List.length_cons] at hsize ⊢
      omega
  | dump hne hcont =>
      have hpos := List.length_pos_of_ne_nil hne
      rw [hcont, List.length_nil]
      omega

/-- An `enqueue` adds one. -/
theorem size_of_enqueued (hs : Run anyStep h s) (hs' : Run anyStep h s') {d : T} {p : priority} {v : Ret T}
    (hacted : Shared.Acted s.shared s'.shared (.enqueue d p) v) :
    s'.shared.m_queue.getSize = s.shared.m_queue.getSize + 1 := by
  rw [← (Inv.reach hs).shared.length_content, ← (Inv.reach hs').shared.length_content]
  cases hacted with
  | enqueue hcont => rw [hcont, List.length_append, List.length_singleton]

/-! ## Nothing comes of it

The invariant of the whole argument: a starved consumer stays so with every step, unless
somebody calls a HIGH `enqueue`. -/

/-- On an empty queue a call that may wait does not get past its wait. -/
theorem MayWait.own (hs : Run anyStep h s) (hstep : Step sem s l s') {w : ℕ} (hl : l.actor = some w)
    (hw : MayWait s w) (hsize : s.shared.m_queue.getSize = 0) : MayWait s' w := by
  obtain ⟨c, r, o, st, hrun, hwaits⟩ := hw
  have hp := (Inv.reach hs).progress w
  rw [Progress, hrun] at hp
  obtain ⟨ph, hflow, -⟩ := hp
  have htest : ∀ p : SizeTest, sem.test p s.shared = true := by
    intro p
    cases p with
    | getSize => exact decide_eq_true hsize
    | narrowed => simp [sem, test, hsize, toInt32]
  -- by its own next instruction; on an empty queue every test leads it on to its wait
  cases hstep with
  | call | client => cases hl
  | lock ht | unlock ht | wake ht | regain ht | notifyNone ht =>
      cases hl
      rw [hrun] at ht
      cases ht
      exact ⟨_, _, _, _, s.setThread_self .., hwaits⟩
  | notifyOne ht hu =>
      cases hl
      have hne := State.ne_of_parked ht hu
      rw [hrun] at ht
      cases ht
      exact ⟨_, _, _, _, (State.setThread_of_ne _ _ hne).trans (s.setThread_self ..), hwaits⟩
  | park ht =>
      cases hl
      exact ⟨_, _, _, _, s.setThread_self .., trivial⟩
  | pass ht hfalse =>
      rw [htest] at hfalse
      cases hfalse
  | @branch t c' p x y o' ht =>
      cases hl
      rw [hrun] at ht
      cases ht
      refine ⟨c, x, o, .awake, ?_, ?_⟩
      · rw [State.record_threads, State.setThread_self, htest, if_pos rfl]
      · -- with an element it would not wait
        refine hwaits.resolve_right fun hy => ?_
        cases ph with
        | ready | acted | empty => exact hflow.elim
        | entering =>
            obtain ⟨-, hready⟩ := hflow
            cases y with
            | act a k => exact hready.2.2.not_waits hy
            | ret | lock | unlock | branch | waitWhile | notify => exact hready.elim
  | act ht ha =>
      cases hl
      obtain ⟨-, hacted, -⟩ := (Inv.reach hs).before_act ht
      rw [hrun] at ht
      cases ht
      exact absurd hwaits hacted.not_waits
  | release ht | ret ht =>
      cases hl
      rw [hrun] at ht
      cases ht
      exact hwaits.elim

/-- A call that may wait keeps `m_low_prio_access`. -/
theorem MayWait.keeps (hs : Run anyStep h s) (hstep : Step sem s l s') {w : ℕ} (hw : MayWait s w)
    (hlow : s.owner .m_low_prio_access = some w) : s'.owner .m_low_prio_access = some w := by
  obtain ⟨c, r, o, st, hrun, hwaits⟩ := hw
  have hacts := acts_of_waits hs hrun hwaits
  by_contra hnot
  rcases hstep.gives hlow hnot with ⟨c', k, o', ht, -⟩ | ⟨c', p, k, o', ht⟩ | ⟨c', v, o', ht⟩
  · have hearly := hs.threadOk early_code w
    rw [ht] at hearly
    rw [hrun] at ht
    cases ht
    exact absurd (hearly.1 hacts).1 (by decide)
  · have hok := hs.threadOk locked_code w
    rw [ht] at hok
    exact absurd hok.1.1 (by decide)
  · rw [hrun] at ht
    cases ht
    exact hwaits

/-- The call that has `m_data` and one element before it takes it. -/
theorem taking_step (hs : Run anyStep h s) (hs' : Run anyStep h s') (hstep : Step sem s l s') {u : ℕ}
    (hl : l.actor = some u) (hown : s.owner .m_data = some u) {c : Call T} {r o} (hu : s.threads u = .running c r o .awake)
    (hacts : Acts r) (hc : c.consumes ≠ none) (hsize : s.shared.m_queue.getSize = 1) :
    s'.shared.m_queue.getSize = 0 ∨ s'.owner .m_data = some u ∧ s'.shared.m_queue.getSize = 1
      ∧ ∃ r' o', s'.threads u = .running c r' o' .awake ∧ Acts r' := by
  have hp := (Inv.reach hs).progress u
  rw [Progress, hu] at hp
  obtain ⟨ph, hflow, -⟩ := hp
  have htest : ∀ p : SizeTest, sem.test p s.shared = false := by
    intro p
    cases p with
    | getSize => simp [sem, test, hsize]
    | narrowed => simp [sem, test, hsize, toInt32]
  cases hstep with
  | call | client => cases hl
  | @lock t c' m k o' ht hm =>
      -- it has the last mutex already
      cases hl
      have hlater := locks_later hs ht hown (Or.inl rfl : Locks m (.lock m k))
      cases m <;> simp [Mutex.rank] at hlater
  | @unlock t c' m k o' ht hm =>
      cases hl
      have hearly := hs.threadOk early_code u
      rw [ht] at hearly
      rw [hu] at ht
      cases ht
      obtain ⟨rfl, -⟩ := hearly.1 hacts
      exact .inr ⟨(State.setOwner_of_ne _ _ (by decide)).trans hown, hsize, k, o, s.setThread_self .., hacts⟩
  | @branch t c' p x y o' ht =>
      cases hl
      rw [hu] at ht
      cases ht
      refine .inr ⟨hown, hsize, y, o, ?_, ?_⟩
      · rw [State.record_threads, State.setThread_self, htest, if_neg Bool.false_ne_true]
      · cases ph with
        | entering => exact hflow.2.acts_of_ready
        | ready | acted | empty => exact hflow.elim
  | @pass t c' p m k o' ht hfalse =>
      cases hl
      rw [hu] at ht
      cases ht
      refine .inr ⟨hown, hsize, k, o, s.setThread_self .., ?_⟩
      cases ph with
      | entering => exact Flow.acts_of_ready (r := k) hflow.2.2
      | ready | acted | empty => exact hflow.elim
  | park ht htrue =>
      rw [htest] at htrue
      cases htrue
  | wake ht | regain ht =>
      cases hl
      rw [hu] at ht
      cases ht
  | @act t c' a k o' d σ v ht ha =>
      cases hl
      obtain ⟨-, -, hacted⟩ := (Inv.reach hs).acted ht ha
      rw [hu] at ht
      cases ht
      exact .inl (size_of_consumed hs hs' hacted hc (Nat.le_of_eq hsize)).2
  | notifyOne ht | notifyNone ht =>
      cases hl
      rw [hu] at ht
      cases ht
      cases ph with
      | acted => exact absurd hacts hflow.not_acts
      | entering | ready | empty => exact hflow.elim
  | release ht | ret ht =>
      cases hl
      rw [hu] at ht
      cases ht
      exact hacts.elim

/-- Its own steps bring the consumer no further than to its wait. -/
theorem Starved.own (hs : Run anyStep h s) (hstep : Step sem s l s') (hcall : ∀ d, l ≠ .call (.enqueue d .HIGH))
    {w : ℕ} (hstarved : Starved s w) (hl : l.actor = some w) : MayWait s' w ∧ Dry s' w := by
  have hnobody : ∀ {m k c o}, s.threads w = .running c (.lock m k) o .awake → m ≠ .m_low_prio_access := by
    rintro m k c o ht rfl
    exact absurd (locks_later hs ht hstarved.low (.inl rfl)) (Nat.lt_irrefl _)
  obtain ⟨c, r, o, st, hrun, hwaits⟩ := hstarved.waits
  have hacts := acts_of_waits hs hrun hwaits
  cases hstarved.dry with
  | empty hsize hnone =>
      refine ⟨hstarved.waits.own hs hstep hl hsize, .empty ?_ fun e he => hnone e (he.back hstep hcall)⟩
      rcases size_cases hs hstep with hsame | ⟨t, c', a, k, o', v, ht, hth, -⟩
      · exact hsame.trans hsize
      · -- it has its wait before its action
        obtain rfl := Option.some.inj (ht.symm.trans hl)
        obtain ⟨-, hflow, -⟩ := (Inv.reach hs).before_act hth
        rw [hrun] at hth
        cases hth
        exact absurd hwaits hflow.not_waits
  | @due u c' k o' hw hown hu hc hsize hpend =>
      -- it can take neither of the two
      have hdata := hw.data hs
      obtain ⟨c₁, r₁, o₁, st₁, hrun₁, hlocks⟩ := hw
      obtain ⟨c₂, r₂, o₂, st₂, hrun₂, hlocks'⟩ := hdata
      rw [hrun] at hrun₁ hrun₂
      cases hrun₁
      cases hrun₂
      obtain ⟨rfl, m, k', rfl⟩ := at_lock hs hrun hacts hlocks'
      obtain ⟨hm, -⟩ := hstep.of_lock hrun hl
      have hlow := hnobody hrun
      cases m with
      | m_low_prio_access => exact absurd rfl hlow
      | m_next_to_access => exact absurd (hown.symm.trans hm) (by simp)
      | m_data =>
          have hok := hs.threadOk locked_code w
          rw [hrun] at hok
          obtain ⟨⟨hnext, -⟩, -⟩ := hok
          exact absurd (locks_later hs hrun hnext hlocks) (Nat.lt_irrefl _)
  | @taking u c' r' o' hw hown hu hacts' hc hsize hnone =>
      -- it can take `m_next_to_access`, but not `m_data`
      obtain ⟨c₁, r₁, o₁, st₁, hrun₁, hlocks⟩ := hw
      rw [hrun] at hrun₁
      cases hrun₁
      obtain ⟨rfl, m, k, rfl⟩ := at_lock hs hrun hacts hlocks
      obtain ⟨hm, rfl⟩ := hstep.of_lock hrun hl
      have hlow := hnobody hrun
      have huw : u ≠ w := by
        rintro rfl
        exact absurd (locks_later hs hrun hown hlocks) (Nat.lt_irrefl _)
      cases m with
      | m_low_prio_access => exact absurd rfl hlow
      | m_data => exact absurd (hown.symm.trans hm) (by simp)
      | m_next_to_access =>
          refine ⟨⟨c, k, o, .awake, s.setThread_self .., hwaits⟩, .taking ⟨c, k, o, .awake, s.setThread_self .., ?_⟩
            ((State.setOwner_of_ne _ _ (by decide)).trans hown) ((s.setThread_of_ne _ huw).trans hu) hacts' hc hsize
            fun e he => hnone e (he.back hstep hcall)⟩
          exact hlocks.resolve_left (by decide)

/-- Nor do the steps of the others bring it an element. -/
theorem Starved.others (hs : Run anyStep h s) (hs' : Run anyStep h s') (hstep : Step sem s l s')
    (hcall : ∀ d, l ≠ .call (.enqueue d .HIGH)) {w : ℕ} (hstarved : Starved s w) (hl : l.actor ≠ some w) : Dry s' w := by
  have hback : ∀ {e}, Pending s' e → Pending s e := fun he => he.back hstep hcall
  -- by where the next element is: there is none, it is due to another call, or that call has
  -- `m_data`
  cases hstarved.dry with
  | empty hsize hnone =>
      refine .empty ?_ fun e he => hnone e (hback he)
      rcases size_cases hs hstep with hsame | ⟨t, c, a, k, o, v, -, ht, -, -, -, hacted⟩
      · exact hsame.trans hsize
      · -- whoever acts has seen an element or is a HIGH `enqueue`
        rcases Starved.actor hs hstarved.low hstarved.waits ht with hc | ⟨d, rfl⟩
        · obtain ⟨-, -, -, hsight, -⟩ := (Inv.reach hs).before_act ht
          exact absurd hsize (hsight hc)
        · exact absurd ⟨d, _, o, .awake, ht, trivial⟩ (hnone t)
  | @due u c k o hw hown hu hc hsize hpend =>
      by_cases hlu : l.actor = some u
      · -- `u` takes `m_data`, so nobody is left that could put an element in
        obtain ⟨hm, heq⟩ := hstep.of_lock hu hlu
        have hnone : ∀ e, ¬ Pending s' e := by
          intro e he
          obtain ⟨hdata, -⟩ := hpend e (hback he)
          rw [hm] at hdata
          cases hdata
        have hsame : s'.shared = s.shared := by rw [heq]; rfl
        rcases Nat.le_one_iff_eq_zero_or_eq_one.mp hsize with hzero | hone
        · exact .empty (by rw [hsame]; exact hzero) hnone
        · have hw' := (hw.other hs hstep hl).data hs'
          have hown' : s'.owner .m_data = some u := by
            rw [heq]
            exact State.setOwner_self ..
          have hu' : s'.threads u = .running c k o .awake := by
            rw [heq]
            exact s.setThread_self ..
          have hacts : Acts k := acts_of_lock hs hu fun p q n hload => absurd (hload ▸ rfl) hc
          exact .taking hw' hown' hu' hacts hc (hsame ▸ hone) hnone
      · obtain ⟨-, hu' | ⟨hst, -⟩⟩ := hstep.spared hs hlu hu
        · have hown' := (owner_other hstep hlu _).mpr hown
          have hw' := hw.other hs hstep hl
          rcases size_cases hs hstep with hsame | ⟨t, c', a, k', o', v, -, ht, ht', hk', howner, hacted⟩
          · refine .due hw' hown' hu' hc (hsame ▸ hsize) fun e he => ?_
            obtain ⟨hdata, hzero⟩ := hpend e (hback he)
            exact ⟨he.keeps hs hstep hcall hdata, hsame.trans hzero⟩
          · rcases Starved.actor hs hstarved.low hstarved.waits ht with hc' | ⟨d, rfl⟩
            · -- another call takes the element
              obtain ⟨hone, hzero⟩ := size_of_consumed hs hs' hacted hc' hsize
              refine .empty hzero fun e he => ?_
              rw [(hpend e (hback he)).2] at hone
              cases hone
            · -- the element comes: it was the only one to come
              obtain ⟨hdata, hzero⟩ := hpend t ⟨d, _, o', .awake, ht, trivial⟩
              have hone := size_of_enqueued hs hs' hacted
              rw [hzero] at hone
              refine .due hw' hown' hu' hc (Nat.le_of_eq hone) fun e he => absurd he ?_
              obtain rfl : t = e := Option.some.inj (hdata.symm.trans (hpend e (hback he)).1)
              rintro ⟨d', r', o'', st', hrun, hacts'⟩
              rw [ht'] at hrun
              cases hrun
              exact hk' hacts'
        · cases hst
  | @taking u c r o hw hown hu hacts hc hsize hnone =>
      have hw' := hw.other hs hstep hl
      have hnone' : ∀ e, ¬ Pending s' e := fun e he => hnone e (hback he)
      by_cases hlu : l.actor = some u
      · rcases taking_step hs hs' hstep hlu hown hu hacts hc hsize with hzero | ⟨hown', hone, r', o', hu', hacts'⟩
        · exact .empty hzero hnone'
        · exact .taking hw' hown' hu' hacts' hc hone hnone'
      · obtain ⟨-, hu' | ⟨hst, -⟩⟩ := hstep.spared hs hlu hu
        · rcases size_cases hs hstep with hsame | ⟨t, c', a, k', o', v, ht, hth, -⟩
          · exact .taking hw' ((owner_other hstep hlu _).mpr hown) hu' hacts hc (hsame.trans hsize) hnone'
          · -- nobody acts without `m_data`
            obtain rfl : u = t := Option.some.inj (hown.symm.trans (owner_of_act hs hth))
            exact absurd ht hlu
        · cases hst

/-- **A starved consumer stays starved** as long as nobody calls a HIGH `enqueue`. -/
theorem Starved.step (hs : Run anyStep h s) (hstep : Step sem s l s') (hcall : ∀ d, l ≠ .call (.enqueue d .HIGH))
    {w : ℕ} (hstarved : Starved s w) : Starved s' w := by
  have hs' := hs.step trivial hstep
  have hlow := hstarved.waits.keeps hs hstep hstarved.low
  by_cases hl : l.actor = some w
  · obtain ⟨hwaits, hdry⟩ := hstarved.own hs hstep hcall hl
    exact ⟨hlow, hwaits, hdry⟩
  · exact ⟨hlow, hstarved.waits.other hs hstep hl, hstarved.others hs hs' hstep hcall hl⟩

/-- A consumer starves on an empty queue when every element that is to come is due to
another. -/
theorem starved_of_due (hs : Run anyStep h s) {w : ℕ} (hlow : s.owner .m_low_prio_access = some w) (hwaits : MayWait s w)
    (hsize : s.shared.m_queue.getSize = 0) (hdue : ∀ e, Pending s e → Due s w e) : Starved s w := by
  refine ⟨hlow, hwaits, ?_⟩
  by_cases hany : ∃ e, Pending s e
  · obtain ⟨e, he⟩ := hany
    obtain ⟨hdata, hnext, u, hue, hu⟩ := hdue e he
    have huw : u ≠ w := by
      rintro rfl
      obtain ⟨c, r, o, st, hrun, hlocks⟩ := hnext
      exact absurd (locks_later hs hrun hu hlocks) (Nat.lt_irrefl _)
    obtain ⟨c, r, o, hrun, ⟨k, rfl⟩ | ⟨hdata', -⟩⟩ := holder hs hu
    · refine .due hnext hu hrun (fun hc => ?_) (by omega) fun e' he' => ⟨(hdue e' he').1, hsize⟩
      have hok := hs.threadOk locked_code u
      rw [hrun] at hok
      obtain ⟨⟨-, -, hiff⟩, -⟩ := hok
      have hhigh : c.prio ≠ .LOW := fun hprio => huw (Option.some.inj ((hiff.mpr hprio).symm.trans hlow))
      cases c with
      | enqueue d p =>
          cases p with
          | LOW => exact hhigh rfl
          | HIGH =>
              -- it would be one more to come, and not have `m_data`
              have hacts := acts_of_lock hs hrun fun _ _ _ hload => by cases hload
              obtain ⟨hdata', -⟩ := hdue u ⟨d, _, o, .awake, hrun, hacts⟩
              exact hue (Option.some.inj (hdata'.symm.trans hdata))
      | load => exact hhigh rfl
      | dequeue | dump => cases hc
    · exact absurd (Option.some.inj (hdata'.symm.trans hdata)) hue
  · exact .empty hsize fun e he => hany ⟨e, he⟩

/-! ## Shut out

A LOW `enqueue` needs `m_low_prio_access` first of all, so whoever keeps it keeps that out. -/

/-- While another call has `m_low_prio_access`, a LOW `enqueue` does not even start. -/
theorem not_canComplete (hs : Run anyStep h s) (d : T) {w : ℕ} (hkeep : ∀ s₁ s', Step sem s (.call (.enqueue d .LOW)) s₁ →
    Steps sem (Others s.Parked) s₁ s' → s'.owner .m_low_prio_access = some w) : ¬ CanComplete s (.enqueue d .LOW) := by
  rintro ⟨s₁, s', v, hcall, hsteps, hdone⟩
  have hstart : s'.threads s.born = .running (.enqueue d .LOW) (enqueue d .LOW) none .awake := by
    clear hdone
    have hs₁ := hs.step trivial hcall
    induction hsteps with
    | refl =>
        cases hcall with
        | call henter => exact s.setThread_self ..
    | @tail s₂ l s₃ hsteps hl hstep ih =>
        have hnot : s₂.owner .m_low_prio_access ≠ none := by
          rw [hkeep s₁ s₂ hcall hsteps]
          exact Option.some_ne_none w
        obtain ⟨-, hsame | ⟨hst, -⟩⟩ := hstep.spared (hsteps.reach hs₁) (hstep.lock_blocked ih hnot) ih
        · exact hsame
        · cases hst
  rw [hstart] at hdone
  cases hdone

/-- It is shut out by a LOW consumer that is parked ... -/
theorem shut_out_of_parked (hs : Run anyStep h s) {w : ℕ} (hlow : s.owner .m_low_prio_access = some w)
    (hw : s.Parked w) (d : T) : ¬ CanComplete s (.enqueue d .LOW) := by
  refine not_canComplete hs d (w := w) fun s₁ s' hcall hsteps => ?_
  have hs₁ := hs.step trivial hcall
  obtain ⟨c, r, o, hrun⟩ := hw
  obtain ⟨hheld₁, hrun₁ | ⟨-, hrun₁⟩⟩ := hcall.spared hs (t := w) (fun hl => by cases hl) hrun
  all_goals
    obtain ⟨hheld, -⟩ := (hsteps.mono fun l hl => hl.spares).spared hs₁ ⟨c, r, o, hrun⟩ hrun₁
    rw [← State.mem_held, hheld, hheld₁]
    exact hlow

/-- ... and by one that starves. -/
theorem shut_out_of_starved (hs : Run anyStep h s) {w : ℕ} (hstarved : Starved s w) (d : T) :
    ¬ CanComplete s (.enqueue d .LOW) := by
  refine not_canComplete hs d (w := w) fun s₁ s' hcall hsteps => ?_
  have hs₁ := hs.step trivial hcall
  have hrun : Starved s' w := by
    induction hsteps with
    | refl => exact hstarved.step hs hcall fun d' hl => by cases hl
    | tail hsteps hl hstep ih =>
        obtain ⟨t, -, hby⟩ := hl
        refine ih.step (hsteps.reach hs₁) hstep fun d' hl' => ?_
        rw [hl'] at hby
        cases hby
  exact hrun.low

end JudoEngine.ConcurBlockingQueue
