/-
What `m_next_to_access` and `m_low_prio_access` are good for.

A call that has `m_next_to_access` is next: nobody else can take `m_data` for
the first time. But a call that is inside `m_con.wait` comes back through
`m_data` alone, so besides the owner of `m_data` it can still get in between
(`woken_gets_in_between`).
-/
import JudoEngine.ConcurBlockingQueue.Invariants

set_option autoImplicit false

open Monitor Linked Words

namespace JudoEngine.ConcurBlockingQueue

variable {T : Type}

/-- The next instruction of the call reads or changes `m_queue`. -/
def AtQueue (s : Config T) (t : ℕ) : Prop :=
  ∃ c r o, s.threads t = .running c r o .awake
    ∧ ((∃ p x y, r = .branch p x y) ∨ (∃ p m k, r = .waitWhile p m k) ∨ ∃ a k, r = .act a k)

/-- The call is inside `m_con.wait`. -/
def InWait (s : Config T) (t : ℕ) : Prop :=
  ∃ c r o st, s.threads t = .running c r o st ∧ st ≠ .awake

/-- A LOW call that has got past `m_low_prio_access`: it is in progress, it is
not about to take the mutex, and it has not given it back by the end. -/
def PastLow (s : Config T) (t : ℕ) : Prop :=
  ∃ c r o st, s.threads t = .running c r o st ∧ c.prio = .LOW
    ∧ (∀ k, r ≠ .lock .m_low_prio_access k) ∧ ∀ v, r = .ret v → s.owner .m_low_prio_access = some t

/-- Whoever takes `m_next_to_access` takes `m_data` next. -/
def DataNext : Code T → Prop
  | .ret _ => True
  | .lock .m_next_to_access k => (∃ k', k = .lock .m_data k') ∧ DataNext k
  | .lock _ k | .unlock _ k | .waitWhile _ _ k | .act _ k | .notify k => DataNext k
  | .branch _ x y => DataNext x ∧ DataNext y

/-- Every member function keeps to this. -/
theorem dataNext_code (c : Call T) : DataNext (code c) := by
  rcases c with ⟨d, _ | _⟩ | ⟨_ | _, _ | _⟩ | ⟨_ | _, _ | _⟩ | ⟨p, r, n⟩
  case load =>
    by_cases hn : n ≤ 0
    · simp [code, load, hn, DataNext]
    · simp [code, load, hn, DataNext]
  all_goals simp [code, enqueue, dequeue, dump, DataNext]

theorem DataNext.next {r r' : Code T} (hr : DataNext r) (hnext : Next r r') : DataNext r' := by
  cases hnext with
  | @lock m k =>
      cases m with
      | m_next_to_access => exact hr.2
      | m_data | m_low_prio_access => exact hr
  | unlock | pass | act | notify => exact hr
  | thenBranch => exact hr.1
  | elseBranch => exact hr.2

section

variable {h : Heap T} {s s₁ s₂ : Config T} {l : Label (Call T)}

/-- Such a call has the mutex. -/
theorem PastLow.owner (hs : Run anyStep h s) {t : ℕ} (hp : PastLow s t) :
    s.owner .m_low_prio_access = some t := by
  obtain ⟨c, r, o, st, ht, hlow, hlock, hret⟩ := hp
  have hok := hs.threadOk locked_code t
  rw [ht] at hok
  cases st with
  | parked | woken =>
      obtain ⟨-, -, -, -, -, hiff⟩ := waits_for_m_data hs ht (by decide)
      exact hiff.mpr hlow
  | awake =>
      cases r with
      | ret v => exact hret v rfl
      | lock m k =>
          cases m with
          | m_low_prio_access => exact absurd rfl (hlock k)
          | m_next_to_access | m_data => exact hok.1.2.2.mpr hlow
      | unlock m k => exact hok.1.mpr hlow
      | notify k => exact hok.1.2.mpr hlow
      | branch p x y | waitWhile p m k | act a k => exact hok.1.2.2.mpr hlow

/-- While `H` keeps `m_next_to_access`, only a call that has `m_data` or is in
the wait can have it, or be in the wait, after a step of another call. -/
theorem no_newcomer (hs : Run anyStep h s) (hstep : Step sem s l s₁) {H t : ℕ}
    (hH : s.owner .m_next_to_access = some H) (hl : l.actor ≠ some H)
    (hnow : s₁.owner .m_data = some t ∨ InWait s₁ t) : s.owner .m_data = some t ∨ InWait s t := by
  -- either the call takes the step itself, or the step of another one has woken it or given it the
  -- mutex
  by_cases hact : l.actor = some t
  · cases hstep with
    | call | client => cases hact
    | @lock t' c m k o ht hm =>
        cases hact
        rcases hnow with hown | ⟨c', r', o', st', hth, hst⟩
        · have hmd : m = .m_data ∨ s.owner .m_data = some t := by
            by_cases hmd : m = .m_data
            · exact .inl hmd
            · exact .inr ((State.setOwner_of_ne _ _ (Ne.symm hmd)).symm.trans hown)
          rcases hmd with rfl | hown
          · -- to take `m_data` it would need `m_next_to_access`
            have hok := hs.threadOk locked_code t
            rw [ht] at hok
            have hnext : s.owner .m_next_to_access = some t := hok.1.1
            rw [hH] at hnext
            exact absurd hnext.symm (fun heq => hl (by rw [Option.some.inj heq]; rfl))
          · exact .inl hown
        · rw [State.setOwner_threads, State.setThread_self] at hth
          cases hth
          exact absurd rfl hst
    | park ht hp hm =>
        cases hact
        exact .inl (owner_of_waitWhile hs ht)
    | wake ht =>
        cases hact
        exact .inr ⟨_, _, _, _, ht, by decide⟩
    | regain ht hm =>
        cases hact
        exact .inr ⟨_, _, _, _, ht, by decide⟩
    | branch ht =>
        cases hact
        exact .inl (owner_of_branch hs ht)
    | pass ht hp =>
        cases hact
        exact .inl (owner_of_waitWhile hs ht)
    | act ht ha =>
        cases hact
        exact .inl (owner_of_act hs ht)
    | notifyOne ht hu =>
        cases hact
        exact .inl (owner_of_notify hs ht)
    | notifyNone ht hnone =>
        cases hact
        exact .inl (owner_of_notify hs ht)
    | @unlock t' c m k o ht hm =>
        cases hact
        rcases hnow with hown | ⟨c', r', o', st', hth, hst⟩
        · by_cases hmd : m = .m_data
          · rw [hmd] at hm
            exact .inl hm
          · exact .inl ((State.setOwner_of_ne _ _ (Ne.symm hmd)).symm.trans hown)
        · rw [State.setOwner_threads, State.setThread_self] at hth
          cases hth
          exact absurd rfl hst
    | @release t' c v o m ht hm =>
        cases hact
        rcases hnow with hown | ⟨c', r', o', st', hth, hst⟩
        · by_cases hmd : m = .m_data
          · rw [hmd] at hm
            exact .inl hm
          · exact .inl ((State.setOwner_of_ne _ _ (Ne.symm hmd)).symm.trans hown)
        · rw [State.setOwner_threads, ht] at hth
          cases hth
          exact absurd rfl hst
    | ret ht hfree =>
        cases hact
        rcases hnow with hown | ⟨c', r', o', st', hth, hst⟩
        · exact absurd hown (hfree _)
        · rw [State.setThread_self] at hth
          cases hth
  · -- the step of another call can at most wake it, and then it was in the wait before
    obtain ⟨hheld, hth⟩ := hstep.other hact
    rcases hnow with hown | ⟨c, r, o, st, hrun, hst⟩
    · rw [← State.mem_held, hheld] at hown
      exact .inl hown
    · rcases hth with hsame | ⟨c', r', o', hpark, -⟩ | ⟨c', -, -, hnew⟩
      · exact .inr ⟨c, r, o, st, hsame ▸ hrun, hst⟩
      · exact .inr ⟨c', r', o', .parked, hpark, by decide⟩
      · rw [hnew] at hrun
        cases hrun
        exact absurd rfl hst

/-- As long as `H` takes no step, nobody else comes in. -/
theorem no_newcomer_run (hs : Run anyStep h s) {H t : ℕ} (hH : s.owner .m_next_to_access = some H)
    (hsteps : Steps sem (Spares (· = H)) s s₁) (hnow : s₁.owner .m_data = some t ∨ InWait s₁ t) :
    s.owner .m_data = some t ∨ InWait s t := by
  -- H does not move in these steps and keeps m_next_to_access, so they are undone one by one: whoever
  -- has m_data or waits had it or waited before
  have hkeep : ∀ {s₁ : Config T}, Steps sem (Spares (· = H)) s s₁ →
      s₁.owner .m_next_to_access = some H := by
    intro s₁ hsteps
    obtain ⟨c, r, o, st, hrun⟩ : ∃ c r o st, s.threads H = .running c r o st := by
      have hok := hs.threadOk locked_code H
      cases ht : s.threads H with
      | running c r o st => exact ⟨c, r, o, st, rfl⟩
      | unborn | done =>
          rw [ht] at hok
          have hheld : s.held H = ∅ := hok
          rw [← State.mem_held, hheld] at hH
          exact absurd hH (Set.notMem_empty _)
    obtain ⟨hheld, -⟩ := hsteps.spared hs rfl hrun
    rw [← State.mem_held, hheld]
    exact hH
  induction hsteps with
  | refl => exact hnow
  | tail hsteps hl hstep ih =>
      exact ih (no_newcomer (hsteps.reach hs) hstep (hkeep hsteps) (hl H rfl) hnow)

/-- **HIGH calls are next.** From the moment a HIGH call has taken
`m_next_to_access` until it takes its next step, which takes `m_data`, no other
call gets to the queue but one that had `m_data` or was inside the wait at that
moment; and at most one LOW call is past `m_low_prio_access`. -/
theorem high_is_next (hs : Run anyStep h s) :
    (∀ H c k o, s.threads H = .running c (.lock .m_next_to_access k) o .awake → c.prio = .HIGH →
      ∀ s₁ s₂, Step sem s (.step H) s₁ → Steps sem (Spares (· = H)) s₁ s₂ →
        (∃ k', s₂.threads H = .running c (.lock .m_data k') o .awake)
        ∧ ∀ t, AtQueue s₂ t → s₁.owner .m_data = some t ∨ InWait s₁ t)
      ∧ ∀ t u, PastLow s t → PastLow s u → t = u := by
  refine ⟨fun H c k o hH _ s₁ s₂ hstep hsteps => ?_, fun t u ht hu => ?_⟩
  · have hs₁ := hs.step trivial hstep
    -- whatever the call is, `m_data` comes next
    have hdata : ∃ k', k = .lock .m_data k' :=
      (hs.script (Q := fun _ r => DataNext r) dataNext_code (fun hq hnext => hq.next hnext) hH).1
    obtain ⟨k', rfl⟩ := hdata
    have htaken : s₁.threads H = .running c (.lock .m_data k') o .awake
        ∧ s₁.owner .m_next_to_access = some H := by
      cases hstep with
      | lock ht hm =>
          rw [hH] at ht
          cases ht
          exact ⟨s.setThread_self .., State.setOwner_self ..⟩
      | unlock ht | branch ht | pass ht | park ht | regain ht | notifyNone ht | release ht | ret ht =>
          rw [hH] at ht
          cases ht
    obtain ⟨hrun, hnext⟩ := htaken
    refine ⟨⟨k', ?_⟩, fun t hat => ?_⟩
    · obtain ⟨-, hth | ⟨hpark, -⟩⟩ := hsteps.spared hs₁ rfl hrun
      · exact hth
      · cases hpark
    · refine no_newcomer_run hs₁ hnext hsteps (.inl ?_)
      obtain ⟨c', r', o', ht, ⟨p, x, y, rfl⟩ | ⟨p, m, k, rfl⟩ | ⟨a, k, rfl⟩⟩ := hat
      · exact owner_of_branch (hsteps.reach hs₁) ht
      · exact owner_of_waitWhile (hsteps.reach hs₁) ht
      · exact owner_of_act (hsteps.reach hs₁) ht
  · have ho := ht.owner hs
    rw [hu.owner hs] at ho
    exact (Option.some.inj ho).symm

end

/-- The run up to the moment at which `H` is about to take `m_next_to_access`: a
LOW consumer has parked, and a HIGH `enqueue` has woken it and still has
`m_data`. -/
def beforeHigh : List (Label (Call ℕ)) :=
  [.call (.dequeue .LOW .BLOCK), .step 0, .step 0, .step 0, .step 0, .step 0, .step 0,
    .call (.enqueue 7 .HIGH), .step 1, .step 1, .step 1, .act 1 0, .notify 1 0,
    .call (.enqueue 8 .HIGH)]

/-- In it the woken call is let through, as one that was inside the wait. -/
theorem high_is_next_woken : ∃ s s₁ s₂ : Config ℕ, Run anyStep .empty s ∧ Step sem s (.step 2) s₁
    ∧ Steps sem (Spares (· = 2)) s₁ s₂ ∧ AtQueue s₂ 0
    ∧ (s₁.owner .m_data = some 0 ∨ InWait s₁ 0) := by
  have hrun : Run anyStep (Store.empty : Heap ℕ) _ :=
    Reach.play (fun _ => true) (fun _ _ _ => trivial) beforeHigh .init (by simp [sem, enter, beforeHigh]) rfl
  have hstep : Step sem _ (.step 2) _ := hrun.next (fun _ hl => by cases hl) rfl
  have hsteps : Steps sem (Spares (· = 2)) _ _ := Steps.play [.step 1, .step 0]
    (hrun.step trivial hstep) (by simp [Spares, Label.actor]) (by simp) rfl
  refine ⟨_, _, _, hrun, hstep, hsteps, ⟨_, _, _, rfl, .inr (.inl ⟨_, _, _, rfl⟩)⟩, ?_⟩
  exact ((high_is_next hrun).1 2 _ _ _ rfl rfl _ _ hstep hsteps).2 0
    ⟨_, _, _, rfl, .inr (.inl ⟨_, _, _, rfl⟩)⟩

/-- It had not held `m_data` at that moment. -/
theorem woken_gets_in_between : ¬ ∀ s : Config ℕ, Run anyStep .empty s →
    ∀ H c k o, s.threads H = .running c (.lock .m_next_to_access k) o .awake → c.prio = .HIGH →
    ∀ s₁ s₂, Step sem s (.step H) s₁ → Steps sem (Spares (· = H)) s₁ s₂ →
    ∀ t c' r' o' st', s₂.threads t = .running c' r' o' st' → c'.prio = .LOW → AtQueue s₂ t →
    s₁.owner .m_data = some t := by
  intro hall
  have hrun : Run anyStep (Store.empty : Heap ℕ) _ :=
    Reach.play (fun _ => true) (fun _ _ _ => trivial) beforeHigh .init (by simp [sem, enter, beforeHigh]) rfl
  have hstep : Step sem _ (.step 2) _ := hrun.next (fun _ hl => by cases hl) rfl
  have hsteps : Steps sem (Spares (· = 2)) _ _ := Steps.play [.step 1, .step 0]
    (hrun.step trivial hstep) (by simp [Spares, Label.actor]) (by simp) rfl
  have howner := hall _ hrun 2 _ _ _ rfl rfl _ _ hstep hsteps 0 _ _ _ _ rfl rfl
    ⟨_, _, _, rfl, .inr (.inl ⟨_, _, _, rfl⟩)⟩
  have hother : (some 1 : Option ℕ) = some 0 := howner
  cases hother


end JudoEngine.ConcurBlockingQueue
