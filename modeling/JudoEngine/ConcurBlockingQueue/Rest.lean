/-
When nothing moves any more on a `ConcurBlockingQueue`, and how soon.

The three mutexes are taken in one order, and a call that waits has given back the last
of them, so they cannot be waited for in a circle. What is left is the one wait that the
code means, for elements, and what it drags along: a LOW consumer waits with
`m_low_prio_access` in its hands, so the LOW calls behind it wait too (`atRest_iff`).

Nobody spins: a call costs at most 14 instructions, and two more for each time that it
is woken (`bounded_moves`). So whatever the scheduler does, calls that do not block have
all returned after a bounded number of steps (`unblocked`).
-/
import JudoEngine.ConcurBlockingQueue.Supply
import JudoEngine.Lib.Progress

set_option autoImplicit false

open Monitor Linked Words Histories

namespace JudoEngine.ConcurBlockingQueue

variable {T : Type} {h : Heap T} {s : Config T}

/-! ## No circle

A call that cannot go on waits for a mutex or for elements. The mutexes come in an order, so
whoever has the last of them can go on unless it waits for elements. -/

/-- A call waits for `m_data`, for `m_next_to_access` or for `m_low_prio_access`; when
nothing moves, only the last of them can be taken. -/
theorem free_of_atRest (hs : Run anyStep h s) (hrest : s.AtRest sem) {m : Mutex} (hne : m ≠ .m_low_prio_access)
    (hlater : ∀ m', m.rank < m'.rank → s.owner m' = none) : s.owner m = none := by
  by_contra hm
  obtain ⟨t, ht⟩ := Option.ne_none_iff_exists'.mp hm
  -- whoever has it is awake, and wants at most a mutex after it
  obtain ⟨c, r, o, hrun⟩ := awake_of_owner hs ht hne
  rcases hs.move locked_code (fun ha => (Inv.reach hs).act_enabled ha) hrun with ⟨c', r', o', hpark⟩ | ⟨m', hwants, hm'⟩ | hmove
  · rw [hrun] at hpark
    cases hpark
  · apply hm'
    apply hlater
    rcases hwants with ⟨c', k, o', hlock⟩ | ⟨c', p, k, o', hwait⟩
    · exact locks_later hs hlock ht (.inl rfl)
    · rw [hrun] at hwait
      cases hwait
  · exact hrest t hmove

/-- When nothing moves, `m_data` and `m_next_to_access` are free. -/
theorem free_at_rest (hs : Run anyStep h s) (hrest : s.AtRest sem) : Free s := by
  have hdata : s.owner .m_data = none := by
    refine free_of_atRest hs hrest (by decide) fun m' hlt => ?_
    cases m' <;> simp [Mutex.rank] at hlt
  refine ⟨hdata, free_of_atRest hs hrest (by decide) fun m' hlt => ?_⟩
  cases m' with
  | m_data => exact hdata
  | m_next_to_access | m_low_prio_access => simp [Mutex.rank] at hlt

/-- So every call waits for elements or for `m_low_prio_access`. -/
theorem waits_at_rest (hs : Run anyStep h s) (hrest : s.AtRest sem) {t : ℕ} {c : Call T} {r o st}
    (ht : s.threads t = .running c r o st) :
    s.Parked t ∨ s.Wants t .m_low_prio_access ∧ s.owner .m_low_prio_access ≠ none := by
  rcases hs.move locked_code (fun ha => (Inv.reach hs).act_enabled ha) ht with hpark | ⟨m, hwants, hm⟩ | hmove
  · exact .inl hpark
  · by_cases hlow : m = .m_low_prio_access
    · subst hlow
      exact .inr ⟨hwants, hm⟩
    · exact absurd ((free_at_rest hs hrest).owner hlow) hm
  · exact absurd hmove (hrest t)

/-- Whoever has `m_low_prio_access` waits for elements. -/
theorem parked_at_rest (hs : Run anyStep h s) (hrest : s.AtRest sem) {u : ℕ} (hu : s.owner .m_low_prio_access = some u) :
    s.Parked u := by
  obtain ⟨c, r, o, st, hrun⟩ := running_of_owner hs hu
  rcases waits_at_rest hs hrest hrun with hpark | ⟨⟨c', k, o', hlock⟩ | ⟨c', p, k, o', hwait⟩, -⟩
  · exact hpark
  · exact absurd (locks_later hs hlock hu (.inl rfl)) (Nat.lt_irrefl _)
  · obtain ⟨p', k', heq, -⟩ := waits_for_m_data hs hwait (by decide)
    cases heq

/-- **Rest.** Nothing moves exactly when every call in progress waits for elements, or
waits for `m_low_prio_access`, which a LOW call has that waits for elements. -/
theorem atRest_iff (hs : Run anyStep h s) : s.AtRest sem ↔ ∀ t c r o st, s.threads t = .running c r o st →
    s.Parked t ∨ s.Wants t .m_low_prio_access ∧ ∃ u, s.owner .m_low_prio_access = some u ∧ s.Parked u := by
  constructor
  · intro hrest t c r o st ht
    refine (waits_at_rest hs hrest ht).imp_right fun ⟨hwants, hm⟩ => ⟨hwants, ?_⟩
    obtain ⟨u, hu⟩ := Option.ne_none_iff_exists'.mp hm
    exact ⟨u, hu, parked_at_rest hs hrest hu⟩
  · intro hall t hmove
    obtain ⟨l, s', hstep, hmover⟩ := hmove
    obtain ⟨c, r, o, st, ht, -⟩ := hstep.own (Label.actor_of_mover hmover)
    rcases hall t c r o st ht with hpark | ⟨hwants, u, hu, -⟩
    · exact hpark.not_move ⟨l, s', hstep, hmover⟩
    · exact hwants.not_move (hu ▸ Option.some_ne_none u) ⟨l, s', hstep, hmover⟩

/-- A LOW consumer waits for elements, and a LOW `enqueue` behind it for its mutex. -/
theorem atRest_behind : ∃ s : Config ℕ, Run anyStep .empty s ∧ s.AtRest sem ∧ s.Parked 0
    ∧ s.Wants 1 .m_low_prio_access := by
  have hrun : Run anyStep (Store.empty : Heap ℕ) _ := Reach.play (fun _ => true) (fun _ _ _ => trivial)
    [.call (.dequeue .LOW .BLOCK), .step 0, .step 0, .step 0, .step 0, .step 0, .step 0, .call (.enqueue 7 .LOW)]
    .init (by simp [sem, enter]) rfl
  refine ⟨_, hrun, (atRest_iff hrun).mpr ?_, ⟨_, _, _, rfl⟩, .inl ⟨_, _, _, rfl⟩⟩
  intro t c r o st ht
  rcases t with _ | _ | t
  · exact .inl ⟨_, _, _, rfl⟩
  · exact .inr ⟨.inl ⟨_, _, _, rfl⟩, 0, rfl, _, _, _, rfl⟩
  · exact absurd ((hrun.unborn_iff (t + 2)).mpr (Nat.le_add_left 2 t)) (by rw [ht]; simp)

/-! ## A bound

The measure of the library, with the scripts of this object: load costs most. -/

/-- The longest script is that of `load`. -/
theorem work_code (c : Call T) : (code c).work ≤ 14 := by
  rcases c with ⟨d, _ | _⟩ | ⟨_ | _, _ | _⟩ | ⟨_ | _, _ | _⟩ | ⟨p, r, n⟩
  case load =>
    by_cases hn : n ≤ 0
    · simp [code, load, hn, Script.work]
    · simp [code, load, hn, Script.work]
  all_goals simp [code, enqueue, dequeue, dump, Script.work]

variable {hist : List (Config T × Label (Call T))}

/-- What a run from a constructed queue has done. -/
theorem takes_le (hrun : History (Step sem) (State.init (.new h)) hist s) :
    total Label.takes hist ≤ 14 * total Label.calls hist + 2 * total Label.wakes hist := by
  have hstart : Run anyStep h (State.init (.new h) : Config T) := .init
  have hzero : (State.init (.new h) : Config T).work = 0 := by simp [State.work, State.total, State.taken, State.init]
  have hbound := hstart.bounded_moves work_code hrun
  omega

/-- **Nobody spins.** In every run from a constructed queue, the calls have done at most
14 instructions each, and two more for each wake-up that nobody asked for; and without
any more of these, or a new call, the run can go on to a state in which nothing moves. -/
theorem work_bounded (hrun : History (Step sem) (State.init (.new h)) hist s) :
    total Label.takes hist ≤ 14 * total Label.calls hist + 2 * total Label.wakes hist
      ∧ ∃ s', Steps sem (fun l => ∃ t, l.mover = some t) s s' ∧ s'.AtRest sem := by
  have hstart : Run anyStep h (State.init (.new h) : Config T) := .init
  exact ⟨takes_le hrun, Reach.comes_to_rest _ (hstart.history hrun) (Nat.le_refl s.work)⟩

/-- A consumer that has parked, has woken by itself and has parked again. -/
theorem work_bounded_woken : ∃ (hist : List (Config ℕ × Label (Call ℕ))) (s : Config ℕ),
    total Label.takes hist = 8 ∧ total Label.calls hist = 1 ∧ total Label.wakes hist = 1
      ∧ total Label.takes hist ≤ 14 * total Label.calls hist + 2 * total Label.wakes hist
      ∧ ∃ s', Steps sem (fun l => ∃ t, l.mover = some t) s s' ∧ s'.AtRest sem := by
  have hstart : Run anyStep .empty (State.init (.new .empty) : Config ℕ) := .init
  obtain ⟨hist, hrun, hlabels⟩ := hstart.history_play
    [.call (.dequeue .LOW .BLOCK), .step 0, .step 0, .step 0, .step 0, .step 0, .step 0, .wake 0, .step 0, .step 0]
    (by simp [sem, enter]) rfl .start
  rw [List.nil_append] at hrun
  exact ⟨hist, _, total_labels hlabels, total_labels hlabels, total_labels hlabels, work_bounded hrun⟩


/-! ## Calls that do not block

A call that is told not to block never waits for elements, so it cannot be parked, and the
bound has no wake-ups in it. -/

/-- Only a call that blocks is parked. -/
theorem blocks_of_parked (hs : Run anyStep h s) {t : ℕ} {c : Call T} {r o} (ht : s.threads t = .running c r o .parked) :
    c.consumes = some .BLOCK := by
  obtain ⟨p, k, rfl, -⟩ := waits_for_m_data hs ht (by decide)
  have hprogress := (Inv.reach hs).progress t
  rw [Progress, ht] at hprogress
  obtain ⟨ph, hflow, -⟩ := hprogress
  cases ph with
  | entering => exact hflow.1
  | ready | acted | empty => exact hflow.elim

/-- The calls made do not block. -/
def NoneBlocks (hist : List (Config T × Label (Call T))) : Prop := ∀ x ∈ hist, ∀ c, x.2 = .call c → c.consumes ≠ some .BLOCK

/-- So none of them is ever parked. -/
theorem not_parked (hrun : History (Step sem) (State.init (.new h)) hist s) (hnone : NoneBlocks hist) (t : ℕ) : ¬ s.Parked t := by
  rintro ⟨c, r, o, ht⟩
  have hstart : Run anyStep h (State.init (.new h) : Config T) := .init
  obtain ⟨x, hx, hcall⟩ := called hrun ht
  exact hnone x hx c hcall (blocks_of_parked (hstart.history hrun) ht)

/-- Nor does one wake. -/
theorem wakes_eq_zero (hrun : History (Step sem) (State.init (.new h)) hist s) (hnone : NoneBlocks hist) :
    total Label.wakes hist = 0 := by
  induction hrun with
  | start => rfl
  | @step hist s s' l hrun hstep ih =>
      have hbefore : NoneBlocks hist := fun x hx => hnone x (List.mem_append_left _ hx)
      have hlast : l.wakes = 0 := by
        cases hstep with
        | wake ht => exact absurd ⟨_, _, _, ht⟩ (not_parked hrun hbefore _)
        | call | lock | unlock | branch | pass | park | regain | act | notifyOne | notifyNone | release | ret | client => rfl
      simp only [total_append, total_cons, total_nil]
      rw [ih hbefore, hlast]

/-- **Calls that do not block return.** Whatever the schedule: they have done at most 14
instructions each, and when nothing moves they have all returned. -/
theorem unblocked (hrun : History (Step sem) (State.init (.new h)) hist s) (hnone : NoneBlocks hist) :
    total Label.takes hist ≤ 14 * total Label.calls hist
      ∧ (s.AtRest sem → ∀ t < s.born, ∃ c v, s.threads t = .done c v) := by
  have hstart : Run anyStep h (State.init (.new h) : Config T) := .init
  have hs := hstart.history hrun
  have hpark := not_parked hrun hnone
  constructor
  · have hbound := takes_le hrun
    rw [wakes_eq_zero hrun hnone] at hbound
    omega
  · intro hrest t ht
    cases hth : s.threads t with
    | unborn => exact absurd ((hs.unborn_iff t).mp hth) (Nat.not_le.mpr ht)
    | done c v => exact ⟨c, v, rfl⟩
    | running c r o st =>
        rcases waits_at_rest hs hrest hth with hp | ⟨-, hm⟩
        · exact absurd hp (hpark t)
        · obtain ⟨u, hu⟩ := Option.ne_none_iff_exists'.mp hm
          exact absurd (parked_at_rest hs hrest hu) (hpark u)

/-- An `enqueue` and a `dequeue` in turns. -/
theorem unblocked_both : ∃ (hist : List (Config ℕ × Label (Call ℕ))) (s : Config ℕ), NoneBlocks hist
    ∧ total Label.takes hist = 13 ∧ total Label.calls hist = 2 ∧ s.born = 2
    ∧ total Label.takes hist ≤ 14 * total Label.calls hist
    ∧ (s.AtRest sem → ∀ t < s.born, ∃ c v, s.threads t = .done c v) := by
  have hstart : Run anyStep .empty (State.init (.new .empty) : Config ℕ) := .init
  obtain ⟨hist, hrun, hlabels⟩ := hstart.history_play
    [.call (.enqueue 7 .HIGH), .call (.dequeue .HIGH .NONBLOCK), .step 1, .step 1, .step 1, .step 0, .step 1, .step 1,
      .step 1, .step 0, .step 0, .act 0 0, .step 0, .step 0, .step 0]
    (by simp [sem, enter]) rfl .start
  rw [List.nil_append] at hrun
  have hnone : NoneBlocks hist := by
    intro x hx c hcall
    have hmem := List.mem_map_of_mem (f := Prod.snd) hx
    rw [hlabels, hcall] at hmem
    simp only [List.mem_cons, Label.call.injEq, reduceCtorEq, List.not_mem_nil, or_false] at hmem
    rcases hmem with rfl | rfl
    · decide
    · decide
  exact ⟨hist, _, hnone, total_labels hlabels, total_labels hlabels, rfl, unblocked hrun hnone⟩

end JudoEngine.ConcurBlockingQueue
