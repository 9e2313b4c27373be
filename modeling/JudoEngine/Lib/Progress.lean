/-
Whether calls on a shared object can get stuck, and how long they can go on.

`Reach.move` says what stands between a call in progress and its next instruction: a
mutex that somebody has, or a wait that nobody has ended. So a proof that a system
cannot deadlock only has to say who has these mutexes.

`State.work` is what the calls made so far can still do. Every instruction takes
something from it, a waiter that is woken gives two back, and only a new call brings
more. So a run of so many calls and wake-ups has an end (`bounded_moves`), and every
state can be run until nothing moves (`Reach.comes_to_rest`).
-/
import JudoEngine.Lib.History
import JudoEngine.Lib.Monitor

set_option autoImplicit false

namespace Monitor

open Histories

variable {M P A V C S : Type}

/-! ## Moves

Progress is about calls that have begun. A new call can always be made, and a waiter may wake
by itself, so neither counts as a move. -/

/-- The call that does an instruction in this step. -/
def Label.mover : Label C → Option ℕ
  | .step t | .act t _ | .notify t _ => some t
  | .call _ | .wake _ | .client => none

/-- It is the call that takes the step. -/
theorem Label.actor_of_mover {l : Label C} {t : ℕ} (h : l.mover = some t) : l.actor = some t := by
  cases l with
  | step | act | notify => exact h
  | call | wake | client => cases h

/-- The mutex that a call waits for. -/
def State.Wants (s : State M P A V C S) (t : ℕ) (m : M) : Prop :=
  (∃ c k o, s.threads t = .running c (.lock m k) o .awake)
    ∨ ∃ c p k o, s.threads t = .running c (.waitWhile p m k) o .woken

/-- A call that can do its next instruction. -/
def State.CanMove [DecidableEq M] (sem : Sem M P A V C S) (s : State M P A V C S) (t : ℕ) : Prop :=
  ∃ l s', Step sem s l s' ∧ l.mover = some t

/-- Nothing moves: no call in progress can do its next instruction. -/
def State.AtRest [DecidableEq M] (sem : Sem M P A V C S) (s : State M P A V C S) : Prop := ∀ t, ¬ s.CanMove sem t

variable [DecidableEq M] {sem : Sem M P A V C S} {ok : State M P A V C S → Label C → Prop} {sh : S}
variable {s s' : State M P A V C S} {l : Label C}

/-- **What a call in progress waits for.** It is parked, or waits for a mutex that
somebody has; otherwise it can go on. -/
theorem Reach.move {rules : C → Rules M P A V} (hscript : ∀ c, Locked (rules c) ∅ (sem.script c))
    (hlive : ∀ {t c a k o}, s.threads t = .running c (.act a k) o .awake → ∃ d sh' v, sem.act a t d s.shared = some (sh', v))
    (hs : Reach sem ok sh s) {t : ℕ} {c : C} {r o st} (ht : s.threads t = .running c r o st) :
    s.Parked t ∨ (∃ m, s.Wants t m ∧ s.owner m ≠ none) ∨ s.CanMove sem t := by
  have hok := hs.threadOk hscript t
  rw [ht] at hok
  cases st with
  | parked => exact .inl ⟨c, r, o, ht⟩
  | woken =>
      obtain ⟨p, m, k, rfl, -, -⟩ := hok
      by_cases hm : s.owner m = none
      · exact .inr (.inr ⟨_, _, .regain ht hm, rfl⟩)
      · exact .inr (.inl ⟨m, .inr ⟨c, p, k, o, ht⟩, hm⟩)
  | awake =>
      -- the next instruction decides
      cases r with
      | ret v =>
          by_cases hany : ∃ m, s.owner m = some t
          · obtain ⟨m, hm⟩ := hany
            exact .inr (.inr ⟨_, _, .release ht hm, rfl⟩)
          · exact .inr (.inr ⟨_, _, .ret ht fun m hm => hany ⟨m, hm⟩, rfl⟩)
      | lock m k =>
          by_cases hm : s.owner m = none
          · exact .inr (.inr ⟨_, _, .lock ht hm, rfl⟩)
          · exact .inr (.inl ⟨m, .inl ⟨c, k, o, ht⟩, hm⟩)
      | unlock m k => exact .inr (.inr ⟨_, _, .unlock ht hok.2.1, rfl⟩)
      | branch p x y => exact .inr (.inr ⟨_, _, .branch ht, rfl⟩)
      | waitWhile p m k =>
          cases hp : sem.test p s.shared with
          | true => exact .inr (.inr ⟨_, _, .park ht hp hok.2.1, rfl⟩)
          | false => exact .inr (.inr ⟨_, _, .pass ht hp, rfl⟩)
      | act a k =>
          obtain ⟨d, sh', v, ha⟩ := hlive ht
          exact .inr (.inr ⟨_, _, .act ht ha, rfl⟩)
      | notify k =>
          by_cases hany : ∃ u, s.Parked u
          · obtain ⟨u, cu, ru, ou, hu⟩ := hany
            exact .inr (.inr ⟨_, _, .notifyOne ht hu, rfl⟩)
          · exact .inr (.inr ⟨_, _, .notifyNone ht fun u hu => hany ⟨u, hu⟩, rfl⟩)

/-- A call that is parked does not move, ... -/
theorem State.Parked.not_move {t : ℕ} (ht : s.Parked t) : ¬ s.CanMove sem t := by
  rintro ⟨l, s', hstep, hmover⟩
  obtain ⟨c, r, o, ht⟩ := ht
  cases hstep with
  | call | client | wake => cases hmover
  | lock h | unlock h | branch h | pass h | park h | regain h | act h | notifyOne h | notifyNone h | release h
    | ret h =>
      cases hmover
      rw [ht] at h
      cases h

/-- ... nor does one that waits for a mutex. -/
theorem State.Wants.not_move {t : ℕ} {m : M} (ht : s.Wants t m) (hm : s.owner m ≠ none) : ¬ s.CanMove sem t := by
  rintro ⟨l, s', hstep, hmover⟩
  rcases ht with ⟨c, k, o, ht⟩ | ⟨c, p, k, o, ht⟩
  · exact hstep.lock_blocked ht hm (Label.actor_of_mover hmover)
  · cases hstep with
    | call | client | wake => cases hmover
    | regain h hfree =>
        cases hmover
        rw [ht] at h
        cases h
        exact hm hfree
    | lock h | unlock h | branch h | pass h | park h | act h | notifyOne h | notifyNone h | release h | ret h =>
        cases hmover
        rw [ht] at h
        cases h

/-! ## Work

A measure on scripts: each instruction takes one, so a call costs at most what its script
does. -/

/-- What a script can still cost. A mutex that is taken has to be given back, and a
notification may set another call going. -/
def Script.work : Script M P A V → ℕ
  | .ret _ => 1
  | .lock _ k => k.work + 2
  | .unlock _ k | .act _ k | .waitWhile _ _ k => k.work + 1
  | .branch _ x y => max x.work y.work + 1
  | .notify k => k.work + 3

/-- The same for a call; one that is woken has to take its mutex again. -/
def Thread.work : Thread M P A V C → ℕ
  | .running _ r _ .awake | .running _ r _ .parked => r.work
  | .running _ r _ .woken => r.work + 2
  | .unborn | .done _ _ => 0

/-- How many mutexes are taken. -/
def State.taken [Fintype M] (s : State M P A V C S) : ℕ := (Finset.univ.filter fun m => s.owner m ≠ none).card

/-- What all calls made so far can still cost. -/
def State.work [Fintype M] (s : State M P A V C S) : ℕ := s.total Thread.work + s.taken

variable [Fintype M]

/-- Taking a mutex and giving it back, and what that does to the work that is left. -/
theorem taken_take {m : M} {t : ℕ} (hm : s.owner m = none) : (s.setOwner m (some t)).taken = s.taken + 1 := by
  have hset : (Finset.univ.filter fun m' => (s.setOwner m (some t)).owner m' ≠ none)
      = insert m (Finset.univ.filter fun m' => s.owner m' ≠ none) := by
    ext m'
    by_cases hmm : m' = m
    · subst hmm
      simp
    · simp [State.setOwner_of_ne _ _ hmm, hmm]
  unfold State.taken
  rw [hset, Finset.card_insert_of_notMem (by simp [hm])]

theorem taken_drop {m : M} {t : ℕ} (hm : s.owner m = some t) : (s.setOwner m none).taken + 1 = s.taken := by
  have hset : (Finset.univ.filter fun m' => (s.setOwner m none).owner m' ≠ none)
      = (Finset.univ.filter fun m' => s.owner m' ≠ none).erase m := by
    ext m'
    by_cases hmm : m' = m
    · subst hmm
      simp
    · simp [State.setOwner_of_ne _ _ hmm, hmm]
  unfold State.taken
  rw [hset]
  exact Finset.card_erase_add_one (by simp [hm])

theorem work_take {m : M} {t : ℕ} (hm : s.owner m = none) : (s.setOwner m (some t)).work = s.work + 1 :=
  congrArg (s.total Thread.work + ·) (taken_take hm)

theorem work_drop {m : M} {t : ℕ} (hm : s.owner m = some t) : (s.setOwner m none).work + 1 = s.work :=
  congrArg (s.total Thread.work + ·) (taken_drop hm)

omit [DecidableEq M] in
/-- A call goes on, and nothing else changes. -/
theorem work_setThread {t : ℕ} (x : Thread M P A V C) (ht : t < s.born) :
    (s.setThread t x).work + (s.threads t).work = s.work + x.work := by
  have htotal := total_setThread (f := Thread.work) x ht
  have htaken : (s.setThread t x).taken = s.taken := rfl
  unfold State.work
  omega

/-- What a step may add to the work that is left. -/
def Label.brings (sem : Sem M P A V C S) : Label C → ℕ
  | .call c => (sem.script c).work
  | .wake _ => 2
  | .step _ | .act _ _ | .notify _ _ | .client => 0

/-- What it takes from it. -/
def Label.takes : Label C → ℕ
  | .step _ | .act _ _ | .notify _ _ => 1
  | .call _ | .wake _ | .client => 0

omit [DecidableEq M] [Fintype M] in
/-- An instruction takes one and brings none. -/
theorem Label.takes_of_mover {t : ℕ} (h : l.mover = some t) : l.takes = 1 ∧ l.brings sem = 0 := by
  cases l with
  | step | act | notify => exact ⟨rfl, rfl⟩
  | call | wake | client => cases h

/-- **One step**: an instruction takes from the work. -/
theorem Reach.work_step (hs : Reach sem ok sh s) (hstep : Step sem s l s') : s'.work + l.takes ≤ s.work + l.brings sem := by
  have hborn : ∀ {t c r o st}, s.threads t = .running c r o st → t < s.born := by
    intro t c r o st ht
    by_contra hle
    rw [(hs.unborn_iff t).mpr (Nat.le_of_not_lt hle)] at ht
    cases ht
  -- a call goes on with `x`
  have hnext : ∀ {t c r o st} {x : Thread M P A V C}, s.threads t = .running c r o st →
      (s.setThread t x).work + (Thread.running c r o st : Thread M P A V C).work = s.work + x.work := by
    intro t c r o st x ht
    have hthread := work_setThread x (hborn ht)
    rwa [ht] at hthread
  cases hstep with
  | @call c sh' henter =>
      have htotal := total_call (f := Thread.work) s (.running c (sem.script c) none .awake) sh'
      have hcall : (Thread.running c (sem.script c) none .awake : Thread M P A V C).work = (sem.script c).work := rfl
      show State.total _ _ + s.taken + 0 ≤ s.total Thread.work + s.taken + (sem.script c).work
      omega
  | @lock t c m k o ht hm =>
      have hcall : _ + (k.work + 2) = s.work + k.work := hnext (x := .running c k o .awake) ht
      have htake := work_take (s := s.setThread t (.running c k o .awake)) (t := t) hm
      show State.work _ + 1 ≤ s.work + 0
      omega
  | @unlock t c m k o ht hm =>
      have hcall : _ + (k.work + 1) = s.work + k.work := hnext (x := .running c k o .awake) ht
      have hdrop := work_drop (s := s.setThread t (.running c k o .awake)) hm
      show State.work _ + 1 ≤ s.work + 0
      omega
  | @branch t c p x y o ht =>
      have hcall : _ + (max x.work y.work + 1) = s.work + (if sem.test p s.shared then x else y).work :=
        hnext (x := .running c (if sem.test p s.shared then x else y) o .awake) ht
      have hmax : (if sem.test p s.shared then x else y).work ≤ max x.work y.work := by
        split
        · exact Nat.le_max_left ..
        · exact Nat.le_max_right ..
      show (s.setThread t _).work + 1 ≤ s.work + 0
      omega
  | @pass t c p m k o ht hp =>
      have hcall : _ + (k.work + 1) = s.work + k.work := hnext (x := .running c k o .awake) ht
      show (s.setThread t _).work + 1 ≤ s.work + 0
      omega
  | @park t c p m k o ht hp hm =>
      have hcall : _ + (k.work + 1) = s.work + (k.work + 1) := hnext (x := .running c (.waitWhile p m k) o .parked) ht
      have hdrop := work_drop (s := s.setThread t (.running c (.waitWhile p m k) o .parked)) hm
      show ((s.setThread t _).setOwner m none).work + 1 ≤ s.work + 0
      omega
  | @wake t c r o ht =>
      have hcall : _ + r.work = s.work + (r.work + 2) := hnext (x := .running c r o .woken) ht
      show (s.setThread t _).work + 0 ≤ s.work + 2
      omega
  | @regain t c p m k o ht hm =>
      have hcall : _ + (k.work + 1 + 2) = s.work + (k.work + 1) := hnext (x := .running c (.waitWhile p m k) o .awake) ht
      have htake := work_take (s := s.setThread t (.running c (.waitWhile p m k) o .awake)) (t := t) hm
      show State.work _ + 1 ≤ s.work + 0
      omega
  | @act t c a k o d sh' v ht ha =>
      have hcall : _ + (k.work + 1) = s.work + k.work := hnext (x := .running c k (some v) .awake) ht
      show (s.setThread t _).work + 1 ≤ s.work + 0
      omega
  | @notifyOne t c k o u cu r ou ht hu =>
      have hcall : _ + (k.work + 3) = s.work + k.work := hnext (x := .running c k o .awake) ht
      have hwoken : ((s.setThread t (.running c k o .awake)).setThread u (.running cu r ou .woken)).work + r.work
          = (s.setThread t (.running c k o .awake)).work + (r.work + 2) := by
        have hthread := work_setThread (s := s.setThread t (.running c k o .awake)) (t := u) (.running cu r ou .woken) (hborn hu)
        rwa [State.setThread_of_ne _ _ (State.ne_of_parked ht hu).symm, hu] at hthread
      show State.work _ + 1 ≤ s.work + 0
      omega
  | @notifyNone t c k o ht hnone =>
      have hcall : _ + (k.work + 3) = s.work + k.work := hnext (x := .running c k o .awake) ht
      show State.work _ + 1 ≤ s.work + 0
      omega
  | @release t c v o m ht hm =>
      have hdrop := work_drop hm
      show State.work _ + 1 ≤ s.work + 0
      omega
  | @ret t c v o ht hfree =>
      have hcall : _ + 1 = s.work + 0 := hnext (x := .done c (v.or o)) ht
      show State.work _ + 1 ≤ s.work + 0
      omega
  | client hsh => exact Nat.le_refl _

/-! ## Runs

Over a run the measure is what the new calls have brought less what the instructions have
taken, which bounds the instructions. -/

/-- Whether the step is a new call, ... -/
def Label.calls : Label C → ℕ
  | .call _ => 1
  | .step _ | .wake _ | .act _ _ | .notify _ _ | .client => 0

/-- ... or one that wakes by itself. -/
def Label.wakes : Label C → ℕ
  | .wake _ => 1
  | .step _ | .call _ | .act _ _ | .notify _ _ | .client => 0

variable {s₀ : State M P A V C S} {hist : List (State M P A V C S × Label C)}

omit [Fintype M] in
/-- What is reached with a history is reached. -/
theorem Reach.history (hs : Reach sem anyStep sh s₀) (h : History (Step sem) s₀ hist s) : Reach sem anyStep sh s := by
  induction h with
  | start => exact hs
  | step h hstep ih => exact ih.step trivial hstep

omit [Fintype M] in
/-- A call in progress is one of those made. -/
theorem called (h : History (Step sem) (.init sh) hist s) : ∀ {t c r o st}, s.threads t = .running c r o st →
    ∃ x ∈ hist, x.2 = .call c := by
  -- by the steps: a call in progress was so before the step, or has just been made
  induction h with
  | start =>
      intro t c r o st ht
      cases ht
  | @step hist s s' l h hstep ih =>
      intro t c r o st ht'
      have hbefore : ∀ {r' o' st'}, s.threads t = .running c r' o' st' → ∃ x ∈ hist ++ [(s, l)], x.2 = .call c := by
        intro r' o' st' ht
        obtain ⟨x, hx, hcall⟩ := ih ht
        exact ⟨x, List.mem_append_left _ hx, hcall⟩
      by_cases hact : l.actor = some t
      · obtain ⟨c₀, r₀, o₀, st₀, ht, ⟨v, hdone⟩ | ⟨r', o', st', hnext, -⟩⟩ := hstep.own hact
        · rw [hdone] at ht'
          cases ht'
        · rw [hnext] at ht'
          obtain ⟨rfl, -, -, -⟩ := Thread.running.inj ht'
          exact hbefore ht
      · -- another call can at most wake this one, or make it
        obtain ⟨-, hsame | ⟨c₀, r₀, o₀, hpark, hwoken⟩ | ⟨c₀, rfl, -, hnew⟩⟩ := hstep.other hact
        · exact hbefore (hsame ▸ ht')
        · rw [hwoken] at ht'
          obtain ⟨rfl, -, -, -⟩ := Thread.running.inj ht'
          exact hbefore hpark
        · rw [hnew] at ht'
          obtain ⟨rfl, -, -, -⟩ := Thread.running.inj ht'
          exact ⟨_, List.mem_append_right _ List.mem_cons_self, rfl⟩

/-- The work that is left pays for what has been done. -/
theorem Reach.work_history (hs : Reach sem anyStep sh s₀) (h : History (Step sem) s₀ hist s) :
    s.work + total Label.takes hist ≤ s₀.work + total (Label.brings sem) hist := by
  induction h with
  | start => exact Nat.le_refl _
  | step h hstep ih =>
      have hone := (hs.history h).work_step hstep
      simp only [total_append, total_cons, total_nil]
      omega

/-- A run that can be played has a history. -/
theorem Reach.history_play (ls : List (Label C)) : ∀ {s s' : State M P A V C S} {hist : List (State M P A V C S × Label C)},
    Reach sem anyStep sh s → (∀ c, .call c ∈ ls → ∀ n σ, sem.enter c n σ σ) →
      Monitor.play sem (fun _ => true) ls s = some s' → History (Step sem) s₀ hist s →
      ∃ hist', History (Step sem) s₀ (hist ++ hist') s' ∧ hist'.map Prod.snd = ls := by
  induction ls with
  | nil =>
      intro s s' hist hs henter hplay h
      cases hplay
      exact ⟨[], by rwa [List.append_nil], rfl⟩
  | cons l ls ih =>
      intro s s' hist hs henter hplay h
      rw [Monitor.play, if_pos rfl] at hplay
      obtain ⟨s₁, hnext, hrest⟩ := Option.bind_eq_some_iff.mp hplay
      have hstep := hs.next (fun c hl => henter c (hl ▸ List.mem_cons_self) _ _) hnext
      obtain ⟨hist', hrun, hlabels⟩ := ih (hs.step trivial hstep) (fun c hc => henter c (List.mem_cons_of_mem _ hc))
        hrest (h.step hstep)
      refine ⟨(s, l) :: hist', ?_, congrArg (l :: ·) hlabels⟩
      rwa [List.append_assoc] at hrun

/-- **Runs come to an end.** If no script costs more than `n`, the instructions of a run
are bounded by its calls and its wake-ups. -/
theorem Reach.bounded_moves {n : ℕ} (hscript : ∀ c, (sem.script c).work ≤ n) (hs : Reach sem anyStep sh s₀)
    (h : History (Step sem) s₀ hist s) :
    s.work + total Label.takes hist ≤ s₀.work + n * total Label.calls hist + 2 * total Label.wakes hist := by
  have hwork := hs.work_history h
  have hbrings : total (Label.brings sem) hist ≤ n * total Label.calls hist + 2 * total Label.wakes hist := by
    clear h hwork
    induction hist with
    | nil => exact Nat.zero_le _
    | cons x hist ih =>
        have hone : x.2.brings sem ≤ n * x.2.calls + 2 * x.2.wakes := by
          cases x.2 with
          | call c => exact (hscript c).trans (Nat.mul_one n).ge
          | wake t => exact (Nat.le_refl 2).trans (Nat.le_add_left ..)
          | step | act | notify | client => exact Nat.zero_le _
        simp only [total_cons, Nat.mul_add]
        omega
  omega

/-- Every state can be run until nothing moves. -/
theorem Reach.comes_to_rest (n : ℕ) : ∀ {s : State M P A V C S}, Reach sem anyStep sh s → s.work ≤ n →
    ∃ s', Steps sem (fun l => ∃ t, l.mover = some t) s s' ∧ s'.AtRest sem := by
  induction n with
  | zero =>
      intro s hs hn
      refine ⟨s, .refl s, ?_⟩
      rintro t ⟨l, s', hstep, hmover⟩
      have hone := hs.work_step hstep
      have htakes : l.takes = 1 ∧ l.brings sem = 0 := Label.takes_of_mover hmover
      omega
  | succ n ih =>
      intro s hs hn
      by_cases hany : ∃ t, s.CanMove sem t
      · obtain ⟨t, l, s₁, hstep, hmover⟩ := hany
        have hone := hs.work_step hstep
        have htakes : l.takes = 1 ∧ l.brings sem = 0 := Label.takes_of_mover hmover
        obtain ⟨s', hsteps, hrest⟩ := ih (hs.step trivial hstep) (by omega)
        exact ⟨s', (Steps.single hstep ⟨t, hmover⟩).trans hsteps, hrest⟩
      · exact ⟨s, .refl s, fun t ht => hany ⟨t, ht⟩⟩

end Monitor
