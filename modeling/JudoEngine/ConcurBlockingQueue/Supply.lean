/-
Can an element still be put in while consumers wait?

A waiting call gives back `m_data`, and it never has `m_next_to_access`. So a HIGH
`enqueue` can always be run to its end around the parked calls: the two mutexes are freed
from the last one in the order of acquisition to the first, and each time whoever has it
needs none of those before it (`free_both`).

A LOW `enqueue` needs `m_low_prio_access` as well, and a LOW consumer keeps that while it
waits. If the consumer is parked, or will wait and nobody is there to put an element in
for it, the `enqueue` is shut out (`ShutOut.lean`). In every other case the element can be
put in first, then the consumer runs to its end (`fed`), and then the `enqueue` does
(`enqueue_completes_iff`).
-/
import JudoEngine.ConcurBlockingQueue.ShutOut

set_option autoImplicit false

open Monitor Linked Words

namespace JudoEngine.ConcurBlockingQueue

variable {T : Type}

section

variable {h : Heap T} {s s' : Config T}

/-! ## Running one call

Whatever a call has left to do, it can do it alone, as far as its mutexes are free. Where it
stops it has given back both of those that others need. -/

/-- No action of this queue can get stuck, so a call runs as far as the mutexes
let it. -/
theorem run_out (hs : Run anyStep h s) {t : ℕ} {c : Call T} {r o}
    (ht : s.threads t = .running c r o .awake)
    (hfree : ∀ m, Locks m r → s.owner m = none ∨ s.owner m = some t) : RunsOut sem t c r s :=
  solo locked_code (fun hs _ _ _ _ _ ht => (Inv.reach hs).act_enabled ht) r hs ht hfree

/-- A call that has run out has neither `m_data` nor `m_next_to_access`. -/
theorem not_owner_of_end (hs : Run anyStep h s) {t : ℕ} {c : Call T}
    (hend : (∃ v, s.threads t = .done c v) ∨ ∃ p m k o, s.threads t = .running c (.waitWhile p m k) o .parked)
    {m : Mutex} (hm : m ≠ .m_low_prio_access) : s.owner m ≠ some t := by
  rcases hend with ⟨v, hdone⟩ | ⟨p, m', k, o, hpark⟩
  · exact released hs hdone m
  · obtain ⟨-, -, -, hdata, hnext, -⟩ := waits_for_m_data hs hpark (by decide)
    cases m with
    | m_data => exact hdata
    | m_next_to_access => exact hnext
    | m_low_prio_access => exact absurd rfl hm

/-- Only a call in progress owns a mutex, and only one that does not wait owns
one that is not `m_low_prio_access`. -/
theorem running_of_owner (hs : Run anyStep h s) {t : ℕ} {m : Mutex} (hm : s.owner m = some t) :
    ∃ c r o st, s.threads t = .running c r o st := by
  have hok := hs.threadOk locked_code t
  cases ht : s.threads t with
  | running c r o st => exact ⟨c, r, o, st, rfl⟩
  | unborn | done =>
      rw [ht] at hok
      have hheld : s.held t = ∅ := hok
      rw [← State.mem_held, hheld] at hm
      exact absurd hm (Set.notMem_empty m)

/-- Nor does a call that is yet to be made own one. -/
theorem ne_born_of_owner (hs : Run anyStep h s) {t : ℕ} {m : Mutex} (hm : s.owner m = some t) :
    t ≠ s.born := by
  rintro rfl
  obtain ⟨c, r, o, st, hrun⟩ := running_of_owner hs hm
  rw [(hs.unborn_iff _).mpr (Nat.le_refl _)] at hrun
  cases hrun

/-- Such a call is awake. -/
theorem awake_of_owner (hs : Run anyStep h s) {t : ℕ} {m : Mutex} (hm : s.owner m = some t)
    (hne : m ≠ .m_low_prio_access) : ∃ c r o, s.threads t = .running c r o .awake := by
  obtain ⟨c, r, o, st, ht⟩ := running_of_owner hs hm
  cases st with
  | awake => exact ⟨c, r, o, ht⟩
  | parked | woken =>
      obtain ⟨-, -, -, hdata, hnext, -⟩ := waits_for_m_data hs ht (by decide)
      cases m with
      | m_data => exact absurd hm hdata
      | m_next_to_access => exact absurd hm hnext
      | m_low_prio_access => exact absurd rfl hne

/-! ## Freeing the mutexes

From the last one to the first: each time whoever has the mutex runs until it has given it
back, which needs none of those before it. -/

/-- The mutex `m` can be freed, when those after it are free, by steps of the
call that has it. -/
theorem clear (hs : Run anyStep h s) {m : Mutex} (hne : m ≠ .m_low_prio_access)
    (hfree : ∀ m', m.rank < m'.rank → s.owner m' = none) :
    ∃ s', (s' = s ∨ ∃ u, s.owner m = some u ∧ Steps sem (By u) s s')
      ∧ ∀ m', m.rank ≤ m'.rank → s'.owner m' = none := by
  have hrank : ∀ m' : Mutex, m.rank ≤ m'.rank → m' = m ∨ m.rank < m'.rank := by
    intro m' hle
    cases m <;> cases m' <;> simp [Mutex.rank] at *
  -- every mutex above m is free, so its owner runs until it returns or waits, and by then it has given
  -- back all but m_low_prio_access
  cases hm : s.owner m with
  | none =>
      refine ⟨s, .inl rfl, fun m' hle => ?_⟩
      rcases hrank m' hle with rfl | hlt
      · exact hm
      · exact hfree m' hlt
  | some u =>
      obtain ⟨c, r, o, hu⟩ := awake_of_owner hs hm hne
      obtain ⟨s', hsteps, hend⟩ := run_out hs hu fun m' hl => .inl (hfree m' (locks_later hs hu hm hl))
      refine ⟨s', .inr ⟨u, rfl, hsteps⟩, fun m' hle => ?_⟩
      have hlow : m' ≠ .m_low_prio_access := by
        rintro rfl
        cases m <;> simp [Mutex.rank] at *
      refine (Solo.of_steps hsteps).owner_none ?_
        (not_owner_of_end (hsteps.reach hs) (hend.imp_right And.right) hlow)
      rcases hrank m' hle with rfl | hlt
      · exact .inr hm
      · exact .inl (hfree m' hlt)

/-- `m_data` and `m_next_to_access` are free. -/
def Free (s : Config T) : Prop := s.owner .m_data = none ∧ s.owner .m_next_to_access = none

/-- Only `m_low_prio_access` may then be owned. -/
theorem Free.owner (hf : Free s) {m : Mutex} (hne : m ≠ .m_low_prio_access) : s.owner m = none := by
  cases m with
  | m_data => exact hf.1
  | m_next_to_access => exact hf.2
  | m_low_prio_access => exact absurd rfl hne

/-- The calls that are to be left alone are in progress and have neither of the
two. -/
def Bystanders (X : ℕ → Prop) (s : Config T) : Prop :=
  ∀ u, X u → (∃ c r o st, s.threads u = .running c r o st)
    ∧ ∀ m, m ≠ .m_low_prio_access → s.owner m ≠ some u

/-- They are still bystanders after steps of others. -/
theorem Bystanders.steps {X : ℕ → Prop} (hX : Bystanders X s) (hs : Run anyStep h s)
    (hsteps : Steps sem (Others X) s s') : Bystanders X s' := by
  intro u hu
  obtain ⟨⟨c, r, o, st, hrun⟩, hown⟩ := hX u hu
  obtain ⟨hheld, hth⟩ := (hsteps.mono fun _ => Others.spares).spared hs hu hrun
  refine ⟨?_, fun m hm hmu => hown m hm ?_⟩
  · rcases hth with hth | ⟨-, hth⟩
    · exact ⟨c, r, o, st, hth⟩
    · exact ⟨c, r, o, .woken, hth⟩
  · rw [← State.mem_held, ← hheld]
    exact hmu

/-- A call in progress that has neither can be left alone too. -/
theorem Bystanders.insert {X : ℕ → Prop} (hX : Bystanders X s) {t : ℕ} {c : Call T} {r o st}
    (ht : s.threads t = .running c r o st) (hown : ∀ m, m ≠ .m_low_prio_access → s.owner m ≠ some t) :
    Bystanders (fun u => X u ∨ u = t) s := by
  rintro u (hu | rfl)
  · exact hX u hu
  · exact ⟨⟨c, r, o, st, ht⟩, hown⟩

/-- The two can be freed around them. -/
theorem free_both {X : ℕ → Prop} (hs : Run anyStep h s) (hX : Bystanders X s) :
    ∃ s', Steps sem (Others X) s s' ∧ Free s' := by
  have hcase : ∀ {s s' : Config T} {m : Mutex}, m ≠ .m_low_prio_access → Bystanders X s →
      (s' = s ∨ ∃ u, s.owner m = some u ∧ Steps sem (By u) s s') → Steps sem (Others X) s s' := by
    intro s s' m hne hX hor
    rcases hor with rfl | ⟨u, hu, hsteps⟩
    · exact .refl _
    · exact hsteps.mono fun l => By.others fun hxu => (hX u hxu).2 m hne hu
  obtain ⟨s₁, hor₁, hfree₁⟩ := clear hs (m := .m_data) (by decide) fun m' hlt => by
    cases m' <;> simp [Mutex.rank] at hlt
  have hsteps₁ := hcase (by decide) hX hor₁
  obtain ⟨s₂, hor₂, hfree₂⟩ := clear (hsteps₁.reach hs) (m := .m_next_to_access) (by decide)
    fun m' hlt => hfree₁ m' hlt
  have hsteps₂ := hcase (by decide) (hX.steps hs hsteps₁) hor₂
  exact ⟨s₂, hsteps₁.trans hsteps₂, hfree₂ _ (by decide), hfree₂ _ (by decide)⟩

/-! ## Making way for a call

What a call may still need is freed around the bystanders, and then it runs. A call that
has `m_data` needs nothing; for one that has `m_next_to_access` only `m_data` is freed. -/

/-- Other calls can be run so that a call finds its mutexes free. -/
theorem make_way {X : ℕ → Prop} (hs : Run anyStep h s) (hX : Bystanders X s) {t : ℕ} {c : Call T} {r o}
    (ht : s.threads t = .running c r o .awake) (hdata : s.owner .m_data ≠ some t) :
    ∃ s', Steps sem (Others fun u => X u ∨ u = t) s s'
      ∧ ∀ m, m ≠ .m_low_prio_access → s'.owner m = none ∨ s'.owner m = some t := by
  -- a call that has `m_next_to_access` needs `m_data` only, and any other may need both
  by_cases hnext : s.owner .m_next_to_access = some t
  · obtain ⟨s', hor, hfree⟩ := clear hs (m := .m_data) (by decide) fun m' hlt => by
      cases m' <;> simp [Mutex.rank] at hlt
    have hdata' : s'.owner .m_data = none := hfree .m_data (Nat.le_refl _)
    rcases hor with rfl | ⟨u, hu, hsteps⟩
    · refine ⟨s', .refl _, fun m hm => ?_⟩
      cases m with
      | m_data => exact .inl hdata'
      | m_next_to_access => exact .inr hnext
      | m_low_prio_access => exact absurd rfl hm
    · have hut : u ≠ t := by
        rintro rfl
        exact hdata hu
      have hxu : ¬ X u := fun hx => (hX u hx).2 .m_data (by decide) hu
      refine ⟨s', hsteps.mono fun l => By.others fun hx => hx.elim hxu hut, fun m hm => ?_⟩
      cases m with
      | m_data => exact .inl hdata'
      | m_next_to_access => exact .inr (((Solo.of_steps hsteps).owner _ t (Ne.symm hut)).mpr hnext)
      | m_low_prio_access => exact absurd rfl hm
  · have hXt := hX.insert ht fun m hm => by
      cases m with
      | m_data => exact hdata
      | m_next_to_access => exact hnext
      | m_low_prio_access => exact absurd rfl hm
    obtain ⟨s', hsteps, hf⟩ := free_both hs hXt
    exact ⟨s', hsteps, fun m hm => .inl (hf.owner hm)⟩

/-- Then the call runs until it has returned or has parked. -/
theorem run_around {X : ℕ → Prop} (hs : Run anyStep h s) (hX : Bystanders X s) {t : ℕ} {c : Call T} {r o}
    (ht : s.threads t = .running c r o .awake) (hlow : ¬ Locks .m_low_prio_access r) :
    ∃ s₁, Steps sem (Others fun u => X u ∨ u = t) s s₁ ∧ s₁.threads t = .running c r o .awake ∧ s₁.held t = s.held t
      ∧ RunsOut sem t c r s₁ ∧ (s.owner .m_data = some t → s₁ = s)
      ∧ (s.owner .m_data ≠ some t → ∀ m, m ≠ .m_low_prio_access → s₁.owner m = none ∨ s₁.owner m = some t) := by
  by_cases hdata : s.owner .m_data = some t
  · refine ⟨s, .refl s, ht, rfl, run_out hs ht fun m hm => ?_, fun _ => rfl, fun hnot => absurd hdata hnot⟩
    have hlater := locks_later hs ht hdata hm
    cases m <;> simp [Mutex.rank] at hlater
  · obtain ⟨s₁, hsteps, hfree⟩ := make_way hs hX ht hdata
    obtain ⟨hheld, hth | ⟨hst, -⟩⟩ := (hsteps.mono fun _ => Others.spares).spared hs (.inr rfl) ht
    · refine ⟨s₁, hsteps, hth, hheld, run_out (hsteps.reach hs) hth fun m hm => hfree m ?_, fun hd => absurd hd hdata, fun _ => hfree⟩
      rintro rfl
      exact hlow hm
    · cases hst

/-! ## An element for the consumer

A HIGH `enqueue` in progress puts its element in, and then a consumer that finds `m_data`
free gets it: if it is on its way to the queue it does not come to wait, and if it waits
it wakes up. -/

/-- What a HIGH `enqueue` puts in is there when it has returned. -/
theorem put_in (hs : Run anyStep h s) {e : ℕ} {d : T} {r o v} (he : s.threads e = .running (.enqueue d .HIGH) r o .awake)
    (hacts : Acts r) (hsteps : Steps sem (By e) s s') (hdone : s'.threads e = .done (.enqueue d .HIGH) v) :
    s'.shared.m_queue.getSize ≠ 0 := by
  have hnone : effectsOf s e = [] := by
    have hp := (Inv.reach hs).progress e
    rw [Progress, he] at hp
    obtain ⟨ph, hflow, hreached⟩ := hp
    cases ph with
    | entering | ready => exact hreached.1
    | acted => exact absurd hacts hflow.not_acts
    | empty => exact absurd hacts hflow.over_of_empty.2
  obtain ⟨v', -, heff⟩ := effects_solo hs hsteps hnone hdone fun _ _ _ hc => by cases hc
  intro hsize
  have hs' := hsteps.reach hs
  rw [← (Inv.reach hs').shared.length_content, content_effects hs', heff, List.foldl_append] at hsize
  simp [Effect.apply] at hsize

/-- A call that has parked has left the queue as it was. -/
theorem size_of_parked (hs : Run anyStep h s) {w : ℕ} (hsteps : Steps sem (By w) s s') (hw : s'.Parked w) :
    s'.shared.m_queue.getSize = s.shared.m_queue.getSize := by
  obtain ⟨es, heq, hes⟩ := effects_by hs hsteps
  have hs' := hsteps.reach hs
  obtain ⟨c, r, o, hrun⟩ := hw
  obtain ⟨p, k, rfl, -⟩ := waits_for_m_data hs' hrun (by decide)
  have hp := (Inv.reach hs').progress w
  rw [Progress, hrun] at hp
  obtain ⟨ph, hflow, hreached⟩ := hp
  have hnone : effectsOf s' w = [] := by
    cases ph with
    | entering => exact hreached.1
    | ready | acted | empty => exact hflow.elim
  -- so it has had no effect on the way either
  have hnil : es = [] := by
    rw [effectsOf, heq, List.filter_append, List.append_eq_nil_iff] at hnone
    rw [← hnone.2, List.filter_eq_self.mpr (by simpa using hes)]
  rw [hnil, List.append_nil] at heq
  rw [← (Inv.reach hs').shared.length_content, ← (Inv.reach hs).shared.length_content, content_effects hs',
    content_effects hs, heq]

/-- A waiting call can be run to its end once there is an element and `m_data` is free: it
wakes by itself if nobody has woken it. -/
theorem finish_waiting (hs : Run anyStep h s) (hfree : s.owner .m_data = none) (hsize : s.shared.m_queue.getSize ≠ 0)
    {w : ℕ} {c : Call T} {r o st} (hw : s.threads w = .running c r o st) (hst : st ≠ .awake) :
    ∃ s' v, Steps sem (By w) s s' ∧ s'.threads w = .done c v := by
  -- it is woken ...
  have hwake : ∃ s₁, Steps sem (By w) s s₁ ∧ s₁.threads w = .running c r o .woken
      ∧ s₁.shared = s.shared ∧ s₁.owner = s.owner := by
    cases st with
    | awake => exact absurd rfl hst
    | parked => exact ⟨_, .single (Step.wake hw) rfl, s.setThread_self .., rfl, rfl⟩
    | woken => exact ⟨s, .refl s, hw, rfl, rfl⟩
  obtain ⟨s₁, hsteps₁, hw₁, hshared₁, howner₁⟩ := hwake
  have hs₁ := hsteps₁.reach hs
  obtain ⟨p, k, rfl, -⟩ := waits_for_m_data hs₁ hw₁ (by decide)
  -- ... it finds the element ...
  have hprog := (Inv.reach hs₁).progress w
  rw [Progress, hw₁] at hprog
  obtain ⟨ph, hflow, -⟩ := hprog
  cases ph with
  | ready | acted | empty => exact hflow.elim
  | entering =>
      obtain ⟨-, rfl, hready⟩ := hflow
      have hdata : s₁.owner .m_data = none := by
        rw [howner₁]
        exact hfree
      have hregain : Step sem s₁ _ _ := Step.regain hw₁ hdata
      have hs₂ := hs₁.step trivial hregain
      have hw₂ : ((s₁.setThread w (.running c (.waitWhile .getSize .m_data k) o .awake)).setOwner
          .m_data (some w)).threads w = .running c (.waitWhile .getSize .m_data k) o .awake :=
        s₁.setThread_self ..
      have htest : test .getSize s₁.shared = false := by
        rw [hshared₁]
        exact decide_eq_false hsize
      have hpass : Step sem _ _ _ := Step.pass hw₂ htest
      have hs₃ := hs₂.step trivial hpass
      -- ... and needs nothing more
      obtain ⟨s', hsteps, hend⟩ := run_out hs₃ (State.setThread_self ..) fun m hm => by
        have hlater := locks_later hs₃ (State.setThread_self ..)
          ((State.setOwner_self ..) : _ = some w) hm
        cases m <;> simp [Mutex.rank] at hlater
      obtain ⟨k', rfl, -, -, hacted⟩ := ready_act hs₃ (State.setThread_self ..) hready
      obtain ⟨v, hdone⟩ := hend.resolve_right fun hwaits => hacted.not_waits hwaits.1
      exact ⟨s', v, (hsteps₁.trans (Steps.single (Q := By w) hregain rfl)).trans
        ((Steps.single (Q := By w) hpass rfl).trans hsteps), hdone⟩

/-- A call that has `m_low_prio_access` can be run to its end once there is an element, when it
finds the other two free. -/
theorem fed (hs : Run anyStep h s) (hdata : s.owner .m_data = none) (hsize : s.shared.m_queue.getSize ≠ 0) {w : ℕ}
    (hlow : s.owner .m_low_prio_access = some w)
    (hnext : HasToTake s w .m_next_to_access → s.owner .m_next_to_access = none ∨ s.owner .m_next_to_access = some w) :
    ∃ s' c v, Steps sem (By w) s s' ∧ s'.threads w = .done c v := by
  obtain ⟨c, r, o, st, hw⟩ := running_of_owner hs hlow
  have hwaiting : ∀ {s : Config T} {r o st}, Run anyStep h s → s.owner .m_data = none → s.shared.m_queue.getSize ≠ 0 →
      s.threads w = .running c r o st → st ≠ .awake → ∃ s' c v, Steps sem (By w) s s' ∧ s'.threads w = .done c v := by
    intro s r o st hs hdata hsize hw hst
    obtain ⟨s', v, hsteps, hdone⟩ := finish_waiting hs hdata hsize hw hst
    exact ⟨s', c, v, hsteps, hdone⟩
  -- a waiting owner of m_low_prio_access takes the item; one that runs goes on until it returns or
  -- waits in its turn
  cases st with
  | parked | woken => exact hwaiting hs hdata hsize hw (by decide)
  | awake =>
      obtain ⟨s₁, hsteps, hend⟩ := run_out hs hw fun m hm => by
        cases m with
        | m_data => exact .inl hdata
        | m_next_to_access => exact hnext ⟨c, r, o, .awake, hw, hm⟩
        | m_low_prio_access => exact absurd (locks_later hs hw hlow hm) (Nat.lt_irrefl _)
      have hs₁ := hsteps.reach hs
      rcases hend with ⟨v, hdone⟩ | ⟨-, p, m, k, o', hpark⟩
      · exact ⟨s₁, c, v, hsteps, hdone⟩
      · have hdata₁ := (Solo.of_steps hsteps).owner_none (.inl hdata)
          (not_owner_of_end hs₁ (.inr ⟨p, m, k, o', hpark⟩) (by decide))
        have hsize₁ := size_of_parked hs hsteps ⟨c, _, o', hpark⟩
        obtain ⟨s₂, c', v, hsteps₂, hdone⟩ := hwaiting hs₁ hdata₁ (hsize₁ ▸ hsize) hpark (by decide)
        exact ⟨s₂, c', v, hsteps.trans hsteps₂, hdone⟩

/-! ## Freeing `m_low_prio_access`

The call that has it is run to its end around the bystanders. If it may still wait, a HIGH
`enqueue` whose element is not due to another is run first. -/

/-- It takes no `m_low_prio_access` and does not wait. -/
theorem enqueue_high_code (hs : Run anyStep h s) {t : ℕ} {d : T} {r o st}
    (ht : s.threads t = .running (.enqueue d .HIGH) r o st) : ¬ Locks .m_low_prio_access r ∧ ¬ Waits r := by
  have hscript := hs.script (Q := fun c r => ∀ d, c = .enqueue d .HIGH → ¬ Locks .m_low_prio_access r ∧ ¬ Waits r)
    (by
      rintro c d rfl
      simp [sem, code, enqueue, Locks, Waits])
    (by
      intro c r r' hq hnext d hc
      obtain ⟨hlocks, hwaits⟩ := hq d hc
      exact ⟨fun hl => hlocks (hnext.locks hl), fun hw => hwaits (hnext.waits hw)⟩) ht
  exact hscript d rfl

/-- An `enqueue` never waits. -/
theorem Pending.awake (hs : Run anyStep h s) {e : ℕ} (he : Pending s e) :
    ∃ d r o, s.threads e = .running (.enqueue d .HIGH) r o .awake ∧ Acts r := by
  obtain ⟨d, r, o, st, hrun, hacts⟩ := he
  cases st with
  | awake => exact ⟨d, r, o, hrun, hacts⟩
  | parked | woken =>
      obtain ⟨p, k, rfl, -⟩ := waits_for_m_data hs hrun (by decide)
      exact absurd trivial (enqueue_high_code hs hrun).2

/-- With an element there, whoever has `m_low_prio_access` can run to its end. -/
theorem free_low {X : ℕ → Prop} (hs : Run anyStep h s) (hdata : s.owner .m_data = none)
    (hsize : s.shared.m_queue.getSize ≠ 0) (hX : ∀ w, s.owner .m_low_prio_access = some w → ¬ X w)
    (hnext : ∀ w, s.owner .m_low_prio_access = some w → HasToTake s w .m_next_to_access →
      s.owner .m_next_to_access = none) : ∃ s', Steps sem (Others X) s s' ∧ s'.owner .m_low_prio_access = none := by
  cases hlow : s.owner .m_low_prio_access with
  | none => exact ⟨s, .refl s, hlow⟩
  | some w =>
      obtain ⟨s', c, v, hsteps, hdone⟩ := fed hs hdata hsize hlow fun hw => .inl (hnext w hlow hw)
      exact ⟨s', hsteps.mono fun l => By.others (hX w hlow),
        (Solo.of_steps hsteps).owner_none (.inr hlow) (released (hsteps.reach hs) hdone _)⟩

/-- It can run to its end after a HIGH `enqueue` whose element is not due to another ... -/
theorem free_low_pending {X : ℕ → Prop} (hs : Run anyStep h s) (hX : Bystanders X s)
    (hlow : ∀ w, s.owner .m_low_prio_access = some w → ¬ X w) {e : ℕ} (he : Pending s e) (hxe : ¬ X e)
    (hdue : ∀ w, s.owner .m_low_prio_access = some w → ¬ Due s w e) :
    ∃ s', Steps sem (Others X) s s' ∧ s'.owner .m_low_prio_access = none := by
  obtain ⟨d, r, o, hrun, hacts⟩ := he.awake hs
  obtain ⟨hlocks, hwaits⟩ := enqueue_high_code hs hrun
  obtain ⟨s₁, hsteps₁, hrun₁, -, ⟨s₂, hsteps₂, hend⟩, hsame, hfree⟩ := run_around hs hX hrun hlocks
  obtain ⟨v, hdone⟩ := hend.resolve_right fun ⟨hw, _⟩ => hwaits hw
  have hs₁ := hsteps₁.reach hs
  have hs₂ := hsteps₂.reach hs₁
  have hsolo := Solo.of_steps hsteps₂
  have hrel := released hs₂ hdone
  have hall : Steps sem (Others X) s s₂ :=
    (hsteps₁.mono fun _ => Others.mono fun _ => .inl).trans (hsteps₂.mono fun _ => By.others hxe)
  -- its element is in, and it has given back what it had
  have hdata : s₂.owner .m_data = none := by
    refine hsolo.owner_none ?_ (hrel _)
    by_cases hd : s.owner .m_data = some e
    · exact .inr (hsame hd ▸ hd)
    · exact hfree hd .m_data (by decide)
  obtain ⟨s₃, hsteps₃, hnone⟩ := free_low (X := X) hs₂ hdata (put_in hs₁ hrun₁ hacts hsteps₂ hdone)
    (fun w hw hx => by
      obtain ⟨⟨c', r', o', st', hrun'⟩, -⟩ := hX w hx
      obtain ⟨hheld, -⟩ := (hall.mono fun _ => Others.spares).spared hs hx hrun'
      rw [← State.mem_held, hheld] at hw
      exact hlow w hw hx)
    (fun w hw hnext => by
      by_cases hd : s.owner .m_data = some e
      · -- nobody else has moved, and the next to have `m_data` is not another call
        obtain rfl := hsame hd
        have hwe : w ≠ e := by
          rintro rfl
          exact hrel _ hw
        have hold := (hsolo.owner _ w hwe).mp hw
        have hnext' : HasToTake s₁ w .m_next_to_access := by
          obtain ⟨c', r', o', st', hrun', hlocks'⟩ := hnext
          rcases hsolo.others w hwe with hsame | ⟨c'', r'', o'', hpark, hwoken⟩
          · exact ⟨c', r', o', st', hsame ▸ hrun', hlocks'⟩
          · rw [hrun'] at hwoken
            cases hwoken
            exact ⟨c', r', o', .parked, hpark, hlocks'⟩
        refine hsolo.owner_none ?_ (hrel _)
        cases hown : s₁.owner .m_next_to_access with
        | none => exact .inl rfl
        | some u =>
            refine .inr (congrArg some ?_)
            by_contra hue
            exact hdue w hold ⟨hd, hnext', u, hue, hown⟩
      · exact hsolo.owner_none (hfree hd .m_next_to_access (by decide)) (hrel _))
  exact ⟨s₃, hall.trans hsteps₃, hnone⟩

/-- ... and at once if it does not wait any more. -/
theorem free_low_passing {X : ℕ → Prop} (hs : Run anyStep h s) (hX : Bystanders X s) {w : ℕ}
    (hlow : s.owner .m_low_prio_access = some w) (hxw : ¬ X w) (hw : ¬ MayWait s w) :
    ∃ s', Steps sem (Others X) s s' ∧ s'.owner .m_low_prio_access = none := by
  obtain ⟨c, r, o, st, hrun⟩ := running_of_owner hs hlow
  have hwaits : ¬ Waits r := fun hr => hw ⟨c, r, o, st, hrun, hr⟩
  cases st with
  | parked | woken =>
      obtain ⟨p, k, rfl, -⟩ := waits_for_m_data hs hrun (by decide)
      exact absurd trivial hwaits
  | awake =>
      obtain ⟨s₁, hsteps₁, -, hheld, ⟨s₂, hsteps₂, hend⟩, -⟩ := run_around hs hX hrun fun hl =>
        absurd (locks_later hs hrun hlow hl) (Nat.lt_irrefl _)
      obtain ⟨v, hdone⟩ := hend.resolve_right fun ⟨hr, _⟩ => hwaits hr
      have hlow₁ : s₁.owner .m_low_prio_access = some w := by
        rw [← State.mem_held, hheld]
        exact hlow
      refine ⟨s₂, (hsteps₁.mono fun _ => Others.mono fun _ => .inl).trans (hsteps₂.mono fun _ => By.others hxw), ?_⟩
      exact (Solo.of_steps hsteps₂).owner_none (.inr hlow₁) (released (hsteps₂.reach (hsteps₁.reach hs)) hdone _)

/-! ## When an `enqueue` gets through

Both directions: the ways of freeing what it needs, and that it is shut out where there is
none. -/

/-- An `enqueue` that has not started runs to its end around the bystanders, if it is HIGH
or finds `m_low_prio_access` free. -/
theorem run_enqueue {X : ℕ → Prop} (hs : Run anyStep h s) (hX : Bystanders X s) {t : ℕ} {d : T} {p : priority}
    (ht : s.threads t = .running (.enqueue d p) (enqueue d p) none .awake) (hxt : ¬ X t)
    (hlow : p = .HIGH ∨ s.owner .m_low_prio_access = none) :
    ∃ s' v, Steps sem (Others X) s s' ∧ s'.threads t = .done (.enqueue d p) v := by
  have hgo : ∀ {s : Config T} {r o}, Run anyStep h s → Bystanders X s → s.threads t = .running (.enqueue d p) r o .awake →
      ¬ Locks .m_low_prio_access r → ¬ Waits r → ∃ s' v, Steps sem (Others X) s s' ∧ s'.threads t = .done (.enqueue d p) v := by
    intro s r o hs hX ht hlocks hwaits
    obtain ⟨s₁, hsteps₁, -, -, ⟨s₂, hsteps₂, hend⟩, -⟩ := run_around hs hX ht hlocks
    obtain ⟨v, hdone⟩ := hend.resolve_right fun ⟨hw, _⟩ => hwaits hw
    exact ⟨s₂, v, (hsteps₁.mono fun _ => Others.mono fun _ => .inl).trans (hsteps₂.mono fun _ => By.others hxt), hdone⟩
  cases p with
  | HIGH => exact hgo hs hX ht (by simp [enqueue, Locks]) (by simp [enqueue, Waits])
  | LOW =>
      -- its first step is to take the mutex
      have hstep : Step sem s _ _ := Step.lock ht (hlow.resolve_left (by decide))
      have hsteps : Steps sem (Others X) s _ := Steps.single hstep (By.others hxt rfl)
      obtain ⟨s', v, hsteps', hdone⟩ := hgo (hsteps.reach hs) (hX.steps hs hsteps) (s.setThread_self ..)
        (by simp [Locks]) (by simp [Waits])
      exact ⟨s', v, hsteps.trans hsteps', hdone⟩

/-- A call just made changes nothing for those in progress. -/
theorem call_frame (s : Config T) {c : Call T} (hload : ∀ p r n, c ≠ .load p r n) :
    ∃ s₁, Step sem s (.call c) s₁ ∧ s₁.threads s.born = .running c (code c) none .awake ∧ s₁.owner = s.owner
      ∧ ∀ u, u ≠ s.born → s₁.threads u = s.threads u := by
  have hcall : Step sem s (.call c) _ := Step.call (enter_self hload s.born s.shared)
  exact ⟨_, hcall, s.setThread_self .., rfl, fun u hu => s.setThread_of_ne _ hu⟩

/-- A HIGH `enqueue` gets through past every parked call; a LOW one does if nobody has
`m_low_prio_access`, or whoever has it is not parked and does not wait any more, or an
element comes for it. -/
theorem gets_through (hs : Run anyStep h s) (d : T) {p : priority}
    (hor : p = .HIGH ∨ ∀ w, s.owner .m_low_prio_access = some w →
      ¬ s.Parked w ∧ (MayWait s w → ∃ e, Pending s e ∧ ¬ Due s w e)) : CanComplete s (.enqueue d p) := by
  obtain ⟨s₁, hcall, hnew, howner, hold⟩ := call_frame s (c := .enqueue d p) fun _ _ _ hc => by cases hc
  have hs₁ := hs.step trivial hcall
  have hborn : ∀ {c : Call T} {r o st}, s.threads s.born ≠ .running c r o st := by
    intro c r o st hrun
    rw [(hs.unborn_iff _).mpr (Nat.le_refl _)] at hrun
    cases hrun
  have hne : ∀ {u : ℕ} {c : Call T} {r o st}, s.threads u = .running c r o st → u ≠ s.born := by
    rintro u c r o st hrun rfl
    exact hborn hrun
  -- the parked calls are left alone
  have hX : Bystanders s.Parked s₁ := by
    rintro u ⟨c, r, o, hrun⟩
    obtain ⟨-, -, -, hdata, hnext, -⟩ := waits_for_m_data hs hrun (by decide)
    refine ⟨⟨c, r, o, .parked, (hold u (hne hrun)).trans hrun⟩, fun m hm => ?_⟩
    rw [howner]
    cases m with
    | m_data => exact hdata
    | m_next_to_access => exact hnext
    | m_low_prio_access => exact absurd rfl hm
  have hxt : ¬ s.Parked s.born := fun ⟨c, r, o, hrun⟩ => hborn hrun
  cases p with
  | HIGH =>
      obtain ⟨s', v, hsteps, hdone⟩ := run_enqueue hs₁ hX hnew hxt (.inl rfl)
      exact ⟨s₁, s', v, hcall, hsteps, hdone⟩
  | LOW =>
      -- and so is the new one, until it can start
      have hXt := hX.insert hnew fun m _ hm => ne_born_of_owner hs (howner ▸ hm) rfl
      have hback : ∀ {w m}, s₁.owner m = some w → s.owner m = some w := fun hw => howner ▸ hw
      have hlow : ∀ w, s₁.owner .m_low_prio_access = some w → ¬ (s.Parked w ∨ w = s.born) := by
        rintro w hw (hpark | hwb)
        · exact (hor.resolve_left (by decide) w (hback hw)).1 hpark
        · exact ne_born_of_owner hs (hback hw) hwb
      have hready : ∃ s₂, Steps sem (Others fun u => s.Parked u ∨ u = s.born) s₁ s₂
          ∧ s₂.owner .m_low_prio_access = none := by
        cases hw : s₁.owner .m_low_prio_access with
        | none => exact ⟨s₁, .refl s₁, hw⟩
        | some w =>
            obtain ⟨hpark, hcond⟩ := hor.resolve_left (by decide) w (hback hw)
            have hwb := ne_born_of_owner hs (hback hw)
            by_cases hmay : MayWait s₁ w
            · obtain ⟨c, r, o, st, hrun, hwaits⟩ := hmay
              obtain ⟨e, ⟨d', r', o', st', hrun', hacts⟩, hdue⟩ := hcond ⟨c, r, o, st, (hold w hwb).symm.trans hrun, hwaits⟩
              have heb := hne hrun'
              refine free_low_pending hs₁ hXt hlow ⟨d', r', o', st', (hold e heb).trans hrun', hacts⟩ ?_ ?_
              · rintro (⟨c', r'', o'', hpark'⟩ | rfl)
                · -- an `enqueue` does not park
                  obtain ⟨d'', r₃, o₃, hrun₃, -⟩ := Pending.awake hs ⟨d', r', o', st', hrun', hacts⟩
                  rw [hrun₃] at hpark'
                  cases hpark'
                · exact heb rfl
              · intro w' hw' hdue'
                obtain rfl : w = w' := Option.some.inj (hw.symm.trans hw')
                obtain ⟨hdata, ⟨c', r'', o'', st'', hrun'', hlocks⟩, u, hue, hu⟩ := hdue'
                exact hdue ⟨hback hdata, ⟨c', r'', o'', st'', (hold w hwb).symm.trans hrun'', hlocks⟩, u, hue, hback hu⟩
            · exact free_low_passing hs₁ hXt hw (hlow w hw) hmay
      obtain ⟨s₂, hsteps₂, hfree⟩ := hready
      have hsteps : Steps sem (Others s.Parked) s₁ s₂ := hsteps₂.mono fun _ => Others.mono fun _ => .inl
      obtain ⟨-, hnew₂ | ⟨hst, -⟩⟩ := (hsteps₂.mono fun _ => Others.spares).spared hs₁ (.inr rfl) hnew
      · obtain ⟨s', v, hsteps', hdone⟩ := run_enqueue (hsteps₂.reach hs₁) (hX.steps hs₁ hsteps) hnew₂ hxt (.inr hfree)
        exact ⟨s₁, s', v, hcall, hsteps.trans hsteps', hdone⟩
      · cases hst

/-- **When an `enqueue` gets past the consumers of an empty queue.** A HIGH one always
does. A LOW one does exactly when whoever has `m_low_prio_access` is not parked, and, if it
may still come to its wait, a HIGH `enqueue` is in progress whose element is not due to
another. -/
theorem enqueue_completes_iff (hs : Run anyStep h s) (hempty : s.shared.m_queue.getSize = 0) (d : T) (p : priority) :
    CanComplete s (.enqueue d p) ↔ p = .HIGH ∨ ∀ w, s.owner .m_low_prio_access = some w →
      ¬ s.Parked w ∧ (MayWait s w → ∃ e, Pending s e ∧ ¬ Due s w e) := by
  constructor
  · intro hcan
    cases p with
    | HIGH => exact .inl rfl
    | LOW =>
        refine .inr fun w hw => ⟨fun hpark => shut_out_of_parked hs hw hpark d hcan, fun hmay => ?_⟩
        by_contra hnone
        refine shut_out_of_starved hs (starved_of_due hs hw hmay hempty fun e he => ?_) d hcan
        by_contra hdue
        exact hnone ⟨e, he, hdue⟩
  · exact gets_through hs d

end

/-- A HIGH consumer is parked, a LOW one is on its way and may come to wait, and a LOW
`enqueue` gets past both, since a HIGH one is in progress. -/
theorem enqueue_completes_past_both : ∃ s : Config ℕ, s.Parked 0 ∧ s.shared.m_queue.getSize = 0
    ∧ s.owner .m_low_prio_access = some 1 ∧ MayWait s 1 ∧ CanComplete s (.enqueue 7 .LOW) := by
  have hrun : Run anyStep (Store.empty : Heap ℕ) _ := Reach.play (fun _ => true) (fun _ _ _ => trivial)
    [.call (.dequeue .HIGH .BLOCK), .step 0, .step 0, .step 0, .step 0, .step 0,
      .call (.dequeue .LOW .BLOCK), .step 1, .call (.enqueue 5 .HIGH)]
    .init (by simp [sem, enter]) rfl
  refine ⟨_, ⟨_, _, _, rfl⟩, rfl, rfl, ⟨_, _, _, _, rfl, ?_⟩, (enqueue_completes_iff hrun rfl 7 .LOW).mpr (.inr ?_)⟩
  · simp [Waits]
  · intro w hw
    cases hw
    refine ⟨?_, fun _ => ⟨2, ⟨5, _, _, _, rfl, trivial⟩, ?_⟩⟩
    · rintro ⟨c, r, o, hpark⟩
      cases hpark
    · rintro ⟨hdata, -⟩
      cases hdata

/-- A LOW consumer that is parked on the empty queue shuts a LOW `enqueue` out. -/
theorem low_consumer_shuts_out : ¬ ∀ s : Config ℕ, Run anyStep .empty s → (∃ u, s.Parked u) →
    s.shared.m_queue.getSize = 0 → ∀ d p, CanComplete s (.enqueue d p) := by
  intro hall
  have hrun : Run anyStep (Store.empty : Heap ℕ) _ := Reach.play (fun _ => true) (fun _ _ _ => trivial)
    [.call (.dequeue .LOW .BLOCK), .step 0, .step 0, .step 0, .step 0, .step 0, .step 0]
    .init (by simp [sem, enter]) rfl
  exact shut_out_of_parked hrun (w := 0) rfl ⟨_, _, _, rfl⟩ 7 (hall _ hrun ⟨0, _, _, _, rfl⟩ rfl 7 .LOW)

end JudoEngine.ConcurBlockingQueue
