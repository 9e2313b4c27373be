/-
Which elements get a consumer to come for them.

While a consumer is parked, every element in the queue must be matched by a
call that will take it: one that is back from `m_con.wait` or right before its
action (`taking`), or one that is about to be notified (`notifying`). A HIGH
`enqueue` and a `load` of one element keep that balance. A LOW `enqueue` does
not notify at all, and a `load` of several elements notifies once, so the
balance is kept in the runs in which these find nobody, or one call, parked.
-/
import JudoEngine.ConcurBlockingQueue.Invariants

set_option autoImplicit false

open Monitor Linked Words

namespace JudoEngine.ConcurBlockingQueue

variable {T : Type}

/-! ## The balance

Weights on the calls: each element in the queue needs a call that comes for it. What a step
does to the balance is what it does to the weights of the call that takes it. -/

/-- 1 for a parked call. -/
def parked (x : CallThread T) : ℕ := if x.isParked then 1 else 0

/-- 1 for a call that will take an element if there is one: it is back from the
wait, or right before its `dequeue` or `dump`. -/
def taking : CallThread T → ℕ
  | .running _ (.waitWhile _ _ _) _ .awake | .running _ (.waitWhile _ _ _) _ .woken => 1
  | .running _ (.act .dequeue _) _ _ | .running _ (.act .dump _) _ _ => 1
  | _ => 0

/-- 1 for a call that is about to notify. -/
def notifying : CallThread T → ℕ
  | .running _ (.notify _) _ _ => 1
  | _ => 0

/-- Nobody is parked; or every element has a call that comes for it; or the one
call that is parked is about to be notified. -/
def Served (s : Config T) : Prop :=
  s.total parked = 0
    ∨ s.shared.m_queue.getSize ≤ s.total taking + s.total notifying
    ∨ s.total parked ≤ 1 ∧ ∃ t c k o, s.threads t = .running c (.notify k) o .awake

/-- A LOW `enqueue` puts its element in only while nobody is parked, and a
`load` of two elements or more only while at most one call is: the condition on
the steps of a run. -/
def NotifiesEnough (s : Config T) (l : Label (Call T)) : Prop :=
  ∀ t d c a k o, l = .act t d → s.threads t = .running c (.act a k) o .awake →
    (∀ e, c = .enqueue e .LOW → ∀ u, ¬ s.Parked u)
      ∧ ∀ p r n, c = .load p r n → 2 ≤ n → ∀ u v, s.Parked u → s.Parked v → u = v

/-! ## What the scripts do after putting an element in

A producer that notifies does so right after its action, in every script that does. -/

/-- The calls that notify. -/
def Call.notifies : Call T → Prop
  | .enqueue _ .HIGH | .load _ _ _ => True
  | .enqueue _ .LOW | .dequeue _ _ | .dump _ _ => False

/-- Every action is followed by a notification. -/
def NotifiesNext : Code T → Prop
  | .ret _ => True
  | .lock _ k | .unlock _ k | .waitWhile _ _ k | .notify k => NotifiesNext k
  | .branch _ x y => NotifiesNext x ∧ NotifiesNext y
  | .act _ k => (∃ k', k = .notify k') ∧ NotifiesNext k

/-- Every member function of this kind keeps to this. -/
theorem notifiesNext_code (c : Call T) : c.notifies → NotifiesNext (code c) := by
  intro hc
  cases c with
  | enqueue d p =>
      cases p with
      | HIGH => simp [code, enqueue, NotifiesNext]
      | LOW => exact hc.elim
  | load p r n =>
      by_cases hn : n ≤ 0
      · simp [code, load, hn, NotifiesNext]
      · simp [code, load, hn, NotifiesNext]
  | dequeue | dump => exact hc.elim

theorem NotifiesNext.next {r r' : Code T} (hr : NotifiesNext r) (hnext : Next r r') :
    NotifiesNext r' := by
  cases hnext with
  | lock | unlock | pass | notify => exact hr
  | thenBranch => exact hr.1
  | elseBranch => exact hr.2
  | act => exact hr.2

/-! ## The balance is kept

A step lemma for an action and for a notification, and one that sees to all other steps, since
they leave the weights alone. -/

section

variable {ok : Config T → Label (Call T) → Prop} {h : Heap T} {s s' : Config T} {l : Label (Call T)}

/-- After its action such a call is about to notify. -/
theorem notify_after_act (hs : Run ok h s) {t : ℕ} {c : Call T} {a k o st} (hc : c.notifies)
    (ht : s.threads t = .running c (.act a k) o st) : ∃ k', k = .notify k' := by
  have hscript : c.notifies → NotifiesNext (.act a k) :=
    hs.script (Q := fun c r => c.notifies → NotifiesNext r) notifiesNext_code
      (fun hq hnext hc => (hq hc).next hnext) ht
  exact (hscript hc).1

/-- A call in progress has been made. -/
theorem lt_born (hs : Run ok h s) {t : ℕ} {c : Call T} {r o st}
    (ht : s.threads t = .running c r o st) : t < s.born := by
  by_contra hle
  rw [(hs.unborn_iff t).mpr (Nat.le_of_not_lt hle)] at ht
  cases ht

/-- A call that is about to take elements counts as one that does. -/
theorem taking_act {c : Call T} {k o st} (hc : c.consumes ≠ none) :
    taking (.running c (.act c.action k) o st) = 1 := by
  cases c with
  | dequeue | dump => rfl
  | enqueue | load => exact absurd rfl hc

/-- A parked call counts as one that takes an element once it is woken. -/
theorem taking_woken (hs : Run ok h s) {t : ℕ} {c : Call T} {r o}
    (ht : s.threads t = .running c r o .parked) :
    taking (.running c r o .woken) = 1 ∧ taking (.running c r o .parked) = 0 := by
  obtain ⟨p, k, rfl, -⟩ := waits_for_m_data hs ht (by decide)
  exact ⟨rfl, rfl⟩

/-- Replacing a call that is not about to notify keeps the balance, when the
queue stays as it is and the new thread counts for at least as much. -/
theorem Served.setThread (hserved : Served s) {t : ℕ} {x : CallThread T} (ht : t < s.born)
    (hthreads : s'.threads = (s.setThread t x).threads) (hborn : s'.born = s.born)
    (hsize : s'.shared.m_queue = s.shared.m_queue) (hpark : parked x ≤ parked (s.threads t))
    (htaking : taking (s.threads t) ≤ taking x) (hnot : notifying (s.threads t) = 0) : Served s' := by
  have htotal : ∀ f, s'.total f = (s.setThread t x).total f := by
    intro f
    unfold State.total
    rw [hthreads, hborn]
    rfl
  have hp := total_setThread (f := parked) x ht
  have ht' := total_setThread (f := taking) x ht
  have hn := total_setThread (f := notifying) x ht
  unfold Served
  rw [htotal, htotal, htotal, hsize]
  -- only t changed, so the totals move by what t counted before and after
  rcases hserved with hnone | hle | ⟨hone, u, c, k, o, hu⟩
  · exact .inl (by omega)
  · exact .inr (.inl (by omega))
  · refine .inr (.inr ⟨by omega, u, c, k, o, ?_⟩)
    have hut : u ≠ t := by
      rintro rfl
      rw [hu] at hnot
      cases hnot
    rw [hthreads, State.setThread_of_ne _ _ hut, hu]

/-- What an action of `t` leaves to be checked: nobody else is about to notify,
since that takes `m_data`. -/
theorem Served.act (hs : Run ok h s) (hserved : Served s) {t : ℕ} {c : Call T} {a k o}
    (ht : s.threads t = .running c (.act a k) o .awake) :
    s.total parked = 0 ∨ s.shared.m_queue.getSize ≤ s.total taking + s.total notifying := by
  rcases hserved with hnone | hle | ⟨-, u, c', k', o', hu⟩
  · exact .inl hnone
  · exact .inr hle
  · have hown := owner_of_notify hs hu
    rw [owner_of_act hs ht] at hown
    obtain rfl : t = u := Option.some.inj hown
    rw [ht] at hu
    cases hu

/-- Nobody parked is nobody counted, and one is at most one. -/
theorem total_parked_eq_zero (hnone : ∀ u, ¬ s.Parked u) : s.total parked = 0 := by
  refine total_eq_zero fun u _ => ?_
  have hu := hnone u
  unfold State.Parked at hu
  unfold parked
  split
  · next hp =>
      unfold Thread.isParked at hp
      split at hp
      · next heq => exact absurd ⟨_, _, _, heq⟩ hu
      · cases hp
  · rfl

theorem parked_of_ne_zero {u : ℕ} (hu : parked (s.threads u) ≠ 0) : s.Parked u := by
  unfold parked at hu
  split at hu
  · next hp =>
      unfold Thread.isParked at hp
      split at hp
      · next heq => exact ⟨_, _, _, heq⟩
      · cases hp
  · exact absurd rfl hu

theorem total_parked_le_one (hone : ∀ u v, s.Parked u → s.Parked v → u = v) : s.total parked ≤ 1 := by
  refine total_le (fun x => ?_) fun t u ht hu => hone t u (parked_of_ne_zero ht) (parked_of_ne_zero hu)
  unfold parked
  split
  · exact Nat.le_refl 1
  · exact Nat.zero_le 1

/-- No script starts with an action, a wait or a notification. -/
theorem weights_code (c : Call T) (o) :
    parked (.running c (code c) o .awake) = 0 ∧ taking (.running c (code c) o .awake) = 0
      ∧ notifying (.running c (code c) o .awake) = 0 := by
  rcases c with ⟨d, _ | _⟩ | ⟨_ | _, _ | _⟩ | ⟨_ | _, _ | _⟩ | ⟨p, r, n⟩
  case load =>
    by_cases hn : n ≤ 0
    · simp [code, load, hn, parked, taking, notifying, Thread.isParked]
    · simp [code, load, hn, parked, taking, notifying, Thread.isParked]
  all_goals exact ⟨rfl, rfl, rfl⟩

/-- An action keeps the balance: a consumer takes at least one element and comes
for no other, and what puts elements in either is about to notify or has found
nobody, or one call, parked. -/
theorem served_act (hs : Run ok h s) {t d : ℕ} {c : Call T} {a k o σ v}
    (ht : s.threads t = .running c (.act a k) o .awake)
    (ha : perform a t d s.shared = some (σ, v)) (hok : NotifiesEnough s (.act t d))
    (hserved : Served s) :
    Served ({ s.setThread t (.running c k (some v) .awake) with shared := σ }.record t c (.act a v)) := by
  have hi := Inv.reach hs
  obtain ⟨hσ, -, hacted⟩ := hi.acted ht ha
  obtain ⟨rfl, -, -, -⟩ := hi.before_act ht
  obtain ⟨hlow, hload⟩ := hok t d c _ k o rfl ht
  have hbase := hserved.act hs ht
  have hborn := lt_born hs ht
  have hp := total_setThread (f := parked) (.running c k (some v) .awake) hborn
  have htk := total_setThread (f := taking) (.running c k (some v) .awake) hborn
  have hn := total_setThread (f := notifying) (.running c k (some v) .awake) hborn
  have hlen := hi.shared.length_content
  have hlen' := hσ.length_content
  rw [ht] at hp htk hn
  have hp₀ : parked (.running c k (some v) .awake) = 0 := rfl
  have hn₀ : notifying (.running c (.act c.action k) o .awake) = 0 := rfl
  unfold Served
  show (s.setThread t _).total parked = 0 ∨ σ.m_queue.getSize ≤ (s.setThread t _).total taking
      + (s.setThread t _).total notifying ∨ (s.setThread t _).total parked ≤ 1
      ∧ ∃ u c' k' o', (s.setThread t _).threads u = .running c' (.notify k') o' .awake
  cases hacted with
  | @enqueue e p hc =>
      have ht₀ : taking (.running (.enqueue e p) (.act (Call.enqueue e p).action k) o .awake) = 0 := rfl
      rw [hc, List.length_append, List.length_singleton] at hlen'
      cases p with
      -- one element more, and one call more that is about to notify
      | HIGH =>
          have hc : (Call.enqueue e .HIGH).notifies := trivial
          obtain ⟨k', rfl⟩ := notify_after_act hs hc ht
          have hn₁ : notifying (.running (.enqueue e .HIGH) (.notify k') (some {}) .awake) = 1 := rfl
          omega
      -- it notifies nobody, but nobody is parked
      | LOW =>
          have hnone := total_parked_eq_zero (hlow e rfl)
          omega
  | @dequeue p b e hc =>
      have ht₁ : taking (.running (.dequeue p b) (.act (Call.dequeue p b).action k) o .awake) = 1 :=
        taking_act (by simp [Call.consumes])
      rw [hc, List.length_cons] at hlen
      omega
  | @dump p b hne hc =>
      rw [hc, List.length_nil] at hlen'
      omega
  | @load p r n e hpos hcount hc =>
      have ht₀ : taking (.running (.load p r n) (.act (Call.load p r n).action k) o .awake) = 0 := rfl
      have hnot : (Call.load p r n : Call T).notifies := trivial
      obtain ⟨k', rfl⟩ := notify_after_act hs hnot ht
      have hn₁ : notifying (.running (.load p r n) (.notify k') (some { elems := e }) .awake) = 1 := rfl
      rw [hc, List.length_append] at hlen'
      -- it notifies once, whatever it has put in, so nobody else may be left parked
      by_cases hone : n = 1
      · omega
      · have hle := total_parked_le_one (hload p r n rfl (by omega))
        exact .inr (.inr ⟨by omega, t, _, k', _, s.setThread_self ..⟩)

/-- A notification: one call less that has to notify, one more that will come. -/
theorem served_notifyOne (hs : Run ok h s) {t u : ℕ} {c cu : Call T} {k r o ou} (ht : s.threads t = .running c (.notify k) o .awake)
    (hu : s.threads u = .running cu r ou .parked) (hserved : Served s) :
    Served ((s.setThread t (.running c k o .awake)).setThread u (.running cu r ou .woken)) := by
  have htu := State.ne_of_parked ht hu
  obtain ⟨p, k', rfl, -⟩ := waits_for_m_data hs hu (by decide)
  have hu₁ : (s.setThread t (.running c k o .awake)).threads u
      = .running cu (.waitWhile p .m_data k') ou .parked := (s.setThread_of_ne _ (Ne.symm htu)).trans hu
  have hborn : u < (s.setThread t (.running c k o .awake)).born := lt_born hs hu
  -- the notifier has done its duty, the notified call will come
  have hp₁ : (s.setThread t (.running c k o .awake)).total parked + 0 = s.total parked + 0 := by
    have hp := total_setThread (f := parked) (.running c k o .awake) (lt_born hs ht)
    rw [ht] at hp
    exact hp
  have ht₁ : (s.setThread t (.running c k o .awake)).total taking + 0
      = s.total taking + taking (.running c k o .awake) := by
    have htk := total_setThread (f := taking) (.running c k o .awake) (lt_born hs ht)
    rw [ht] at htk
    exact htk
  have hn₁ : (s.setThread t (.running c k o .awake)).total notifying + 1
      = s.total notifying + notifying (.running c k o .awake) := by
    have hn := total_setThread (f := notifying) (.running c k o .awake) (lt_born hs ht)
    rw [ht] at hn
    exact hn
  have hp₂ := total_setThread (f := parked) (.running cu (.waitWhile p .m_data k') ou .woken) hborn
  have ht₂ := total_setThread (f := taking) (.running cu (.waitWhile p .m_data k') ou .woken) hborn
  have hn₂ := total_setThread (f := notifying) (.running cu (.waitWhile p .m_data k') ou .woken) hborn
  rw [hu₁] at hp₂ ht₂ hn₂
  change _ + 1 = _ + 0 at hp₂
  change _ + 0 = _ + 1 at ht₂
  change _ + 0 = _ + 0 at hn₂
  unfold Served
  change _ ∨ s.shared.m_queue.getSize ≤ _ ∨ _
  rcases hserved with hnone | hle | ⟨hone, -⟩
  · omega
  · exact .inr (.inl (by omega))
  · exact .inl (by omega)

/-- **One step keeps the balance.** -/
theorem served_step (hs : Run ok h s) (hstep : Step sem s l s') (hok : NotifiesEnough s l)
    (hserved : Served s) : Served s' := by
  have hi := Inv.reach hs
  cases hstep with
  | @call c σ henter =>
      obtain ⟨hp, ht, hn⟩ := weights_code c none
      have hsize : σ.m_queue = s.shared.m_queue := by
        rcases size_step (Step.call henter) with hsame | ⟨t, d, c', a, k, o, hl, -⟩
        · exact hsame
        · cases hl
      unfold Served
      rw [total_call, total_call, total_call, hsize]
      change _ + parked (.running c (code c) none .awake) = 0 ∨
        _ ≤ _ + taking (.running c (code c) none .awake) + (_ + notifying (.running c (code c) none .awake)) ∨
        _ + parked (.running c (code c) none .awake) ≤ 1 ∧ _
      rw [hp, ht, hn]
      rcases hserved with hnone | hle | ⟨hone, u, c', k, o, hu⟩
      · exact .inl hnone
      · exact .inr (.inl hle)
      · exact .inr (.inr ⟨hone, u, c', k, o, (s.setThread_of_ne _ (Nat.ne_of_lt (lt_born hs hu))).trans hu⟩)
  | lock ht hm =>
      exact hserved.setThread (lt_born hs ht) rfl rfl rfl (Nat.zero_le _)
        (by rw [ht]; exact Nat.zero_le _) (by rw [ht]; rfl)
  | unlock ht hm =>
      exact hserved.setThread (lt_born hs ht) rfl rfl rfl (Nat.zero_le _)
        (by rw [ht]; exact Nat.zero_le _) (by rw [ht]; rfl)
  | branch ht =>
      exact hserved.setThread (lt_born hs ht) rfl rfl rfl (Nat.zero_le _)
        (by rw [ht]; exact Nat.zero_le _) (by rw [ht]; rfl)
  | @pass t c p m k o ht hp =>
      -- it goes from its wait straight to its action
      have hk : taking (.running c k o .awake) = 1 := by
        have hprog := hi.progress t
        rw [Progress, ht] at hprog
        obtain ⟨ph, hf, -⟩ := hprog
        cases ph with
        | ready | acted | empty => exact hf.elim
        | entering =>
            obtain ⟨-, -, hk⟩ := hf
            cases k with
            | act a k' =>
                obtain ⟨hc, rfl, -⟩ := hk
                exact taking_act hc
            | ret | lock | unlock | branch | waitWhile | notify => exact hk.elim
      exact hserved.setThread (lt_born hs ht) rfl rfl rfl (Nat.zero_le _)
        (by rw [ht, hk]; exact Nat.le_refl 1) (by rw [ht]; rfl)
  | @park t c p m k o ht hp hm =>
      -- it only parks on an empty queue
      have hprog := hi.progress t
      rw [Progress, ht] at hprog
      obtain ⟨ph, hf, -⟩ := hprog
      cases ph with
      | ready | acted | empty => exact hf.elim
      | entering =>
          obtain ⟨-, rfl, -⟩ := hf
          have hsize : s.shared.m_queue.getSize = 0 := of_decide_eq_true hp
          refine .inr (.inl ?_)
          show s.shared.m_queue.getSize ≤ _
          rw [hsize]
          exact Nat.zero_le _
  | wake ht =>
      obtain ⟨hw, hpk⟩ := taking_woken hs ht
      refine hserved.setThread (lt_born hs ht) rfl rfl rfl (Nat.zero_le _)
        (by rw [ht, hpk]; exact Nat.zero_le _) ?_
      obtain ⟨p, k, rfl, -⟩ := waits_for_m_data hs ht (by decide)
      rw [ht]
      rfl
  | regain ht hm =>
      exact hserved.setThread (lt_born hs ht) rfl rfl rfl (Nat.zero_le _)
        (by rw [ht]; exact Nat.le_refl 1) (by rw [ht]; rfl)
  | act ht ha => exact served_act hs ht ha hok hserved
  | notifyOne ht hu => exact served_notifyOne hs ht hu hserved
  | @notifyNone t c k o ht hnone =>
      have hp := total_setThread (f := parked) (.running c k o .awake) (lt_born hs ht)
      rw [total_parked_eq_zero hnone, ht] at hp
      have hzero : parked (.running c k o .awake : CallThread T) = 0 := rfl
      exact .inl (by omega)
  | release ht hm => exact hserved
  | ret ht hfree =>
      exact hserved.setThread (lt_born hs ht) rfl rfl rfl (Nat.zero_le _)
        (by rw [ht]; exact Nat.zero_le _) (by rw [ht]; rfl)
  | client hc =>
      unfold Served
      show _ ∨ _ ≤ _ ∨ _
      rw [hc.m_queue]
      exact hserved

/-- The balance holds in the whole run. -/
theorem served_run (hs : Run NotifiesEnough h s) : Served s := by
  induction hs with
  | init => exact .inl rfl
  | step hs hok hstep ih => exact served_step hs hstep hok ih

/-- **No lost wake-up**, in every run whose producers notify enough: when every
call still in progress is parked and has no notification coming, the queue is
empty. -/
theorem no_lost_wakeup (hs : Run NotifiesEnough h s)
    (hall : ∀ t c r o st, s.threads t = .running c r o st → st = .parked) (hpark : ∃ t, s.Parked t) :
    s.shared.m_queue.getSize = 0 := by
  obtain ⟨t, c, r, o, ht⟩ := hpark
  rcases served_run hs with hnone | hle | ⟨-, u, c', k, o', hu⟩
  · -- the parked call counts
    have hone : parked (s.threads t) ≤ s.total parked := le_total (lt_born hs ht)
    rw [ht, hnone] at hone
    exact absurd hone (Nat.not_succ_le_zero 0)
  · -- nobody else is there to come for an element
    have hidle : ∀ u, taking (s.threads u) = 0 ∧ notifying (s.threads u) = 0 := by
      intro u
      cases hu : s.threads u with
      | unborn | done => exact ⟨rfl, rfl⟩
      | running c' r' o' st =>
          cases hall u c' r' o' st hu
          obtain ⟨p, k, rfl, -⟩ := waits_for_m_data hs hu (by decide)
          exact ⟨rfl, rfl⟩
    rw [total_eq_zero fun u _ => (hidle u).1, total_eq_zero fun u _ => (hidle u).2] at hle
    omega
  · exact absurd (hall u _ _ _ _ hu) (by decide)

end

/-- The call is over, or parked. -/
def CallThread.atRest : CallThread T → Bool
  | .running _ _ _ .awake | .running _ _ _ .woken => false
  | _ => true

/-- When all calls are, one in progress is parked. -/
theorem parked_of_atRest {ok : Config T → Label (Call T) → Prop} {h : Heap T} {s : Config T}
    (hs : Run ok h s) (hrest : s.every CallThread.atRest = true) {t : ℕ} {c : Call T} {r o st}
    (ht : s.threads t = .running c r o st) : st = .parked := by
  have hf := hs.every rfl hrest t
  rw [ht] at hf
  cases st with
  | parked => rfl
  | awake | woken => cases hf

/-- A consumer that finds the queue empty again waits, and there is nothing. -/
theorem no_lost_wakeup_parked : ∃ s : Config ℕ, Run NotifiesEnough .empty s ∧ s.Parked 2
    ∧ s.shared.m_queue.getSize = 0 := by
  have hcheck : ∀ {s : Config ℕ}, Run NotifiesEnough .empty s → s.nobodyParked = true →
      ∀ l, NotifiesEnough s l := by
    intro s hs hnone l t d c a k o _ _
    exact ⟨fun _ _ => hs.not_parked hnone, fun _ _ _ _ _ u _ hu => absurd hu (hs.not_parked hnone u)⟩
  have hrun : Run NotifiesEnough .empty _ := Reach.play State.nobodyParked hcheck
    [.call (.enqueue 7 .LOW), .step 0, .step 0, .step 0, .step 0, .act 0 0, .step 0, .step 0, .step 0,
      .call (.dequeue .HIGH .BLOCK), .step 1, .step 1, .step 1, .step 1, .act 1 0, .step 1, .step 1,
      .call (.dequeue .HIGH .BLOCK), .step 2, .step 2, .step 2, .step 2, .step 2]
    .init (by simp [sem, enter]) rfl
  refine ⟨_, hrun, ⟨_, _, _, rfl⟩, no_lost_wakeup hrun ?_ ⟨2, _, _, _, rfl⟩⟩
  exact fun t c r o st ht => parked_of_atRest hrun rfl ht

/-- A LOW `enqueue` leaves a parked consumer where it is, and the element in the
queue. -/
theorem lost_wakeup : ¬ ∀ s : Config ℕ, Run anyStep .empty s →
    (∀ t c r o st, s.threads t = .running c r o st → st = .parked) → (∃ t, s.Parked t) →
    s.shared.m_queue.getSize = 0 := by
  intro hall
  have hrun : Run anyStep (Store.empty : Heap ℕ) _ := Reach.play (fun _ => true) (fun _ _ _ => trivial)
    [.call (.dequeue .HIGH .BLOCK), .step 0, .step 0, .step 0, .step 0, .step 0,
      .call (.enqueue 7 .LOW), .step 1, .step 1, .step 1, .step 1, .act 1 0, .step 1, .step 1, .step 1]
    .init (by simp [sem, enter]) rfl
  have hsize := hall _ hrun (fun t c r o st ht => parked_of_atRest hrun rfl ht) ⟨0, _, _, _, rfl⟩
  exact absurd hsize (by decide)

end JudoEngine.ConcurBlockingQueue
