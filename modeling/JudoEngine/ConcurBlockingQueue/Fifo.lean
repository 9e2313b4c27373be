/-
A `ConcurBlockingQueue` against a sequential FIFO queue.

The order is the one in which the calls take their effect, which the record
keeps: every effect is made by the owner of `m_data`. Against that order the
elements are right in every run (`content_step`); the values are right as long
as no `dump` meets a queue whose size does not fit in the `int32_t` it counts
with (`linearizable`). From 2^31 elements on they are not.
-/
import JudoEngine.ConcurBlockingQueue.Invariants

set_option autoImplicit false

open Monitor Linked Words

namespace JudoEngine.ConcurBlockingQueue

variable {T : Type}

/-! ## The sequential queue

What the queue is for: a list to which elements come at the end and from which they go at the
front. What a call returns is compared with what this list returns, down to the elements of a
chain. -/

/-- What a caller gets: a code or a count, a pointer, and the elements of the
chain it is handed, which it finds between the two pointers that `dump` has stored.
`none` is `nullptr`; an element is never a null pointer. -/
structure Value (T : Type) where
  code : ℤ
  ptr : Option T
  elems : List T

/-- The value in what a call returns. -/
def Ret.value (v : Ret T) : Value T := ⟨v.code, v.ptr, v.elems⟩

/-- A FIFO queue that stores `l` executes a call; `loaded` is what is in the
chain a `load` is given. `none`: it would wait for ever, or the chain does not
have the stated length. -/
def Fifo.step : Call T → (loaded l : List T) → Option (Value T × List T)
  | .enqueue d _, _, l => some (⟨0, none, []⟩, l ++ [d])
  | .dequeue _ .BLOCK, _, [] => none
  | .dequeue _ .NONBLOCK, _, [] => some (⟨0, none, []⟩, [])
  | .dequeue _ _, _, d :: l => some (⟨0, some d, []⟩, l)
  | .dump _ .BLOCK, _, [] => none
  | .dump _ .NONBLOCK, _, [] => some (⟨0, none, []⟩, [])
  | .dump _ _, _, d :: l => some (⟨(d :: l).length, none, d :: l⟩, [])
  | .load _ _ n, loaded, l =>
      if n ≤ 0 then some (⟨-1, none, []⟩, l)
      else if (loaded.length : ℤ) = n then some (⟨0, none, loaded⟩, l ++ loaded)
      else none

/-- Executing the calls of the effects in order, a FIFO queue that was empty
returns what they returned and stores `l`. -/
inductive Replay : List (Effect T) → List T → Prop
  | nil : Replay [] []
  | snoc {es e l l'} (hes : Replay es l)
      (he : Fifo.step e.call e.ret.elems l = some (e.ret.value, l')) : Replay (es ++ [e]) l'

/-- The queue that has executed the calls is determined by them. -/
theorem Replay.unique {es : List (Effect T)} {l l' : List T} (h : Replay es l)
    (h' : Replay es l') : l = l' := by
  induction h generalizing l' with
  | nil =>
      generalize hes : ([] : List (Effect T)) = es at h'
      cases h' with
      | nil => rfl
      | snoc => simp at hes
  | @snoc es e l₁ l₂ hes he ih =>
      generalize hes' : es ++ [e] = es' at h'
      cases h' with
      | nil => simp at hes'
      | snoc hes₁ he₁ =>
          obtain ⟨rfl, hlast⟩ := List.append_inj' hes' rfl
          cases hlast
          cases ih hes₁
          rw [he] at he₁
          exact (Prod.mk.inj (Option.some.inj he₁)).2

/-- The last call that was executed. -/
theorem Replay.last {es : List (Effect T)} {e : Effect T} {l : List T} (h : Replay (es ++ [e]) l) :
    ∃ l₀, Replay es l₀ ∧ Fifo.step e.call e.ret.elems l₀ = some (e.ret.value, l) := by
  generalize hes : es ++ [e] = es' at h
  cases h with
  | nil => simp at hes
  | snoc hes₁ he₁ =>
      obtain ⟨rfl, hlast⟩ := List.append_inj' hes rfl
      cases hlast
      exact ⟨_, hes₁, he₁⟩

/-- Every call in the order has been executed after those before it. -/
theorem Replay.split {es : List (Effect T)} {e : Effect T} (es' : List (Effect T)) {l : List T}
    (h : Replay (es ++ e :: es') l) :
    ∃ l₀ l₁, Replay es l₀ ∧ Fifo.step e.call e.ret.elems l₀ = some (e.ret.value, l₁) := by
  induction es' using List.reverseRecOn generalizing l with
  | nil =>
      obtain ⟨l₀, h₀, he⟩ := h.last
      exact ⟨l₀, l, h₀, he⟩
  | append_singleton es' e' ih =>
      rw [← List.cons_append, ← List.append_assoc] at h
      obtain ⟨l₀, h₀, -⟩ := h.last
      exact ih h₀

/-! ## What a step is to the elements

Here the count in 32 bits plays no part, since the elements are where the nodes are. So this
much is true in every run. -/

section

variable {ok : Config T → Label (Call T) → Prop} {h : Heap T} {s s' : Config T} {l : Label (Call T)}

/-- The call `c` did not block and saw an empty queue: it leaves with nothing,
and the queue is as it was. -/
structure SawEmpty (s s' : Config T) (t : ℕ) (c : Call T) (v : Ret T) : Prop where
  nonblock : c.consumes = some .NONBLOCK
  ret : v = {}
  shared : s'.shared = s.shared
  test : ∃ p x y o, s.threads t = .running c (.branch p x y) o .awake ∧ test p s.shared = true

/-- What a step adds to the effects, and what that is to the elements in the
queue: nothing, or one effect of the call that takes the step, which acts on
the queue or has seen that it is empty. -/
inductive ContentStep (s s' : Config T) (l : Label (Call T)) : Prop
  | none (heff : effects s' = effects s) (hc : s'.shared.content = s.shared.content)
  | effect {t c v} (ht : l.actor = some t) (heff : effects s' = effects s ++ [⟨t, c, v⟩])
      (hc : Shared.Acted s.shared s'.shared c v
          ∧ (∃ k o, s.threads t = .running c (.act c.action k) o .awake)
        ∨ SawEmpty s s' t c v)

/-- **The elements are right in every step of every run.** -/
theorem content_step (hs : Run ok h s) (hstep : Step sem s l s') : ContentStep s s' l := by
  have hi := Inv.reach hs
  cases hstep with
  | lock | unlock | wake | regain | notifyOne | notifyNone | release | ret => exact .none rfl rfl
  | @call c σ henter =>
      refine .none rfl ?_
      cases c with
      | enqueue | dequeue | dump => exact congrArg _ henter
      | load p r n =>
          by_cases hn : n ≤ 0
          · exact congrArg Shared.content (by simpa [sem, enter, hn] using henter)
          · simp only [sem, enter, if_neg hn] at henter
            show σ.content = _
            rw [henter.2]
            rfl
  | client hc => exact .none rfl (hi.shared.content_client hc)
  | @branch t c p x y o ht =>
      cases hp : sem.test p s.shared with
      | false =>
          refine .none ?_ rfl
          rw [effects_record]
          exact List.append_nil _
      | true =>
          cases hc : c.consumes with
          | some b =>
              cases b with
              -- only here does a test have an effect: the call has found nothing and is over
              | NONBLOCK =>
                  refine .effect rfl ?_ (.inr ⟨hc, rfl, rfl, p, x, y, o, ht, hp⟩)
                  rw [effects_record]
                  simp only [effect?, hc, if_true, Option.toList]
                  rfl
              | BLOCK =>
                  refine .none ?_ rfl
                  rw [effects_record]
                  simp only [effect?, hc, Option.some.injEq, reduceCtorEq, if_false, Option.toList]
                  exact List.append_nil _
          | none =>
              refine .none ?_ rfl
              rw [effects_record]
              simp only [effect?, hc, reduceCtorEq, if_false, Option.toList]
              exact List.append_nil _
  | pass ht hp =>
      refine .none ?_ rfl
      rw [effects_record]
      exact List.append_nil _
  | @park t c p m k o ht hp hm =>
      refine .none ?_ rfl
      have hprog := hi.progress t
      rw [Progress, ht] at hprog
      obtain ⟨ph, hf, -⟩ := hprog
      -- whoever parks has come to stay, so finding the queue empty is no effect
      have hc : c.consumes = some .BLOCK := by
        cases ph with
        | entering => exact hf.1
        | ready | acted | empty => exact hf.elim
      rw [effects_record]
      simp only [effect?, hc, Option.some.injEq, reduceCtorEq, if_false, Option.toList]
      exact List.append_nil _
  | @act t c a k o d σ' v ht ha =>
      obtain ⟨rfl, -⟩ := hi.before_act ht
      obtain ⟨-, -, hacted⟩ := hi.acted ht ha
      refine .effect rfl ?_ (.inl ⟨hacted, k, o, ht⟩)
      rw [effects_record]
      rfl

/-- What an effect is to the elements in the queue, whatever it counts. -/
def Effect.apply (e : Effect T) (l : List T) : List T :=
  match e.call with
  | .enqueue d _ => l ++ [d]
  | .dequeue _ _ => if e.ret.ptr.isSome then l.tail else l
  | .dump _ _ => l.drop e.ret.elems.length
  | .load _ _ _ => l ++ e.ret.elems

/-- The queue stores what the effects so far have left in it, in every run. -/
theorem content_effects (hs : Run ok h s) :
    s.shared.content = (effects s).foldl (fun l e => e.apply l) [] := by
  induction hs with
  | init => rfl
  | step hs _ hstep ih =>
      cases content_step hs hstep with
      | none heff hc => rw [heff, hc, ih]
      | @effect t c v ht heff hc =>
          rw [heff, List.foldl_append, ← ih]
          rcases hc with ⟨hacted, -⟩ | hsaw
          · cases hacted with
            | enqueue hc => exact hc
            | dequeue hc => rw [hc]; rfl
            | dump hne hc => rw [hc]; exact (List.drop_length).symm
            | load hpos hlen hc => exact hc
          · have hnb := hsaw.nonblock
            rw [hsaw.shared, hsaw.ret]
            cases c with
            | dequeue | dump => rfl
            | enqueue | load => cases hnb

/-- The codes and counts are 32 bits wide. -/
theorem Shared.Acted.code_mem {σ σ' : Shared T} {c : Call T} {v : Ret T}
    (hacted : Shared.Acted σ σ' c v) : InInt32 v.code := by
  have hzero : InInt32 0 := by decide
  cases hacted with
  | dump =>
      dsimp only
      exact toInt32_mem _
  | enqueue | dequeue | load => exact hzero

/-- So are those in the order. -/
theorem code_mem (hs : Run ok h s) : ∀ e ∈ effects s, InInt32 e.ret.code := by
  induction hs with
  | init => exact fun e he => absurd he List.not_mem_nil
  | step hs _ hstep ih =>
      cases content_step hs hstep with
      | none heff =>
          rw [heff]
          exact ih
      | effect ht heff hc =>
          intro e he
          rw [heff, List.mem_append, List.mem_singleton] at he
          rcases he with he | rfl
          · exact ih e he
          · rcases hc with ⟨hacted, -⟩ | hsaw
            · exact hacted.code_mem
            · rw [hsaw.ret]
              exact ⟨by norm_num, by norm_num⟩

/-- The steps of one call add only effects of this call. -/
theorem effects_by {t : ℕ} (hs : Run anyStep h s) (hsteps : Steps sem (By t) s s') :
    ∃ es, effects s' = effects s ++ es ∧ ∀ e ∈ es, e.thread = t := by
  induction hsteps with
  | refl => exact ⟨[], (List.append_nil _).symm, fun e he => absurd he List.not_mem_nil⟩
  | tail hsteps hl hstep ih =>
      obtain ⟨es, heq, hes⟩ := ih
      cases content_step (hsteps.reach hs) hstep with
      | none heff => exact ⟨es, heff.trans heq, hes⟩
      | @effect u c v hu heff =>
          refine ⟨es ++ [⟨u, c, v⟩], by rw [heff, heq, List.append_assoc], fun e he => ?_⟩
          rcases List.mem_append.mp he with he | he
          · exact hes e he
          · rw [List.mem_singleton.mp he]
            exact Option.some.inj (hu.symm.trans hl)

/-- A call that had no effect and has returned by itself has added just the one
effect that it returns. -/
theorem effects_solo {t : ℕ} (hs : Run anyStep h s) (hsteps : Steps sem (By t) s s')
    (hnone : effectsOf s t = []) {c : Call T} {v : Option (Ret T)} (hdone : s'.threads t = .done c v)
    (hload : ∀ p r n, c ≠ .load p r n) : ∃ v', v = some v' ∧ effects s' = effects s ++ [⟨t, c, v'⟩] := by
  obtain ⟨es, heq, hes⟩ := effects_by hs hsteps
  have hp := (Inv.reach (hsteps.reach hs)).progress t
  rw [Progress, hdone] at hp
  rcases hp with ⟨v', rfl, heff⟩ | ⟨⟨p, r, n, hc, -⟩, -⟩
  · refine ⟨v', rfl, ?_⟩
    rw [effectsOf, heq, List.filter_append] at heff
    rw [effectsOf] at hnone
    rw [hnone, List.nil_append, List.filter_eq_self.mpr (by simpa using hes)] at heff
    rw [heq, heff]
  · exact absurd hc (hload p r n)

/-! ## The values

A code or a count is right when the size that it was computed from fits. The condition is on
the steps, and the induction on the run. -/

/-- No `dump` tests, or hands out, a queue whose size does not fit in its
`int32_t`: the condition on the steps of a run. -/
def DumpsFit (s : Config T) (l : Label (Call T)) : Prop :=
  ∀ t c r o st, l.actor = some t → s.threads t = .running c r o st →
    ((∃ x y, r = .branch .narrowed x y) ∨ ∃ k, r = .act .dump k) →
    s.shared.m_queue.getSize < 2 ^ 31

/-- A size that fits is what it is cut to. -/
theorem toInt32_of_lt {n : ℕ} (hn : n < 2 ^ 31) : toInt32 n = n := by
  refine toInt32_of_mem ?_
  unfold InInt32
  omega

/-- Such a call that gives up does so on an empty queue. -/
theorem SawEmpty.content_nil (hi : Inv s) (hfit : DumpsFit s l) {t : ℕ} {c : Call T} {v : Ret T}
    (ht : l.actor = some t) (hsaw : SawEmpty s s' t c v) : s.shared.content = [] := by
  obtain ⟨p, x, y, o, hth, htest⟩ := hsaw.test
  have hsize : s.shared.m_queue.getSize = 0 := by
    cases p with
    | getSize => simpa [ConcurBlockingQueue.test] using htest
    | narrowed =>
        have hlt := hfit t c _ o _ ht hth (.inl ⟨x, y, rfl⟩)
        simp only [ConcurBlockingQueue.test, toInt32_of_lt hlt, decide_eq_true_eq] at htest
        omega
  rw [← hi.shared.length_content] at hsize
  exact List.length_eq_zero_iff.mp hsize

/-- **One step**: the effect that it adds is what the sequential queue does. -/
theorem replay_step (hs : Run ok h s) (hstep : Step sem s l s') (hfit : DumpsFit s l)
    (hr : Replay (effects s) s.shared.content) : Replay (effects s') s'.shared.content := by
  have hi := Inv.reach hs
  -- by what the step is to the elements; an effect is one of the four member functions
  cases content_step hs hstep with
  | none heff hc =>
      rw [heff, hc]
      exact hr
  | @effect t c v ht heff hc =>
      rw [heff]
      refine hr.snoc ?_
      rcases hc with ⟨hacted, k, o, hth⟩ | hsaw
      · cases hacted with
        | enqueue hc => rw [hc]; rfl
        | @dequeue p b d hc => rw [hc]; cases b <;> rfl
        | @dump p b hne hc =>
            have hlt := hfit t _ _ o _ ht hth (.inr ⟨k, rfl⟩)
            rw [← hi.shared.length_content] at hlt
            simp only [toInt32_of_lt hlt, hc]
            obtain ⟨d, l, hl⟩ := List.exists_cons_of_ne_nil hne
            rw [hl]
            cases b <;> rfl
        | @load p r n l hpos hlen hc =>
            rw [hc]
            simp only [Fifo.step, if_neg (by omega : ¬ n ≤ 0), if_pos hlen]
            rfl
      · rw [hsaw.shared, hsaw.content_nil hi hfit ht, hsaw.ret]
        have hnb := hsaw.nonblock
        cases c with
        | dequeue p b => cases hnb; rfl
        | dump p b => cases hnb; rfl
        | enqueue | load => cases hnb

/-- What is asked of a configuration: the calls, in the order of their effects,
are those of a FIFO queue that returns the same values and stores what the
linked queue stores; a call that has returned is in that order once, with the
value that it returned, unless it was a `load` of nothing; only the owner of
`m_data` is about to touch the queue, and a `dequeue` only when there is
something in it; a null pointer or a zero comes from a call that does not block
and saw an empty queue; and what has returned owns no mutex. -/
structure Linearizable (s : Config T) : Prop where
  replay : Replay (effects s) s.shared.content
  rep : Queue.Rep s.shared.heap s.shared.m_queue s.shared.content
  returned : ∀ t c v, s.threads t = .done c v → ∃ v', v = some v' ∧
    (effectsOf s t = [⟨t, c, v'⟩]
      ∨ effectsOf s t = [] ∧ (∃ p r n, c = .load p r n ∧ n ≤ 0) ∧ v'.value = ⟨-1, none, []⟩)
  running : ∀ t c r o st, s.threads t = .running c r o st →
    effectsOf s t = [] ∨ ∃ v, effectsOf s t = [⟨t, c, v⟩]
  unborn : ∀ t, s.threads t = .unborn → effectsOf s t = []
  guarded : ∀ t c r o, s.threads t = .running c r o .awake →
    ((∃ p x y, r = .branch p x y) ∨ (∃ p m k, r = .waitWhile p m k) ∨ ∃ a k, r = .act a k) →
    s.owner .m_data = some t
  dequeue : ∀ t c k o st, s.threads t = .running c (.act .dequeue k) o st →
    s.shared.m_queue.getSize ≠ 0
  empty : ∀ es e es', effects s = es ++ e :: es' →
    ((∃ p b, e.call = .dequeue p b) ∧ e.ret.ptr = none ∨ (∃ p b, e.call = .dump p b) ∧ e.ret.code = 0) →
    e.call.consumes = some .NONBLOCK ∧ Replay es []
  released : ∀ t c v, s.threads t = .done c v → ∀ m, s.owner m ≠ some t

/-- A FIFO queue answers with nothing only when it is empty and the call does
not block. -/
theorem Fifo.step_nothing {c : Call T} {loaded l l' : List T} {v : Value T}
    (hstep : Fifo.step c loaded l = some (v, l'))
    (hv : (∃ p b, c = .dequeue p b) ∧ v.ptr = none ∨ (∃ p b, c = .dump p b) ∧ v.code = 0) :
    c.consumes = some .NONBLOCK ∧ l = [] := by
  rcases hv with ⟨⟨p, b, rfl⟩, hv⟩ | ⟨⟨p, b, rfl⟩, hv⟩
  · cases l with
    | nil =>
        cases b with
        | BLOCK => cases hstep
        | NONBLOCK => exact ⟨rfl, rfl⟩
    | cons d l =>
        cases b <;> cases hstep <;> cases hv
  · cases l with
    | nil =>
        cases b with
        | BLOCK => cases hstep
        | NONBLOCK => exact ⟨rfl, rfl⟩
    | cons d l =>
        have hlen : ((d :: l).length : ℤ) = 0 := by
          cases b <;> cases hstep <;> exact hv
        simp only [List.length_cons] at hlen
        omega

/-- The sequential queue keeps up with the whole run. -/
theorem replay_run (hs : Run DumpsFit h s) : Replay (effects s) s.shared.content := by
  induction hs with
  | init => exact .nil
  | step hs hok hstep ih => exact replay_step hs hstep hok ih

/-- **A `ConcurBlockingQueue` is a linearizable FIFO queue** in every run in
which its `dump`s can count. -/
theorem linearizable (hs : Run DumpsFit h s) : Linearizable s := by
  have hi := Inv.reach hs
  have hreplay := replay_run hs
  refine ⟨hreplay, hi.shared.rep, ?_, ?_, ?_, ?_, ?_, ?_, ?_⟩
  · -- a call that has returned has had one effect, or was a `load` of nothing
    intro t c v ht
    have hp := hi.progress t
    rw [Progress, ht] at hp
    -- the call that returned has acted, has seen an empty queue, or was a `load` of nothing
    rcases hp with ⟨v', rfl, heff⟩ | ⟨hload, rfl, heff⟩
    · exact ⟨v', rfl, .inl heff⟩
    · exact ⟨_, rfl, .inr ⟨heff, hload, rfl⟩⟩
  · intro t c r o st ht
    have hp := hi.progress t
    rw [Progress, ht] at hp
    obtain ⟨ph, -, hr⟩ := hp
    cases ph with
    | entering | ready => exact .inl hr.1
    | acted =>
        obtain ⟨v, -, heff, -⟩ := hr
        exact .inr ⟨v, heff⟩
    | empty => exact .inr ⟨_, hr⟩
  · intro t ht
    have hp := hi.progress t
    rw [Progress, ht] at hp
    exact hp
  · rintro t c r o ht (⟨p, x, y, rfl⟩ | ⟨p, m, k, rfl⟩ | ⟨a, k, rfl⟩)
    · exact owner_of_branch hs ht
    · exact owner_of_waitWhile hs ht
    · exact owner_of_act hs ht
  · intro t c k o st ht
    obtain ⟨hac, -, -, hsight, -⟩ := hi.before_act ht
    refine hsight ?_
    cases c with
    | dequeue | dump => simp [Call.consumes]
    | enqueue | load => cases hac
  · -- an effect that counts nothing leaves the queue as it is
    intro es e es' heq hv
    rw [heq] at hreplay
    obtain ⟨l₀, l₁, hes, he⟩ := hreplay.split es'
    obtain ⟨hc, rfl⟩ := Fifo.step_nothing he hv
    exact ⟨hc, hes⟩
  · exact fun t c v ht => released hs ht

/-- Two elements go through the queue, and a `dump` takes them: it stores where the first
and the last node are. -/
theorem linearizable_enqueue_dump : ∃ s : Config ℕ, Run DumpsFit .empty s ∧ Linearizable s
    ∧ ∃ v, s.threads 2 = .done (.dump .HIGH .BLOCK) (some v) ∧ v.head = some 0 ∧ v.tail = some 1 ∧ v.elems = [7, 8] := by
  have hfit : ∀ {s : Config ℕ}, Run DumpsFit .empty s → decide (s.shared.m_queue.getSize < 3) = true →
      ∀ l, DumpsFit s l := by
    intro s _ hlt l t c r o st _ _ _
    have hlt := of_decide_eq_true hlt
    omega
  have hrun : Run DumpsFit .empty _ := Reach.play (fun s => decide (s.shared.m_queue.getSize < 3)) hfit
    [.call (.enqueue 7 .HIGH), .step 0, .step 0, .step 0, .act 0 0, .step 0, .step 0, .step 0,
      .call (.enqueue 8 .LOW), .step 1, .step 1, .step 1, .step 1, .act 1 1, .step 1, .step 1, .step 1,
      .call (.dump .HIGH .BLOCK), .step 2, .step 2, .step 2, .step 2, .act 2 0, .step 2, .step 2]
    .init (by simp [sem, enter]) rfl
  exact ⟨_, hrun, linearizable hrun, _, rfl, rfl, rfl, rfl⟩

/-! ## A count that does not fit

The queue is filled by calls that run one after the other, up to any length. The next dump
then shows what it counts. -/

/-- Every call that has been made has returned. -/
structure Quiescent (s : Config T) : Prop where
  owner : ∀ m, s.owner m = none
  threads : ∀ t c r o st, s.threads t ≠ .running c r o st

/-- A call that is handed nothing changes nothing when it begins. -/
theorem enter_self {c : Call T} (hload : ∀ p r n, c ≠ .load p r n) (t : ℕ) (σ : Shared T) : enter c t σ σ := by
  cases c with
  | load p r n => exact absurd rfl (hload p r n)
  | enqueue | dequeue | dump => rfl

/-- A call that cannot wait and is handed nothing can be made and run to its
end when no other call is in progress. -/
theorem Quiescent.run (hs : Run anyStep h s) (hq : Quiescent s) {c : Call T}
    (hload : ∀ p r n, c ≠ .load p r n) (hwaits : ¬ Waits (code c)) :
    ∃ s' v, Run anyStep h s' ∧ Quiescent s' ∧ effects s' = effects s ++ [⟨s.born, c, v⟩] := by
  -- nobody holds a mutex, so the new call runs alone until it returns or waits, and it does not
  -- wait
  have hcall : Step sem s (.call c) _ := Step.call (enter_self hload s.born s.shared)
  have hs₁ := hs.step trivial hcall
  have hnone : effectsOf s s.born = [] := by
    have hp := (Inv.reach hs).progress s.born
    rw [Progress, (hs.unborn_iff s.born).mpr (Nat.le_refl _)] at hp
    exact hp
  obtain ⟨s', hsteps, hend⟩ := solo locked_code (fun hs _ _ _ _ _ ht => (Inv.reach hs).act_enabled ht)
    (code c) hs₁ (s.setThread_self ..) (fun m _ => .inl (hq.owner m))
  have hs' := hsteps.reach hs₁
  have hsolo := Solo.of_steps hsteps
  obtain ⟨v, hdone⟩ := hend.resolve_right fun hw => hwaits hw.1
  obtain ⟨v', rfl, heff⟩ := effects_solo hs₁ hsteps hnone hdone hload
  refine ⟨s', v', hs', ⟨fun m => ?_, fun t c' r o st ht => ?_⟩, heff⟩
  · refine hsolo.owner_none (.inl (hq.owner m)) fun hm => ?_
    exact released hs' hdone m hm
  · by_cases htb : t = s.born
    · rw [htb, hdone] at ht
      cases ht
    · rcases hsolo.others t htb with hsame | ⟨c₀, r₀, o₀, hpark, -⟩
      · rw [hsame] at ht
        exact hq.threads t _ _ _ _ ((s.setThread_of_ne _ htb).symm.trans ht)
      · exact hq.threads t _ _ _ _ ((s.setThread_of_ne _ htb).symm.trans hpark)

/-- Such a call does what its script does with nobody else there. -/
theorem Quiescent.alone (hs : Run anyStep h s) (hq : Quiescent s) {c : Call T} (hload : ∀ p r n, c ≠ .load p r n)
    {d : ℕ} {σ : Shared T} {v : Option (Ret T)} (halone : (code c).alone sem s.born d s.shared none = some (σ, v)) :
    ∃ s', Run anyStep h s' ∧ s'.threads s.born = .done c v ∧ s'.shared = σ := by
  have hcall : Step sem s (.call c) _ := Step.call (enter_self hload s.born s.shared)
  have hs₁ := hs.step trivial hcall
  obtain ⟨s', hsteps, hdone, hshared⟩ :=
    runs_alone locked_code (code c) hs₁ (s.setThread_self ..) (fun m _ => .inl (hq.owner m)) halone
  exact ⟨s', hsteps.reach hs₁, hdone, hshared⟩

/-- The queue can hold any number of elements, with no call in progress. -/
theorem exists_length [Inhabited T] (h : Heap T) (n : ℕ) :
    ∃ s : Config T, Run anyStep h s ∧ Quiescent s ∧ s.shared.content.length = n := by
  induction n with
  | zero => exact ⟨.init (.new h), .init, ⟨fun _ => rfl, fun _ _ _ _ _ ht => by cases ht⟩, rfl⟩
  | succ n ih =>
      obtain ⟨s, hs, hq, hlen⟩ := ih
      obtain ⟨s', v, hs', hq', heff⟩ := hq.run hs (c := .enqueue default .HIGH)
        (fun _ _ _ hc => by cases hc) (by simp [code, enqueue, Waits])
      refine ⟨s', hs', hq', ?_⟩
      rw [content_effects hs', heff, List.foldl_append, ← content_effects hs]
      simp [Effect.apply, hlen]

/-- With 2^31 elements in the queue a `dump` counts wrongly: no FIFO queue
returns what it returns. -/
theorem not_linearizable : ¬ ∀ s : Config Unit, Run anyStep .empty s → Linearizable s := by
  -- a queue of 2 ^ 31 requests is filled by calls that each return before the next one begins; the
  -- dump after them returns a count that is no int
  intro hall
  obtain ⟨s, hs, hq, hlen⟩ := exists_length (Store.empty : Heap Unit) (2 ^ 31)
  obtain ⟨s', v, hs', hq', heff⟩ := hq.run hs (c := .dump .HIGH .NONBLOCK)
    (fun _ _ _ hc => by cases hc) (by simp [code, dump, Waits])
  have hreplay := (hall s' hs').replay
  rw [heff] at hreplay
  obtain ⟨l, hl, hstep⟩ := hreplay.last
  have hcode := code_mem hs' ⟨s.born, .dump .HIGH .NONBLOCK, v⟩ (by rw [heff]; simp)
  rw [hl.unique (hall s hs).replay] at hstep
  have hne : s.shared.content ≠ [] := by
    intro hnil
    rw [hnil] at hlen
    simp at hlen
  obtain ⟨d, l', hd⟩ := List.exists_cons_of_ne_nil hne
  rw [hd, Fifo.step] at hstep
  have hv := (Prod.mk.inj (Option.some.inj hstep)).1
  have hcount : v.code = ((d :: l').length : ℤ) := (congrArg Value.code hv).symm
  rw [← hd, hlen] at hcount
  unfold InInt32 at hcode
  simp only [hcount] at hcode
  norm_num at hcode

end

end JudoEngine.ConcurBlockingQueue
