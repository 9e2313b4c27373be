/-
Programs of several threads that share mutexes.

Every call is a `Prog` of its own and every operation is one step, so a run is any
interleaving of the operations of any number of calls. A call waits only where it takes
a mutex that another one holds; whatever else it asks for is answered in any way. A
thread that makes several calls is several numbers here, one for each call; that only
adds interleavings.

What is proved once for all programs is that a critical section is not cut into: if
every call does a kind of operation only between taking and giving back one mutex, once
in its life, then in the record of all calls the operations of that kind stand call by
call, in the order in which the mutex was taken (`Reach.contiguous`).
-/
import JudoEngine.Lib.Prog
import Mathlib.Logic.Function.Basic

set_option autoImplicit false

namespace Prog

variable {Op : Type} {Ans : Op → Type} {α : Type}

/-! ## A part of a run

A program that has not returned is a program that is left to be run. -/

/-- After the record `tr`, the program has `q` left. -/
def Leads : Prog Op Ans α → List (Event Op Ans) → Prog Op Ans α → Prop
  | p, [], q => p = q
  | p, ev :: tr, q => ∃ k, p = call ev.op k ∧ Leads (k ev.ans) tr q

/-- One operation more. -/
theorem Leads.snoc {o : Op} {k : Ans o → Prog Op Ans α} (x : Ans o) {tr : List (Event Op Ans)} :
    ∀ {p : Prog Op Ans α}, Leads p tr (call o k) → Leads p (tr ++ [⟨o, x⟩]) (k x) := by
  induction tr with
  | nil => exact fun hp => ⟨k, hp, rfl⟩
  | cons ev tr ih =>
      rintro p ⟨k', hp, hrest⟩
      exact ⟨k', hp, ih hrest⟩

/-- Going on from there to the end is a run. -/
theorem Leads.runs {q : Prog Op Ans α} {a : α} {tr tr' : List (Event Op Ans)} :
    ∀ {p : Prog Op Ans α}, Leads p tr q → Runs q tr' a → Runs p (tr ++ tr') a := by
  induction tr with
  | nil =>
      rintro p rfl hruns
      exact hruns
  | cons ev tr ih =>
      rintro p ⟨k, rfl, hrest⟩ hruns
      exact ⟨ev.ans, tr ++ tr', rfl, ih hrest hruns⟩

/-- A whole run leads to the end. -/
theorem Runs.leads {a : α} {tr : List (Event Op Ans)} : ∀ {p : Prog Op Ans α}, Runs p tr a → Leads p tr (ret a) := by
  induction tr with
  | nil =>
      intro p hruns
      cases p with
      | ret b => exact congrArg ret hruns.2
      | call o k =>
          obtain ⟨x, tr', htr, -⟩ := hruns
          cases htr
  | cons ev tr ih =>
      intro p hruns
      cases p with
      | ret b => cases hruns.1
      | call o k =>
          obtain ⟨x, tr', htr, hrest⟩ := hruns
          cases htr
          exact ⟨k, rfl, ih hrest⟩

/-- What is left only asks for what the whole asks for. -/
theorem Leads.only {P : Op → Prop} {q : Prog Op Ans α} {tr : List (Event Op Ans)} :
    ∀ {p : Prog Op Ans α}, Leads p tr q → Only P p → Only P q := by
  induction tr with
  | nil =>
      rintro p rfl hp
      exact hp
  | cons ev tr ih =>
      rintro p ⟨k, rfl, hrest⟩ hp
      exact ih hrest (hp.2 ev.ans)

/-- Every program has a run, if every operation has an answer. -/
theorem exists_runs [∀ o, Inhabited (Ans o)] (p : Prog Op Ans α) : ∃ tr a, Runs p tr a :=
  ⟨_, _, runs_exec (h := fun _ _ => (default, ())) p ()⟩

end Prog

namespace Threads

open Prog

variable {Op : Type} {Ans : Op → Type} {α : Type}

/-! ## Steps

A step is an operation of any call. Mutexes are the only thing that may be in its way. -/

/-- Which operations take a mutex, and which give one back. -/
structure Locks (Op : Type) where
  takes : Op → Option ℕ
  gives : Op → Option ℕ

/-- What every call has left to do, who holds which mutex, and what has been done. -/
structure Pool (Op : Type) (Ans : Op → Type) (α : Type) where
  left : ℕ → Prog Op Ans α
  holder : ℕ → Option ℕ
  log : List (ℕ × Event Op Ans)

variable {L : Locks Op} {m : ℕ} {watched : Op → Bool} {s s' : Pool Op Ans α}

/-- Who holds the mutexes after an operation of call `t`. -/
def Locks.after (L : Locks Op) (t : ℕ) (o : Op) (holder : ℕ → Option ℕ) : ℕ → Option ℕ := fun m =>
  if L.takes o = some m then some t else if L.gives o = some m then none else holder m

/-- One operation of one call. -/
inductive Step (L : Locks Op) (s : Pool Op Ans α) : Pool Op Ans α → Prop where
  | step (t : ℕ) (o : Op) (k : Ans o → Prog Op Ans α) (x : Ans o) (hleft : s.left t = call o k)
      (hfree : ∀ m, L.takes o = some m → s.holder m = none) :
      Step L s ⟨Function.update s.left t (k x), L.after t o s.holder, s.log ++ [(t, ⟨o, x⟩)]⟩

/-- What can come of these calls. -/
inductive Reach (L : Locks Op) (calls : ℕ → Prog Op Ans α) : Pool Op Ans α → Prop where
  | start : Reach L calls ⟨calls, fun _ => none, []⟩
  | step {s s' : Pool Op Ans α} (h : Reach L calls s) (hstep : Step L s s') : Reach L calls s'

/-- The events of call `t`. -/
def mine (t : ℕ) (log : List (ℕ × Event Op Ans)) : List (Event Op Ans) :=
  (log.filter fun e => e.1 = t).map Prod.snd

/-- The events of a kind. -/
def watch (watched : Op → Bool) (tr : List (Event Op Ans)) : List (Event Op Ans) := tr.filter fun ev => watched ev.op

@[simp] theorem mine_snoc_self (t : ℕ) (log : List (ℕ × Event Op Ans)) (ev : Event Op Ans) :
    mine t (log ++ [(t, ev)]) = mine t log ++ [ev] := by
  simp [mine, List.filter_append]

theorem mine_snoc_of_ne {t u : ℕ} (log : List (ℕ × Event Op Ans)) (ev : Event Op Ans) (hu : u ≠ t) :
    mine u (log ++ [(t, ev)]) = mine u log := by
  simp [mine, List.filter_append, Ne.symm hu]

@[simp] theorem watch_append (tr tr' : List (Event Op Ans)) : watch watched (tr ++ tr') = watch watched tr ++ watch watched tr' :=
  List.filter_append ..

/-- What a call has done leads to what it has left. -/
theorem Reach.leads {calls : ℕ → Prog Op Ans α} (h : Reach L calls s) (t : ℕ) : Leads (calls t) (mine t s.log) (s.left t) := by
  induction h with
  | start => rfl
  | step h hstep ih =>
      obtain ⟨u, o, k, x, hleft, hfree⟩ := hstep
      dsimp only
      by_cases htu : t = u
      · subst htu
        rw [hleft] at ih
        rw [mine_snoc_self, Function.update_self]
        exact ih.snoc x
      · rw [mine_snoc_of_ne _ _ htu, Function.update_of_ne htu]
        exact ih

/-! ## Critical sections

Whether a call is before its section, in it or behind it can be seen from what it has left.
The order is that in which the calls have got the mutex. -/

/-- What is left neither uses the mutex nor does an operation of the kind. -/
def Outside (L : Locks Op) (m : ℕ) (watched : Op → Bool) (p : Prog Op Ans α) : Prop :=
  Only (fun o => L.takes o ≠ some m ∧ L.gives o ≠ some m ∧ watched o = false) p

/-- The mutex is held, and given back before the end. -/
def Inside (L : Locks Op) (m : ℕ) (watched : Op → Bool) : Prog Op Ans α → Prop
  | ret _ => False
  | call o k => L.takes o ≠ some m ∧
      ((L.gives o = some m ∧ watched o = false ∧ ∀ x, Outside L m watched (k x))
        ∨ (L.gives o ≠ some m ∧ ∀ x, Inside L m watched (k x)))

/-- A call that begins by taking the mutex, and is a critical section. -/
def Critical (L : Locks Op) (m : ℕ) (watched : Op → Bool) (p : Prog Op Ans α) : Prop :=
  ∃ o k, p = call o k ∧ L.takes o = some m ∧ watched o = false ∧ ∀ x, Inside L m watched (k x)

/-- What keeps off the mutex may stand in the section. -/
theorem Inside.bind {β : Type} {p : Prog Op Ans β} {f : β → Prog Op Ans α}
    (hp : Only (fun o => L.takes o ≠ some m ∧ L.gives o ≠ some m) p) (hf : ∀ b, Inside L m watched (f b)) :
    Inside L m watched (p >>= f) := by
  induction p with
  | ret b => exact hf b
  | call o k ih =>
      obtain ⟨⟨htakes, hgives⟩, hrest⟩ := hp
      exact ⟨htakes, .inr ⟨hgives, fun x => ih x (hrest x)⟩⟩

/-- What comes after a critical section may do anything else. -/
theorem Inside.then {β : Type} {p : Prog Op Ans α} {f : α → Prog Op Ans β} (hp : Inside L m watched p)
    (hf : ∀ a, Outside L m watched (f a)) : Inside L m watched (p >>= f) := by
  induction p with
  | ret a => exact hp.elim
  | call o k ih =>
      obtain ⟨htakes, ⟨hgives, hwatched, hrest⟩ | ⟨hgives, hrest⟩⟩ := hp
      · exact ⟨htakes, .inl ⟨hgives, hwatched, fun x => (hrest x).bind hf⟩⟩
      · exact ⟨htakes, .inr ⟨hgives, fun x => ih x (hrest x)⟩⟩

/-- The same for a call from its beginning. -/
theorem Critical.then {β : Type} {p : Prog Op Ans α} {f : α → Prog Op Ans β} (hp : Critical L m watched p)
    (hf : ∀ a, Outside L m watched (f a)) : Critical L m watched (p >>= f) := by
  obtain ⟨o, k, rfl, htakes, hwatched, hinside⟩ := hp
  exact ⟨o, _, rfl, htakes, hwatched, fun x => (hinside x).then hf⟩

/-- In it the mutex is not taken again. -/
theorem Inside.only {p : Prog Op Ans α} (hp : Inside L m watched p) : Only (fun o => L.takes o ≠ some m) p := by
  induction p with
  | ret a => exact hp.elim
  | call o k ih =>
      obtain ⟨htakes, ⟨-, -, hrest⟩ | ⟨-, hrest⟩⟩ := hp
      · exact ⟨htakes, fun x => (hrest x).mono fun o ho => ho.1⟩
      · exact ⟨htakes, fun x => ih x (hrest x)⟩

/-- The operations of a critical section: the first, ... -/
theorem Critical.take {o : Op} {f : Ans o → Prog Op Ans α} (htakes : L.takes o = some m) (hwatched : watched o = false)
    (hf : ∀ x, Inside L m watched (f x)) : Critical L m watched (op o >>= f) := ⟨o, _, rfl, htakes, hwatched, hf⟩

/-- ... those in it, ... -/
theorem Inside.other {o : Op} {f : Ans o → Prog Op Ans α} (htakes : L.takes o ≠ some m) (hgives : L.gives o ≠ some m)
    (hf : ∀ x, Inside L m watched (f x)) : Inside L m watched (op o >>= f) := ⟨htakes, .inr ⟨hgives, hf⟩⟩

/-- ... and the last. -/
theorem Inside.give {o : Op} {f : Ans o → Prog Op Ans α} (htakes : L.takes o ≠ some m) (hgives : L.gives o = some m)
    (hwatched : watched o = false) (hf : ∀ x, Outside L m watched (f x)) : Inside L m watched (op o >>= f) :=
  ⟨htakes, .inl ⟨hgives, hwatched, hf⟩⟩

/-- Where the calls are: those in `order` have had the mutex, the last of them may have it
still, and the others have not begun. -/
structure Ordered (L : Locks Op) (m : ℕ) (watched : Op → Bool) (s : Pool Op Ans α) (order : List ℕ) : Prop where
  nodup : order.Nodup
  before : ∀ t, t ∉ order → Critical L m watched (s.left t) ∧ mine t s.log = []
  holding : ∀ t, s.holder m = some t → order.getLast? = some t ∧ Inside L m watched (s.left t)
  done : ∀ t ∈ order, s.holder m ≠ some t → Outside L m watched (s.left t)
  log : watch watched (s.log.map Prod.snd) = order.flatMap fun t => watch watched (mine t s.log)

/-- An operation of another kind adds nothing to what is watched. -/
theorem watch_mine_snoc (t : ℕ) (log : List (ℕ × Event Op Ans)) (ev : Event Op Ans) (hev : watched ev.op = false) (u : ℕ) :
    watch watched (mine u (log ++ [(t, ev)])) = watch watched (mine u log) := by
  by_cases hu : u = t
  · subst hu
    rw [mine_snoc_self, watch_append]
    simp [watch, hev]
  · rw [mine_snoc_of_ne _ _ hu]

/-- What the last call of the order does comes last. -/
theorem flatMap_snoc (watched : Op → Bool) {t : ℕ} (log : List (ℕ × Event Op Ans)) (ev : Event Op Ans) {before : List ℕ}
    (hnodup : (before ++ [t]).Nodup) :
    ((before ++ [t]).flatMap fun u => watch watched (mine u (log ++ [(t, ev)])))
      = ((before ++ [t]).flatMap fun u => watch watched (mine u log)) ++ watch watched [ev] := by
  have hout : t ∉ before := by
    intro ht
    exact (List.nodup_append.mp hnodup).2.2 t ht t (List.mem_singleton_self t) rfl
  have hbefore : (before.flatMap fun u => watch watched (mine u (log ++ [(t, ev)])))
      = before.flatMap fun u => watch watched (mine u log) := by
    refine List.flatMap_congr fun u hu => ?_
    rw [mine_snoc_of_ne]
    rintro rfl
    exact hout hu
  rw [List.flatMap_append, List.flatMap_append, hbefore, List.flatMap_singleton, List.flatMap_singleton,
    mine_snoc_self, watch_append, List.append_assoc]

theorem watch_log_snoc (log : List (ℕ × Event Op Ans)) (t : ℕ) (ev : Event Op Ans) :
    watch watched ((log ++ [(t, ev)]).map Prod.snd) = watch watched (log.map Prod.snd) ++ watch watched [ev] := by
  rw [List.map_append, watch_append]
  rfl

/-- The first operation of a call. -/
theorem Ordered.begin {order : List ℕ} (ho : Ordered L m watched s order) {t : ℕ} {o : Op} {k : Ans o → Prog Op Ans α} (x : Ans o)
    (hleft : s.left t = call o k) (hfree : ∀ m, L.takes o = some m → s.holder m = none) (hnew : t ∉ order) :
    Ordered L m watched ⟨Function.update s.left t (k x), L.after t o s.holder, s.log ++ [(t, ⟨o, x⟩)]⟩ (order ++ [t]) := by
  -- it is the one that takes the mutex, so nobody has it and all that have begun are done
  obtain ⟨⟨o', k', hcall, htakes, hwatched, hinside⟩, hmine⟩ := ho.before t hnew
  rw [hleft] at hcall
  cases hcall
  have hnone := hfree m htakes
  have hholder : L.after t o s.holder m = some t := if_pos htakes
  constructor
  · rw [List.nodup_append]
    refine ⟨ho.nodup, by simp, fun a ha b hb hab => hnew ?_⟩
    rw [← List.mem_singleton.mp hb, ← hab]
    exact ha
  · intro u hu
    rw [List.mem_append, List.mem_singleton, not_or] at hu
    dsimp only
    rw [Function.update_of_ne hu.2, mine_snoc_of_ne _ _ hu.2]
    exact ho.before u hu.1
  · intro u hu
    have hut : t = u := Option.some.inj (hholder.symm.trans hu)
    subst hut
    dsimp only
    rw [List.getLast?_concat, Function.update_self]
    exact ⟨rfl, hinside x⟩
  · intro u hu hne
    have hut : u ≠ t := by
      rintro rfl
      exact hne hholder
    have hold : u ∈ order := by simpa [hut] using hu
    dsimp only
    rw [Function.update_of_ne hut]
    exact ho.done u hold (by rw [hnone]; exact (Option.some_ne_none u).symm)
  · have hsame := fun u => watch_mine_snoc t s.log ⟨o, x⟩ hwatched u
    dsimp only
    rw [watch_log_snoc, ho.log]
    simp only [hsame, List.flatMap_append, List.flatMap_singleton, hmine]
    simp [watch, hwatched]

/-- An operation of a call that has begun. -/
theorem Ordered.keep {order : List ℕ} (ho : Ordered L m watched s order) {t : ℕ} {ev : Event Op Ans} {p : Prog Op Ans α}
    {holder : ℕ → Option ℕ} (hmem : t ∈ order)
    (hholding : ∀ u, holder m = some u → s.holder m = some u ∧ (u = t → Inside L m watched p))
    (hdone : ∀ u, holder m ≠ some u → (u = t → Outside L m watched p) ∧ (u ≠ t → s.holder m ≠ some u))
    (hlog : (order.flatMap fun u => watch watched (mine u (s.log ++ [(t, ev)])))
      = (order.flatMap fun u => watch watched (mine u s.log)) ++ watch watched [ev]) :
    Ordered L m watched ⟨Function.update s.left t p, holder, s.log ++ [(t, ev)]⟩ order := by
  refine ⟨ho.nodup, fun u hu => ?_, fun u hu => ?_, fun u hu hne => ?_, ?_⟩
  · have hut : u ≠ t := by
      rintro rfl
      exact hu hmem
    dsimp only
    rw [Function.update_of_ne hut, mine_snoc_of_ne _ _ hut]
    exact ho.before u hu
  · obtain ⟨hold, hinside⟩ := hholding u hu
    obtain ⟨hlast, hleft⟩ := ho.holding u hold
    refine ⟨hlast, ?_⟩
    dsimp only
    -- the call that has done the operation, or another one
    by_cases hut : u = t
    · rw [hut, Function.update_self]
      exact hinside hut
    · rw [Function.update_of_ne hut]
      exact hleft
  · obtain ⟨hself, hother⟩ := hdone u hne
    dsimp only
    by_cases hut : u = t
    · rw [hut, Function.update_self]
      exact hself hut
    · rw [Function.update_of_ne hut]
      exact ho.done u hu (hother hut)
  · dsimp only
    rw [watch_log_snoc, ho.log, hlog]

/-- An operation of the call that has the mutex. -/
theorem Ordered.inside {order : List ℕ} (ho : Ordered L m watched s order) {t : ℕ} {o : Op} {k : Ans o → Prog Op Ans α} (x : Ans o)
    (hleft : s.left t = call o k) (hhold : s.holder m = some t) :
    Ordered L m watched ⟨Function.update s.left t (k x), L.after t o s.holder, s.log ++ [(t, ⟨o, x⟩)]⟩ order := by
  obtain ⟨hlast, hinside⟩ := ho.holding t hhold
  rw [hleft] at hinside
  obtain ⟨htakes, hcase⟩ := hinside
  obtain ⟨before, rfl⟩ := List.getLast?_eq_some_iff.mp hlast
  have hmem : t ∈ before ++ [t] := List.mem_append_right _ (List.mem_singleton_self t)
  have hlog := flatMap_snoc watched s.log ⟨o, x⟩ ho.nodup
  -- the operation gives the mutex back, or t goes on holding it
  rcases hcase with ⟨hgives, -, houtside⟩ | ⟨hgives, hinside⟩
  · have hholder : L.after t o s.holder m = none := by
      unfold Locks.after
      rw [if_neg htakes, if_pos hgives]
    refine ho.keep hmem (fun u hu => ?_) (fun u _ => ⟨fun _ => houtside x, fun hut hu => ?_⟩) hlog
    · rw [hholder] at hu
      exact absurd hu (Option.some_ne_none u).symm
    · exact hut (Option.some.inj (hu.symm.trans hhold))
  · have hholder : L.after t o s.holder m = some t := by
      unfold Locks.after
      rw [if_neg htakes, if_neg hgives, hhold]
    refine ho.keep hmem (fun u hu => ?_) (fun u hu => ⟨fun hut => ?_, fun _ => ?_⟩) hlog
    · rw [hholder] at hu
      exact ⟨hhold.trans hu, fun _ => hinside x⟩
    · exact absurd hholder (hut ▸ hu)
    · rw [hhold, ← hholder]
      exact hu

/-- An operation of a call that has had it. -/
theorem Ordered.outside {order : List ℕ} (ho : Ordered L m watched s order) {t : ℕ} {o : Op} {k : Ans o → Prog Op Ans α} (x : Ans o)
    (hleft : s.left t = call o k) (hmem : t ∈ order) (hhold : s.holder m ≠ some t) :
    Ordered L m watched ⟨Function.update s.left t (k x), L.after t o s.holder, s.log ++ [(t, ⟨o, x⟩)]⟩ order := by
  have houtside := ho.done t hmem hhold
  rw [hleft] at houtside
  obtain ⟨⟨htakes, hgives, hwatched⟩, hrest⟩ := houtside
  have hholder : L.after t o s.holder m = s.holder m := by
    unfold Locks.after
    rw [if_neg htakes, if_neg hgives]
  refine ho.keep hmem (fun u hu => ?_) (fun u hu => ⟨fun _ => hrest x, fun _ => ?_⟩) ?_
  · rw [hholder] at hu
    refine ⟨hu, fun hut => ?_⟩
    rw [hut] at hu
    exact absurd hu hhold
  · rw [← hholder]
    exact hu
  · have hsame := fun u => watch_mine_snoc t s.log ⟨o, x⟩ hwatched u
    simp only [hsame]
    simp [watch, hwatched]

/-- **One step.** -/
theorem Ordered.step {order : List ℕ} (ho : Ordered L m watched s order) (hstep : Step L s s') :
    ∃ order', Ordered L m watched s' order' := by
  obtain ⟨t, o, k, x, hleft, hfree⟩ := hstep
  by_cases hmem : t ∈ order
  · by_cases hhold : s.holder m = some t
    · exact ⟨order, ho.inside x hleft hhold⟩
    · exact ⟨order, ho.outside x hleft hmem hhold⟩
  · exact ⟨order ++ [t], ho.begin x hleft hfree hmem⟩

/-- **Critical sections are not cut into.** -/
theorem Reach.contiguous {calls : ℕ → Prog Op Ans α} (hcalls : ∀ t, Critical L m watched (calls t)) (h : Reach L calls s) :
    ∃ order, Ordered L m watched s order := by
  induction h with
  | start =>
      exact ⟨[], List.nodup_nil, fun t _ => ⟨hcalls t, rfl⟩, fun _ ht => absurd ht (Option.some_ne_none _).symm,
        fun _ ht => absurd ht List.not_mem_nil, rfl⟩
  | step _ hstep ih =>
      obtain ⟨order, ho⟩ := ih
      exact ho.step hstep

/-! ## Who has had the mutex

The order is part of the record: it is that of the operations that take the mutex. -/

/-- The calls that have taken the mutex, in that order. -/
def takers (L : Locks Op) (m : ℕ) (log : List (ℕ × Event Op Ans)) : List ℕ :=
  log.filterMap fun e => if L.takes e.2.op = some m then some e.1 else none

theorem takers_snoc (log : List (ℕ × Event Op Ans)) (t : ℕ) (ev : Event Op Ans) :
    takers L m (log ++ [(t, ev)]) = takers L m log ++ if L.takes ev.op = some m then [t] else [] := by
  rw [takers, List.filterMap_append]
  congr 1
  by_cases h : L.takes ev.op = some m
  · simp [h]
  · simp [h]

/-- Critical sections are not cut into, and come in the order in which the mutex was
taken. -/
theorem Reach.ordered {calls : ℕ → Prog Op Ans α} (hcalls : ∀ t, Critical L m watched (calls t)) (h : Reach L calls s) :
    Ordered L m watched s (takers L m s.log) := by
  induction h with
  | start =>
      exact ⟨List.nodup_nil, fun t _ => ⟨hcalls t, rfl⟩, fun _ ht => absurd ht (Option.some_ne_none _).symm,
        fun _ ht => absurd ht List.not_mem_nil, rfl⟩
  | @step s s' h hstep ih =>
      obtain ⟨t, o, k, x, hleft, hfree⟩ := hstep
      dsimp only
      rw [takers_snoc]
      by_cases hmem : t ∈ takers L m s.log
      · -- it has had the mutex, and does not take it again
        by_cases hhold : s.holder m = some t
        · obtain ⟨-, hinside⟩ := ih.holding t hhold
          rw [hleft] at hinside
          rw [if_neg hinside.1, List.append_nil]
          exact ih.inside x hleft hhold
        · have houtside := ih.done t hmem hhold
          rw [hleft] at houtside
          rw [if_neg houtside.1.1, List.append_nil]
          exact ih.outside x hleft hmem hhold
      · obtain ⟨⟨o', k', hcall, htakes, -⟩, -⟩ := ih.before t hmem
        rw [hleft] at hcall
        cases hcall
        rw [if_pos htakes]
        exact ih.begin x hleft hfree hmem

/-- A call of the order that does not have the mutex has done all that is watched. -/
theorem Ordered.settled {order : List ℕ} (ho : Ordered L m watched s order) {t : ℕ} (ht : t ∈ order)
    (hhold : s.holder m ≠ some t) {tr : List (Event Op Ans)} {a : α} (hruns : Runs (s.left t) tr a) : watch watched tr = [] := by
  have hquiet := (ho.done t ht hhold).of_runs hruns
  rw [watch, List.filter_eq_nil_iff]
  intro ev hev
  rw [(hquiet ev hev).2.2]
  exact Bool.false_ne_true

/-- Only the last call of the order may have the mutex. -/
theorem Ordered.before_last {order before after : List ℕ} {t : ℕ} (ho : Ordered L m watched s order)
    (horder : order = before ++ t :: after) : ∀ u ∈ before, s.holder m ≠ some u := by
  intro u hu hhold
  have hlast := (ho.holding u hhold).1
  have hnodup := ho.nodup
  rw [horder] at hlast hnodup
  rw [List.getLast?_append_of_ne_nil _ (List.cons_ne_nil t after)] at hlast
  exact (List.nodup_append.mp hnodup).2.2 u hu u (List.mem_of_getLast? hlast) rfl

/-- What has been done of a critical section can be gone on with to the end, and then it
is whole calls, in the order in which the mutex was taken. What the rest is answered may
be chosen. -/
theorem Reach.completed {calls : ℕ → Prog Op Ans α} {P : Event Op Ans → Prop} (answer : ∀ o, Ans o)
    (hanswer : ∀ o, P ⟨o, answer o⟩) (hcalls : ∀ t, Critical L m watched (calls t)) (h : Reach L calls s)
    (hlog : ∀ e ∈ s.log, P e.2) : ∃ (whole : ℕ → List (Event Op Ans)) (returned : ℕ → α) (extra : List (Event Op Ans)),
      (∀ t, Runs (calls t) (whole t) (returned t)) ∧ (∀ t, ∀ ev ∈ whole t, P ev)
        ∧ (∀ t a, s.left t = ret a → whole t = mine t s.log ∧ returned t = a)
        ∧ (∀ t ∈ takers L m s.log, s.holder m ≠ some t → watch watched (whole t) = watch watched (mine t s.log))
        ∧ watch watched (s.log.map Prod.snd) ++ extra = (takers L m s.log).flatMap (fun t => watch watched (whole t))
        ∧ ∀ ev ∈ extra, ∃ t, s.holder m = some t ∧ ev ∈ whole t := by
  have ho := h.ordered hcalls
  have hruns : ∀ t, Runs (s.left t) (exec (fun _ o => (answer o, ())) (s.left t) ()).1 _ := fun t => runs_exec _ ()
  have hsettled : ∀ t ∈ takers L m s.log, s.holder m ≠ some t →
      watch watched (mine t s.log ++ (exec (fun _ o => (answer o, ())) (s.left t) ()).1) = watch watched (mine t s.log) := by
    intro t ht hhold
    rw [watch_append, ho.settled ht hhold (hruns t), List.append_nil]
  have hall : ∃ extra, watch watched (s.log.map Prod.snd) ++ extra = (takers L m s.log).flatMap (fun t =>
      watch watched (mine t s.log ++ (exec (fun _ o => (answer o, ())) (s.left t) ()).1))
      ∧ ∀ ev ∈ extra, ∃ t, s.holder m = some t ∧ ev ∈ mine t s.log ++ (exec (fun _ o => (answer o, ())) (s.left t) ()).1 := by
    rw [ho.log]
    cases hhold : s.holder m with
    | none =>
        refine ⟨[], ?_, fun ev hev => absurd hev List.not_mem_nil⟩
        rw [List.append_nil]
        refine List.flatMap_congr fun u hu => (hsettled u hu ?_).symm
        rw [hhold]
        exact (Option.some_ne_none u).symm
    | some t =>
        -- all but the one that has the mutex have done their part
        obtain ⟨before, horder⟩ := List.getLast?_eq_some_iff.mp (ho.holding t hhold).1
        have hbefore := ho.before_last horder
        rw [horder] at hsettled ⊢
        refine ⟨watch watched (exec (fun _ o => (answer o, ())) (s.left t) ()).1, ?_, fun ev hev =>
          ⟨t, rfl, List.mem_append_right _ (List.mem_filter.mp hev).1⟩⟩
        rw [List.flatMap_append, List.flatMap_append, List.flatMap_singleton, List.flatMap_singleton, watch_append,
          List.append_assoc]
        exact congrArg (· ++ _) (List.flatMap_congr fun u hu => (hsettled u (List.mem_append_left _ hu) (hbefore u hu)).symm)
  obtain ⟨extra, hextra, hmem⟩ := hall
  refine ⟨fun t => mine t s.log ++ (exec (fun _ o => (answer o, ())) (s.left t) ()).1,
    fun t => (exec (fun _ o => (answer o, ())) (s.left t) ()).2.1, extra, ?_, ?_, ?_, hsettled, hextra, hmem⟩
  · exact fun t => (h.leads t).runs (hruns t)
  · intro t ev hev
    rcases List.mem_append.mp hev with hev | hev
    · obtain ⟨e, he, rfl⟩ := List.mem_map.mp hev
      exact hlog e (List.mem_filter.mp he).1
    · exact exec_forall (fun _ o => hanswer o) _ _ ev hev
  · intro t a hret
    dsimp only
    rw [hret]
    exact ⟨List.append_nil _, rfl⟩

end Threads
