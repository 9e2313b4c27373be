/-
Programs that talk to a system.

A `Prog` is what a piece of code does as seen from outside: it asks for one
operation of an interface after the other and goes on with the answers. The
interface says which operations there are and what type each is answered in;
what the answers are is left to the environment.

There are two readings. `Runs p tr a` says that `p` can return `a` after the
record `tr` of operations and answers, for a statement about every environment
(a record is an environment's behaviour towards this run). `exec h p e` plays
`p` against a given environment: `h` answers, `e` is its state.
-/
import Mathlib.Logic.Basic
import Mathlib.Data.List.Basic

set_option autoImplicit false

/-- A program over operations `Op` that returns an `α`. -/
inductive Prog (Op : Type) (Ans : Op → Type) (α : Type) : Type where
  | ret (a : α)
  | call (o : Op) (k : Ans o → Prog Op Ans α)

/-- One operation and its answer. -/
structure Event (Op : Type) (Ans : Op → Type) where
  op : Op
  ans : Ans op

namespace Prog

variable {Op : Type} {Ans : Op → Type} {α β ε : Type}

/-- Go on with what the first program returns. -/
def bind : Prog Op Ans α → (α → Prog Op Ans β) → Prog Op Ans β
  | ret a, f => f a
  | call o k, f => call o fun x => bind (k x) f

instance : Monad (Prog Op Ans) where
  pure := ret
  bind := bind

/-- Just one operation. -/
def op (o : Op) : Prog Op Ans (Ans o) := call o ret

@[simp] theorem pure_eq (a : α) : (pure a : Prog Op Ans α) = ret a := rfl

@[simp] theorem ret_bind (a : α) (f : α → Prog Op Ans β) : (ret a >>= f) = f a := rfl

@[simp] theorem call_bind (o : Op) (k : Ans o → Prog Op Ans α) (f : α → Prog Op Ans β) :
    (call o k >>= f) = call o fun x => k x >>= f := rfl

@[simp] theorem op_bind (o : Op) (f : Ans o → Prog Op Ans β) : (op o >>= f) = call o f := rfl

/-- Programs one after the other need no brackets. -/
theorem bind_assoc {γ : Type} (p : Prog Op Ans α) (f : α → Prog Op Ans β) (g : β → Prog Op Ans γ) :
    (p >>= f) >>= g = p >>= fun a => f a >>= g := by
  induction p with
  | ret a => rfl
  | call o k ih =>
      rw [call_bind, call_bind, call_bind]
      exact congrArg (call o) (funext ih)

/-! ## Against every environment

A relation between a program, a record and a value. It is defined on the program, so a run of
it can be taken apart operation by operation. -/

/-- The program can return `a` after the record `tr`. -/
def Runs : Prog Op Ans α → List (Event Op Ans) → α → Prop
  | ret b, tr, a => tr = [] ∧ b = a
  | call o k, tr, a => ∃ x tr', tr = ⟨o, x⟩ :: tr' ∧ Runs (k x) tr' a

@[simp] theorem runs_ret {b a : α} {tr : List (Event Op Ans)} :
    Runs (ret b : Prog Op Ans α) tr a ↔ tr = [] ∧ b = a := Iff.rfl

@[simp] theorem runs_call {o : Op} {k : Ans o → Prog Op Ans α} {tr : List (Event Op Ans)} {a : α} :
    Runs (call o k) tr a ↔ ∃ x tr', tr = ⟨o, x⟩ :: tr' ∧ Runs (k x) tr' a := Iff.rfl

/-- A run that begins with an operation. -/
theorem runs_step {o : Op} {f : Ans o → Prog Op Ans β} {tr : List (Event Op Ans)} {b : β} :
    Runs (op o >>= f) tr b ↔ ∃ x tr', tr = ⟨o, x⟩ :: tr' ∧ Runs (f x) tr' b := Iff.rfl

/-- A run of two programs, one after the other, is a run of each. -/
theorem runs_bind {p : Prog Op Ans α} {f : α → Prog Op Ans β} {b : β} : ∀ {tr : List (Event Op Ans)},
    Runs (p >>= f) tr b ↔ ∃ tr₁ tr₂ a, tr = tr₁ ++ tr₂ ∧ Runs p tr₁ a ∧ Runs (f a) tr₂ b := by
  induction p with
  | ret a =>
      intro tr
      rw [ret_bind]
      constructor
      · intro h
        exact ⟨[], tr, a, rfl, ⟨rfl, rfl⟩, h⟩
      · rintro ⟨tr₁, tr₂, a', rfl, ⟨rfl, rfl⟩, h⟩
        exact h
  | call o k ih =>
      intro tr
      rw [call_bind, runs_call]
      constructor
      · rintro ⟨x, tr', rfl, h⟩
        obtain ⟨tr₁, tr₂, a, rfl, h₁, h₂⟩ := (ih x).mp h
        exact ⟨⟨o, x⟩ :: tr₁, tr₂, a, rfl, ⟨x, tr₁, rfl, h₁⟩, h₂⟩
      · rintro ⟨tr₁, tr₂, a, rfl, ⟨x, tr', rfl, h₁⟩, h₂⟩
        exact ⟨x, tr' ++ tr₂, rfl, (ih x).mpr ⟨tr', tr₂, a, rfl, h₁, h₂⟩⟩

/-- A run whose last part only makes something of what the first returns. -/
theorem runs_bind_ret {p : Prog Op Ans α} {g : α → β} {tr : List (Event Op Ans)} {b : β} :
    Runs (p >>= fun a => ret (g a)) tr b ↔ ∃ a, Runs p tr a ∧ g a = b := by
  rw [runs_bind]
  constructor
  · rintro ⟨tr₁, tr₂, a, rfl, hruns, rfl, hret⟩
    rw [List.append_nil]
    exact ⟨a, hruns, hret⟩
  · rintro ⟨a, hruns, hret⟩
    exact ⟨tr, [], a, (List.append_nil tr).symm, hruns, rfl, hret⟩

/-- The program only ever asks for operations of this kind. -/
def Only (P : Op → Prop) : Prog Op Ans α → Prop
  | ret _ => True
  | call o k => P o ∧ ∀ x, Only P (k x)

@[simp] theorem only_ret (P : Op → Prop) (a : α) : Only P (ret a : Prog Op Ans α) := trivial

@[simp] theorem only_call {P : Op → Prop} {o : Op} {k : Ans o → Prog Op Ans α} :
    Only P (call o k) ↔ P o ∧ ∀ x, Only P (k x) := Iff.rfl

/-- Two programs of such operations, one after the other. -/
theorem Only.bind {P : Op → Prop} {p : Prog Op Ans α} {f : α → Prog Op Ans β} (hp : Only P p)
    (hf : ∀ a, Only P (f a)) : Only P (p >>= f) := by
  induction p with
  | ret a => exact hf a
  | call o k ih => exact ⟨hp.1, fun x => ih x (hp.2 x)⟩

/-- The kind may be made wider. -/
theorem Only.mono {P Q : Op → Prop} (h : ∀ o, P o → Q o) {p : Prog Op Ans α} (hp : Only P p) : Only Q p := by
  induction p with
  | ret a => trivial
  | call o k ih => exact ⟨h o hp.1, fun x => ih x (hp.2 x)⟩

/-- Two kinds may be joined. -/
theorem Only.and {P Q : Op → Prop} {p : Prog Op Ans α} (hp : Only P p) (hq : Only Q p) : Only (fun o => P o ∧ Q o) p := by
  induction p with
  | ret a => trivial
  | call o k ih => exact ⟨⟨hp.1, hq.1⟩, fun x => ih x (hp.2 x) (hq.2 x)⟩

/-- An operation in front of a program. -/
theorem Only.step {P : Op → Prop} {o : Op} {f : Ans o → Prog Op Ans β} (ho : P o) (hf : ∀ x, Only P (f x)) :
    Only P (op o >>= f) := ⟨ho, hf⟩

/-- So its runs are made of these. -/
theorem Only.of_runs {P : Op → Prop} {p : Prog Op Ans α} {a : α} : ∀ {tr : List (Event Op Ans)},
    Only P p → Runs p tr a → ∀ ev ∈ tr, P ev.op := by
  induction p with
  | ret b =>
      rintro tr - ⟨rfl, -⟩ ev hev
      exact absurd hev List.not_mem_nil
  | call o k ih =>
      rintro tr ⟨ho, hk⟩ ⟨x, tr', rfl, hruns⟩ ev hev
      rcases List.mem_cons.mp hev with rfl | hev
      · exact ho
      · exact ih x (hk x) hruns ev hev

/-! ## Against one environment

The same programs, run by a function that answers. This is what examples are computed with,
and it gives one of the runs. -/

/-- Play the program against an environment: the record, what it returns, and
the state the environment is left in. -/
def exec (h : ε → (o : Op) → Ans o × ε) : Prog Op Ans α → ε → List (Event Op Ans) × α × ε
  | ret a, e => ([], a, e)
  | call o k, e =>
      let r := exec h (k (h e o).1) (h e o).2
      (⟨o, (h e o).1⟩ :: r.1, r.2)

variable {h : ε → (o : Op) → Ans o × ε}

@[simp] theorem exec_ret (a : α) (e : ε) : exec h (ret a : Prog Op Ans α) e = ([], a, e) := rfl

@[simp] theorem exec_call (o : Op) (k : Ans o → Prog Op Ans α) (e : ε) :
    exec h (call o k) e = (⟨o, (h e o).1⟩ :: (exec h (k (h e o).1) (h e o).2).1,
      (exec h (k (h e o).1) (h e o).2).2) := rfl

/-- Playing two programs, one after the other. -/
theorem exec_bind (p : Prog Op Ans α) (f : α → Prog Op Ans β) : ∀ (e : ε),
    exec h (p >>= f) e = ((exec h p e).1 ++ (exec h (f (exec h p e).2.1) (exec h p e).2.2).1,
      (exec h (f (exec h p e).2.1) (exec h p e).2.2).2) := by
  induction p with
  | ret a => exact fun _ => rfl
  | call o k ih =>
      intro e
      rw [call_bind, exec_call, ih, exec_call]
      rfl

/-- What is played is a run. -/
theorem runs_exec (p : Prog Op Ans α) : ∀ (e : ε), Runs p (exec h p e).1 (exec h p e).2.1 := by
  induction p with
  | ret a => exact fun _ => ⟨rfl, rfl⟩
  | call o k ih => exact fun e => ⟨_, _, rfl, ih _ _⟩

/-- What holds of every answer holds of the record. -/
theorem exec_forall {P : Event Op Ans → Prop} (hP : ∀ e o, P ⟨o, (h e o).1⟩) (p : Prog Op Ans α) :
    ∀ (e : ε), ∀ ev ∈ (exec h p e).1, P ev := by
  induction p with
  | ret a => exact fun _ _ hev => absurd hev List.not_mem_nil
  | call o k ih =>
      intro e ev hev
      rw [exec_call] at hev
      rcases List.mem_cons.mp hev with rfl | hev
      · exact hP e o
      · exact ih _ _ ev hev

/-- What is played of a program that returns nothing. -/
theorem runs_exec_unit (p : Prog Op Ans Unit) (e : ε) : Runs p (exec h p e).1 () := by
  have hruns := runs_exec (h := h) p e
  generalize (exec h p e).2.1 = u at hruns
  cases u
  exact hruns

end Prog
