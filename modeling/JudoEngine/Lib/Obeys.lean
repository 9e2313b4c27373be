/-
Programs that keep to a protocol.

A `Protocol` is an automaton over the operations of an interface: in each of its states
some operations are allowed, and an operation and its answer take it to the next state.
`Obeys` reads that off a program: whatever it asks for is allowed then, whatever it is
answered, and it returns in a state that it may return in. The answers may be limited to
those that the environment can give.

A program is shown to obey by its own recursion, piece by piece (`Obeys.bind`), and then
every record of it follows the protocol, the unfinished ones too (`Obeys.leads`).
-/
import JudoEngine.Lib.Threads

set_option autoImplicit false

/-- Which operations are allowed when, and what can be answered. -/
structure Protocol (Op : Type) (Ans : Op → Type) (σ : Type) where
  allows : σ → Op → Prop
  answers : Event Op Ans → Prop
  after : σ → Event Op Ans → σ

namespace Prog

variable {Op : Type} {Ans : Op → Type} {σ α β : Type} {P : Protocol Op Ans σ} {F G : σ → α → Prop} {s : σ}

/-- Every operation is allowed when it is asked for, and the end is as it should be. -/
def Obeys (P : Protocol Op Ans σ) (F : σ → α → Prop) : Prog Op Ans α → σ → Prop
  | ret a, s => F s a
  | call o k, s => P.allows s o ∧ ∀ x, P.answers ⟨o, x⟩ → Obeys P F (k x) (P.after s ⟨o, x⟩)

@[simp] theorem obeys_ret {a : α} : Obeys P F (ret a) s ↔ F s a := Iff.rfl

/-- An operation has to be allowed, and whatever it is answered the rest has to obey. -/
theorem Obeys.step {o : Op} {f : Ans o → Prog Op Ans α} (ho : P.allows s o)
    (hf : ∀ x, P.answers ⟨o, x⟩ → Obeys P F (f x) (P.after s ⟨o, x⟩)) : Obeys P F (op o >>= f) s := ⟨ho, hf⟩

/-- More may be allowed at the end. -/
theorem Obeys.mono {p : Prog Op Ans α} (h : ∀ s a, F s a → G s a) : ∀ {s : σ}, Obeys P F p s → Obeys P G p s := by
  induction p with
  | ret a => exact fun hp => h _ a hp
  | call o k ih => exact fun hp => ⟨hp.1, fun x hx => ih x (hp.2 x hx)⟩

/-- Operations that are allowed wherever an invariant holds, and keep it. -/
theorem Obeys.of_only {A : Op → Prop} {I : σ → Prop} (hI : ∀ s o, A o → I s → P.allows s o ∧ ∀ x, P.answers ⟨o, x⟩ → I (P.after s ⟨o, x⟩))
    {p : Prog Op Ans α} (hp : Only A p) : ∀ {s : σ}, I s → Obeys P (fun s _ => I s) p s := by
  induction p with
  | ret a => exact fun hs => hs
  | call o k ih => exact fun hs => ⟨(hI _ o hp.1 hs).1, fun x hx => ih x (hp.2 x) ((hI _ o hp.1 hs).2 x hx)⟩

/-- One program after the other. -/
theorem Obeys.bind {p : Prog Op Ans β} {f : β → Prog Op Ans α} {H : σ → β → Prop} :
    ∀ {s : σ}, Obeys P H p s → (∀ s b, H s b → Obeys P F (f b) s) → Obeys P F (p >>= f) s := by
  induction p with
  | ret b => exact fun hp hf => hf _ b hp
  | call o k ih => exact fun hp hf => ⟨hp.1, fun x hx => ih x (hp.2 x hx) hf⟩

end Prog

namespace Protocol

variable {Op : Type} {Ans : Op → Type} {σ α : Type} (P : Protocol Op Ans σ)

/-- The state after a record. -/
def afters : σ → List (Event Op Ans) → σ
  | s, [] => s
  | s, ev :: tr => afters (P.after s ev) tr

/-- Every operation of the record was allowed when it came. -/
def Follows : σ → List (Event Op Ans) → Prop
  | _, [] => True
  | s, ev :: tr => P.allows s ev.op ∧ Follows (P.after s ev) tr

variable {P}

theorem afters_append (tr tr' : List (Event Op Ans)) : ∀ (s : σ), P.afters s (tr ++ tr') = P.afters (P.afters s tr) tr' := by
  induction tr with
  | nil => exact fun _ => rfl
  | cons ev tr ih => exact fun s => ih (P.after s ev)

theorem Follows.append {tr tr' : List (Event Op Ans)} :
    ∀ {s : σ}, P.Follows s tr → P.Follows (P.afters s tr) tr' → P.Follows s (tr ++ tr') := by
  induction tr with
  | nil => exact fun _ h' => h'
  | cons ev tr ih => exact fun h h' => ⟨h.1, ih h.2 h'⟩

/-- Each of them, where it stands. -/
theorem Follows.split {ev : Event Op Ans} {tr tr' : List (Event Op Ans)} :
    ∀ {s : σ}, P.Follows s (tr ++ ev :: tr') → P.allows (P.afters s tr) ev.op := by
  induction tr with
  | nil => exact fun h => h.1
  | cons ev' tr ih => exact fun h => ih h.2

end Protocol

namespace Prog

variable {Op : Type} {Ans : Op → Type} {σ α : Type} {P : Protocol Op Ans σ} {F : σ → α → Prop}

/-- A record of a program that obeys follows the protocol, and what is left obeys it. -/
theorem Obeys.leads {q : Prog Op Ans α} {tr : List (Event Op Ans)} : ∀ {p : Prog Op Ans α} {s : σ}, Obeys P F p s →
    Leads p tr q → (∀ ev ∈ tr, P.answers ev) → P.Follows s tr ∧ Obeys P F q (P.afters s tr) := by
  induction tr with
  | nil =>
      rintro p s hp rfl -
      exact ⟨trivial, hp⟩
  | cons ev tr ih =>
      rintro p s hp ⟨k, rfl, hrest⟩ hanswers
      obtain ⟨hfollows, hq⟩ := ih (hp.2 ev.ans (hanswers ev List.mem_cons_self)) hrest
        fun ev' hev' => hanswers ev' (List.mem_cons_of_mem _ hev')
      exact ⟨⟨hp.1, hfollows⟩, hq⟩

/-- A whole one ends as it should. -/
theorem Obeys.runs {p : Prog Op Ans α} {s : σ} {tr : List (Event Op Ans)} {a : α} (hp : Obeys P F p s) (hruns : Runs p tr a)
    (hanswers : ∀ ev ∈ tr, P.answers ev) : P.Follows s tr ∧ F (P.afters s tr) a :=
  hp.leads hruns.leads hanswers

end Prog
