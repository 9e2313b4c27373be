/-
Computations that keep a record.

A `Recorded E α` is a value together with what was done on the way to it, oldest first.
Unlike a program it asks nobody for anything: it is an ordinary computation whose
accesses, calls or stores are written down because a statement is about them. `All` says
that everything written down meets a condition; it goes through a computation step by
step, with the results of the steps before at hand.
-/
import Mathlib.Data.List.Basic

set_option autoImplicit false

/-- A value, and the record of what was done for it. -/
structure Recorded (E α : Type) where
  record : List E
  result : α

namespace Recorded

variable {E α β : Type}

instance : Monad (Recorded E) where
  pure a := ⟨[], a⟩
  bind x f := ⟨x.record ++ (f x.result).record, (f x.result).result⟩

/-- One entry. -/
def note (e : E) : Recorded E Unit := ⟨[e], ()⟩

@[simp] theorem result_pure (a : α) : (pure a : Recorded E α).result = a := rfl

@[simp] theorem result_bind (x : Recorded E α) (f : α → Recorded E β) : (x >>= f).result = (f x.result).result := rfl

@[simp] theorem record_note (e : E) : (note e).record = [e] := rfl

@[simp] theorem result_note (e : E) : (note e).result = () := rfl

/-! ## What is in the record

A condition on entries is proved along the computation, so the proof follows its text. -/

/-- Everything in the record meets the condition. -/
def All (P : E → Prop) (x : Recorded E α) : Prop := ∀ e ∈ x.record, P e

theorem all_pure (P : E → Prop) (a : α) : All P (pure a : Recorded E α) := fun _ hnil => absurd hnil List.not_mem_nil

theorem all_note {P : E → Prop} {e : E} : All P (note e) ↔ P e := List.forall_mem_singleton

/-- A condition on a computation is one on each of its parts. -/
theorem all_bind {P : E → Prop} {x : Recorded E α} {f : α → Recorded E β} :
    All P (x >>= f) ↔ All P x ∧ All P (f x.result) := List.forall_mem_append

/-- A condition goes through a computation step by step. -/
theorem All.bind {P : E → Prop} {x : Recorded E α} {f : α → Recorded E β} (hx : All P x) (hf : All P (f x.result)) :
    All P (x >>= f) := all_bind.mpr ⟨hx, hf⟩

end Recorded
