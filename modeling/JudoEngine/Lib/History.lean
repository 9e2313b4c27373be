/-
Runs of a step relation that remember their steps.

A history lists the state before each step with the label of the step, oldest first; the
state reached stands beside it. What a run has cost is then a sum over its labels.
-/
import Mathlib.Data.Int.Notation
import Mathlib.Data.List.Induction

set_option autoImplicit false

namespace Histories

variable {S L : Type} {step : S → L → S → Prop} {s₀ s : S} {hist pre : List (S × L)} {l : L}

/-- A run from `s₀`, and the state that it has reached. -/
inductive History (step : S → L → S → Prop) (s₀ : S) : List (S × L) → S → Prop where
  | start : History step s₀ [] s₀
  | step {hist : List (S × L)} {s s' : S} {l : L} (h : History step s₀ hist s) (hstep : step s l s') :
      History step s₀ (hist ++ [(s, l)]) s'

/-- What a run was before one of its steps, and that the step could be made. -/
theorem History.split {last : S} (h : History step s₀ hist last) : ∀ {rest : List (S × L)}, hist = pre ++ (s, l) :: rest →
    History step s₀ pre s ∧ ∃ s', step s l s' := by
  induction h with
  | start =>
      intro rest hnil
      exact absurd hnil.symm (List.append_ne_nil_of_right_ne_nil pre (List.cons_ne_nil _ rest))
  | step h hstep ih =>
      intro rest hsplit
      induction rest using List.reverseRecOn with
      | nil =>
          -- the last step is the one
          obtain ⟨rfl, hlast⟩ := List.append_inj' hsplit rfl
          obtain ⟨rfl, rfl⟩ := Prod.mk.inj (List.singleton_inj.mp hlast)
          exact ⟨h, _, hstep⟩
      | append_singleton rest x _ =>
          -- it was made before the last one
          rw [← List.cons_append, ← List.append_assoc] at hsplit
          exact ih (List.append_inj' hsplit rfl).1

variable {charge : L → ℕ}

/-- The sum of what the steps cost. -/
def total (charge : L → ℕ) : List (S × L) → ℕ
  | [] => 0
  | x :: hist => charge x.2 + total charge hist

@[simp] theorem total_nil : total charge ([] : List (S × L)) = 0 := rfl

@[simp] theorem total_cons {x : S × L} : total charge (x :: hist) = charge x.2 + total charge hist := rfl

@[simp] theorem total_append {hist' : List (S × L)} : total charge (hist ++ hist') = total charge hist + total charge hist' := by
  induction hist with
  | nil => exact (Nat.zero_add _).symm
  | cons x hist ih => rw [List.cons_append, total_cons, total_cons, ih, Nat.add_assoc]

/-- What it costs is a matter of the labels. -/
theorem total_labels {ls : List L} (hlabels : hist.map Prod.snd = ls) : total charge hist = total charge (ls.map fun l => ((), l)) := by
  subst hlabels
  induction hist with
  | nil => rfl
  | cons x hist ih => exact congrArg (charge x.2 + ·) ih

/-- A number that each step raises by what it costs is the cost of the run. -/
theorem History.counts {counter : S → Option ℤ} (h : History step s₀ hist s) (hzero : ∀ a, counter s₀ = some a → a = 0)
    (hraise : ∀ s l s' a', step s l s' → counter s' = some a' → ∃ a, counter s = some a ∧ a' = a + charge l) :
    ∀ a, counter s = some a → a = total charge hist := by
  induction h with
  | start => exact hzero
  | step h hstep ih =>
      intro a' ha'
      obtain ⟨a, ha, rfl⟩ := hraise _ _ _ _ hstep ha'
      have hbefore := ih a ha
      simp only [total_append, total_cons, total_nil]
      omega

end Histories
