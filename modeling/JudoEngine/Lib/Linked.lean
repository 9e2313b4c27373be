/-
Linked segments in a finite store.

A `Store` is a partial map from addresses to cells that is empty from some
address on, so that an allocation can always succeed. A *path* is a list of
addresses that a `next` field walks through; the list is an argument of the
predicate, so induction over a path is induction over that list and two paths
are separate exactly when their lists are disjoint. The frame lemma
(`Path.congr`) and the two ways of growing a path at its end
(`Path.append`, `Path.link`) are all that the queue needs.
-/
import Mathlib.Data.List.Basic
import Mathlib.Logic.Function.Basic

set_option autoImplicit false

namespace Linked

/-! ## Stores

Cells may be written and freed at any address. What is needed is that the other cells stay. -/

/-- A heap of cells. `brk` bounds the mapped addresses, so a fresh address
always exists. -/
structure Store (α : Type) where
  cell : ℕ → Option α
  brk : ℕ
  unmapped : ∀ a, brk ≤ a → cell a = none

namespace Store

variable {α : Type}

/-- The store with no cell. -/
def empty : Store α := ⟨fun _ => none, 0, fun _ _ => rfl⟩

/-- Write one cell; also what an allocation at `a` does. -/
def set (h : Store α) (a : ℕ) (x : α) : Store α where
  cell := Function.update h.cell a (some x)
  brk := max h.brk (a + 1)
  unmapped b hb := by
    rw [Function.update_of_ne (by omega)]
    exact h.unmapped b (by omega)

/-- Give one cell back. -/
def free (h : Store α) (a : ℕ) : Store α where
  cell := Function.update h.cell a none
  brk := h.brk
  unmapped b hb := by
    by_cases hba : b = a
    · rw [hba, Function.update_self]
    · rw [Function.update_of_ne hba]
      exact h.unmapped b hb

@[simp] theorem set_cell_self (h : Store α) (a : ℕ) (x : α) : (h.set a x).cell a = some x :=
  Function.update_self ..

theorem set_cell_of_ne (h : Store α) {a b : ℕ} (x : α) (hba : b ≠ a) :
    (h.set a x).cell b = h.cell b :=
  Function.update_of_ne hba ..

theorem free_cell_of_ne (h : Store α) {a b : ℕ} (hba : b ≠ a) : (h.free a).cell b = h.cell b :=
  Function.update_of_ne hba ..

/-- There is always room for one more cell. -/
theorem exists_fresh (h : Store α) : ∃ a, h.cell a = none := ⟨h.brk, h.unmapped _ (Nat.le_refl _)⟩

end Store

/-! ## Paths

The list of addresses is part of the statement, so two paths are separate when their lists
are. -/

section Path

variable {α : Type} (next : α → Option ℕ)

/-- From `p`, following `next`, the store leads through exactly the cells of
the list and arrives at `q`. -/
def Path (h : Store α) : Option ℕ → List ℕ → Option ℕ → Prop
  | p, [], q => p = q
  | p, a :: as, q => p = some a ∧ ∃ x, h.cell a = some x ∧ Path h (next x) as q

variable {next}

@[simp] theorem path_nil {h : Store α} {p q : Option ℕ} : Path next h p [] q ↔ p = q := Iff.rfl

@[simp] theorem path_cons {h : Store α} {p q : Option ℕ} {a : ℕ} {as : List ℕ} :
    Path next h p (a :: as) q ↔ p = some a ∧ ∃ x, h.cell a = some x ∧ Path next h (next x) as q :=
  Iff.rfl

/-- A path only depends on the cells it goes through. -/
theorem Path.congr {h h' : Store α} {as : List ℕ} : ∀ {p q : Option ℕ},
    (∀ a ∈ as, h'.cell a = h.cell a) → Path next h p as q → Path next h' p as q := by
  induction as with
  | nil => exact fun _ hp => hp
  | cons a as ih =>
      rintro p q hcell ⟨hpa, x, hx, hrest⟩
      refine ⟨hpa, x, ?_, ih (fun b hb => hcell b (List.mem_cons_of_mem _ hb)) hrest⟩
      rw [hcell a List.mem_cons_self, hx]

/-- Two paths one behind the other are a path. -/
theorem Path.append {h : Store α} {as bs : List ℕ} : ∀ {p r q : Option ℕ},
    Path next h p as r → Path next h r bs q → Path next h p (as ++ bs) q := by
  induction as with
  | nil =>
      intro p r q hpr hrq
      rw [path_nil.mp hpr]
      exact hrq
  | cons a as ih =>
      rintro p r q ⟨hpa, x, hx, hrest⟩ hrq
      exact ⟨hpa, x, hx, ih hrest hrq⟩

/-- Every address on a path is mapped. -/
theorem Path.mapped {h : Store α} {as : List ℕ} : ∀ {p q : Option ℕ},
    Path next h p as q → ∀ a ∈ as, ∃ x, h.cell a = some x := by
  induction as with
  | nil => exact fun _ a ha => absurd ha (List.not_mem_nil)
  | cons b as ih =>
      rintro p q ⟨-, x, hx, hrest⟩ a ha
      rcases List.mem_cons.mp ha with rfl | ha
      · exact ⟨x, hx⟩
      · exact ih hrest a ha

/-- A path that goes through `as ++ bs` can be cut between the two. -/
theorem Path.split {h : Store α} {as bs : List ℕ} : ∀ {p q : Option ℕ},
    Path next h p (as ++ bs) q → ∃ r, Path next h p as r ∧ Path next h r bs q := by
  induction as with
  | nil => exact fun hpath => ⟨_, rfl, hpath⟩
  | cons a as ih =>
      rintro p q ⟨hpa, x, hx, hrest⟩
      obtain ⟨r, hleft, hright⟩ := ih hrest
      exact ⟨r, ⟨hpa, x, hx, hleft⟩, hright⟩

/-- A null-terminated path is determined by its start. -/
theorem Path.unique {h : Store α} {as : List ℕ} : ∀ {bs : List ℕ} {p : Option ℕ},
    Path next h p as none → Path next h p bs none → as = bs := by
  induction as with
  | nil =>
      rintro (_ | ⟨b, bs⟩) p has hbs
      · rfl
      · rw [path_nil.mp has] at hbs
        exact absurd hbs.1 (by simp)
  | cons a as ih =>
      rintro (_ | ⟨b, bs⟩) p ⟨hpa, x, hx, hrest⟩ hpath
      · rw [path_nil.mp hpath] at hpa
        exact absurd hpa (by simp)
      · obtain ⟨hpb, y, hy, hrest'⟩ := hpath
        have hab : a = b := Option.some.inj (hpa.symm.trans hpb)
        subst hab
        have hxy : x = y := Option.some.inj (hx.symm.trans hy)
        subst hxy
        rw [ih hrest hrest']

/-- A null-terminated path visits no cell twice: from a second visit on it
would have to end where the first visit had not ended yet. -/
theorem Path.nodup {h : Store α} {as : List ℕ} : ∀ {p : Option ℕ},
    Path next h p as none → as.Nodup := by
  induction as with
  | nil => exact fun _ => List.nodup_nil
  | cons a as ih =>
      intro p hpath
      obtain ⟨hpa, x, hx, hrest⟩ := hpath
      refine List.nodup_cons.mpr ⟨fun ha => ?_, ih hrest⟩
      obtain ⟨xs, ys, rfl⟩ := List.append_of_mem ha
      obtain ⟨r, -, hright⟩ := hrest.split
      have hsecond : Path next h p (a :: ys) none := ⟨hpa, hright.2⟩
      have hfirst : Path next h p (a :: (xs ++ a :: ys)) none := ⟨hpa, x, hx, hrest⟩
      have hlen := congrArg List.length (hfirst.unique hsecond)
      simp only [List.length_cons, List.length_append] at hlen
      omega

/-- Redirecting the last cell of a path: the path now arrives wherever the new
cell points. The cells before it are untouched because the path visits no cell
twice. -/
theorem Path.link {h : Store α} {as : List ℕ} {t : ℕ} {x : α} {p q : Option ℕ}
    (hpath : Path next h p (as ++ [t]) q) (hnodup : (as ++ [t]).Nodup) :
    Path next (h.set t x) p (as ++ [t]) (next x) := by
  induction as generalizing p with
  | nil =>
      obtain ⟨hpt, -⟩ := hpath
      exact ⟨hpt, x, h.set_cell_self t x, rfl⟩
  | cons a as ih =>
      obtain ⟨hpa, y, hy, hrest⟩ := hpath
      rw [List.cons_append, List.nodup_cons] at hnodup
      have hat : a ≠ t := fun hat => hnodup.1 (hat ▸ List.mem_append_right _ List.mem_cons_self)
      exact ⟨hpa, y, by rw [h.set_cell_of_ne x hat, hy], ih hrest hnodup.2⟩

end Path

/-! ## Addresses and cells of a segment

The list of a path can be computed from its start, and what its cells hold from the list. -/

section Segment

variable {α : Type} (next : α → Option ℕ)

/-- The addresses of the first `n` cells from `p`, stopping early where the
segment ends. -/
def addresses (h : Store α) : ℕ → Option ℕ → List ℕ
  | 0, _ => []
  | _ + 1, none => []
  | n + 1, some a =>
      match h.cell a with
      | none => []
      | some x => a :: addresses h n (next x)

/-- The cells that a list of addresses names. -/
def cells (h : Store α) (as : List ℕ) : List α := as.filterMap h.cell

variable {next}

@[simp] theorem cells_nil (h : Store α) : cells h [] = [] := rfl

theorem cells_append (h : Store α) (as bs : List ℕ) :
    cells h (as ++ bs) = cells h as ++ cells h bs := List.filterMap_append

theorem cells_cons {h : Store α} {a : ℕ} {x : α} (as : List ℕ) (hx : h.cell a = some x) :
    cells h (a :: as) = x :: cells h as := List.filterMap_cons_some hx

theorem cells_congr {h h' : Store α} {as : List ℕ} (hcell : ∀ a ∈ as, h'.cell a = h.cell a) :
    cells h' as = cells h as := List.filterMap_congr hcell

/-- On a path, walking its length meets exactly its addresses. -/
theorem Path.addresses_eq {h : Store α} {as : List ℕ} : ∀ {p q : Option ℕ},
    Path next h p as q → addresses next h as.length p = as := by
  induction as with
  | nil => exact fun _ => rfl
  | cons a as ih =>
      rintro p q ⟨rfl, x, hx, hrest⟩
      simp only [List.length_cons, addresses, hx, ih hrest]

/-- All addresses on a path name a cell. -/
theorem Path.length_cells {h : Store α} {as : List ℕ} : ∀ {p q : Option ℕ},
    Path next h p as q → (cells h as).length = as.length := by
  induction as with
  | nil => exact fun _ => rfl
  | cons a as ih =>
      rintro p q ⟨rfl, x, hx, hrest⟩
      rw [cells_cons as hx, List.length_cons, List.length_cons, ih hrest]

end Segment

end Linked
