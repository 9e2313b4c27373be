/-
What a `DualDynamicArray` is for: a bag of pairs.

A bag has no order and no capacity. Adding puts a pair in; removing takes out one
pair whose first component compares equal, when there is one. The array does that
whatever it has grown and shrunk before, and the pair it takes is that of the least
row that matches.
-/
import JudoEngine.DualDynamicArray
import Mathlib.Data.List.Induction
import Mathlib.Data.List.Perm.Basic
import Mathlib.Data.Multiset.ZeroCons

set_option autoImplicit false

namespace JudoEngine

/-! ## The bag

The purpose of the class in its own terms: a multiset of pairs. Removing by a key may take any
pair that compares equal. -/

/-- A call that changes the array. -/
inductive ArrayCall (T N : Type) where
  | add (t_thing_one : T) (t_thing_two : N)
  | remove (t_thing_one : T)

/-- What a call does to a bag. -/
inductive BagStep {T N : Type} (m_compare : T → T → ℤ) : Multiset (T × N) → ArrayCall T N → Multiset (T × N) → Prop where
  | add (b : Multiset (T × N)) (t : T) (n : N) : BagStep m_compare b (.add t n) ((t, n) ::ₘ b)
  | remove (b : Multiset (T × N)) (t : T) (p : T × N) (hmatch : m_compare t p.1 = 0) :
      BagStep m_compare (p ::ₘ b) (.remove t) b
  | miss (b : Multiset (T × N)) (t : T) (hmiss : ∀ p ∈ b, m_compare t p.1 ≠ 0) : BagStep m_compare b (.remove t) b

/-- What a bag can hold after these calls. -/
inductive BagRun {T N : Type} (m_compare : T → T → ℤ) : List (ArrayCall T N) → Multiset (T × N) → Prop where
  | nil : BagRun m_compare [] 0
  | snoc {calls : List (ArrayCall T N)} {c : ArrayCall T N} {b b' : Multiset (T × N)} (h : BagRun m_compare calls b)
      (hstep : BagStep m_compare b c b') : BagRun m_compare (calls ++ [c]) b'

namespace DualDynamicArray

variable {T N : Type} {d : DualDynamicArray T N} {l : List (T × N)}

/-! ## The array

The array is one of the implementations that the bag allows: among several pairs for a key it
takes the one of the least row. -/

/-- The pairs `(first[i], second[i])` for `i < getSize()`. -/
def rows (d : DualDynamicArray T N) : List (T × N) :=
  (List.range d.getSize).filterMap fun i => (d.m_first_array i).bind fun t => (d.m_second_array i).map fun n => (t, n)

/-- They are what it represents. -/
theorem Rep.rows_eq (hd : Rep d l) : d.rows = l := by
  -- the first `k` slots hold the first `k` rows
  have htake : ∀ k, k ≤ l.length → ((List.range k).filterMap fun i =>
      (d.m_first_array i).bind fun t => (d.m_second_array i).map fun n => (t, n)) = l.take k := by
    intro k
    induction k with
    | zero => exact fun _ => rfl
    | succ k ih =>
        intro hk
        rw [List.range_succ, List.filterMap_append, ih (by omega), List.take_add_one, List.getElem?_eq_getElem hk]
        simp only [List.filterMap_cons, hd.first k hk, hd.second k hk, Option.bind_some, Option.map_some,
          List.filterMap_nil, Option.toList_some]
  have hsize : d.getSize = l.length := hd.size
  rw [rows, hsize, htake l.length le_rfl, List.take_length]

/-- A call. -/
def perform (m_compare : T → T → ℤ) (d : DualDynamicArray T N) : ArrayCall T N → DualDynamicArray T N
  | .add t n => d.add t n
  | .remove t => d.remove m_compare t

/-- What `find` and `remove` do for this key: the least row that matches is found and
taken out, or there is none, and nothing changes. -/
inductive Removes (m_compare : T → T → ℤ) (d : DualDynamicArray T N) (t : T) : Prop where
  | miss (hfind : d.find m_compare t = -1) (hmiss : ∀ p ∈ d.rows, m_compare t p.1 ≠ 0)
      (hrows : (d.remove m_compare t).rows = d.rows)
  | least (k : ℕ) (hk : k < d.rows.length) (hfind : d.find m_compare t = k) (hmatch : m_compare t d.rows[k].1 = 0)
      (hleast : ∀ j (hj : j < d.rows.length), j < k → m_compare t d.rows[j].1 ≠ 0)
      (hrows : d.rows.Perm (d.rows[k] :: (d.remove m_compare t).rows))

/-- It does so for every key, and goes on to store rows. -/
theorem removes (m_compare : T → T → ℤ) (hd : Rep d l) (t : T) : Removes m_compare d t ∧ ∃ l', Rep (d.remove m_compare t) l' := by
  have hrows := hd.rows_eq
  rcases find_spec m_compare hd t with ⟨hfind, hmiss⟩ | ⟨k, hk, hfind, hmatch, hleast⟩
  · have hsame : d.remove m_compare t = d := by
      rw [remove, if_neg (not_not.mpr hfind)]
    refine ⟨.miss hfind (fun p hp => ?_) (by rw [hsame]), l, by rw [hsame]; exact hd⟩
    rw [hrows] at hp
    obtain ⟨j, hj, rfl⟩ := List.getElem_of_mem hp
    exact hmiss j hj
  · have hrep := remove_spec hd hk hfind
    have hperm : l.Perm (l[k] :: (d.remove m_compare t).rows) := by
      rw [hrep.rows_eq]
      exact (List.getElem_cons_eraseIdx_perm hk).symm.trans ((perm_removeRow l k hk).symm.cons _)
    refine ⟨?_, _, hrep⟩
    subst hrows
    exact .least k hk hfind hmatch hleast hperm

/-- **A call** does to the array what it does to a bag. -/
theorem perform_bag (m_compare : T → T → ℤ) (hd : Rep d l) (c : ArrayCall T N) :
    BagStep m_compare d.rows c (d.perform m_compare c).rows ∧ ∃ l', Rep (d.perform m_compare c) l' := by
  cases c with
  | add t n =>
      obtain ⟨hrep, -⟩ := add_spec hd t n
      have hrows : ((d.add t n).rows : Multiset (T × N)) = (t, n) ::ₘ (d.rows : Multiset (T × N)) := by
        rw [hrep.rows_eq, hd.rows_eq, Multiset.cons_coe, Multiset.coe_eq_coe]
        exact List.perm_append_singleton (t, n) l
      refine ⟨?_, _, hrep⟩
      show BagStep m_compare (d.rows : Multiset (T × N)) _ ((d.add t n).rows : Multiset (T × N))
      rw [hrows]
      exact .add _ t n
  | remove t =>
      obtain ⟨hremoves, hrep⟩ := removes m_compare hd t
      refine ⟨?_, hrep⟩
      show BagStep m_compare (d.rows : Multiset (T × N)) _ ((d.remove m_compare t).rows : Multiset (T × N))
      -- a remove that finds no match leaves the bag; one that does takes the least matching row
      -- out, wherever the last row went
      cases hremoves with
      | miss hfind hmiss hrows =>
          rw [hrows]
          exact .miss _ t hmiss
      | least k hk hfind hmatch hleast hrows =>
          have hcons : (d.rows : Multiset (T × N)) = d.rows[k] ::ₘ ((d.remove m_compare t).rows : Multiset (T × N)) := by
            rw [Multiset.cons_coe, Multiset.coe_eq_coe]
            exact hrows
          rw [hcons]
          exact .remove _ t _ hmatch

/-- **The array is a bag.** After any calls of `add` and `remove`, there is room for its
rows, they are, as a multiset, what a bag holds after these calls, and a key is
looked up and removed at the least row that matches, or not at all. -/
theorem refines_bag (m_compare : T → T → ℤ) (calls : List (ArrayCall T N)) :
    (calls.foldl (perform m_compare) new).rows.length = (calls.foldl (perform m_compare) new).getSize
      ∧ (calls.foldl (perform m_compare) new).getSize ≤ (calls.foldl (perform m_compare) new).m_cap
      ∧ BagRun m_compare calls (calls.foldl (perform m_compare) new).rows
      ∧ ∀ t, Removes m_compare (calls.foldl (perform m_compare) new) t := by
  have hrun : (∃ l, Rep (calls.foldl (perform m_compare) new) l)
      ∧ BagRun m_compare calls (calls.foldl (perform m_compare) new).rows := by
    induction calls using List.reverseRecOn with
    | nil => exact ⟨⟨[], rep_new⟩, .nil⟩
    | append_singleton calls c ih =>
        obtain ⟨⟨l, hrep⟩, hbag⟩ := ih
        obtain ⟨hstep, hrep'⟩ := perform_bag m_compare hrep c
        rw [List.foldl_append]
        exact ⟨hrep', hbag.snoc hstep⟩
  obtain ⟨⟨l, hrep⟩, hbag⟩ := hrun
  have hsize : (calls.foldl (perform m_compare) new).getSize = l.length := hrep.size
  refine ⟨?_, ?_, hbag, fun t => (removes m_compare hrep t).1⟩
  · rw [hrep.rows_eq, hsize]
  · rw [hsize]
    exact hrep.cap

end DualDynamicArray

end JudoEngine
