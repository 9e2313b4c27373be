/-
The arrays of a `DualDynamicArray`, with their capacities and every access to them.

Here an array has the elements that `new[]` gave it and no more, and whatever the code
reads or stores is recorded together with how many elements the array has that it goes
to. That no access is out of bounds rests on the rule of `grow` and `shrink`: the
arrays double when they are full and halve when they are half full, but never below 32, so
after any calls more than half of a large array is in use.

The loops count with an `int32_t` up to `(int) m_size`.
-/
import JudoEngine.DualDynamicArray.Bag
import JudoEngine.Lib.Recorded
import JudoEngine.Lib.Words

set_option autoImplicit false

open Words Recorded

namespace JudoEngine

/-! ## Arrays

Loads and stores are computations that record where they go, so the bounds can be asked for
after a whole run. -/

/-- An array that `new[]` has made; nothing has been stored in an element that is `none`. -/
abbrev Slots (α : Type) := List (Option α)

/-- An access: its index, and the number of elements of the array. -/
structure ArrayAccess where
  index : ℕ
  length : ℕ

/-- It goes to an element of the array. -/
def ArrayAccess.Inside (e : ArrayAccess) : Prop := e.index < e.length

namespace Slots

variable {α : Type}

/-- `array[index]`. -/
def load (array : Slots α) (index : ℕ) : Recorded ArrayAccess (Option α) := do
  note ⟨index, array.length⟩
  pure array[index]?.join

/-- `array[index] = x`. -/
def store (array : Slots α) (index : ℕ) (x : Option α) : Recorded ArrayAccess (Slots α) := do
  note ⟨index, array.length⟩
  pure (array.set index x)

@[simp] theorem result_load (array : Slots α) (index : ℕ) : (array.load index).result = array[index]?.join := rfl

@[simp] theorem all_load (array : Slots α) (index : ℕ) : (array.load index).All ArrayAccess.Inside ↔ index < array.length := by
  simp [load, all_bind, all_note, all_pure, ArrayAccess.Inside]

@[simp] theorem all_store (array : Slots α) (index : ℕ) (x : Option α) :
    (array.store index x).All ArrayAccess.Inside ↔ index < array.length := by
  simp [store, all_bind, all_note, all_pure, ArrayAccess.Inside]

end Slots

/-! ## The operations

The same functions once more, on arrays with bounds. What they do to the rows is taken from
the version without, with which they are compared. -/

/-- What a call does to the rows: a removed row's place is taken by the last row. -/
def ArrayCall.rows {T N : Type} (m_compare : T → T → ℤ) (l : List (T × N)) : ArrayCall T N → List (T × N)
  | .add t n => l ++ [(t, n)]
  | .remove t =>
      match l.findFinIdx? fun row => m_compare t row.1 = 0 with
      | some k => DualDynamicArray.removeRow l k k.isLt
      | none => l

namespace DualDynamicArray

/-- The fields of `class DualDynamicArray`, but the comparison. -/
structure Allocated (T N : Type) where
  m_size : ℕ
  m_cap : ℕ
  m_first_array : Slots T
  m_second_array : Slots N

namespace Allocated

variable {T N : Type}

/-- The constructor. -/
def new : Allocated T N := ⟨0, 16, List.replicate 16 none, List.replicate 16 none⟩

/-- The loop that `grow` and `shrink` have, with `n` rows to go from row `i` on. -/
def copy (m_first_array : Slots T) (m_second_array : Slots N) :
    (n i : ℕ) → Slots T → Slots N → Recorded ArrayAccess (Slots T × Slots N)
  | 0, _, new_first_array, new_second_array => pure (new_first_array, new_second_array)
  | n + 1, i, new_first_array, new_second_array => do
      let new_first_array ← new_first_array.store i (← m_first_array.load i)
      let new_second_array ← new_second_array.store i (← m_second_array.load i)
      copy m_first_array m_second_array n (i + 1) new_first_array new_second_array

/-- What both do with it. -/
def realloc (d : Allocated T N) (new_cap : ℕ) : Recorded ArrayAccess (Allocated T N) := do
  let arrays ← copy d.m_first_array d.m_second_array (toInt32 d.m_size).toNat 0 (List.replicate new_cap none)
    (List.replicate new_cap none)
  pure { d with m_cap := new_cap, m_first_array := arrays.1, m_second_array := arrays.2 }

/-- `DualDynamicArray::grow`. -/
def grow (d : Allocated T N) : Recorded ArrayAccess (Allocated T N) :=
  if d.m_size + 1 > d.m_cap then d.realloc (2 * d.m_cap) else pure d

/-- `DualDynamicArray::shrink`. -/
def shrink (d : Allocated T N) : Recorded ArrayAccess (Allocated T N) :=
  if d.m_size = d.m_cap / 2 ∧ d.m_size > 16 then d.realloc (d.m_cap / 2) else pure d

/-- `DualDynamicArray::add`. -/
def add (d : Allocated T N) (t_thing_one : T) (t_thing_two : N) : Recorded ArrayAccess (Allocated T N) := do
  let d ← d.grow
  let m_first_array ← d.m_first_array.store d.m_size (some t_thing_one)
  let m_second_array ← d.m_second_array.store d.m_size (some t_thing_two)
  pure { d with m_first_array := m_first_array, m_second_array := m_second_array, m_size := d.m_size + 1 }

/-- The loop of `find`, with `n` rows to go from row `i` on. -/
def find.loop (m_compare : T → T → ℤ) (t_thing_one : T) (m_first_array : Slots T) : (n i : ℕ) → Recorded ArrayAccess ℤ
  | 0, _ => pure (-1)
  | n + 1, i => do
      match ← m_first_array.load i with
      | some x => if m_compare t_thing_one x = 0 then pure i else find.loop m_compare t_thing_one m_first_array n (i + 1)
      | none => find.loop m_compare t_thing_one m_first_array n (i + 1)

/-- `DualDynamicArray::find`. -/
def find (m_compare : T → T → ℤ) (d : Allocated T N) (t_thing_one : T) : Recorded ArrayAccess ℤ :=
  find.loop m_compare t_thing_one d.m_first_array (toInt32 d.m_size).toNat 0

/-- `DualDynamicArray::remove`. -/
def remove (m_compare : T → T → ℤ) (d : Allocated T N) (t_thing_one : T) : Recorded ArrayAccess (Allocated T N) := do
  let index ← d.find m_compare t_thing_one
  if index ≠ -1 then do
    let m_first_array ← d.m_first_array.store index.toNat (← d.m_first_array.load (d.m_size - 1))
    let m_second_array ← d.m_second_array.store index.toNat (← d.m_second_array.load (d.m_size - 1))
    shrink { d with m_first_array := m_first_array, m_second_array := m_second_array, m_size := d.m_size - 1 }
  else pure d

/-- A call. -/
def perform (m_compare : T → T → ℤ) (d : Allocated T N) : ArrayCall T N → Recorded ArrayAccess (Allocated T N)
  | .add t n => d.add t n
  | .remove t => d.remove m_compare t

/-- The calls, one after the other. -/
def performAll (m_compare : T → T → ℤ) : Allocated T N → List (ArrayCall T N) → Recorded ArrayAccess (Allocated T N)
  | d, [] => pure d
  | d, c :: calls => do
      let d ← d.perform m_compare c
      performAll m_compare d calls

/-- The pairs `(first[i], second[i])` for `i < m_size`. -/
def rows (d : Allocated T N) : List (T × N) :=
  (List.range d.m_size).filterMap fun i =>
    d.m_first_array[i]?.join.bind fun t => d.m_second_array[i]?.join.map fun n => (t, n)

/-! ## The capacity

More than half of a large array is in use: this is what an array of too many elements would
break, and what makes the doubling pay. -/

/-- The arrays are as long as `m_cap` says, and there is room for the rows. -/
structure Room (d : Allocated T N) : Prop where
  cap : ∃ k, d.m_cap = 16 * 2 ^ k
  size : d.m_size ≤ d.m_cap
  first : d.m_first_array.length = d.m_cap
  second : d.m_second_array.length = d.m_cap

/-- Of large arrays more than half is in use. -/
structure Fits (d : Allocated T N) : Prop extends Room d where
  half : 32 < d.m_cap → d.m_cap < 2 * d.m_size

/-- The first rows of the arrays are those of the array without bounds. -/
structure Stores (d : Allocated T N) (e : DualDynamicArray T N) : Prop where
  size : d.m_size = e.m_size
  cap : d.m_cap = e.m_cap
  first : ∀ i < d.m_size, d.m_first_array[i]? = some (e.m_first_array i)
  second : ∀ i < d.m_size, d.m_second_array[i]? = some (e.m_second_array i)

/-! ## Copying

Both loops go over rows that are in either pair of arrays, since the new one is large enough. -/

/-- A copied element is in the new array, the others are as they were. -/
theorem getElem?_copied {α : Type} {array new_array : Slots α} {i : ℕ} (hi : i < array.length) (hi' : i < new_array.length)
    (j : ℕ) : (new_array.set i array[i]?.join)[j]? = if j = i then array[j]? else new_array[j]? := by
  rw [List.getElem?_set]
  by_cases hij : i = j
  · subst hij
    rw [if_pos rfl, if_pos hi', if_pos rfl, List.getElem?_eq_getElem hi]
    rfl
  · rw [if_neg hij, if_neg (Ne.symm hij)]

/-- A row is stored behind the last one. -/
theorem getElem?_behind {α : Type} {array : Slots α} {slots : ℕ → Option α} {size size' : ℕ} (hsame : size = size')
    (hroom : size < array.length) (hold : ∀ i < size, array[i]? = some (slots i)) (x : α) :
    ∀ i < size + 1, (array.set size (some x))[i]? = some (Function.update slots size' (some x) i) := by
  subst hsame
  intro i hi
  rw [List.getElem?_set]
  by_cases hlast : size = i
  · subst hlast
    rw [if_pos rfl, if_pos hroom, Function.update_self]
  · rw [if_neg hlast, Function.update_of_ne (Ne.symm hlast)]
    exact hold i (by omega)

/-- The last row is stored in the place of another. -/
theorem getElem?_moved {α : Type} {array : Slots α} {slots : ℕ → Option α} {size size' k : ℕ} (hsame : size = size')
    (hroom : size ≤ array.length) (hk : k < size) (hold : ∀ i < size, array[i]? = some (slots i)) :
    ∀ i < size - 1, (array.set k array[size - 1]?.join)[i]? = some (Function.update slots k (slots (size' - 1)) i) := by
  subst hsame
  intro i hi
  rw [List.getElem?_set, hold (size - 1) (by omega)]
  by_cases hik : k = i
  · subst hik
    rw [if_pos rfl, if_pos (by omega), Function.update_self]
    rfl
  · rw [if_neg hik, Function.update_of_ne (Ne.symm hik)]
    exact hold i (by omega)

/-- **The loop** stays inside arrays that are long enough, and copies its rows. -/
theorem copy_spec (m_first_array : Slots T) (m_second_array : Slots N) (n : ℕ) :
    ∀ (i : ℕ) (new_first_array : Slots T) (new_second_array : Slots N), i + n ≤ m_first_array.length →
      i + n ≤ m_second_array.length → i + n ≤ new_first_array.length → i + n ≤ new_second_array.length →
      let x := copy m_first_array m_second_array n i new_first_array new_second_array
      x.All ArrayAccess.Inside
        ∧ x.result.1.length = new_first_array.length ∧ x.result.2.length = new_second_array.length
        ∧ ∀ j, x.result.1[j]? = (if i ≤ j ∧ j < i + n then m_first_array[j]? else new_first_array[j]?)
          ∧ x.result.2[j]? = if i ≤ j ∧ j < i + n then m_second_array[j]? else new_second_array[j]? := by
  -- by the rows that are left to be copied
  induction n with
  | zero =>
      intro i new_first_array new_second_array _ _ _ _
      refine ⟨all_pure _ _, rfl, rfl, fun j => ?_⟩
      have hnone : ¬ (i ≤ j ∧ j < i + 0) := by omega
      rw [if_neg hnone, if_neg hnone]
      exact ⟨rfl, rfl⟩
  | succ n ih =>
      intro i new_first_array new_second_array hfirst hsecond hfirst' hsecond'
      obtain ⟨hall, hlen, hlen', hcopied⟩ := ih (i + 1) (new_first_array.set i m_first_array[i]?.join)
        (new_second_array.set i m_second_array[i]?.join) (by omega) (by omega)
        (by rw [List.length_set]; omega) (by rw [List.length_set]; omega)
      rw [List.length_set] at hlen hlen'
      refine ⟨?_, hlen, hlen', fun j => ?_⟩
      · simp only [copy, all_bind, Slots.all_load, Slots.all_store]
        exact ⟨by omega, by omega, by omega, by omega, hall⟩
      · -- row `i` has been copied in this round, and is not stored to again
        obtain ⟨hj, hj'⟩ := hcopied j
        rw [getElem?_copied (by omega) (by omega)] at hj hj'
        by_cases hji : j = i
        · subst hji
          have hlater : ¬ (j + 1 ≤ j ∧ j < j + 1 + n) := by omega
          rw [if_neg hlater, if_pos rfl] at hj hj'
          rw [if_pos (by omega), if_pos (by omega)]
          exact ⟨hj, hj'⟩
        · have hrest : (i ≤ j ∧ j < i + (n + 1)) ↔ i + 1 ≤ j ∧ j < i + 1 + n := by omega
          rw [if_neg hji] at hj hj'
          simp only [hrest]
          exact ⟨hj, hj'⟩

/-- The loops go over all rows of a table that is not too large. -/
theorem toNat_toInt32 {n : ℕ} (hn : n < 2 ^ 31) : (toInt32 n).toNat = n := by
  rw [toInt32_of_mem ⟨by omega, by exact_mod_cast hn⟩, Int.toNat_natCast]

section

variable {d : Allocated T N} {e : DualDynamicArray T N}

/-- New arrays that are large enough. -/
theorem realloc_spec (hroom : d.Room) (hstores : d.Stores e) (hsmall : d.m_size < 2 ^ 31) (new_cap : ℕ)
    (hcap : ∃ k, new_cap = 16 * 2 ^ k) (hsize : d.m_size ≤ new_cap) :
    (d.realloc new_cap).All ArrayAccess.Inside ∧ (d.realloc new_cap).result.Room
      ∧ (d.realloc new_cap).result.Stores (e.realloc new_cap) := by
  have hfirst := hroom.first
  have hsecond := hroom.second
  have hold := hroom.size
  -- copy fills the first m_size slots of two fresh arrays, and these are the rows
  obtain ⟨hall, hlen, hlen', hcopied⟩ := copy_spec d.m_first_array d.m_second_array d.m_size 0 (List.replicate new_cap none)
    (List.replicate new_cap none) (by omega) (by omega) (by rw [List.length_replicate]; omega)
    (by rw [List.length_replicate]; omega)
  rw [List.length_replicate] at hlen hlen'
  have hrealloc : d.realloc new_cap = (do
      let arrays ← copy d.m_first_array d.m_second_array d.m_size 0 (List.replicate new_cap none) (List.replicate new_cap none)
      pure { d with m_cap := new_cap, m_first_array := arrays.1, m_second_array := arrays.2 }) := by
    rw [realloc, toNat_toInt32 hsmall]
  rw [hrealloc]
  refine ⟨hall.bind (all_pure _ _), ⟨hcap, hsize, hlen, hlen'⟩, ⟨hstores.size, rfl, fun i hi => ?_, fun i hi => ?_⟩⟩
  · have hi' : i < e.m_size := hstores.size ▸ hi
    have hcopied := (hcopied i).1
    rw [if_pos ⟨Nat.zero_le i, by rw [Nat.zero_add]; exact hi⟩, hstores.first i hi] at hcopied
    refine hcopied.trans (congrArg some ?_)
    exact (if_pos hi').symm
  · have hi' : i < e.m_size := hstores.size ▸ hi
    have hcopied := (hcopied i).2
    rw [if_pos ⟨Nat.zero_le i, by rw [Nat.zero_add]; exact hi⟩, hstores.second i hi] at hcopied
    refine hcopied.trans (congrArg some ?_)
    exact (if_pos hi').symm

/-- **`grow`** makes room for one row more. -/
theorem grow_spec (hfits : d.Fits) (hstores : d.Stores e) (hsmall : d.m_size < 2 ^ 31) :
    d.grow.All ArrayAccess.Inside ∧ d.grow.result.Room ∧ d.grow.result.Stores e.grow
      ∧ d.grow.result.m_size = d.m_size ∧ d.m_size < d.grow.result.m_cap
      ∧ (32 < d.grow.result.m_cap → d.grow.result.m_cap < 2 * (d.m_size + 1)) := by
  have hsize := hfits.size
  have hhalf := hfits.half
  obtain ⟨k, hk⟩ := hfits.cap
  have hpos : 0 < d.m_cap := by
    rw [hk]
    positivity
  -- there is room already, or the arrays are full and double
  unfold grow DualDynamicArray.grow
  rw [hstores.size, hstores.cap]
  rw [hstores.size, hstores.cap] at hsize hhalf
  rw [hstores.cap] at hpos
  split
  · next hfull =>
      obtain ⟨hall, hroom, hstores'⟩ := realloc_spec hfits.toRoom hstores hsmall (2 * e.m_cap)
        ⟨k + 1, by rw [← hstores.cap, hk, pow_succ]; omega⟩ (by rw [hstores.size]; omega)
      refine ⟨hall, hroom, hstores', hstores.size, ?_, fun _ => ?_⟩
      · show e.m_size < 2 * e.m_cap
        omega
      · show 2 * e.m_cap < _
        omega
  · next hroom =>
      refine ⟨all_pure _ _, hfits.toRoom, hstores, hstores.size, ?_, fun hbig => ?_⟩
      · show e.m_size < d.m_cap
        rw [hstores.cap]
        omega
      · have hlarge : 32 < e.m_cap := hstores.cap ▸ hbig
        show d.m_cap < _
        rw [hstores.cap]
        have hlt := hhalf hlarge
        omega

/-- **`add`** stores behind the last row. -/
theorem add_spec (hfits : d.Fits) (hstores : d.Stores e) (hsmall : d.m_size < 2 ^ 31) (t : T) (n : N) :
    (d.add t n).All ArrayAccess.Inside ∧ (d.add t n).result.Fits ∧ (d.add t n).result.Stores (e.add t n) := by
  -- the array has grown first where it was full, so the store behind the last row is inside it
  obtain ⟨hall, hroom, hstores', hsize, hlt, hhalf⟩ := grow_spec hfits hstores hsmall
  have hfirst := hroom.first
  have hsecond := hroom.second
  have hsize' := hstores'.size
  refine ⟨?_, ⟨⟨hroom.cap, ?_, ?_, ?_⟩, ?_⟩, ⟨congrArg (· + 1) hsize', hstores'.cap, ?_, ?_⟩⟩
  · simp only [add, all_bind, Slots.all_store, all_pure, and_true]
    exact ⟨hall, by omega, by omega⟩
  · show d.grow.result.m_size + 1 ≤ d.grow.result.m_cap
    omega
  · show (d.grow.result.m_first_array.set _ _).length = _
    rw [List.length_set]
    exact hfirst
  · show (d.grow.result.m_second_array.set _ _).length = _
    rw [List.length_set]
    exact hsecond
  · show 32 < d.grow.result.m_cap → d.grow.result.m_cap < 2 * (d.grow.result.m_size + 1)
    rw [hsize]
    exact hhalf
  · exact getElem?_behind hsize' (by omega) hstores'.first t
  · exact getElem?_behind hsize' (by omega) hstores'.second n

/-- The loop of `find` is that of the array without bounds. -/
theorem find_loop_spec (m_compare : T → T → ℤ) (t : T) (hlength : d.m_size ≤ d.m_first_array.length) (hstores : d.Stores e)
    (n : ℕ) : ∀ i, i + n ≤ d.m_size →
      (find.loop m_compare t d.m_first_array n i).All ArrayAccess.Inside
        ∧ (find.loop m_compare t d.m_first_array n i).result = DualDynamicArray.find.loop m_compare t e.m_first_array n i := by
  induction n with
  | zero => exact fun i _ => ⟨all_pure _ _, rfl⟩
  | succ n ih =>
      intro i hi
      obtain ⟨hall, hresult⟩ := ih (i + 1) (by omega)
      have hload : (d.m_first_array.load i).result = e.m_first_array i := by
        rw [Slots.result_load, hstores.first i (by omega)]
        rfl
      have hinside : i < d.m_first_array.length := by omega
      rw [find.loop, DualDynamicArray.find.loop, all_bind, Slots.all_load, result_bind, hload]
      cases e.m_first_array i with
      | none => exact ⟨⟨hinside, hall⟩, hresult⟩
      | some x =>
          dsimp only
          split
          · exact ⟨⟨hinside, all_pure _ _⟩, rfl⟩
          · exact ⟨⟨hinside, hall⟩, hresult⟩

/-- So is `find`. -/
theorem find_spec (m_compare : T → T → ℤ) (hroom : d.Room) (hstores : d.Stores e) (hsmall : d.m_size < 2 ^ 31) (t : T) :
    (d.find m_compare t).All ArrayAccess.Inside ∧ (d.find m_compare t).result = e.find m_compare t := by
  unfold find DualDynamicArray.find
  rw [toNat_toInt32 hsmall, ← hstores.size]
  exact find_loop_spec m_compare t (by rw [hroom.first]; exact hroom.size) hstores d.m_size 0 (by omega)

/-- **`shrink`**, after a removal: the arrays halve as soon as they are half full. -/
theorem shrink_spec (hroom : d.Room) (hhalf : 32 < d.m_cap → d.m_cap ≤ 2 * d.m_size) (hstores : d.Stores e)
    (hsmall : d.m_size < 2 ^ 31) :
    d.shrink.All ArrayAccess.Inside ∧ d.shrink.result.Fits ∧ d.shrink.result.Stores e.shrink := by
  have hsize := hroom.size
  obtain ⟨k, hk⟩ := hroom.cap
  unfold shrink DualDynamicArray.shrink
  rw [← hstores.size, ← hstores.cap]
  split
  · next hshrink =>
      -- more than 16 rows in half the arrays, so these have 64 elements at least
      obtain ⟨hequal, hbig⟩ := hshrink
      obtain ⟨k, rfl⟩ : ∃ k', k = k' + 1 := by
        refine Nat.exists_eq_succ_of_ne_zero ?_
        rintro rfl
        omega
      obtain ⟨hall, hroom', hstores'⟩ := realloc_spec hroom hstores hsmall (d.m_cap / 2)
        ⟨k, by rw [hk, pow_succ]; omega⟩ (by omega)
      refine ⟨hall, ⟨hroom', fun _ => ?_⟩, hstores'⟩
      show d.m_cap / 2 < 2 * d.m_size
      omega
  · next hkeep =>
      refine ⟨all_pure _ _, ⟨hroom, fun hbig => ?_⟩, hstores⟩
      show d.m_cap < 2 * d.m_size
      have hlarge : 32 < d.m_cap := hbig
      have hle := hhalf hlarge
      -- not exactly half, since that would have been more than 16 rows
      obtain ⟨k, rfl⟩ : ∃ k', k = k' + 1 := by
        refine Nat.exists_eq_succ_of_ne_zero ?_
        rintro rfl
        omega
      rw [pow_succ] at hk
      omega

/-- **`remove`** moves the last row into the place of the row that is found. -/
theorem remove_spec (m_compare : T → T → ℤ) {l : List (T × N)} (hrep : e.Rep l) (hfits : d.Fits) (hstores : d.Stores e)
    (hsmall : d.m_size < 2 ^ 31) (t : T) :
    (d.remove m_compare t).All ArrayAccess.Inside ∧ (d.remove m_compare t).result.Fits
      ∧ (d.remove m_compare t).result.Stores (e.remove m_compare t) := by
  obtain ⟨hall, hfind⟩ := find_spec m_compare hfits.toRoom hstores hsmall t
  have hsize := hfits.size
  have hfirst := hfits.first
  have hsecond := hfits.second
  have hhalf := hfits.half
  have hlength : d.m_size = l.length := hstores.size.trans hrep.size
  have heven : d.m_cap % 2 = 0 := by
    obtain ⟨j, hj⟩ := hfits.cap
    omega
  unfold remove DualDynamicArray.remove
  rw [all_bind, result_bind, hfind]
  dsimp only
  -- there is no such row, or the last one takes its place
  rcases DualDynamicArray.find_spec m_compare hrep t with ⟨hnone, -⟩ | ⟨k, hk, hindex, -⟩
  · rw [hnone, if_neg (by decide), if_neg (by decide)]
    exact ⟨⟨hall, all_pure _ _⟩, hfits, hstores⟩
  · have hne : ((k : ℕ) : ℤ) ≠ -1 := by omega
    rw [hindex, if_pos hne, if_pos hne, Int.toNat_natCast]
    obtain ⟨hall', hfits', hstores'⟩ := shrink_spec
      (d := { d with
        m_first_array := d.m_first_array.set k d.m_first_array[d.m_size - 1]?.join
        m_second_array := d.m_second_array.set k d.m_second_array[d.m_size - 1]?.join
        m_size := d.m_size - 1 })
      (e := { e with
        m_first_array := Function.update e.m_first_array k (e.m_first_array (e.m_size - 1))
        m_second_array := Function.update e.m_second_array k (e.m_second_array (e.m_size - 1))
        m_size := e.m_size - 1 })
      ⟨hfits.cap, by dsimp only; omega, (List.length_set ..).trans hfirst, (List.length_set ..).trans hsecond⟩
      (by dsimp only; omega)
      ⟨congrArg (· - 1) hstores.size, hstores.cap, getElem?_moved hstores.size (by omega) (by omega) hstores.first,
        getElem?_moved hstores.size (by omega) (by omega) hstores.second⟩
      (by dsimp only; omega)
    refine ⟨⟨hall, ?_⟩, hfits', hstores'⟩
    simp only [all_bind, Slots.all_load, Slots.all_store]
    exact ⟨by omega, by omega, by omega, by omega, hall'⟩

/-- So the rows are the same. -/
theorem Stores.rows_eq (hstores : d.Stores e) : d.rows = e.rows := by
  rw [rows, DualDynamicArray.rows, DualDynamicArray.getSize, ← hstores.size]
  refine List.filterMap_congr fun i hi => ?_
  rw [hstores.first i (List.mem_range.mp hi), hstores.second i (List.mem_range.mp hi)]
  rfl

/-! ## Runs

By induction on the calls, with the array without bounds beside: the same rows, and every
access inside. -/

/-- **A call** is that of the array without bounds, and stays inside the arrays. -/
theorem perform_spec (m_compare : T → T → ℤ) {l : List (T × N)} (hrep : e.Rep l) (hfits : d.Fits) (hstores : d.Stores e)
    (hsmall : d.m_size < 2 ^ 31) (c : ArrayCall T N) :
    (d.perform m_compare c).All ArrayAccess.Inside ∧ (d.perform m_compare c).result.Fits
      ∧ (d.perform m_compare c).result.Stores (e.perform m_compare c) := by
  cases c with
  | add t n => exact add_spec hfits hstores hsmall t n
  | remove t => exact remove_spec m_compare hrep hfits hstores hsmall t

/-- The array without bounds stores the rows. -/
theorem rep_perform (m_compare : T → T → ℤ) {l : List (T × N)} (hrep : e.Rep l) (c : ArrayCall T N) :
    (e.perform m_compare c).Rep (c.rows m_compare l) := by
  cases c with
  | add t n => exact (DualDynamicArray.add_spec hrep t n).1
  | remove t =>
      show (e.remove m_compare t).Rep _
      rcases DualDynamicArray.find_spec m_compare hrep t with ⟨hfind, hmiss⟩ | ⟨k, hk, hfind, hmatch, hleast⟩
      · have hnone : l.findFinIdx? (fun row => m_compare t row.1 = 0) = none := by
          rw [List.findFinIdx?_eq_none_iff]
          intro row hrow
          obtain ⟨j, hj, rfl⟩ := List.getElem_of_mem hrow
          exact decide_eq_false (hmiss j hj) ▸ Bool.false_ne_true
        simp only [ArrayCall.rows, hnone]
        rw [DualDynamicArray.remove, if_neg (not_not.mpr hfind)]
        exact hrep
      · have hsome : l.findFinIdx? (fun row => m_compare t row.1 = 0) = some ⟨k, hk⟩ := by
          rw [List.findFinIdx?_eq_some_iff]
          refine ⟨decide_eq_true hmatch, fun j hj => ?_⟩
          exact decide_eq_false (hleast j j.isLt hj) ▸ Bool.false_ne_true
        simp only [ArrayCall.rows, hsome]
        exact DualDynamicArray.remove_spec hrep hk hfind

/-- **A run** is that of the array without bounds. -/
theorem run_spec (m_compare : T → T → ℤ) (calls : List (ArrayCall T N)) :
    ∀ {d : Allocated T N} {e : DualDynamicArray T N} {l : List (T × N)}, e.Rep l → d.Fits → d.Stores e →
      (∀ before c after, calls = before ++ c :: after → (d.performAll m_compare before).result.m_size < 2 ^ 31) →
      (d.performAll m_compare calls).All ArrayAccess.Inside ∧ (d.performAll m_compare calls).result.Fits
        ∧ ∃ e' : DualDynamicArray T N, e'.Rep (calls.foldl (ArrayCall.rows m_compare) l)
          ∧ (d.performAll m_compare calls).result.Stores e' := by
  induction calls with
  | nil => exact fun {d e l} hrep hfits hstores _ => ⟨all_pure _ d, hfits, e, hrep, hstores⟩
  | cons c calls ih =>
      intro d e l hrep hfits hstores hsmall
      obtain ⟨hall, hfits', hstores'⟩ := perform_spec m_compare hrep hfits hstores (hsmall [] c calls rfl) c
      obtain ⟨hall', hrun⟩ := ih (rep_perform m_compare hrep c) hfits' hstores' fun before c' after hcalls =>
        hsmall (c :: before) c' after (congrArg (c :: ·) hcalls)
      exact ⟨hall.bind hall', hrun⟩

theorem fits_new : (new : Allocated T N).Fits :=
  ⟨⟨⟨0, rfl⟩, Nat.zero_le 16, List.length_replicate, List.length_replicate⟩,
    fun hbig => absurd (show 32 < 16 from hbig) (by decide)⟩

theorem stores_new : (new : Allocated T N).Stores DualDynamicArray.new :=
  ⟨rfl, rfl, fun _ hi => absurd hi (Nat.not_lt_zero _), fun _ hi => absurd hi (Nat.not_lt_zero _)⟩

/-- **No access is out of bounds.** After any calls of `add` and `remove`, as long as there
are never 2³¹ rows, the capacity is a power of two times 16, there is room for the rows, and
of arrays of more than 32 elements more than half is in use; every access that the calls
made went to an element of the array it was made to; and the rows are those that have been
added and not been removed. -/
theorem capacity (m_compare : T → T → ℤ) (calls : List (ArrayCall T N))
    (hsmall : ∀ before after, calls = before ++ after → (new.performAll m_compare before).result.m_size < 2 ^ 31) :
    (new.performAll m_compare calls).All ArrayAccess.Inside
      ∧ (new.performAll m_compare calls).result.Fits
      ∧ (new.performAll m_compare calls).result.rows = calls.foldl (ArrayCall.rows m_compare) []
      ∧ (new.performAll m_compare calls).result.rows.length = (new.performAll m_compare calls).result.m_size := by
  obtain ⟨hall, hfits, e, hrep, hstores⟩ := run_spec m_compare calls DualDynamicArray.rep_new fits_new stores_new
    fun before c after hcalls => hsmall before (c :: after) hcalls
  have hrows := hstores.rows_eq.trans hrep.rows_eq
  refine ⟨hall, hfits, hrows, ?_⟩
  rw [hrows, hstores.size, hrep.size]

/-- A call adds one row at most. -/
theorem length_rows (m_compare : T → T → ℤ) (l : List (T × N)) (c : ArrayCall T N) :
    (c.rows m_compare l).length ≤ l.length + 1 := by
  cases c with
  | add t n => exact List.length_append.le
  | remove t =>
      rw [ArrayCall.rows]
      split
      · next k hk =>
          rw [DualDynamicArray.length_removeRow]
          omega
      · exact Nat.le_succ _

theorem length_foldl_rows (m_compare : T → T → ℤ) (calls : List (ArrayCall T N)) :
    ∀ l : List (T × N), (calls.foldl (ArrayCall.rows m_compare) l).length ≤ l.length + calls.length := by
  induction calls with
  | nil => exact fun l => le_rfl
  | cons c calls ih =>
      intro l
      have hcall := length_rows m_compare l c
      have hrest := ih (c.rows m_compare l)
      rw [List.foldl_cons, List.length_cons]
      omega

/-- There are no more rows than calls have been made. -/
theorem size_le_length (m_compare : T → T → ℤ) (calls : List (ArrayCall T N)) (hcalls : calls.length ≤ 2 ^ 31) :
    (new.performAll m_compare calls).result.m_size ≤ calls.length := by
  induction hlength : calls.length using Nat.strong_induction_on generalizing calls with
  | h n ih =>
      obtain ⟨-, -, e, hrep, hstores⟩ := run_spec m_compare calls DualDynamicArray.rep_new fits_new stores_new (by
        intro before c after hbefore
        have hshorter : calls.length = before.length + (after.length + 1) := by
          rw [hbefore, List.length_append, List.length_cons]
        have hsize := ih before.length (by omega) before (by omega) rfl
        omega)
      have hrows := length_foldl_rows m_compare calls []
      rw [List.length_nil, Nat.zero_add] at hrows
      rw [hstores.size, hrep.size, ← hlength]
      exact hrows

/-- 33 rows do not fit in 32 elements, and when one has gone the others do again. -/
def overTheEdge : List (ArrayCall ℤ Unit) := (List.range 33).map (fun i => .add i ()) ++ [.remove 0]

theorem capacity_overTheEdge :
    (new.performAll (fun a b => a - b) overTheEdge).All ArrayAccess.Inside
      ∧ (new.performAll (fun a b => a - b) overTheEdge).result.Fits
      ∧ (new.performAll (fun a b => a - b) overTheEdge).result.rows
        = overTheEdge.foldl (ArrayCall.rows fun a b => a - b) []
      ∧ (new.performAll (fun a b => a - b) overTheEdge).result.rows.length
        = (new.performAll (fun a b => a - b) overTheEdge).result.m_size := by
  refine capacity _ _ fun before after hcalls => ?_
  have hlength : 34 = before.length + after.length := by
    rw [← List.length_append, ← hcalls]
    rfl
  have hsize := size_le_length (fun a b : ℤ => a - b) before (by omega)
  omega

end

end Allocated

end DualDynamicArray

end JudoEngine
