/-
`DualDynamicArray.cpp`: two arrays of equal capacity that grow and shrink
together, with the rows `(first[i], second[i])` for `i < m_size`.

An array is a function from indices; `none` is a slot that nothing has been
stored in. Growing and shrinking allocate a new pair of arrays and free the old
one, so `arrays` numbers the pair that the object owns: whoever has kept a
pointer to a pair with another number holds freed memory.

`Rep` ties the object to the list of its rows.
-/
import Mathlib.Data.Int.Init
import Mathlib.Data.List.Basic
import Mathlib.Logic.Function.Basic

set_option autoImplicit false

namespace JudoEngine

/-- The fields of `class DualDynamicArray`, but the comparison, which is an
argument of the functions that use it. -/
structure DualDynamicArray (T N : Type) where
  m_size : ℕ
  m_cap : ℕ
  m_first_array : ℕ → Option T
  m_second_array : ℕ → Option N
  arrays : ℕ

namespace DualDynamicArray

variable {T N : Type}

/-! ## The operations

As in the source, with the arrays as functions on indices. The bounds of the arrays, and what
is outside them, are what `Capacity` is about. -/

/-- The constructor; `MIN_DDA_SIZE` is 16. -/
def new : DualDynamicArray T N := ⟨0, 16, fun _ => none, fun _ => none, 0⟩

/-- `DualDynamicArray::getSize`. -/
def getSize (d : DualDynamicArray T N) : ℕ := d.m_size

/-- What `grow` and `shrink` both do: a new pair of arrays of this capacity, with
the rows copied. -/
def realloc (d : DualDynamicArray T N) (new_cap : ℕ) : DualDynamicArray T N where
  m_size := d.m_size
  m_cap := new_cap
  m_first_array i := if i < d.m_size then d.m_first_array i else none
  m_second_array i := if i < d.m_size then d.m_second_array i else none
  arrays := d.arrays + 1

/-- `DualDynamicArray::grow`. -/
def grow (d : DualDynamicArray T N) : DualDynamicArray T N :=
  if d.m_size + 1 > d.m_cap then d.realloc (2 * d.m_cap) else d

/-- `DualDynamicArray::shrink`. -/
def shrink (d : DualDynamicArray T N) : DualDynamicArray T N :=
  if d.m_size = d.m_cap / 2 ∧ d.m_size > 16 then d.realloc (d.m_cap / 2) else d

/-- `DualDynamicArray::add`. -/
def add (d : DualDynamicArray T N) (t_thing_one : T) (t_thing_two : N) : DualDynamicArray T N :=
  let d := d.grow
  { d with
    m_first_array := Function.update d.m_first_array d.m_size (some t_thing_one)
    m_second_array := Function.update d.m_second_array d.m_size (some t_thing_two)
    m_size := d.m_size + 1 }

/-- The loop of `find`, with `n` rows to go from row `i` on. -/
def find.loop (m_compare : T → T → ℤ) (t_thing_one : T) (first : ℕ → Option T) : ℕ → ℕ → ℤ
  | 0, _ => -1
  | n + 1, i =>
      match first i with
      | some x =>
          if m_compare t_thing_one x = 0 then i else find.loop m_compare t_thing_one first n (i + 1)
      | none => find.loop m_compare t_thing_one first n (i + 1)

/-- `DualDynamicArray::find`. -/
def find (m_compare : T → T → ℤ) (d : DualDynamicArray T N) (t_thing_one : T) : ℤ :=
  find.loop m_compare t_thing_one d.m_first_array d.m_size 0

/-- `DualDynamicArray::remove`. -/
def remove (m_compare : T → T → ℤ) (d : DualDynamicArray T N) (t_thing_one : T) :
    DualDynamicArray T N :=
  let index := d.find m_compare t_thing_one
  if index ≠ -1 then
    shrink
      { d with
        m_first_array := Function.update d.m_first_array index.toNat (d.m_first_array (d.m_size - 1))
        m_second_array := Function.update d.m_second_array index.toNat (d.m_second_array (d.m_size - 1))
        m_size := d.m_size - 1 }
  else d

/-- A store through the pointer that `getFirstArray` returns. -/
def modifyFirst (d : DualDynamicArray T N) (index : ℕ) (f : T → T) : DualDynamicArray T N :=
  { d with m_first_array := Function.update d.m_first_array index ((d.m_first_array index).map f) }

/-- Stores to all rows. -/
def mapFirst (d : DualDynamicArray T N) (f : ℕ → T → T) : DualDynamicArray T N :=
  { d with m_first_array := fun i => if i < d.m_size then (d.m_first_array i).map (f i) else d.m_first_array i }

/-! ## The rows

Each operation is described by what it does to the list of rows and, since the event loop
keeps pointers, to the arrays. -/

/-- The object stores the rows. -/
structure Rep (d : DualDynamicArray T N) (rows : List (T × N)) : Prop where
  size : d.m_size = rows.length
  cap : rows.length ≤ d.m_cap
  pos : 0 < d.m_cap
  first : ∀ i (hi : i < rows.length), d.m_first_array i = some (rows[i].1)
  second : ∀ i (hi : i < rows.length), d.m_second_array i = some (rows[i].2)

theorem rep_new : Rep (new : DualDynamicArray T N) [] :=
  ⟨rfl, Nat.zero_le _, Nat.succ_pos 15, fun _ hi => absurd hi (Nat.not_lt_zero _),
    fun _ hi => absurd hi (Nat.not_lt_zero _)⟩

/-- Copying keeps the rows, when there is room for them. -/
theorem Rep.realloc {d : DualDynamicArray T N} {rows : List (T × N)} (hd : Rep d rows) {new_cap : ℕ}
    (hcap : rows.length ≤ new_cap) (hpos : 0 < new_cap) : Rep (d.realloc new_cap) rows := by
  refine ⟨hd.size, hcap, hpos, fun i hi => ?_, fun i hi => ?_⟩
  · show (if i < d.m_size then _ else _) = _
    rw [if_pos (by rw [hd.size]; exact hi), hd.first i hi]
  · show (if i < d.m_size then _ else _) = _
    rw [if_pos (by rw [hd.size]; exact hi), hd.second i hi]

/-- **`add`** appends a row. The arrays stay the same exactly when there is room
for it. -/
theorem add_spec {d : DualDynamicArray T N} {rows : List (T × N)} (hd : Rep d rows) (t : T) (n : N) :
    Rep (d.add t n) (rows ++ [(t, n)])
      ∧ (rows.length < d.m_cap → (d.add t n).arrays = d.arrays ∧ (d.add t n).m_cap = d.m_cap)
      ∧ (rows.length = d.m_cap → (d.add t n).arrays = d.arrays + 1 ∧ (d.add t n).m_cap = 2 * d.m_cap) := by
  have hsize := hd.size
  have hcap := hd.cap
  have hpos := hd.pos
  -- growing leaves the rows and makes room for one more
  have hgrow : Rep d.grow rows ∧ d.grow.m_size = rows.length ∧ rows.length < d.grow.m_cap := by
    unfold grow
    split
    · exact ⟨hd.realloc (by omega) (by omega), hsize, by simp only [DualDynamicArray.realloc]; omega⟩
    · exact ⟨hd, hsize, by omega⟩
  obtain ⟨hg, hgsize, hgcap⟩ := hgrow
  refine ⟨⟨?_, ?_, hg.pos, fun i hi => ?_, fun i hi => ?_⟩, fun hlt => ?_, fun heq => ?_⟩
  · simp only [add, hgsize, List.length_append, List.length_singleton]
  · simp only [add, List.length_append, List.length_singleton]
    omega
  · simp only [add, hgsize]
    rw [List.length_append, List.length_singleton] at hi
    by_cases hlast : i = rows.length
    · subst hlast
      rw [Function.update_self, List.getElem_concat_length rfl]
    · rw [Function.update_of_ne hlast, List.getElem_append_left (by omega), hg.first i (by omega)]
  · simp only [add, hgsize]
    rw [List.length_append, List.length_singleton] at hi
    by_cases hlast : i = rows.length
    · subst hlast
      rw [Function.update_self, List.getElem_concat_length rfl]
    · rw [Function.update_of_ne hlast, List.getElem_append_left (by omega), hg.second i (by omega)]
  · have hroom : ¬ d.m_size + 1 > d.m_cap := by omega
    simp only [add, grow, if_neg hroom, and_self]
  · have hfull : d.m_size + 1 > d.m_cap := by omega
    simp only [add, grow, if_pos hfull, DualDynamicArray.realloc, and_self]

/-- The loop of `find` gives -1 when nothing matches, and else the least match. -/
theorem find_loop_spec {m_compare : T → T → ℤ} {t : T} {first : ℕ → Option T} (n : ℕ) : ∀ {i : ℕ},
    (find.loop m_compare t first n i = -1 ∧ ∀ j x, i ≤ j → j < i + n → first j = some x → m_compare t x ≠ 0)
      ∨ ∃ k x, find.loop m_compare t first n i = ((k : ℕ) : ℤ) ∧ i ≤ k ∧ k < i + n ∧ first k = some x
        ∧ m_compare t x = 0 ∧ ∀ j y, i ≤ j → j < k → first j = some y → m_compare t y ≠ 0 := by
  induction n with
  | zero =>
      intro i
      exact .inl ⟨rfl, fun j x hij hj => absurd hj (by omega)⟩
  | succ n ih =>
      intro i
      unfold find.loop
      -- the row at `i` does not match: the loop goes on
      have hgo : (∀ x, first i = some x → m_compare t x ≠ 0) →
          (find.loop m_compare t first n (i + 1) = -1
              ∧ ∀ j x, i ≤ j → j < i + (n + 1) → first j = some x → m_compare t x ≠ 0)
            ∨ ∃ k x, find.loop m_compare t first n (i + 1) = ((k : ℕ) : ℤ) ∧ i ≤ k ∧ k < i + (n + 1)
              ∧ first k = some x ∧ m_compare t x = 0
              ∧ ∀ j y, i ≤ j → j < k → first j = some y → m_compare t y ≠ 0 := by
        intro hi
        rcases ih (i := i + 1) with ⟨hloop, hnone⟩ | ⟨k, x, hloop, hik, hk, hx, hcmp, hleast⟩
        · refine .inl ⟨hloop, fun j x hij hj hx => ?_⟩
          by_cases hji : j = i
          · exact hi x (hji ▸ hx)
          · exact hnone j x (by omega) (by omega) hx
        · refine .inr ⟨k, x, hloop, by omega, by omega, hx, hcmp, fun j y hij hjk hy => ?_⟩
          by_cases hji : j = i
          · exact hi y (hji ▸ hy)
          · exact hleast j y (by omega) hjk hy
      split
      · next x hx =>
          split
          · next hcmp =>
              exact .inr ⟨i, x, rfl, Nat.le_refl i, by omega, hx, hcmp, fun j y hij hji => absurd hij (by omega)⟩
          · next hcmp =>
              refine hgo fun y hy => ?_
              rw [hx] at hy
              cases hy
              exact hcmp
      · next hnone =>
          refine hgo fun y hy => ?_
          rw [hnone] at hy
          cases hy

/-- **`find`** gives -1 when no row matches, and else the least row that does. -/
theorem find_spec (m_compare : T → T → ℤ) {d : DualDynamicArray T N} {rows : List (T × N)}
    (hd : Rep d rows) (t : T) :
    (d.find m_compare t = -1 ∧ ∀ j (hj : j < rows.length), m_compare t rows[j].1 ≠ 0)
      ∨ ∃ (k : ℕ) (hk : k < rows.length), d.find m_compare t = (k : ℤ) ∧ m_compare t rows[k].1 = 0
        ∧ ∀ j (hj : j < rows.length), j < k → m_compare t rows[j].1 ≠ 0 := by
  unfold find
  rw [hd.size]
  rcases @find_loop_spec T m_compare t d.m_first_array rows.length 0 with
    ⟨hloop, hnone⟩ | ⟨k, x, hloop, -, hk, hx, hcmp, hleast⟩
  · exact .inl ⟨hloop, fun j hj => hnone j _ (Nat.zero_le j) (by omega) (hd.first j hj)⟩
  · have hk' : k < rows.length := by omega
    rw [hd.first k hk'] at hx
    cases hx
    exact .inr ⟨k, hk', hloop, hcmp, fun j hj hjk => hleast j _ (Nat.zero_le j) hjk (hd.first j hj)⟩

/-- The rows after row `k` has been removed: the last row takes its place. -/
def removeRow (rows : List (T × N)) (k : ℕ) (hk : k < rows.length) : List (T × N) :=
  (rows.set k (rows.get ⟨rows.length - 1, by omega⟩)).dropLast

theorem length_removeRow (rows : List (T × N)) (k : ℕ) (hk : k < rows.length) :
    (removeRow rows k hk).length = rows.length - 1 := by
  rw [removeRow, List.length_dropLast, List.length_set]

/-- Each row is where it was, but for the last one. -/
theorem getElem_removeRow (rows : List (T × N)) (k : ℕ) (hk : k < rows.length) {i : ℕ}
    (hi : i < (removeRow rows k hk).length) :
    (removeRow rows k hk)[i] = if i = k then rows.get ⟨rows.length - 1, by omega⟩
      else rows.get ⟨i, by rw [length_removeRow] at hi; omega⟩ := by
  simp only [removeRow, List.getElem_dropLast, List.getElem_set, List.get_eq_getElem, eq_comm]

/-- From `k` on these are the rows after row `k`, in another order. -/
theorem drop_removeRow (rows : List (T × N)) (k : ℕ) (hk : k < rows.length) :
    ((removeRow rows k hk).drop k).Perm (rows.drop (k + 1)) := by
  obtain ⟨rest, hrest⟩ : ∃ rest, rows.drop (k + 1) = rest := ⟨_, rfl⟩
  have hset : ∀ last : T × N, rows.set k last = rows.take k ++ last :: rest := by
    intro last
    rw [List.set_eq_take_append_cons_drop, if_pos hk, hrest]
  have hlen : (rows.take k).length = k := by
    rw [List.length_take]
    omega
  rw [removeRow, hset, hrest]
  -- row k is the last row itself, or the last row moves into its place
  rcases List.eq_nil_or_concat rest with rfl | ⟨init, last, rfl⟩
  · rw [List.dropLast_concat, List.drop_of_length_le (by omega)]
  · have hsize := congrArg List.length hrest
    rw [List.concat_eq_append, List.length_drop, List.length_append, List.length_singleton] at hsize
    have hlast : rows.get ⟨rows.length - 1, by omega⟩ = last := by
      have hsome : rows[rows.length - 1]? = some last := by
        rw [show rows.length - 1 = k + 1 + init.length by omega, ← List.getElem?_drop, hrest]
        simp
      exact List.getElem_of_getElem? hsome |>.2
    rw [hlast, List.concat_eq_append, ← List.cons_append, ← List.append_assoc, List.dropLast_concat,
      List.drop_left' hlen]
    exact (List.perm_append_singleton last init).symm

/-- So together they are the other rows. -/
theorem perm_removeRow (rows : List (T × N)) (k : ℕ) (hk : k < rows.length) :
    (removeRow rows k hk).Perm (rows.eraseIdx k) := by
  have htake : (removeRow rows k hk).take k = rows.take k := by
    refine List.ext_getElem ?_ fun i hi hi' => ?_
    · rw [List.length_take, List.length_take, length_removeRow]
      omega
    · rw [List.length_take] at hi'
      rw [List.getElem_take, List.getElem_take, getElem_removeRow, if_neg (by omega), List.get_eq_getElem]
  rw [← List.take_append_drop k (removeRow rows k hk), htake, List.eraseIdx_eq_take_drop_succ]
  exact (drop_removeRow rows k hk).append_left _

/-- **`remove`** takes out the least row that matches, and moves the last row
into its place. The arrays stay the same unless it shrinks them. -/
theorem remove_spec {m_compare : T → T → ℤ} {d : DualDynamicArray T N} {rows : List (T × N)}
    (hd : Rep d rows) {t : T} {k : ℕ} (hk : k < rows.length) (hfind : d.find m_compare t = (k : ℤ)) :
    Rep (d.remove m_compare t) (removeRow rows k hk) := by
  have hsize := hd.size
  have hcap := hd.cap
  have hlast : rows.length - 1 < rows.length := by omega
  have hne : d.find m_compare t ≠ -1 := by
    rw [hfind]
    omega
  -- before shrinking
  have hmid : Rep { d with
      m_first_array := Function.update d.m_first_array k (d.m_first_array (d.m_size - 1))
      m_second_array := Function.update d.m_second_array k (d.m_second_array (d.m_size - 1))
      m_size := d.m_size - 1 } (removeRow rows k hk) := by
    refine ⟨?_, ?_, hd.pos, fun i hi => ?_, fun i hi => ?_⟩
    · show d.m_size - 1 = _
      rw [length_removeRow, hsize]
    · rw [length_removeRow]
      show rows.length - 1 ≤ d.m_cap
      omega
    · rw [length_removeRow] at hi
      rw [getElem_removeRow]
      show Function.update _ _ _ i = _
      by_cases hik : i = k
      · subst hik
        rw [if_pos rfl, Function.update_self, hsize, hd.first _ hlast, List.get_eq_getElem]
      · rw [if_neg hik, Function.update_of_ne hik, hd.first i (by omega), List.get_eq_getElem]
    · rw [length_removeRow] at hi
      rw [getElem_removeRow]
      show Function.update _ _ _ i = _
      by_cases hik : i = k
      · subst hik
        rw [if_pos rfl, Function.update_self, hsize, hd.second _ hlast, List.get_eq_getElem]
      · rw [if_neg hik, Function.update_of_ne hik, hd.second i (by omega), List.get_eq_getElem]
  rw [remove, if_pos hne, hfind, Int.toNat_natCast, shrink]
  split
  · next hshrink =>
      obtain ⟨hhalf, hbig⟩ := hshrink
      simp only at hhalf hbig
      refine hmid.realloc ?_ ?_
      · rw [length_removeRow]
        simp only
        omega
      · simp only
        omega
  · exact hmid

/-- A removal that finds its row shrinks the arrays. -/
def Shrinks (d : DualDynamicArray T N) : Prop := d.m_size - 1 = d.m_cap / 2 ∧ d.m_size - 1 > 16

instance (d : DualDynamicArray T N) : Decidable d.Shrinks := inferInstanceAs (Decidable (_ ∧ _))

/-- A removal that shrinks them halves the capacity. -/
theorem remove_m_cap {m_compare : T → T → ℤ} {d : DualDynamicArray T N} (hd : d.Shrinks) {t : T}
    (hfind : d.find m_compare t ≠ -1) : (d.remove m_compare t).m_cap = d.m_cap / 2 := by
  rw [remove, if_pos hfind, shrink]
  split
  · exact rfl
  · next hkept => exact absurd hd hkept

/-- Otherwise the arrays stay the same. -/
theorem remove_arrays {m_compare : T → T → ℤ} {d : DualDynamicArray T N} (hd : ¬ d.Shrinks) (t : T) :
    (d.remove m_compare t).arrays = d.arrays ∧ (d.remove m_compare t).m_cap = d.m_cap := by
  rw [remove]
  split
  · rw [shrink]
    split
    · next hshrink => exact absurd hshrink hd
    · exact ⟨rfl, rfl⟩
  · exact ⟨rfl, rfl⟩

/-- A row is replaced by one that looks the same. -/
theorem map_set_row {β : Type} {f : T × N → β} {rows : List (T × N)} {k : ℕ} (hk : k < rows.length) {row : T × N}
    (hf : f row = f rows[k]) : (rows.set k row).map f = rows.map f := by
  have hlen : k < (rows.map f).length := by rwa [List.length_map]
  have hrow : (rows.map f)[k] = f row := (List.getElem_map f).trans hf.symm
  calc (rows.set k row).map f = (rows.map f).set k (f row) := List.map_set
    _ = (rows.map f).set k (rows.map f)[k] := by rw [hrow]
    _ = rows.map f := List.set_getElem_self hlen

/-- A store to a row. -/
theorem Rep.modifyFirst {d : DualDynamicArray T N} {rows : List (T × N)} (hd : Rep d rows) {k : ℕ}
    (hk : k < rows.length) (f : T → T) : Rep (d.modifyFirst k f) (rows.set k (f rows[k].1, rows[k].2)) := by
  refine ⟨?_, ?_, hd.pos, fun i hi => ?_, fun i hi => ?_⟩
  · rw [List.length_set]
    exact hd.size
  · rw [List.length_set]
    exact hd.cap
  · rw [List.length_set] at hi
    rw [List.getElem_set]
    show Function.update _ _ _ i = _
    by_cases hik : k = i
    · subst hik
      rw [if_pos rfl, Function.update_self, hd.first k hk]
      rfl
    · rw [if_neg hik, Function.update_of_ne (Ne.symm hik), hd.first i hi]
  · rw [List.length_set] at hi
    rw [List.getElem_set]
    show d.m_second_array i = _
    by_cases hik : k = i
    · subst hik
      rw [if_pos rfl, hd.second k hk]
    · rw [if_neg hik, hd.second i hi]

/-- A store beyond the rows. -/
theorem Rep.modifyFirst_beyond {d : DualDynamicArray T N} {rows : List (T × N)} (hd : Rep d rows) {k : ℕ}
    (hk : rows.length ≤ k) (f : T → T) : Rep (d.modifyFirst k f) rows where
  size := hd.size
  cap := hd.cap
  pos := hd.pos
  first i hi := (Function.update_of_ne (by omega) ..).trans (hd.first i hi)
  second := hd.second

/-- Stores to all of them. -/
theorem Rep.mapFirst {d : DualDynamicArray T N} {rows : List (T × N)} (hd : Rep d rows) (f : ℕ → T → T) :
    Rep (d.mapFirst f) (rows.mapIdx fun i row => (f i row.1, row.2)) := by
  refine ⟨?_, ?_, hd.pos, fun i hi => ?_, fun i hi => ?_⟩
  · rw [List.length_mapIdx]
    exact hd.size
  · rw [List.length_mapIdx]
    exact hd.cap
  · rw [List.length_mapIdx] at hi
    rw [List.getElem_mapIdx]
    show (if i < d.m_size then _ else _) = _
    rw [if_pos (by rw [hd.size]; exact hi), hd.first i hi]
    rfl
  · rw [List.length_mapIdx] at hi
    rw [List.getElem_mapIdx]
    exact hd.second i hi

end DualDynamicArray

end JudoEngine
