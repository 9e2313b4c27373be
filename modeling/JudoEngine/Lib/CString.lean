/-
Strings that end with a NUL, in arrays of bytes.

`CStr` is such a string; its characters are not NUL. The functions of `<cstring>` know
nothing of the size of the array that they store to, so they are computations that record
where they store, and what an array holds that they read a string from. An array is the list
of its bytes; a store behind its end makes the list longer, and `Access.Within` is what
tells whether there was one.
-/
import JudoEngine.Lib.Memory
import JudoEngine.Lib.Recorded
import Mathlib.Data.List.TakeWhile

set_option autoImplicit false

open Words Recorded

namespace CString

/-- The characters of a string. -/
abbrev CStr := { chars : List Byte // 0 ∉ chars }

/-- The array holds the string. -/
def Holds (array : List Byte) (s : CStr) : Prop := ∃ rest, array = s.val ++ 0 :: rest

/-- The string in an array. -/
def string (array : List Byte) : CStr := ⟨array.takeWhile (· ≠ 0), fun hmem => absurd (List.mem_takeWhile_imp hmem) (by simp)⟩

/-- One string behind the other. -/
def CStr.append (s s' : CStr) : CStr := ⟨s.val ++ s'.val, fun hmem => (List.mem_append.mp hmem).elim s.property s'.property⟩

/-- An array that holds a string has that string in it. -/
theorem Holds.string_eq {array : List Byte} {s : CStr} (h : Holds array s) : string array = s := by
  obtain ⟨rest, rfl⟩ := h
  refine Subtype.ext ?_
  have hchars : ∀ c ∈ s.val, decide (c ≠ 0) = true := by
    intro c hc
    refine decide_eq_true ?_
    rintro rfl
    exact s.property hc
  show List.takeWhile _ _ = _
  rw [List.takeWhile_append_of_pos hchars, List.takeWhile_cons_of_neg (by simp), List.append_nil]

/-! ## Accesses

Every computation carries the list of what it has accessed, so whether it has stayed inside
the arrays can be asked afterwards, for arrays of any size. -/

section

variable {A : Type}

/-- A byte is stored in an array, or the string is read that is in an array. -/
inductive Access (A : Type) where
  | store (array : A) (index : ℕ)
  | read (array : A) (bytes : List Byte)

/-- The byte is one of the array's, and the string ends in the array. -/
def Access.Within (size : A → ℕ) : Access A → Prop
  | .store array index => index < size array
  | .read array bytes => 0 ∈ bytes.take (size array)

/-- Bytes are stored one after the other. -/
def storeAll (a : A) : (array : List Byte) → (index : ℕ) → List Byte → Recorded (Access A) (List Byte)
  | array, _, [] => pure array
  | array, index, b :: bytes => do
      note (.store a index)
      storeAll a (array.take index ++ b :: array.drop (index + 1)) (index + 1) bytes

/-- A string is read. -/
def read (a : A) (array : List Byte) : Recorded (Access A) CStr := do
  note (.read a array)
  pure (string array)

/-! ## The functions

Each stores what its manual page says, at the end of a string or at the start of an array. -/

/-- The string with its NUL. -/
def strcpy (a : A) (array : List Byte) (src : CStr) : Recorded (Access A) (List Byte) := storeAll a array 0 (src.val ++ [0])

/-- Always `n` bytes: what is left is filled with NULs. -/
def strncpy (a : A) (array : List Byte) (src : CStr) (n : ℕ) : Recorded (Access A) (List Byte) :=
  storeAll a array 0 (src.val.take n ++ List.replicate (n - src.val.length) 0)

/-- The string with its NUL, where the one that the array holds has its own. -/
def strcat (a : A) (array : List Byte) (src : CStr) : Recorded (Access A) (List Byte) := do
  let dest ← read a array
  storeAll a array dest.val.length (src.val ++ [0])

/-! ## What they store

Everything comes down to storing some bytes from an index on. -/

/-- The array has them there, and is else as it was. -/
theorem result_storeAll (a : A) (bytes : List Byte) : ∀ (array : List Byte) (index : ℕ), index ≤ array.length →
    (storeAll a array index bytes).result = array.take index ++ bytes ++ array.drop (index + bytes.length) := by
  induction bytes with
  | nil =>
      intro array index _
      rw [storeAll, result_pure, List.append_nil, List.length_nil, Nat.add_zero, List.take_append_drop]
  | cons b bytes ih =>
      intro array index hindex
      have hlen : (array.take index).length = index := List.length_take_of_le hindex
      have htake : (array.take index ++ b :: array.drop (index + 1)).take (index + 1) = array.take index ++ [b] := by
        rw [List.take_append, hlen, Nat.add_sub_cancel_left, List.take_of_length_le (by omega)]
        rfl
      have hdrop : ∀ n, (array.take index ++ b :: array.drop (index + 1)).drop (index + 1 + n) = array.drop (index + 1 + n) := by
        intro n
        rw [List.drop_append, hlen, List.drop_of_length_le (by omega), List.nil_append,
          show index + 1 + n - index = n + 1 by omega, List.drop_succ_cons, List.drop_drop]
      rw [storeAll, result_bind, ih _ _ (by rw [List.length_append, List.length_cons, hlen]; omega), htake, hdrop,
        List.length_cons, List.append_assoc, List.append_assoc, List.append_assoc, Nat.add_assoc, Nat.add_comm 1]
      rfl

/-- They are all inside if the last one is. -/
theorem all_storeAll {size : A → ℕ} (a : A) (bytes : List Byte) : ∀ (array : List Byte) (index : ℕ),
    (storeAll a array index bytes).All (Access.Within size) ↔ bytes = [] ∨ index + bytes.length ≤ size a := by
  induction bytes with
  | nil => exact fun array index => iff_of_true (all_pure _ _) (.inl rfl)
  | cons b bytes ih =>
      intro array index
      rw [storeAll, all_bind, all_note, ih]
      simp only [Access.Within, List.length_cons, reduceCtorEq, false_or]
      constructor
      · rintro ⟨hfirst, rfl | hrest⟩
        · rw [List.length_nil]
          omega
        · omega
      · intro hall
        exact ⟨by omega, .inr (by omega)⟩

/-- A string that an array holds ends in it when it is short enough. -/
theorem Holds.within {size : A → ℕ} {a : A} {array : List Byte} {s : CStr} (h : Holds array s) (hs : s.val.length < size a) :
    Access.Within size (.read a array) := by
  obtain ⟨rest, rfl⟩ := h
  show 0 ∈ List.take _ _
  rw [List.take_append, List.mem_append, show size a - s.val.length = size a - s.val.length - 1 + 1 by omega,
    List.take_succ_cons]
  exact .inr List.mem_cons_self

/-- Reading such a string stays within the array. -/
theorem Holds.all_read {size : A → ℕ} {a : A} {array : List Byte} {s : CStr} (h : Holds array s)
    (hs : s.val.length < size a) : (read a array).All (Access.Within size) :=
  (all_note.mpr (h.within hs)).bind (all_pure _ _)

/-- What is read is this string. -/
theorem Holds.result_read {a : A} {array : List Byte} {s : CStr} (h : Holds array s) : (read a array).result = s :=
  h.string_eq

/-! ## The strings that arrays hold

For each function, the string that the array holds afterwards, and when nothing was stored
behind its end. -/

/-- After `strcpy` the array holds the copy. -/
theorem holds_strcpy (a : A) (array : List Byte) (src : CStr) : Holds (strcpy a array src).result src := by
  refine ⟨array.drop (0 + (src.val ++ [0]).length), ?_⟩
  rw [strcpy, result_storeAll _ _ _ _ (Nat.zero_le _), List.take_zero, List.nil_append, List.append_assoc]
  rfl

/-- It stays within the array if that has room for the string and its NUL. -/
theorem all_strcpy {size : A → ℕ} (a : A) (array : List Byte) (src : CStr) :
    (strcpy a array src).All (Access.Within size) ↔ src.val.length + 1 ≤ size a := by
  rw [strcpy, all_storeAll, List.length_append, List.length_singleton, Nat.zero_add]
  simp

/-- The array has to be longer than `n`, and the byte behind it a NUL, if the string is not
shorter. -/
theorem holds_strncpy (a : A) (array : List Byte) (src : CStr) {n : ℕ} (hend : array[n]? = some 0) :
    Holds (strncpy a array src n).result ⟨src.val.take n, fun hmem => src.property (List.mem_of_mem_take hmem)⟩ := by
  have hlen : (src.val.take n ++ List.replicate (n - src.val.length) 0).length = n := by
    rw [List.length_append, List.length_take, List.length_replicate]
    omega
  have hrest : array.drop n = 0 :: array.drop (n + 1) := by
    obtain ⟨hn, hzero⟩ := List.getElem?_eq_some_iff.mp hend
    rw [← hzero, List.getElem_cons_drop]
  rw [strncpy, result_storeAll _ _ _ _ (Nat.zero_le _), hlen, Nat.zero_add, hrest, List.take_zero, List.nil_append]
  cases hshort : n - src.val.length with
  | zero => exact ⟨array.drop (n + 1), by rw [List.replicate_zero, List.append_nil]⟩
  | succ k => exact ⟨List.replicate k 0 ++ 0 :: array.drop (n + 1), by rw [List.append_assoc]; rfl⟩

/-- Storing `n` bytes needs an array of `n`. -/
theorem all_strncpy {size : A → ℕ} (a : A) (array : List Byte) (src : CStr) {n : ℕ} (hn : n ≤ size a) :
    (strncpy a array src n).All (Access.Within size) := by
  rw [strncpy, all_storeAll, List.length_append, List.length_take, List.length_replicate]
  omega

/-- After `strcat` it holds both, one behind the other. -/
theorem holds_strcat (a : A) {array : List Byte} {s : CStr} (h : Holds array s) (src : CStr) :
    Holds (strcat a array src).result (s.append src) := by
  obtain ⟨rest, rfl⟩ := id h
  refine ⟨(s.val ++ 0 :: rest).drop (s.val.length + (src.val ++ [0]).length), ?_⟩
  rw [strcat, result_bind, h.result_read, result_storeAll _ _ _ _ (by rw [List.length_append]; omega), List.take_left',
    CStr.append]
  · simp only [List.append_assoc]
    rfl
  · rfl

/-- It stays within the array if that has room for both. -/
theorem all_strcat {size : A → ℕ} (a : A) {array : List Byte} {s : CStr} (h : Holds array s) (src : CStr)
    (hsize : (s.append src).val.length < size a) : (strcat a array src).All (Access.Within size) := by
  have hlen : (s.append src).val.length = s.val.length + src.val.length := List.length_append
  refine (h.all_read (by omega)).bind ?_
  rw [h.result_read, all_storeAll, List.length_append, List.length_singleton]
  omega

end

end CString
