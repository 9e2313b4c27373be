/-
Bytes, and buffers of bytes.

A buffer is memory without bounds: every offset has a byte, and what code may
touch is said where it is touched. A 32-bit signed integer lies in four bytes,
the lowest first, and is read back as it was written (`int32_putInt32`).
-/
import JudoEngine.Lib.Words
import Mathlib.Data.List.GetD
import Mathlib.Logic.Function.Basic

set_option autoImplicit false

namespace Words

/-- A byte. -/
abbrev Byte := BitVec 8

/-- The byte number `k` of `x`, from the lowest one up. -/
def byteOf (x : ℤ) (k : ℕ) : Byte := BitVec.ofInt 8 (x / 256 ^ k)

/-- The 32-bit signed integer in four bytes. -/
def int32Of (b₀ b₁ b₂ b₃ : Byte) : ℤ :=
  toInt32 (b₀.toNat + 256 * b₁.toNat + 256 ^ 2 * b₂.toNat + 256 ^ 3 * b₃.toNat)

/-- Its value. -/
theorem toNat_byteOf (x : ℤ) (k : ℕ) : ((byteOf x k).toNat : ℤ) = x / 256 ^ k % 256 := by
  unfold byteOf
  rw [BitVec.toNat_ofInt]
  have hnonneg : 0 ≤ x / 256 ^ k % ((2 ^ 8 : ℕ) : ℤ) := Int.emod_nonneg _ (by decide)
  rw [Int.toNat_of_nonneg hnonneg]
  norm_num

/-- Reading back the four bytes of an integer in range. -/
theorem int32Of_byteOf {x : ℤ} (hx : InInt32 x) :
    int32Of (byteOf x 0) (byteOf x 1) (byteOf x 2) (byteOf x 3) = x := by
  unfold int32Of
  rw [toNat_byteOf, toNat_byteOf, toNat_byteOf, toNat_byteOf]
  have hsum : x / 256 ^ 0 % 256 + 256 * (x / 256 ^ 1 % 256) + 256 ^ 2 * (x / 256 ^ 2 % 256)
      + 256 ^ 3 * (x / 256 ^ 3 % 256) = x % 2 ^ 32 := by
    norm_num
    omega
  rw [hsum]
  calc toInt32 (x % 2 ^ 32) = toInt32 x := by
        have hmod := Int.emod_bmod x (2 ^ 32)
        push_cast at hmod
        exact hmod
    _ = x := toInt32_of_mem hx

/-- The lowest byte of an integer is its first one. -/
theorem int32Of_emod (b₀ b₁ b₂ b₃ : Byte) : int32Of b₀ b₁ b₂ b₃ % 256 = b₀.toNat := by
  unfold int32Of toInt32
  have hb := b₀.isLt
  have hmod := Int.emod_emod_of_dvd (Int.bmod (b₀.toNat + 256 * b₁.toNat + 256 ^ 2 * b₂.toNat + 256 ^ 3 * b₃.toNat : ℤ)
    (2 ^ 32)) (show (256 : ℤ) ∣ (2 ^ 32 : ℕ) by norm_num)
  rw [Int.bmod_emod] at hmod
  rw [← hmod, Int.emod_emod_of_dvd _ (show (256 : ℤ) ∣ (2 ^ 32 : ℕ) by norm_num)]
  norm_num
  omega

/-! ## Buffers

Offsets are integers, since code computes them as such; a store at a negative one is at
another place than all others. -/

/-- Memory, a byte at every offset. -/
abbrev Buffer := ℤ → Byte

namespace Buffer

/-- Store one byte. -/
def set (m : Buffer) (i : ℤ) (x : Byte) : Buffer := Function.update m i x

/-- Store bytes from the start on: what `read` does to its buffer. -/
def fill (m : Buffer) (l : List Byte) : Buffer := fun i =>
  if 0 ≤ i then l.getD i.toNat (m i) else m i

/-- The first `n` bytes. -/
def bytes (m : Buffer) (n : ℤ) : List Byte := (List.range n.toNat).map fun (i : ℕ) => m i

/-- `*((int32_t*) &m[i])`. -/
def int32 (m : Buffer) (i : ℤ) : ℤ := int32Of (m i) (m (i + 1)) (m (i + 2)) (m (i + 3))

/-- `*((int32_t*) &m[i]) = x`. -/
def putInt32 (m : Buffer) (i x : ℤ) : Buffer :=
  (((m.set i (byteOf x 0)).set (i + 1) (byteOf x 1)).set (i + 2) (byteOf x 2)).set (i + 3) (byteOf x 3)

@[simp] theorem set_self (m : Buffer) (i : ℤ) (x : Byte) : m.set i x i = x :=
  Function.update_self ..

theorem set_of_ne (m : Buffer) {i j : ℤ} (x : Byte) (hj : j ≠ i) : m.set i x j = m j :=
  Function.update_of_ne hj ..

/-- Where the new bytes are ... -/
theorem fill_of_lt (m : Buffer) {l : List Byte} {k : ℕ} (hk : k < l.length) :
    m.fill l k = l[k] := by
  unfold fill
  rw [if_pos (Int.natCast_nonneg k), Int.toNat_natCast, List.getD_eq_getElem _ _ hk]

/-- ... and where they are not. -/
theorem fill_of_ge (m : Buffer) {l : List Byte} {i : ℤ} (hi : (l.length : ℤ) ≤ i) :
    m.fill l i = m i := by
  unfold fill
  rw [if_pos (by omega), List.getD_eq_default _ _ (by omega)]

@[simp] theorem length_bytes (m : Buffer) (n : ℤ) : (m.bytes n).length = n.toNat := by
  rw [bytes, List.length_map, List.length_range]

theorem getElem_bytes (m : Buffer) {n : ℤ} {k : ℕ} (hk : k < (m.bytes n).length) :
    (m.bytes n)[k] = m k := by
  simp [bytes]

/-- A buffer filled from another one has the same bytes. -/
theorem fill_bytes (m m' : Buffer) {n i : ℤ} (h0 : 0 ≤ i) (hi : i < n) : m.fill (m'.bytes n) i = m' i := by
  have hlen : i.toNat < (m'.bytes n).length := by
    rw [length_bytes]
    omega
  have hcast : ((i.toNat : ℕ) : ℤ) = i := Int.toNat_of_nonneg h0
  rw [← hcast, fill_of_lt _ hlen, getElem_bytes]

/-- The first byte ... -/
theorem bytes_one (m : Buffer) : m.bytes 1 = [m 0] := rfl

/-- ... and the first byte after a store of several. -/
theorem fill_cons_zero (m : Buffer) (b : Byte) (l : List Byte) : m.fill (b :: l) 0 = b :=
  fill_of_lt m (l := b :: l) (k := 0) (Nat.succ_pos l.length)

/-- The buffer agrees with itself outside the four bytes ... -/
theorem putInt32_of_lt (m : Buffer) {i j : ℤ} (x : ℤ) (hj : j < i ∨ i + 4 ≤ j) :
    m.putInt32 i x j = m j := by
  unfold putInt32
  rw [set_of_ne _ _ (by omega), set_of_ne _ _ (by omega), set_of_ne _ _ (by omega),
    set_of_ne _ _ (by omega)]

/-- ... and there it has the integer. -/
theorem int32_putInt32 (m : Buffer) (i : ℤ) {x : ℤ} (hx : InInt32 x) : (m.putInt32 i x).int32 i = x := by
  have h₀ : m.putInt32 i x i = byteOf x 0 := by
    unfold putInt32
    rw [set_of_ne _ _ (by omega), set_of_ne _ _ (by omega), set_of_ne _ _ (by omega), set_self]
  have h₁ : m.putInt32 i x (i + 1) = byteOf x 1 := by
    unfold putInt32
    rw [set_of_ne _ _ (by omega), set_of_ne _ _ (by omega), set_self]
  have h₂ : m.putInt32 i x (i + 2) = byteOf x 2 := by
    unfold putInt32
    rw [set_of_ne _ _ (by omega), set_self]
  have h₃ : m.putInt32 i x (i + 3) = byteOf x 3 := by
    unfold putInt32
    rw [set_self]
  unfold int32
  rw [h₀, h₁, h₂, h₃, int32Of_byteOf hx]

/-- An integer only depends on its four bytes. -/
theorem int32_congr {m m' : Buffer} {i : ℤ} (h : ∀ j, i ≤ j → j < i + 4 → m j = m' j) :
    m.int32 i = m'.int32 i := by
  unfold int32
  rw [h i (by omega) (by omega), h (i + 1) (by omega) (by omega), h (i + 2) (by omega) (by omega),
    h (i + 3) (by omega) (by omega)]

end Buffer

end Words
