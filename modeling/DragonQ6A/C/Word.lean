import Mathlib.Data.Nat.Notation
import Mathlib.Tactic.NormNum

/-!
# Words

The `uint32_t` and `int` arithmetic of C: `uint32_t` values are natural numbers below 2^32 and `int`
values integers, both wrap.  An operation on naturals is the one of ℕ as long as its result fits.
-/

namespace C

/-- `x` as a `uint32_t`. -/
def uint32 (x : Int) : ℕ := (x % 2 ^ 32).toNat

/-- `x` as an `int`. -/
def int32 (x : Int) : Int := x.bmod (2 ^ 32)

/-- The address `p` moved by `rc` bytes. -/
def moved (p : ℕ) (rc : Int) : ℕ := (p + rc).toNat

/-- The product of two `uint32_t`. -/
def mul32 (a b : ℕ) : ℕ := a * b % 2 ^ 32

/-- The sum of two `uint32_t`. -/
def add32 (a b : ℕ) : ℕ := (a + b) % 2 ^ 32

/-- The difference of two `uint32_t`. -/
def sub32 (a b : ℕ) : ℕ := (a + 2 ^ 32 - b) % 2 ^ 32

section

variable {a b n : ℕ}

/-! ## Results that fit -/

theorem int32_natCast (h : n < 2 ^ 31) : int32 n = n := by
  apply Int.bmod_eq_of_le
  · omega
  · omega

@[simp] theorem moved_natCast (p n : ℕ) : moved p n = p + n := by
  unfold moved
  omega

theorem uint32_add (h : a + n < 2 ^ 32) : uint32 (a + n) = a + n := by
  unfold uint32
  omega

theorem uint32_sub (hn : n ≤ a) (ha : a < 2 ^ 32) : uint32 (a - n) = a - n := by
  unfold uint32
  omega

theorem int32_add (h : a + n < 2 ^ 31) : int32 (a + n) = ((a + n : ℕ) : Int) := by
  rw [← int32_natCast h, Int.natCast_add]

theorem mul32_eq (h : a * b < 2 ^ 32) : mul32 a b = a * b := Nat.mod_eq_of_lt h

theorem add32_eq (h : a + b < 2 ^ 32) : add32 a b = a + b := Nat.mod_eq_of_lt h

theorem add32_lt (a b : ℕ) : add32 a b < 2 ^ 32 := Nat.mod_lt _ (by decide)

theorem sub32_eq (hab : b ≤ a) (ha : a < 2 ^ 32) : sub32 a b = a - b := by
  unfold sub32
  omega

end

/-! ## Sums that wrap -/

theorem int32_add_int32 (x y : Int) : int32 (x + int32 y) = int32 (x + y) := Int.add_bmod_bmod

theorem int32_int32_add (x y : Int) : int32 (int32 x + y) = int32 (x + y) := Int.bmod_add_bmod

/-- An `int` is given by the number modulo 2^32. -/
theorem int32_congr {x y : Int} (h : x % 2 ^ 32 = y % 2 ^ 32) : int32 x = int32 y := by
  have hmod : x % (2 ^ 32 : ℕ) = y % (2 ^ 32 : ℕ) := h
  unfold int32
  rw [← Int.emod_bmod x, hmod, Int.emod_bmod]

theorem int32_eq_zero_iff {n : ℕ} (h : n < 2 ^ 32) : int32 n = 0 ↔ n = 0 := by
  unfold int32
  rw [Int.bmod_eq_emod]
  split_ifs
  · omega
  · omega

end C
