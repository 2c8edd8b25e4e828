import Mathlib.Data.Nat.Notation
import Mathlib.Tactic.NormNum

/-!
# Shell arithmetic

`$(( … ))` computes in 64-bit signed integers that wrap around, with division truncated towards
zero.  `Holds x n` says that `x` is the natural number `n`; an operation on such values is the one
on naturals as long as its result fits.
-/

namespace Shell

/-- The shell integer `x` is the natural number `n`. -/
def Holds (x : Int64) (n : ℕ) : Prop := x.toInt = n

instance (x : Int64) (n : ℕ) : Decidable (Holds x n) := inferInstanceAs (Decidable (x.toInt = n))

variable {x y : Int64} {m n : ℕ}

theorem Holds.lt (h : Holds x n) : n < 2 ^ 63 := by
  have hx := x.toInt_lt
  rw [h] at hx
  omega

theorem Holds.nonneg (h : Holds x n) : 0 ≤ x.toInt := by
  rw [h]
  omega

theorem holds_ofNat (h : n < 2 ^ 63) : Holds (Int64.ofNat n) n := Int64.toInt_ofNat_of_lt h

theorem bmod_eq {i : ℤ} (h : -2 ^ 63 ≤ i) (h' : i < 2 ^ 63) : i.bmod (2 ^ 64) = i := by
  apply Int.bmod_eq_of_le
  · omega
  · omega

theorem Holds.add (hx : Holds x m) (hy : Holds y n) (h : m + n < 2 ^ 63) :
    Holds (x + y) (m + n) := by
  unfold Holds at *
  rw [Int64.toInt_add, hx, hy, bmod_eq (by omega) (by omega)]
  omega

theorem Holds.sub (hx : Holds x m) (hy : Holds y n) (h : n ≤ m) : Holds (x - y) (m - n) := by
  have hm := hx.lt
  unfold Holds at *
  rw [Int64.toInt_sub, hx, hy, bmod_eq (by omega) (by omega)]
  omega

theorem Holds.mul (hx : Holds x m) (hy : Holds y n) (h : m * n < 2 ^ 63) :
    Holds (x * y) (m * n) := by
  unfold Holds at *
  have hmn : (m : ℤ) * n = (m * n : ℕ) := by push_cast; rfl
  rw [Int64.toInt_mul, hx, hy, hmn, bmod_eq (by omega) (by omega)]

theorem Holds.div (hx : Holds x m) (hy : Holds y n) : Holds (x / y) (m / n) := by
  have hm := hx.lt
  have hle : m / n ≤ m := Nat.div_le_self m n
  have hmn : (m : ℤ).tdiv n = (m / n : ℕ) := by
    rw [Int.tdiv_eq_ediv_of_nonneg (by omega)]
    rfl
  unfold Holds at *
  rw [Int64.toInt_div, hx, hy, hmn]
  generalize m / n = q at hle
  exact bmod_eq (by omega) (by omega)

/-- A sum that does not fit wraps to a negative number. -/
theorem Holds.add_sub_one (hx : Holds x m) (hy : Holds y n) (h : 1 ≤ m + n) :
    Holds (x + y - 1) (m + n - 1) ∨ (x + y - 1).toInt < 0 := by
  have hm := hx.lt
  have hn := hy.lt
  unfold Holds at *
  rw [Int64.toInt_sub, Int64.toInt_add, hx, hy, Int.bmod_sub_bmod]
  have hone : (1 : Int64).toInt = 1 := by decide
  rw [hone, Int.bmod_def]
  split
  · left
    omega
  · right
    omega

theorem div_nonpos (h : x.toInt < 0) (hy : Holds y n) : (x / y).toInt ≤ 0 := by
  have hx := x.le_toInt
  unfold Holds at hy
  have hneg : x.toInt.tdiv n ≤ 0 := by
    rw [← Int.neg_neg x.toInt, Int.neg_tdiv, Int.neg_nonpos_iff]
    exact Int.tdiv_nonneg (by omega) (by omega)
  have hge : -2 ^ 63 ≤ x.toInt.tdiv n := by
    have := Int.natAbs_tdiv_le_natAbs x.toInt n
    omega
  rw [Int64.toInt_div, hy, bmod_eq hge (by omega)]
  exact hneg

end Shell
