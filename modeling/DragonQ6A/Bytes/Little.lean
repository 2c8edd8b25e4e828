import Mathlib.Data.Nat.Basic
import Mathlib.Tactic.Ring

/-!
# Little-endian numbers

A number written in a given count of bytes, the least significant one first, and read back.
-/

namespace Bytes

/-- `x` in `n` bytes. -/
def toBytes : ℕ → ℕ → List UInt8
  | 0, _ => []
  | n + 1, x => UInt8.ofNat x :: toBytes n (x / 256)

/-- The number that the bytes are. -/
def ofBytes : List UInt8 → ℕ
  | [] => 0
  | b :: bs => b.toNat + 256 * ofBytes bs

@[simp] theorem length_toBytes (n x : ℕ) : (toBytes n x).length = n := by
  induction n generalizing x with
  | zero => rfl
  | succ n ih => rw [toBytes, List.length_cons, ih]

theorem ofBytes_toBytes (n x : ℕ) : ofBytes (toBytes n x) = x % 256 ^ n := by
  induction n generalizing x with
  | zero => rw [toBytes, ofBytes, pow_zero, Nat.mod_one]
  | succ n ih =>
    have hb : (UInt8.ofNat x).toNat = x % 256 := rfl
    rw [toBytes, ofBytes, ih, hb, pow_succ, Nat.mul_comm (256 ^ n), Nat.mod_mul]

end Bytes
