import Mathlib.Data.List.GetD
import Mathlib.Data.Set.Function
import Mathlib.Order.Interval.Set.Basic
import Mathlib.Tactic.Ring

/-!
# Byte memories

A memory is a byte for each address.  Bytes are read and written in runs; a write is seen where it
went and nowhere else.
-/

namespace Bytes

abbrev Mem := ℕ → UInt8

/-- The `n` bytes from `a` on. -/
def read (m : Mem) (a n : ℕ) : List UInt8 := (List.range n).map fun i => m (a + i)

/-- `m` with the bytes from `a` on. -/
def write (m : Mem) (a : ℕ) (bs : List UInt8) : Mem := fun i =>
  if a ≤ i ∧ i < a + bs.length then bs.getD (i - a) 0 else m i

@[simp] theorem length_read (m : Mem) (a n : ℕ) : (read m a n).length = n := by
  simp [read]

@[simp] theorem read_zero (m : Mem) (a : ℕ) : read m a 0 = [] := rfl

theorem read_congr {m m' : Mem} {a a' n : ℕ} (h : ∀ i < n, m (a + i) = m' (a' + i)) :
    read m a n = read m' a' n := by
  apply List.map_congr_left
  intro i hi
  exact h i (List.mem_range.1 hi)

theorem read_add (m : Mem) (a n k : ℕ) : read m a (n + k) = read m a n ++ read m (a + n) k := by
  rw [read, List.range_add, List.map_append, List.map_map, read, read]
  congr 1
  apply List.map_congr_left
  intro i _
  show m (a + (n + i)) = m (a + n + i)
  rw [Nat.add_assoc]

/-- Two runs of bytes, one after the other. -/
theorem read_eq_append {m : Mem} {a : ℕ} {bs cs : List UInt8}
    (h : read m a (bs ++ cs).length = bs ++ cs) :
    read m a bs.length = bs ∧ read m (a + bs.length) cs.length = cs := by
  rw [List.length_append, read_add] at h
  exact List.append_inj h (length_read ..)

/-! ## Writes -/

@[simp] theorem write_nil (m : Mem) (a : ℕ) : write m a [] = m := by
  funext i
  rw [write, if_neg]
  simp

theorem write_of_lt {m : Mem} {a i : ℕ} {bs : List UInt8} (h : i < a) : write m a bs i = m i := by
  rw [write, if_neg]
  omega

theorem write_of_le {m : Mem} {a i : ℕ} {bs : List UInt8} (h : a + bs.length ≤ i) :
    write m a bs i = m i := by
  rw [write, if_neg]
  omega

theorem write_add {m : Mem} {a i : ℕ} {bs : List UInt8} (h : i < bs.length) :
    write m a bs (a + i) = bs.getD i 0 := by
  rw [write, if_pos (by omega), Nat.add_sub_cancel_left]

/-- What is written is read back. -/
@[simp] theorem read_write (m : Mem) (a : ℕ) (bs : List UInt8) :
    read (write m a bs) a bs.length = bs := by
  apply List.ext_getElem (length_read ..)
  intro i _ hi
  have hread : (read (write m a bs) a bs.length)[i] = write m a bs (a + i) := by simp [read]
  rw [hread, write_add hi, List.getD_eq_getElem _ _ hi]

theorem write_append (m : Mem) (a : ℕ) (bs cs : List UInt8) :
    write m a (bs ++ cs) = write (write m a bs) (a + bs.length) cs := by
  have hlen : (bs ++ cs).length = bs.length + cs.length := List.length_append
  funext i
  by_cases hlt : i < a + bs.length
  · rw [write_of_lt hlt]
    by_cases ha : a ≤ i
    · obtain ⟨j, rfl⟩ := Nat.exists_eq_add_of_le ha
      have hj : j < bs.length := by omega
      rw [write_add hj, write_add (hlen ▸ Nat.lt_add_right _ hj), List.getD_append _ _ _ _ hj]
    · rw [write_of_lt (by omega), write_of_lt (by omega)]
  · obtain ⟨j, rfl⟩ := Nat.exists_eq_add_of_le (Nat.le_of_not_lt hlt)
    by_cases hj : j < cs.length
    · have hbs : bs.length ≤ bs.length + j := Nat.le_add_right ..
      rw [write_add hj, Nat.add_assoc, write_add (hlen ▸ Nat.add_lt_add_left hj _),
        List.getD_append_right _ _ _ _ hbs, Nat.add_sub_cancel_left]
    · rw [write_of_le (by omega), write_of_le (by omega), write_of_le (by omega)]

theorem write_comm (m : Mem) {a b : ℕ} {bs cs : List UInt8} (h : a + bs.length ≤ b) :
    write (write m b cs) a bs = write (write m a bs) b cs := by
  funext i
  simp only [write]
  split_ifs <;> first | rfl | omega

/-- A write changes nothing outside it. -/
theorem eqOn_write (m : Mem) (a : ℕ) (bs : List UInt8) :
    Set.EqOn (write m a bs) m (Set.Ico a (a + bs.length))ᶜ := by
  intro i hi
  rw [write, if_neg]
  exact hi

theorem eqOn_write_Ici {m : Mem} {a stop : ℕ} {bs : List UInt8} (h : a + bs.length ≤ stop) :
    Set.EqOn (write m a bs) m (Set.Ici stop) := by
  intro i hi
  exact write_of_le (h.trans hi)

theorem read_eqOn {m m' : Mem} {a n : ℕ} (h : Set.EqOn m m' (Set.Ico a (a + n))) :
    read m a n = read m' a n := by
  apply read_congr
  intro i hi
  exact h ⟨by omega, by omega⟩

end Bytes
