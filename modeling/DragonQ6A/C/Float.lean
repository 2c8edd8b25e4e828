import Mathlib.Algebra.Order.Group.Abs
import Mathlib.Algebra.Order.Ring.Rat

/-!
# Floats

The values of a C `float` and what the comparisons and `fabs` do with them.  Finite values are taken
as exact: nothing is rounded.
-/

namespace C

inductive Float
  | fin (q : ℚ)
  | inf (negative : Bool)
  | nan
deriving DecidableEq

namespace Float

def sub : Float → Float → Float
  | fin q, fin q' => fin (q - q')
  | fin _, inf s => inf !s
  | inf s, fin _ => inf s
  | inf s, inf s' => if s = s' then nan else inf s
  | nan, _ => nan
  | _, nan => nan

def fabs : Float → Float
  | fin q => fin |q|
  | inf _ => inf false
  | nan => nan

def lt : Float → Float → Bool
  | fin q, fin q' => decide (q < q')
  | fin _, inf s => !s
  | inf s, fin _ => s
  | inf s, inf s' => s && !s'
  | nan, _ => false
  | _, nan => false

def le : Float → Float → Bool
  | fin q, fin q' => decide (q ≤ q')
  | fin _, inf s => !s
  | inf s, fin _ => s
  | inf s, inf s' => s || !s'
  | nan, _ => false
  | _, nan => false

@[simp] theorem lt_fin (q q' : ℚ) : lt (fin q) (fin q') = decide (q < q') := rfl

@[simp] theorem le_fin (q q' : ℚ) : le (fin q) (fin q') = decide (q ≤ q') := rfl

@[simp] theorem fabs_sub_fin (q q' : ℚ) : fabs (sub (fin q) (fin q')) = fin |q - q'| := rfl

/-- Only a finite value is close to a finite value. -/
theorem le_fabs_sub {q b : ℚ} {r : Float} :
    le (fabs (sub (fin q) r)) (fin b) = true ↔ ∃ q', r = fin q' ∧ |q - q'| ≤ b := by
  cases r with
  | fin q' => simp
  | inf s => simp [sub, fabs, le]
  | nan => simp [sub, fabs, le]

end Float

end C
