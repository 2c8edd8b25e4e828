import Mathlib.Data.List.Basic
import Mathlib.Data.Nat.Notation

/-!
# Free runs

The sectors `lo, …, hi - 1` of a disk, some of them used by ranges, and the runs of sectors that are
left.  A run lies to one side of every used range; a largest run behind all of them reaches the end.
-/

namespace Layout

/-- A range of sectors, both ends included. -/
structure Range where
  first : ℕ
  last : ℕ
deriving DecidableEq

def Range.Has (r : Range) (x : ℕ) : Prop := r.first ≤ x ∧ x ≤ r.last

/-- A usable sector outside the used ranges. -/
def Free (lo hi : ℕ) (used : List Range) (x : ℕ) : Prop :=
  (lo ≤ x ∧ x < hi) ∧ ∀ u ∈ used, ¬ u.Has x

/-- A non-empty run of free sectors. -/
def FreeRun (lo hi : ℕ) (used : List Range) (r : Range) : Prop :=
  r.first ≤ r.last ∧ ∀ x, r.Has x → Free lo hi used x

/-- A run no other is longer than. -/
def Largest (lo hi : ℕ) (used : List Range) (r : Range) : Prop :=
  FreeRun lo hi used r ∧ ∀ s, FreeRun lo hi used s → s.last - s.first ≤ r.last - r.first

variable {lo hi : ℕ} {used : List Range} {r : Range}

theorem FreeRun.bounds (h : FreeRun lo hi used r) : lo ≤ r.first ∧ r.last < hi := by
  obtain ⟨hle, hfree⟩ := h
  have hfirst := (hfree r.first ⟨Nat.le_refl _, hle⟩).1
  have hlast := (hfree r.last ⟨hle, Nat.le_refl _⟩).1
  exact ⟨hfirst.1, hlast.2⟩

/-- A free run lies in front of a used range or behind it. -/
theorem FreeRun.separate (h : FreeRun lo hi used r) {u : Range} (hu : u ∈ used)
    (hle : u.first ≤ u.last) : r.last < u.first ∨ u.last < r.first := by
  obtain ⟨hr, hfree⟩ := h
  by_contra hno
  obtain ⟨hend, hbegin⟩ := not_or.1 hno
  by_cases hstart : u.first ≤ r.first
  · exact (hfree r.first ⟨Nat.le_refl _, hr⟩).2 u hu ⟨hstart, by omega⟩
  · exact (hfree u.first ⟨by omega, by omega⟩).2 u hu ⟨Nat.le_refl _, hle⟩

/-- Everything behind the used ranges is free. -/
theorem freeRun_tail {a : ℕ} (hlo : lo ≤ a) (hhi : a < hi) (hused : ∀ u ∈ used, u.last < a) :
    FreeRun lo hi used ⟨a, hi - 1⟩ := by
  refine ⟨show a ≤ hi - 1 by omega, fun x hx => ?_⟩
  obtain ⟨hxa, hxb⟩ : a ≤ x ∧ x ≤ hi - 1 := hx
  refine ⟨by omega, fun u hu hhas => ?_⟩
  have := hused u hu
  have := hhas.2
  omega

theorem Largest.last_eq (h : Largest lo hi used r) (hused : ∀ u ∈ used, u.last < r.first) :
    r.last + 1 = hi := by
  have hb := h.1.bounds
  have hle := h.1.1
  have htail := h.2 _ (freeRun_tail hb.1 (by omega) hused)
  dsimp only at htail
  omega

end Layout
