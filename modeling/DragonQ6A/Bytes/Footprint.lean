import DragonQ6A.Bytes.Memory

/-!
# Footprints

A computation that reads one memory and changes another, and answers with a number that is negative
if it failed: which bytes the answer depends on, and which bytes it changes.
-/

namespace Bytes

/-- What comes after an answer, which is nothing if it is negative. -/
def andThen (answer : Option (Int × Mem)) (k : ℕ → Mem → Option (Int × Mem)) :
    Option (Int × Mem) :=
  match answer with
  | none => none
  | some (rc, d) => if rc < 0 then some (rc, d) else k rc.toNat d

/-- On the input `m`, `f` answers at most `most` and changes `d` in `writes` only, and so it does on
every input with the bytes of `m` in `reads`. -/
def Confined (f : Mem → Option (Int × Mem)) (m d : Mem) (reads writes : Set ℕ) (most : ℕ) : Prop :=
  ∃ rc d', (∀ m', Set.EqOn m' m reads → f m' = some (rc, d')) ∧ rc ≤ most ∧
    Set.EqOn d' d writesᶜ

namespace Confined

variable {f g : Mem → Option (Int × Mem)} {m d d' : Mem} {reads reads' writes writes' : Set ℕ}
  {most most' : ℕ}

theorem mono (h : Confined f m d reads writes most) (hreads : reads ⊆ reads')
    (hwrites : writes ⊆ writes') (hmost : most ≤ most') :
    Confined f m d reads' writes' most' := by
  obtain ⟨rc, d', hf, hrc, hd⟩ := h
  refine ⟨rc, d', fun m' hm => hf m' (hm.mono hreads), by omega, ?_⟩
  exact hd.mono (Set.compl_subset_compl.2 hwrites)

theorem congr (hg : Confined g m d reads writes most)
    (h : ∀ m', Set.EqOn m' m reads → f m' = g m') : Confined f m d reads writes most := by
  obtain ⟨rc, d', hf, hrc, hd⟩ := hg
  exact ⟨rc, d', fun m' hm => (h m' hm).trans (hf m' hm), hrc, hd⟩

/-- What is written before. -/
theorem after (hd : Set.EqOn d' d writesᶜ) (h : Confined f m d' reads writes most) :
    Confined f m d reads writes most := by
  obtain ⟨rc, d'', hf, hrc, hd'⟩ := h
  exact ⟨rc, d'', hf, hrc, hd'.trans hd⟩

theorem fail (rc : Int) (hrc : rc ≤ 0) (hd : Set.EqOn d' d writesᶜ)
    (h : ∀ m', Set.EqOn m' m reads → f m' = some (rc, d')) : Confined f m d reads writes most :=
  ⟨rc, d', h, by omega, hd⟩

/-- A computation that ends if its first part fails. -/
theorem bind {k : ℕ → Mem → Mem → Option (Int × Mem)} (hf : Confined f m d reads writes most')
    (hk : ∀ (rc : ℕ) (d' : Mem), rc ≤ most' → Set.EqOn d' d writesᶜ →
      Confined (k rc d') m d' reads writes most) :
    Confined (fun m' => andThen (f m') fun rc d' => k rc d' m') m d reads writes most := by
  obtain ⟨rc, d', hf, hrc, hd⟩ := hf
  by_cases hneg : rc < 0
  · apply fail rc hneg.le hd
    intro m' hm
    simp only [andThen, hf m' hm, if_pos hneg]
  · apply after hd
    apply (hk rc.toNat d' (by omega) hd).congr
    intro m' hm
    simp only [andThen, hf m' hm, if_neg hneg]

end Confined

end Bytes
