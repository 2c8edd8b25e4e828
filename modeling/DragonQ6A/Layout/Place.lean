import DragonQ6A.Layout.FreeRuns

/-!
# Aligned placement

`place a q l` lays out ranges of the lengths `l` one after the other from `q` on, each starting at
the next multiple of `a`; `placeEnd a q l` is where the next one would start.  A free run among them
is in the gap behind one of the lengths, or behind them all.
-/

namespace Layout

/-- The next multiple of `a`. -/
def up (a x : ℕ) : ℕ := (x + a - 1) / a * a

/-- What a range of length `n` leaves unused up to the next multiple of `a`. -/
def gap (a n : ℕ) : ℕ := up a n - n

def place (a : ℕ) : ℕ → List ℕ → List Range
  | _, [] => []
  | q, n :: l => ⟨q, q + n - 1⟩ :: place a (up a (q + n)) l

def placeEnd (a : ℕ) : ℕ → List ℕ → ℕ
  | q, [] => q
  | q, n :: l => placeEnd a (up a (q + n)) l

variable {a : ℕ}

/-! ## Rounding up -/

theorem dvd_up (x : ℕ) : a ∣ up a x := Nat.dvd_mul_left _ _

theorem le_up (ha : 0 < a) (x : ℕ) : x ≤ up a x := by
  have h := Nat.div_add_mod (x + a - 1) a
  have hlt := Nat.mod_lt (x + a - 1) ha
  have hcomm : up a x = a * ((x + a - 1) / a) := Nat.mul_comm _ _
  omega

theorem up_add (ha : 0 < a) {q : ℕ} (hq : a ∣ q) (n : ℕ) : up a (q + n) = q + up a n := by
  obtain ⟨k, rfl⟩ := hq
  have hsum : a * k + n + a - 1 = n + a - 1 + a * k := by omega
  unfold up
  rw [hsum, Nat.add_mul_div_left _ _ ha, Nat.add_mul, Nat.mul_comm k a, Nat.add_comm]

/-! ## The layout -/

theorem place_append (q : ℕ) (l l' : List ℕ) :
    place a q (l ++ l') = place a q l ++ place a (placeEnd a q l) l' := by
  induction l generalizing q with
  | nil => rfl
  | cons n l ih =>
    rw [List.cons_append, place, ih, place, placeEnd, List.cons_append]

theorem placeEnd_append (q : ℕ) (l l' : List ℕ) :
    placeEnd a q (l ++ l') = placeEnd a (placeEnd a q l) l' := by
  induction l generalizing q with
  | nil => rfl
  | cons n l ih => exact ih _

theorem dvd_placeEnd {q : ℕ} (hq : a ∣ q) (l : List ℕ) : a ∣ placeEnd a q l := by
  induction l generalizing q with
  | nil => exact hq
  | cons n l ih => exact ih (dvd_up _)

theorem add_gap (ha : 0 < a) (n : ℕ) : n + gap a n = up a n := by
  have := le_up ha n
  unfold gap
  omega

theorem placeEnd_concat (ha : 0 < a) {q : ℕ} (hq : a ∣ q) (l : List ℕ) (n : ℕ) :
    placeEnd a q (l ++ [n]) = placeEnd a q l + n + gap a n := by
  have hdvd : a ∣ placeEnd a q l := dvd_placeEnd hq l
  rw [placeEnd_append, Nat.add_assoc, add_gap ha]
  exact up_add ha hdvd n

theorem le_placeEnd (ha : 0 < a) (q : ℕ) (l : List ℕ) : q ≤ placeEnd a q l := by
  induction l generalizing q with
  | nil => exact Nat.le_refl q
  | cons n l ih =>
    have hup := le_up ha (q + n)
    have hrest := ih (up a (q + n))
    show q ≤ placeEnd a (up a (q + n)) l
    omega

theorem place_bounds (ha : 0 < a) {l : List ℕ} (hpos : ∀ n ∈ l, 0 < n) {q : ℕ} :
    ∀ u ∈ place a q l, q ≤ u.first ∧ u.first ≤ u.last ∧ u.last < placeEnd a q l := by
  induction l generalizing q with
  | nil => simp [place]
  | cons n l ih =>
    have hn : 0 < n := hpos n List.mem_cons_self
    have hup := le_up ha (q + n)
    have hend := le_placeEnd ha (up a (q + n)) l
    intro u hu
    show q ≤ u.first ∧ u.first ≤ u.last ∧ u.last < placeEnd a (up a (q + n)) l
    rcases List.mem_cons.1 hu with rfl | hu
    · dsimp only
      omega
    · have := ih (fun m hm => hpos m (List.mem_cons_of_mem _ hm)) u hu
      omega

/-- The ranges follow each other. -/
theorem place_pairwise (ha : 0 < a) {l : List ℕ} (hpos : ∀ n ∈ l, 0 < n) {q : ℕ} :
    (place a q l).Pairwise fun u v => u.last < v.first := by
  induction l generalizing q with
  | nil => exact List.Pairwise.nil
  | cons n l ih =>
    have hn : 0 < n := hpos n List.mem_cons_self
    have hpos' : ∀ m ∈ l, 0 < m := fun m hm => hpos m (List.mem_cons_of_mem _ hm)
    refine List.pairwise_cons.2 ⟨fun v hv => ?_, ih hpos'⟩
    have hup := le_up ha (q + n)
    have hv := (place_bounds ha hpos' v hv).1
    show q + n - 1 < v.first
    omega

/-! ## The free runs of a layout -/

variable {lo hi : ℕ} {used : List Range} {r : Range}

/-- A free run that starts behind `q` is in one of the gaps between the ranges, or behind them. -/
theorem FreeRun.place_cases (ha : 0 < a) {l : List ℕ} (hpos : ∀ n ∈ l, 0 < n) {q : ℕ}
    (hq : a ∣ q) (h : FreeRun lo hi used r) (hused : ∀ u ∈ place a q l, u ∈ used)
    (hstart : q ≤ r.first) :
    (∃ n ∈ l.dropLast, r.last + 1 - r.first ≤ gap a n) ∨ ∀ u ∈ place a q l, u.last < r.first := by
  induction l generalizing q with
  | nil => simp [place]
  | cons n l ih =>
    have hn : 0 < n := hpos n List.mem_cons_self
    have hr := h.1
    have hup := up_add ha hq n
    have hbehind : q + n - 1 < r.first := by
      have := h.separate (hused _ List.mem_cons_self) (show q ≤ q + n - 1 by omega)
      dsimp only at this
      omega
    cases l with
    | nil =>
      right
      intro u hu
      obtain rfl := List.mem_singleton.1 hu
      exact hbehind
    | cons m l =>
      have hm : 0 < m := hpos m (by simp)
      have hnext := h.separate (hused ⟨up a (q + n), up a (q + n) + m - 1⟩ (by simp [place]))
        (show up a (q + n) ≤ up a (q + n) + m - 1 by omega)
      dsimp only at hnext
      rcases hnext with hgap | hnext
      · left
        refine ⟨n, by simp, ?_⟩
        unfold gap
        omega
      · have hrest := ih (fun k hk => hpos k (List.mem_cons_of_mem _ hk)) (dvd_up (q + n))
          (fun u hu => hused u (List.mem_cons_of_mem _ hu)) (by omega)
        rcases hrest with ⟨k, hk, hle⟩ | hall
        · left
          refine ⟨k, ?_, hle⟩
          rw [List.dropLast_cons_cons]
          exact List.mem_cons_of_mem _ hk
        · right
          intro u hu
          rcases List.mem_cons.1 hu with rfl | hu
          · exact hbehind
          · exact hall u hu

/-- The gap behind a length that is not the last one is a run between two ranges. -/
theorem exists_gap (ha : 0 < a) {l : List ℕ} (hpos : ∀ n ∈ l, 0 < n) {q : ℕ} (hq : a ∣ q) {n : ℕ}
    (hn : n ∈ l.dropLast) (hgap : 0 < gap a n) :
    ∃ r : Range, q ≤ r.first ∧ r.last < placeEnd a q l ∧ r.last + 1 = r.first + gap a n ∧
      ∀ u ∈ place a q l, ∀ x, r.Has x → ¬ u.Has x := by
  induction l generalizing q with
  | nil => simp at hn
  | cons m l ih =>
    have hm : 0 < m := hpos m List.mem_cons_self
    have hpos' : ∀ k ∈ l, 0 < k := fun k hk => hpos k (List.mem_cons_of_mem _ hk)
    have hup := up_add ha hq m
    have hend := le_placeEnd ha (up a (q + m)) l
    cases l with
    | nil => simp at hn
    | cons k l =>
      rw [List.dropLast_cons_cons] at hn
      rcases List.mem_cons.1 hn with rfl | hn
      · -- between the first two
        have hle : n ≤ up a n := le_up ha n
        unfold gap at hgap ⊢
        refine ⟨⟨q + n, up a (q + n) - 1⟩, by simp, ?_, by dsimp only; omega, ?_⟩
        · show up a (q + n) - 1 < placeEnd a (up a (q + n)) (k :: l)
          omega
        · intro u hu x hx hux
          obtain ⟨hx₁, hx₂⟩ : q + n ≤ x ∧ x ≤ up a (q + n) - 1 := hx
          rcases List.mem_cons.1 hu with rfl | hu
          · have := hux.2
            dsimp only at this
            omega
          · have := (place_bounds ha hpos' u hu).1
            have := hux.1
            omega
      · obtain ⟨r, hfirst, hlast, hlen, hfree⟩ := ih hpos' (dvd_up (q + m)) hn
        have hle := le_up ha (q + m)
        refine ⟨r, by omega, hlast, hlen, ?_⟩
        intro u hu x hx hux
        rcases List.mem_cons.1 hu with rfl | hu
        · have := hx.1
          have := hux.2
          dsimp only at this
          omega
        · exact hfree u hu x hx hux

end Layout
