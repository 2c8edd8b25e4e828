import DragonQ6A.Mirror.Keyed

/-!
# Stores that catch up

What a store hears after it has missed some changes.  A store that is behind, so that each of its
keys is empty or right, stays behind whatever changes both are told, and one announcement of
everything brings it up to date.
-/

namespace Mirror

open Change

variable {α κ : Type}

/-! ## Additions only and removals only -/

theorem outstanding_append_adds {l₁ l₂ : List (Change α)} (h : ∀ a, remove a ∉ l₂) {a : α} :
    Outstanding (l₁ ++ l₂) a ↔ add a ∈ l₂ ∨ Outstanding l₁ a := by
  have hadd : Outstanding l₂ a ↔ add a ∈ l₂ := by
    constructor
    · rintro ⟨pre, post, rfl, -⟩
      simp
    · intro ha
      obtain ⟨pre, post, rfl⟩ := List.append_of_mem ha
      exact ⟨pre, post, rfl, fun hr => h a (by simp [hr])⟩
  rw [outstanding_append, hadd]
  simp [h a]

theorem outstanding_append_removes {l₁ l₂ : List (Change α)} (h : ∀ a, add a ∉ l₂) {a : α} :
    Outstanding (l₁ ++ l₂) a ↔ Outstanding l₁ a ∧ remove a ∉ l₂ := by
  have hnot : ¬ Outstanding l₂ a := by
    rintro ⟨pre, post, rfl, -⟩
    exact h a (by simp)
  rw [outstanding_append]
  simp [hnot]

/-! ## Stores that are behind -/

/-- Every key of `s` is empty or as in `R`. -/
def Behind (s R : κ → Option α) : Prop := ∀ k, s k = none ∨ s k = R k

theorem behind_empty (R : κ → Option α) : Behind (fun _ => none) R := fun _ => Or.inl rfl

variable [DecidableEq κ] {key : α → κ} {s R : κ → Option α}

theorem Behind.apply (h : Behind s R) (c : Change α) :
    Behind (Mirror.apply key s c) (Mirror.apply key R c) := by
  have hupdate : ∀ (k : κ) (v : Option α), Behind (Function.update s k v) (Function.update R k v) := by
    intro k v k'
    by_cases hk : k' = k
    · rw [hk, Function.update_self, Function.update_self]
      exact Or.inr rfl
    · rw [Function.update_of_ne hk, Function.update_of_ne hk]
      exact h k'
  cases c with
  | add a => exact hupdate _ _
  | remove a => exact hupdate _ _

theorem Behind.applyAll (h : Behind s R) (cs : List (Change α)) :
    Behind (Mirror.applyAll key s cs) (Mirror.applyAll key R cs) := by
  induction cs generalizing s R with
  | nil => exact h
  | cons c cs ih => exact ih (h.apply c)

/-- To be told again what is there changes nothing. -/
theorem applyAll_add_self {l : List α} (hl : ∀ a ∈ l, R (key a) = some a) :
    applyAll key R (l.map add) = R := by
  funext k
  by_cases hk : k ∈ l.map key
  · obtain ⟨a, ha, rfl, happ⟩ := exists_applyAll_add l R hk
    rw [happ, hl a ha]
  · exact applyAll_add_of_notMem l R hk

/-- A store that is behind catches up when it is told everything there is. -/
theorem Behind.catchUp (h : Behind s R) (hR : Filed key R) {l : List α}
    (hl : ∀ a, a ∈ l ↔ R (key a) = some a) : Mirror.applyAll key s (l.map add) = R := by
  funext k
  by_cases hk : k ∈ l.map key
  · obtain ⟨a, ha, rfl, happ⟩ := exists_applyAll_add l s hk
    rw [happ, (hl a).1 ha]
  · rw [applyAll_add_of_notMem l s hk]
    cases hRk : R k with
    | none =>
      rcases h k with hs | hs
      · exact hs
      · rw [hs, hRk]
    | some a =>
      obtain rfl := hR k a hRk
      exact absurd (List.mem_map.2 ⟨a, (hl a).2 hRk, rfl⟩) hk

end Mirror
