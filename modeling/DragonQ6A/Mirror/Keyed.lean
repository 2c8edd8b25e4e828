import Mathlib.Data.List.Chain
import Mathlib.Data.Set.Function
import DragonQ6A.Mirror.Rounds

/-!
# Mirroring into a keyed store

The changes of a round applied to a store that holds one entry per key: an addition replaces what
is under the key of its element, a removal empties that key.  The store goes on mirroring the
snapshots exactly as long as no two elements of successive snapshots share a key.
-/

namespace Mirror

open Change

variable {α κ : Type} {key : α → κ}

/-- One entry for each element of `D`, under its own key, and no other entry. -/
def Mirrors (key : α → κ) (s : κ → Option α) (D : Set α) : Prop :=
  ∀ k a, s k = some a ↔ a ∈ D ∧ key a = k

theorem Mirrors.injOn {s : κ → Option α} {D : Set α} (h : Mirrors key s D) : Set.InjOn key D := by
  intro a ha b hb hab
  have h₁ := (h (key a) a).2 ⟨ha, rfl⟩
  have h₂ := (h (key a) b).2 ⟨hb, hab.symm⟩
  exact Option.some.inj (h₁.symm.trans h₂)

theorem mirrors_empty : Mirrors key (fun _ => none) ∅ := by
  simp [Mirrors]

/-! ## Additions and removals -/

variable [DecidableEq κ]

/-- Apply a change to a store. -/
def apply (key : α → κ) (s : κ → Option α) : Change α → κ → Option α
  | add a => Function.update s (key a) (some a)
  | remove a => Function.update s (key a) none

def applyAll (key : α → κ) (s : κ → Option α) (cs : List (Change α)) : κ → Option α :=
  cs.foldl (apply key) s

theorem applyAll_append (s : κ → Option α) (cs₁ cs₂ : List (Change α)) :
    applyAll key s (cs₁ ++ cs₂) = applyAll key (applyAll key s cs₁) cs₂ :=
  List.foldl_append

theorem applyAll_add_of_notMem {k : κ} (l : List α) (s : κ → Option α) (hk : k ∉ l.map key) :
    applyAll key s (l.map add) k = s k := by
  induction l generalizing s with
  | nil => rfl
  | cons a l ih =>
    rw [List.map_cons, List.mem_cons, not_or] at hk
    show applyAll key (apply key s (add a)) (l.map add) k = s k
    rw [ih _ hk.2]
    exact Function.update_of_ne hk.1 _ _

/-- The last addition under a key stands. -/
theorem exists_applyAll_add {k : κ} (l : List α) (s : κ → Option α) (hk : k ∈ l.map key) :
    ∃ a ∈ l, key a = k ∧ applyAll key s (l.map add) k = some a := by
  induction l generalizing s with
  | nil => cases hk
  | cons a l ih =>
    show ∃ b ∈ a :: l, key b = k ∧ applyAll key (apply key s (add a)) (l.map add) k = some b
    by_cases hl : k ∈ l.map key
    · obtain ⟨b, hb, hkb, happ⟩ := ih (apply key s (add a)) hl
      exact ⟨b, List.mem_cons_of_mem _ hb, hkb, happ⟩
    · have hka : k = key a := (List.mem_cons.1 hk).resolve_right hl
      refine ⟨a, List.mem_cons_self, hka.symm, ?_⟩
      rw [applyAll_add_of_notMem l _ hl, hka]
      exact Function.update_self _ _ _

theorem applyAll_remove (l : List α) (s : κ → Option α) (k : κ) :
    applyAll key s (l.map remove) k = if k ∈ l.map key then none else s k := by
  induction l generalizing s with
  | nil => rfl
  | cons a l ih =>
    show applyAll key (apply key s (remove a)) (l.map remove) k = _
    rw [ih, List.map_cons]
    by_cases hl : k ∈ l.map key
    · rw [if_pos hl, if_pos (List.mem_cons_of_mem _ hl)]
    · by_cases hka : k = key a
      · rw [if_neg hl, if_pos (List.mem_cons.2 (Or.inl hka)), hka]
        exact Function.update_self _ _ _
      · rw [if_neg hl, if_neg (fun h => (List.mem_cons.1 h).elim hka hl)]
        exact Function.update_of_ne hka _ _

/-- Every entry is under its own key. -/
def Filed (key : α → κ) (s : κ → Option α) : Prop := ∀ k a, s k = some a → key a = k

omit [DecidableEq κ] in
theorem filed_empty : Filed key fun _ => none := fun _ _ h => by cases h

theorem Filed.apply {s : κ → Option α} (h : Filed key s) (c : Change α) :
    Filed key (apply key s c) := by
  intro k a ha
  cases c with
  | add b =>
    by_cases hk : k = key b
    · rw [hk] at ha ⊢
      rw [Mirror.apply, Function.update_self] at ha
      rw [Option.some.inj ha]
    · rw [Mirror.apply, Function.update_of_ne hk] at ha
      exact h k a ha
  | remove b =>
    by_cases hk : k = key b
    · rw [hk, Mirror.apply, Function.update_self] at ha
      cases ha
    · rw [Mirror.apply, Function.update_of_ne hk] at ha
      exact h k a ha

theorem Filed.applyAll {s : κ → Option α} (h : Filed key s) (cs : List (Change α)) :
    Filed key (applyAll key s cs) := by
  induction cs generalizing s with
  | nil => exact h
  | cons c cs ih => exact ih (h.apply c)

/-! ## A round -/

/-- Without clashes a round keeps the mirror. -/
theorem Mirrors.applyAll_of_injOn {s : κ → Option α} {P D : Set α} {cs : List (Change α)}
    (h : Mirrors key s P) (hd : Diff P D cs) (hinj : Set.InjOn key (P ∪ D)) :
    Mirrors key (applyAll key s cs) D := by
  obtain ⟨new, old, ⟨-, hnew⟩, ⟨-, hold⟩, rfl⟩ := hd
  intro k a
  rw [applyAll_append, applyAll_remove]
  -- whoever in `P ∪ D` has the key `k` is the only one
  have huniq : ∀ b c, b ∈ P ∪ D → c ∈ P ∪ D → key b = k → key c = k → b = c :=
    fun b c hb hc hkb hkc => hinj hb hc (hkb.trans hkc.symm)
  by_cases hko : k ∈ old.map key
  · obtain ⟨o, ho, hok⟩ := List.mem_map.1 hko
    rw [if_pos hko]
    refine iff_of_false (fun h => by cases h) ?_
    rintro ⟨haD, hak⟩
    have := huniq o a (Or.inl ((hold o).1 ho).1) (Or.inr haD) hok hak
    exact ((hold o).1 ho).2 (this ▸ haD)
  · rw [if_neg hko]
    by_cases hkn : k ∈ new.map key
    · obtain ⟨n, hn, hnk, happ⟩ := exists_applyAll_add new s hkn
      rw [happ, Option.some.injEq]
      constructor
      · rintro rfl
        exact ⟨((hnew n).1 hn).1, hnk⟩
      · rintro ⟨haD, hak⟩
        exact huniq n a (Or.inr ((hnew n).1 hn).1) (Or.inr haD) hnk hak
    · rw [applyAll_add_of_notMem new s hkn, h k a]
      constructor
      · rintro ⟨haP, hak⟩
        by_contra hD
        exact hko (List.mem_map.2 ⟨a, (hold a).2 ⟨haP, fun haD => hD ⟨haD, hak⟩⟩, hak⟩)
      · rintro ⟨haD, hak⟩
        by_contra hP
        exact hkn (List.mem_map.2 ⟨a, (hnew a).2 ⟨haD, fun haP => hP ⟨haP, hak⟩⟩, hak⟩)

/-- A round keeps the mirror if and only if no two elements of the two sets share a key. -/
theorem Mirrors.applyAll_iff {s : κ → Option α} {P D : Set α} {cs : List (Change α)}
    (h : Mirrors key s P) (hd : Diff P D cs) :
    Mirrors key (applyAll key s cs) D ↔ Set.InjOn key (P ∪ D) := by
  refine ⟨fun h' => ?_, h.applyAll_of_injOn hd⟩
  -- an element that goes and one that stays or comes cannot share a key: the key was emptied last
  have hcross : ∀ a b, a ∈ P → b ∈ D → key a = key b → a = b := by
    intro a b ha hb hab
    by_cases haD : a ∈ D
    · exact h'.injOn haD hb hab
    · exfalso
      obtain ⟨new, old, -, ⟨-, hold⟩, rfl⟩ := hd
      have hb' := (h' (key b) b).2 ⟨hb, rfl⟩
      rw [applyAll_append, applyAll_remove,
        if_pos (List.mem_map.2 ⟨a, (hold a).2 ⟨ha, haD⟩, hab⟩)] at hb'
      cases hb'
  rintro a (ha | ha) b (hb | hb) hab
  · exact h.injOn ha hb hab
  · exact hcross a b ha hb hab
  · exact (hcross b a hb ha hab.symm).symm
  · exact h'.injOn ha hb hab

/-! ## A run of rounds -/

/-- After every round the store mirrors its snapshot. -/
def AllMirror (key : α → κ) (rs : List (Round α)) : Prop :=
  ∀ pre r post, rs = pre ++ r :: post →
    Mirrors key (applyAll key (fun _ => none) (log (pre ++ [r]))) r.snapshot

theorem not_all_done {rs : List (Round α)} {D : Set α} {cs : List (Change α)} :
    ¬ ∀ r ∈ rs ++ [⟨D, cs, false⟩], r.done = true := by
  intro h
  have hlast := h _ (List.mem_append_right _ List.mem_cons_self)
  cases hlast

omit [DecidableEq κ] in
/-- When every round gets through, the announced set is the last snapshot. -/
theorem Rounds.getLast?_eq {rs : List (Round α)} {P : Set α} (h : Rounds rs P)
    (hdone : ∀ r ∈ rs, r.done = true) : (∅ :: rs.map Round.snapshot).getLast? = some P := by
  cases h with
  | nil => rfl
  | done _ _ => rw [List.map_append, ← List.cons_append, List.map_singleton, List.getLast?_concat]
  | failed _ _ => exact absurd hdone not_all_done

theorem AllMirror.last {rs : List (Round α)} {P : Set α} (hm : AllMirror key rs)
    (h : Rounds rs P) (hdone : ∀ r ∈ rs, r.done = true) :
    Mirrors key (applyAll key (fun _ => none) (log rs)) P := by
  cases h with
  | nil => exact mirrors_empty
  | done _ _ => exact hm _ _ [] rfl
  | failed _ _ => exact absurd hdone not_all_done

/-- From an empty store, every round leaves a mirror of its snapshot if and only if no two elements
of successive snapshots share a key. -/
theorem Rounds.allMirror_iff {rs : List (Round α)} {P : Set α} (h : Rounds rs P)
    (hdone : ∀ r ∈ rs, r.done = true) :
    AllMirror key rs ↔
      (∅ :: rs.map Round.snapshot).IsChain fun P D => Set.InjOn key (P ∪ D) := by
  induction h with
  | nil => simp [AllMirror]
  | @done rs P D cs hr hd ih =>
    have hdone' : ∀ r ∈ rs, r.done = true := fun r h => hdone r (List.mem_append_left _ h)
    refine forall_split_concat.trans ?_
    rw [List.map_append, ← List.cons_append, List.isChain_append, ← ih hdone']
    refine and_congr_right fun hm => ?_
    rw [log_concat, applyAll_append, (AllMirror.last hm hr hdone').applyAll_iff hd]
    simp [hr.getLast?_eq hdone']
  | failed _ _ => exact absurd hdone not_all_done

end Mirror
