import Mathlib.Data.List.Basic
import Mathlib.Data.Set.Basic

/-!
# Mirroring a set by its changes

A program keeps the set `P` it has announced, and in every round brings its listeners from `P` to a
new snapshot `D` by adding what is new and then removing what is gone (`Diff`).  Only a round that
gets through all of it makes `D` the announced set.  A round that fails has made part of the
changes, and what it added is not in `P`: a later round removes it only by accident.
-/

namespace Mirror

variable {α : Type}

/-- A change to what is announced. -/
inductive Change (α : Type)
  | add (a : α)
  | remove (a : α)
deriving DecidableEq

open Change

/-- The changes from `P` to `D`: in some order what is new, then in some order what is gone. -/
def Diff (P D : Set α) (cs : List (Change α)) : Prop :=
  ∃ new old : List α, (new.Nodup ∧ ∀ a, a ∈ new ↔ a ∈ D ∧ a ∉ P) ∧
    (old.Nodup ∧ ∀ a, a ∈ old ↔ a ∈ P ∧ a ∉ D) ∧ cs = new.map add ++ old.map remove

theorem Diff.add_mem_iff {P D : Set α} {cs : List (Change α)} (h : Diff P D cs) {a : α} :
    add a ∈ cs ↔ a ∈ D ∧ a ∉ P := by
  obtain ⟨new, old, ⟨-, hnew⟩, -, rfl⟩ := h
  simp [hnew]

theorem Diff.remove_mem_iff {P D : Set α} {cs : List (Change α)} (h : Diff P D cs) {a : α} :
    remove a ∈ cs ↔ a ∈ P ∧ a ∉ D := by
  obtain ⟨new, old, -, ⟨-, hold⟩, rfl⟩ := h
  simp [hold]

/-! ## What a log leaves announced -/

/-- The last change of `a` is an addition. -/
def Outstanding (log : List (Change α)) (a : α) : Prop :=
  ∃ pre post, log = pre ++ add a :: post ∧ remove a ∉ post

theorem not_outstanding_nil (a : α) : ¬ Outstanding [] a := by
  rintro ⟨pre, post, h, -⟩
  simp at h

theorem outstanding_append {l₁ l₂ : List (Change α)} {a : α} :
    Outstanding (l₁ ++ l₂) a ↔ Outstanding l₂ a ∨ (Outstanding l₁ a ∧ remove a ∉ l₂) := by
  constructor
  · rintro ⟨pre, post, heq, hpost⟩
    rcases List.append_eq_append_iff.1 heq with ⟨u, rfl, rfl⟩ | ⟨u, rfl, hu⟩
    · exact Or.inl ⟨u, post, rfl, hpost⟩
    · cases u with
      | nil => exact Or.inl ⟨[], post, hu.symm, hpost⟩
      | cons c u =>
        obtain ⟨rfl, rfl⟩ := List.cons.inj hu
        obtain ⟨hu, hl₂⟩ := not_or.1 (mt List.mem_append.2 hpost)
        exact Or.inr ⟨⟨pre, u, rfl, hu⟩, hl₂⟩
  · rintro (⟨pre, post, rfl, hpost⟩ | ⟨⟨pre, post, rfl, hpost⟩, hl₂⟩)
    · exact ⟨l₁ ++ pre, post, by simp, hpost⟩
    · refine ⟨pre, post ++ l₂, by simp, ?_⟩
      rw [List.mem_append, not_or]
      exact ⟨hpost, hl₂⟩

/-- In part of a `Diff` nothing is both added and removed. -/
theorem Diff.outstanding_iff {P D : Set α} {cs rest : List (Change α)}
    (h : Diff P D (cs ++ rest)) {a : α} : Outstanding cs a ↔ add a ∈ cs := by
  constructor
  · rintro ⟨pre, post, rfl, -⟩
    simp
  · intro ha
    obtain ⟨pre, post, rfl⟩ := List.append_of_mem ha
    have hD := (h.add_mem_iff.1 (List.mem_append_left _ ha)).1
    refine ⟨pre, post, rfl, fun hr => ?_⟩
    exact (h.remove_mem_iff.1 (by simp [hr])).2 hD

/-- The element a list is split at is its last one, or one of the rest. -/
theorem concat_eq_split {β : Type} {l pre post : List β} {x y : β}
    (h : l ++ [x] = pre ++ y :: post) :
    (pre = l ∧ y = x ∧ post = []) ∨ ∃ post', l = pre ++ y :: post' ∧ post = post' ++ [x] := by
  rcases List.append_eq_append_iff.1 h with ⟨u, rfl, hu⟩ | ⟨u, rfl, hu⟩
  · cases u with
    | nil => simpa [eq_comm] using hu
    | cons z u => simp at hu
  · cases u with
    | nil => simpa [eq_comm] using hu
    | cons z u =>
      obtain ⟨rfl, rfl⟩ := List.cons.inj hu
      exact Or.inr ⟨u, rfl, rfl⟩

/-- A property of every split of a list, one element at a time. -/
theorem forall_split_concat {β : Type} {Q : List β → β → Prop} {l : List β} {x : β} :
    (∀ pre y post, l ++ [x] = pre ++ y :: post → Q pre y) ↔
      (∀ pre y post, l = pre ++ y :: post → Q pre y) ∧ Q l x := by
  constructor
  · intro h
    exact ⟨fun pre y post heq => h pre y (post ++ [x]) (by simp [heq]), h l x [] rfl⟩
  · rintro ⟨hl, hx⟩ pre y post heq
    rcases concat_eq_split heq with ⟨rfl, rfl, -⟩ | ⟨post', heq', -⟩
    · exact hx
    · exact hl pre y post' heq'

/-! ## Rounds -/

/-- A round: the snapshot it was after, the changes it made, and whether it got through. -/
structure Round (α : Type) where
  snapshot : Set α
  changes : List (Change α)
  done : Bool

/-- The changes of a list of rounds. -/
def log (rs : List (Round α)) : List (Change α) := rs.flatMap Round.changes

/-- Rounds after which the announced set is `P`. -/
inductive Rounds : List (Round α) → Set α → Prop
  | nil : Rounds [] ∅
  | done {rs : List (Round α)} {P D : Set α} {cs : List (Change α)} :
      Rounds rs P → Diff P D cs → Rounds (rs ++ [⟨D, cs, true⟩]) D
  | failed {rs : List (Round α)} {P D : Set α} {cs rest : List (Change α)} :
      Rounds rs P → Diff P D (cs ++ rest) → Rounds (rs ++ [⟨D, cs, false⟩]) P

/-- After the last round that got through, a failed one added `a`. -/
def Pending (rs : List (Round α)) (a : α) : Prop :=
  ∃ pre f mid, rs = pre ++ f :: mid ∧ add a ∈ f.changes ∧ f.done = false ∧
    ∀ r ∈ mid, r.done = false

theorem not_pending_nil (a : α) : ¬ Pending [] a := by
  rintro ⟨pre, f, mid, h, -⟩
  simp at h

theorem pending_concat {rs : List (Round α)} {r : Round α} {a : α} :
    Pending (rs ++ [r]) a ↔ r.done = false ∧ (Pending rs a ∨ add a ∈ r.changes) := by
  constructor
  · rintro ⟨pre, f, mid, heq, hadd, hf, hmid⟩
    rcases concat_eq_split heq with ⟨rfl, rfl, -⟩ | ⟨mid, rfl, rfl⟩
    · exact ⟨hf, Or.inr hadd⟩
    · have hmid' := List.forall_mem_append.1 hmid
      exact ⟨hmid'.2 r List.mem_cons_self, Or.inl ⟨pre, f, mid, rfl, hadd, hf, hmid'.1⟩⟩
  · rintro ⟨hr, ⟨pre, f, mid, rfl, hadd, hf, hmid⟩ | hadd⟩
    · refine ⟨pre, f, mid ++ [r], by simp, hadd, hf, fun m hm => ?_⟩
      rcases List.mem_append.1 hm with hm | hm
      · exact hmid m hm
      · rwa [List.mem_singleton.1 hm]
    · exact ⟨rs, r, [], rfl, hadd, hr, by simp⟩

/-- At the end of the rounds up to a finished `r`, everything outstanding is in its snapshot. -/
def Clean (rs : List (Round α)) : Prop :=
  ∀ pre r post, rs = pre ++ r :: post → r.done = true → ∀ a, a ∉ r.snapshot →
    ¬ Outstanding (log (pre ++ [r])) a

/-- Whatever failed rounds added is in the snapshot of the next round that gets through. -/
def Confirmed (rs : List (Round α)) : Prop :=
  ∀ pre r post, rs = pre ++ r :: post → r.done = true → ∀ a, Pending pre a → a ∈ r.snapshot

theorem log_concat (rs : List (Round α)) (r : Round α) : log (rs ++ [r]) = log rs ++ r.changes := by
  simp [log]

/-- As long as the rounds are clean, what is outstanding without being announced is pending. -/
theorem Rounds.outstanding_iff {rs : List (Round α)} {P : Set α} (h : Rounds rs P)
    (hc : Clean rs) {a : α} : Outstanding (log rs) a ∧ a ∉ P ↔ Pending rs a := by
  induction h with
  | nil => exact iff_of_false (fun h => not_outstanding_nil a h.1) (not_pending_nil a)
  | @done rs P D cs _ _ _ =>
    rw [pending_concat]
    refine iff_of_false ?_ (by simp)
    rintro ⟨hout, ha⟩
    exact hc rs _ [] rfl rfl a ha hout
  | @failed rs P D cs rest hr hd ih =>
    obtain ⟨hc, -⟩ := forall_split_concat.1 hc
    rw [pending_concat, log_concat, outstanding_append, hd.outstanding_iff, ← ih hc]
    have hadd : add a ∈ cs → a ∉ P := fun h =>
      (hd.add_mem_iff.1 (List.mem_append_left _ h)).2
    have hrem : a ∉ P → remove a ∉ cs := fun ha h =>
      ha (hd.remove_mem_iff.1 (List.mem_append_left _ h)).1
    dsimp only
    tauto

/-- Every finished round leaves nothing outstanding beyond its snapshot if and only if what failed
rounds added is still there when the next one finishes. -/
theorem Rounds.clean_iff_confirmed {rs : List (Round α)} {P : Set α} (h : Rounds rs P) :
    Clean rs ↔ Confirmed rs := by
  induction h with
  | nil => exact iff_of_true (fun _ _ _ h => by simp at h) fun _ _ _ h => by simp at h
  | @done rs P D cs hr hd ih =>
    refine forall_split_concat.trans (Iff.trans ?_ forall_split_concat.symm)
    refine (and_congr_left' ih).trans (and_congr_right fun hconf => ?_)
    simp only [forall_const, log_concat]
    refine forall_congr' fun a => ?_
    have hwhole : Diff P D (cs ++ []) := by rwa [List.append_nil]
    have hout : Outstanding cs a ↔ a ∈ D ∧ a ∉ P :=
      hwhole.outstanding_iff.trans hd.add_mem_iff
    rw [← hr.outstanding_iff (ih.2 hconf), outstanding_append, hout, hd.remove_mem_iff]
    tauto
  | @failed rs P D cs rest hr hd ih =>
    refine forall_split_concat.trans (Iff.trans ?_ forall_split_concat.symm)
    simp only [Bool.false_eq_true, false_imp_iff, and_true]
    exact ih

end Mirror
