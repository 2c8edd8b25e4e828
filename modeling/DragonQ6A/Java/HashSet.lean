import Mathlib.Data.List.Basic
import Mathlib.Data.List.Nodup
import Mathlib.Data.List.Perm.Basic
import Mathlib.Data.Set.Basic

/-!
# Java hash sets

A `HashSet` holds each element once and promises nothing about the order in which a loop visits
them: an iteration may follow any list with the same elements (`Visits`).
-/

namespace Java

/-- The contents of a `java.util.HashSet`. -/
structure HashSet (α : Type) where
  elems : List α
  nodup : elems.Nodup

namespace HashSet

variable {α : Type}

instance : Membership α (HashSet α) := ⟨fun s a => a ∈ s.elems⟩

instance [DecidableEq α] (a : α) (s : HashSet α) : Decidable (a ∈ s) :=
  inferInstanceAs (Decidable (a ∈ s.elems))

/-- The elements, as a mathematical set. -/
def toSet (s : HashSet α) : Set α := fun a => a ∈ s

@[simp] theorem mem_toSet {s : HashSet α} {a : α} : a ∈ s.toSet ↔ a ∈ s := Iff.rfl

/-- `new HashSet<>()`. -/
def empty : HashSet α := ⟨[], List.nodup_nil⟩

@[simp] theorem not_mem_empty (a : α) : ¬ a ∈ (empty : HashSet α) := List.not_mem_nil

@[simp] theorem toSet_empty : (empty : HashSet α).toSet = ∅ :=
  Set.eq_empty_of_forall_notMem not_mem_empty

variable [DecidableEq α]

/-- `add`: no effect on a set that has the element. -/
def add (s : HashSet α) (a : α) : HashSet α := ⟨s.elems.insert a, List.Nodup.insert s.nodup⟩

@[simp] theorem mem_add {s : HashSet α} {a b : α} : b ∈ s.add a ↔ b = a ∨ b ∈ s :=
  List.mem_insert_iff

/-- `addAll`, with the argument's elements in the order they are visited. -/
def addAll (s : HashSet α) (l : List α) : HashSet α := l.foldl add s

@[simp] theorem mem_addAll {s : HashSet α} {l : List α} {b : α} :
    b ∈ s.addAll l ↔ b ∈ s ∨ b ∈ l := by
  induction l generalizing s with
  | nil => simp [addAll]
  | cons a l ih =>
    show b ∈ (s.add a).addAll l ↔ _
    rw [ih, mem_add, List.mem_cons, or_comm (a := b = a), or_assoc]

omit [DecidableEq α]

/-- A loop over `s` may visit its elements in the order `l`. -/
def Visits (s : HashSet α) (l : List α) : Prop := l.Perm s.elems

theorem Visits.mem_iff {s : HashSet α} {l : List α} (h : s.Visits l) {a : α} : a ∈ l ↔ a ∈ s :=
  List.Perm.mem_iff h

theorem Visits.nodup {s : HashSet α} {l : List α} (h : s.Visits l) : l.Nodup :=
  (List.Perm.nodup_iff h).2 s.nodup

theorem visits_elems (s : HashSet α) : s.Visits s.elems := List.Perm.refl _

end HashSet

end Java
