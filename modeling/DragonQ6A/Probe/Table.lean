import Mathlib.Data.List.Perm.Basic
import Mathlib.Data.List.Nodup
import Mathlib.Logic.Function.Basic

/-!
# Open addressing with tombstones

A table is a list of slots, and every key has a probe path, the slots where it is looked for in
turn.  A search passes the tombstones of deleted items and stops at the first slot that was never
used (`search`); an insertion takes the first slot that is free or already holds the key (`place`).
Every item stays reachable (`Reachable`), whatever is inserted and erased.  That the table is a
finite map (`Represents`) depends on more: an insertion that stops at a tombstone before it gets to
the key's own slot leaves the key in two slots.
-/

namespace Probe

/-- A slot: never used, a tombstone, or an item. -/
inductive Slot (κ α : Type)
  | empty
  | deleted
  | item (k : κ) (a : α)
deriving DecidableEq

variable {κ α : Type}

/-- The item in a slot. -/
def Slot.entry : Slot κ α → Option (κ × α)
  | item k a => some (k, a)
  | empty => none
  | deleted => none

@[simp] theorem Slot.entry_item (k : κ) (a : α) : (Slot.item k a).entry = some (k, a) := rfl

@[simp] theorem Slot.entry_empty : (Slot.empty : Slot κ α).entry = none := rfl

@[simp] theorem Slot.entry_deleted : (Slot.deleted : Slot κ α).entry = none := rfl

theorem Slot.entry_eq_some {s : Slot κ α} {k : κ} {a : α} :
    s.entry = some (k, a) ↔ s = item k a := by
  cases s <;> simp

/-- The items of a table, in the order of the slots. -/
def live (t : List (Slot κ α)) : List (κ × α) := t.filterMap Slot.entry

/-- The keys of the items. -/
def keys (t : List (Slot κ α)) : List κ := (live t).map Prod.fst

@[simp] theorem live_nil : live ([] : List (Slot κ α)) = [] := rfl

@[simp] theorem live_append (t₁ t₂ : List (Slot κ α)) : live (t₁ ++ t₂) = live t₁ ++ live t₂ :=
  List.filterMap_append

theorem live_cons (s : Slot κ α) (t : List (Slot κ α)) :
    live (s :: t) = s.entry.toList ++ live t := by
  unfold live
  rw [List.filterMap_cons]
  cases s.entry <;> rfl

theorem live_replicate_empty (n : Nat) : live (List.replicate n (Slot.empty : Slot κ α)) = [] := by
  simp [live]

theorem length_live_le (t : List (Slot κ α)) : (live t).length ≤ t.length :=
  List.length_filterMap_le _ _

theorem mem_live {t : List (Slot κ α)} {k : κ} {a : α} :
    (k, a) ∈ live t ↔ ∃ i : Nat, t[i]? = some (.item k a) := by
  rw [live, List.mem_filterMap]
  simp only [Slot.entry_eq_some, exists_eq_right, List.mem_iff_getElem?]

theorem mem_keys {t : List (Slot κ α)} {k : κ} : k ∈ keys t ↔ ∃ a, (k, a) ∈ live t := by
  simp [keys]

/-- A table has as many items as slots when there is one in every slot. -/
theorem length_live_eq_iff {t : List (Slot κ α)} :
    (live t).length = t.length ↔ ∀ s ∈ t, ∃ k a, s = .item k a := by
  rw [live, List.length_filterMap_eq_countP, List.countP_eq_length]
  refine forall₂_congr fun s _ => ?_
  cases s <;> simp

/-- Writing a slot changes its item and no other. -/
theorem live_set {t : List (Slot κ α)} {i : Nat} {s : Slot κ α} (h : t[i]? = some s)
    (s' : Slot κ α) : ∃ l₁ l₂, live t = l₁ ++ (s.entry.toList ++ l₂) ∧
      live (t.set i s') = l₁ ++ (s'.entry.toList ++ l₂) := by
  obtain ⟨hi, rfl⟩ := List.getElem?_eq_some_iff.1 h
  obtain ⟨t₁, t₂, ht, -, hset⟩ : ∃ t₁ t₂, t = t₁ ++ t[i] :: t₂ ∧ t₁.length = i ∧
      t.set i s' = t₁ ++ s' :: t₂ := List.exists_of_set hi
  refine ⟨live t₁, live t₂, ?_, ?_⟩
  · conv_lhs => rw [ht]
    rw [live_append, live_cons]
  · rw [hset, live_append, live_cons]

/-! ## Probe paths -/

variable [DecidableEq κ]

/-- The slot along the path that holds the key; a slot never used ends the search. -/
def search (t : List (Slot κ α)) (k : κ) : List Nat → Option Nat
  | [] => none
  | i :: is =>
    match t[i]? with
    | some (.item k' _) => if k' = k then some i else search t k is
    | some .deleted => search t k is
    | _ => none

/-- The first slot along the path that is free or holds the key. -/
def place (t : List (Slot κ α)) (k : κ) : List Nat → Option Nat
  | [] => none
  | i :: is =>
    match t[i]? with
    | some (.item k' _) => if k' = k then some i else place t k is
    | _ => some i

omit [DecidableEq κ] in
/-- A search passes the slot `j`. -/
def Passed (t : List (Slot κ α)) (j : Nat) : Prop := ∃ s, t[j]? = some s ∧ s ≠ .empty

omit [DecidableEq κ] in
theorem Passed.set {t : List (Slot κ α)} {j : Nat} (h : Passed t j) (i : Nat) {s : Slot κ α}
    (hs : s ≠ .empty) : Passed (t.set i s) j := by
  obtain ⟨s', hj, hs'⟩ := h
  have hlt : j < t.length := (List.getElem?_eq_some_iff.1 hj).1
  by_cases hij : i = j
  · exact ⟨s, by rw [← hij, List.getElem?_set_self (hij ▸ hlt)], hs⟩
  · exact ⟨s', by rw [List.getElem?_set_ne hij, hj], hs'⟩

theorem getElem?_of_search {t : List (Slot κ α)} {k : κ} {is : List Nat} {i : Nat}
    (h : search t k is = some i) : ∃ a, t[i]? = some (.item k a) := by
  induction is with
  | nil => cases h
  | cons j is ih =>
    unfold search at h
    split at h
    · next k' a hj =>
      split at h
      · next hk =>
        cases h
        exact ⟨a, hk ▸ hj⟩
      · exact ih h
    · exact ih h
    · cases h

/-- A search that gets as far as an item of the key finds one. -/
theorem search_ne_none {t : List (Slot κ α)} {k : κ} {a : α} {pre post : List Nat} {i : Nat}
    (hi : t[i]? = some (.item k a)) (hpre : ∀ j ∈ pre, Passed t j) :
    search t k (pre ++ i :: post) ≠ none := by
  induction pre with
  | nil => simp [search, hi]
  | cons j pre ih =>
    obtain ⟨⟨s, hj, hs⟩, hpre⟩ := List.forall_mem_cons.1 hpre
    rw [List.cons_append, search, hj]
    cases s with
    | empty => exact absurd rfl hs
    | deleted => exact ih hpre
    | item k' a' =>
      dsimp only
      split_ifs
      · simp
      · exact ih hpre

/-- What stands on the way to the slot an insertion takes. -/
theorem split_of_place {t : List (Slot κ α)} {k : κ} {is : List Nat} {i : Nat}
    (h : place t k is = some i) : ∃ pre post, is = pre ++ i :: post ∧
      (∀ j ∈ pre, ∃ k' a, t[j]? = some (.item k' a) ∧ k' ≠ k) ∧
      ∀ k' a, t[i]? = some (.item k' a) → k' = k := by
  induction is with
  | nil => cases h
  | cons j is ih =>
    unfold place at h
    split at h
    · next k' a hj =>
      split at h
      · next hk =>
        cases h
        refine ⟨[], is, rfl, by simp, fun k'' a' ha => ?_⟩
        rw [hj, Option.some.injEq, Slot.item.injEq] at ha
        exact ha.1.symm.trans hk
      · next hk =>
        obtain ⟨pre, post, rfl, hpre, hi⟩ := ih h
        refine ⟨j :: pre, post, rfl, ?_, hi⟩
        exact List.forall_mem_cons.2 ⟨⟨k', a, hj, hk⟩, hpre⟩
    · next hj =>
      cases h
      exact ⟨[], is, rfl, by simp, fun k' a ha => absurd ha (hj k' a)⟩

theorem place_ne_none {t : List (Slot κ α)} {k : κ} {is : List Nat} {i : Nat} (hi : i ∈ is)
    (hfree : ∀ k' a, t[i]? ≠ some (.item k' a)) : place t k is ≠ none := by
  induction is with
  | nil => cases hi
  | cons j is ih =>
    unfold place
    split
    · next k' a hj =>
      split
      · simp
      · refine ih ((List.mem_cons.1 hi).resolve_left ?_)
        rintro rfl
        exact hfree k' a hj
    · simp

/-- A search passes the items of other keys. -/
theorem search_pass {t : List (Slot κ α)} {k : κ} {pre : List Nat}
    (hpre : ∀ j ∈ pre, ∃ k' a, t[j]? = some (.item k' a) ∧ k' ≠ k) (is : List Nat) :
    search t k (pre ++ is) = search t k is := by
  induction pre with
  | nil => rfl
  | cons j pre ih =>
    obtain ⟨⟨k', a, hj, hk⟩, hpre⟩ := List.forall_mem_cons.1 hpre
    rw [List.cons_append, search, hj]
    simp only [if_neg hk, ih hpre]

/-- What was written at the place of a key is what a search for the key finds. -/
theorem search_write {t : List (Slot κ α)} {k : κ} {is : List Nat} {i : Nat}
    (hi : place t k is = some i) (hlt : i < t.length) (a : α) :
    search (t.set i (.item k a)) k is = some i := by
  obtain ⟨pre, post, rfl, hpre, hown⟩ := split_of_place hi
  rw [search_pass, search, List.getElem?_set_self hlt]
  · simp
  · intro j hj
    obtain ⟨k', b, hb, hk⟩ := hpre j hj
    have hij : i ≠ j := by
      rintro rfl
      exact hk (hown k' b hb)
    exact ⟨k', b, by rw [List.getElem?_set_ne hij, hb], hk⟩

/-- A write at a slot a search for `k` stops at, or passes, does not change what it finds. -/
theorem search_set {t : List (Slot κ α)} {k : κ} {is : List Nat} {i : Nat} {s : Slot κ α}
    (hi : ∀ a, t[i]? ≠ some (.item k a)) (hs : ∀ a, s ≠ .item k a) (hne : s ≠ .empty)
    (h : search t k is ≠ none) : search (t.set i s) k is = search t k is := by
  induction is with
  | nil => rfl
  | cons j is ih =>
    unfold search at h ⊢
    by_cases hij : i = j
    · subst hij
      cases hti : t[i]? with
      | none => simp [hti] at h
      | some r =>
        rw [List.getElem?_set_self (List.getElem?_eq_some_iff.1 hti).1]
        rw [hti] at h
        cases r with
        | empty => exact absurd rfl h
        | deleted =>
          cases s with
          | empty => exact absurd rfl hne
          | deleted => exact ih h
          | item k' b =>
            have hk : k' ≠ k := fun hk => hs b (by rw [hk])
            simp only [if_neg hk]
            exact ih h
        | item k' b =>
          have hk : k' ≠ k := fun hk => hi b (by rw [hti, hk])
          simp only [if_neg hk] at h ⊢
          cases s with
          | empty => exact absurd rfl hne
          | deleted => exact ih h
          | item k'' c =>
            have hk' : k'' ≠ k := fun hk => hs c (by rw [hk])
            simp only [if_neg hk']
            exact ih h
    · rw [List.getElem?_set_ne hij]
      cases hti : t[j]? with
      | none => rfl
      | some r =>
        rw [hti] at h
        cases r with
        | empty => rfl
        | deleted => exact ih h
        | item k' b =>
          by_cases hk : k' = k
          · simp only [if_pos hk]
          · simp only [if_neg hk] at h ⊢
            exact ih h

/-! ## Linear probing -/

/-- `m` slots from `i` on, around a table of `n`. -/
def walk (n : Nat) : Nat → Nat → List Nat
  | 0, _ => []
  | m + 1, i => i :: walk n m ((i + 1) % n)

theorem walk_eq_map {n m i : Nat} (hi : i < n) :
    walk n m i = (List.range m).map fun d => (i + d) % n := by
  induction m generalizing i with
  | zero => rfl
  | succ m ih =>
    have hn : 0 < n := by omega
    rw [walk, ih (Nat.mod_lt _ hn), List.range_succ_eq_map, List.map_cons, List.map_map,
      Nat.add_zero i, Nat.mod_eq_of_lt hi]
    refine congrArg _ (List.map_congr_left fun d _ => ?_)
    simp only [Function.comp_apply, Nat.succ_eq_add_one, Nat.mod_add_mod]
    rw [Nat.add_assoc, Nat.add_comm 1 d]

/-- A full turn visits every slot. -/
theorem mem_walk {n i j : Nat} (hi : i < n) : j ∈ walk n n i ↔ j < n := by
  rw [walk_eq_map hi]
  simp only [List.mem_map, List.mem_range]
  constructor
  · rintro ⟨d, -, rfl⟩
    exact Nat.mod_lt _ (by omega)
  · intro hj
    by_cases hij : i ≤ j
    · exact ⟨j - i, by omega, by rw [Nat.add_sub_cancel' hij, Nat.mod_eq_of_lt hj]⟩
    · refine ⟨n - i + j, by omega, ?_⟩
      rw [show i + (n - i + j) = j + n by omega, Nat.add_mod_right, Nat.mod_eq_of_lt hj]

/-! ## Reachable items -/

variable {path : κ → List Nat} {t : List (Slot κ α)}

omit [DecidableEq κ] in
/-- Every item stands on the path of its key, with no slot before it where a search would stop. -/
def Reachable (path : κ → List Nat) (t : List (Slot κ α)) : Prop :=
  ∀ i k a, t[i]? = some (.item k a) →
    ∃ pre post, path k = pre ++ i :: post ∧ ∀ j ∈ pre, Passed t j

omit [DecidableEq κ] in
theorem reachable_replicate_empty (path : κ → List Nat) (n : Nat) :
    Reachable path (List.replicate n (.empty : Slot κ α)) := by
  intro i k a h
  rw [List.getElem?_replicate] at h
  split_ifs at h
  cases h

theorem Reachable.search_eq_none (h : Reachable path t) {k : κ} :
    search t k (path k) = none ↔ k ∉ keys t := by
  constructor
  · intro hs hk
    obtain ⟨a, ha⟩ := mem_keys.1 hk
    obtain ⟨i, hi⟩ := mem_live.1 ha
    obtain ⟨pre, post, hpath, hpre⟩ := h i k a hi
    rw [hpath] at hs
    exact search_ne_none hi hpre hs
  · intro hk
    by_contra hs
    obtain ⟨i, hi⟩ := Option.ne_none_iff_exists'.1 hs
    obtain ⟨a, ha⟩ := getElem?_of_search hi
    exact hk (mem_keys.2 ⟨a, mem_live.2 ⟨i, ha⟩⟩)

/-- A key whose place is a slot never used is not in the table. -/
theorem Reachable.notMem_of_empty (h : Reachable path t) {k : κ} {i : Nat}
    (hi : place t k (path k) = some i) (hempty : t[i]? = some .empty) : k ∉ keys t := by
  obtain ⟨pre, post, hpath, hpre, -⟩ := split_of_place hi
  refine h.search_eq_none.1 ?_
  rw [hpath, search_pass hpre, search, hempty]

/-- Writing at the place of a key keeps every item reachable. -/
theorem Reachable.write (h : Reachable path t) {k : κ} {i : Nat}
    (hi : place t k (path k) = some i) (a : α) : Reachable path (t.set i (.item k a)) := by
  intro j k' a' hj
  have hset : ∀ l : List Nat, (∀ m ∈ l, Passed t m) → ∀ m ∈ l, Passed (t.set i (.item k a)) m :=
    fun l hl m hm => (hl m hm).set i (by simp)
  by_cases hij : i = j
  · subst hij
    have hlt : i < t.length := by
      rw [← List.length_set]
      exact (List.getElem?_eq_some_iff.1 hj).1
    rw [List.getElem?_set_self hlt, Option.some.injEq, Slot.item.injEq] at hj
    obtain ⟨rfl, rfl⟩ := hj
    obtain ⟨pre, post, hpath, hpre, -⟩ := split_of_place hi
    refine ⟨pre, post, hpath, hset pre fun m hm => ?_⟩
    obtain ⟨k', b, hm, -⟩ := hpre m hm
    exact ⟨_, hm, by simp⟩
  · rw [List.getElem?_set_ne hij] at hj
    obtain ⟨pre, post, hpath, hpre⟩ := h j k' a' hj
    exact ⟨pre, post, hpath, hset pre hpre⟩

omit [DecidableEq κ] in
/-- Another item of the same key in the same slot. -/
theorem Reachable.assign (h : Reachable path t) {i : Nat} {k : κ} {a b : α}
    (hi : t[i]? = some (.item k a)) : Reachable path (t.set i (.item k b)) := by
  have hlt : i < t.length := (List.getElem?_eq_some_iff.1 hi).1
  have hold : ∀ (j : Nat) k' c, (t.set i (.item k b))[j]? = some (Slot.item k' c) →
      ∃ c', t[j]? = some (.item k' c') := by
    intro j k' c hj
    by_cases hij : i = j
    · rw [← hij, List.getElem?_set_self hlt, Option.some.injEq, Slot.item.injEq] at hj
      exact ⟨a, by rw [← hij, hi, hj.1]⟩
    · rw [List.getElem?_set_ne hij] at hj
      exact ⟨c, hj⟩
  intro j k' c hj
  obtain ⟨c', hj'⟩ := hold j k' c hj
  obtain ⟨pre, post, hpath, hpre⟩ := h j k' c' hj'
  exact ⟨pre, post, hpath, fun m hm => (hpre m hm).set i (by simp)⟩

omit [DecidableEq κ] in
/-- A tombstone does not stop a search. -/
theorem Reachable.erase (h : Reachable path t) (i : Nat) : Reachable path (t.set i .deleted) := by
  intro j k a hj
  by_cases hij : i = j
  · subst hij
    have hlt : i < t.length := by
      rw [← List.length_set]
      exact (List.getElem?_eq_some_iff.1 hj).1
    rw [List.getElem?_set_self hlt] at hj
    cases hj
  · rw [List.getElem?_set_ne hij] at hj
    obtain ⟨pre, post, hpath, hpre⟩ := h j k a hj
    exact ⟨pre, post, hpath, fun m hm => (hpre m hm).set i (by simp)⟩

/-! ## Tables that are finite maps -/

omit [DecidableEq κ] in
/-- The table holds the finite map `f`, every key in one slot. -/
structure Represents (path : κ → List Nat) (t : List (Slot κ α)) (f : κ → Option α) : Prop where
  reachable : Reachable path t
  nodup : (keys t).Nodup
  holds : ∀ k a, f k = some a ↔ (k, a) ∈ live t

/-- The item the search for a key ends at. -/
def find (path : κ → List Nat) (t : List (Slot κ α)) (k : κ) : Option α :=
  (search t k (path k)).bind fun i => (t[i]?.bind Slot.entry).map Prod.snd

theorem find_write {k : κ} {i : Nat} (hi : place t k (path k) = some i) (hlt : i < t.length)
    (a : α) : find path (t.set i (.item k a)) k = some a := by
  unfold find
  rw [search_write hi hlt]
  simp [hlt]

/-- Writing an item leaves what the other keys find. -/
theorem Reachable.find_write_of_ne (h : Reachable path t) {k k' : κ} {i : Nat}
    (hi : place t k (path k) = some i) (hlt : i < t.length) (a : α) (hk : k' ≠ k) :
    find path (t.set i (.item k a)) k' = find path t k' := by
  obtain ⟨-, -, -, -, hown⟩ := split_of_place hi
  unfold find
  by_cases hs : search t k' (path k') = none
  · have hnot : k' ∉ keys (t.set i (.item k a)) := by
      obtain ⟨l₁, l₂, hl, hset⟩ := live_set (List.getElem?_eq_getElem hlt) (.item k a)
      have hold := h.search_eq_none.1 hs
      rw [keys, hl] at hold
      rw [keys, hset]
      simp only [List.map_append, List.mem_append, not_or] at hold ⊢
      refine ⟨hold.1, ?_, hold.2.2⟩
      simpa using hk
    rw [hs, (h.write hi a).search_eq_none.2 hnot]
    rfl
  · rw [search_set _ _ _ hs]
    · obtain ⟨j, hj⟩ := Option.ne_none_iff_exists'.1 hs
      obtain ⟨b, hb⟩ := getElem?_of_search hj
      have hij : i ≠ j := by
        rintro rfl
        exact hk (hown k' b hb)
      rw [hj]
      simp only [Option.bind_some, List.getElem?_set_ne hij]
    · intro b hb
      exact hk (hown k' b hb)
    · intro b hb
      rw [Slot.item.injEq] at hb
      exact hk hb.1.symm
    · simp

section Represents

variable {f : κ → Option α} {k : κ} {i : Nat} {a : α}

omit [DecidableEq κ] in
theorem represents_replicate_empty (path : κ → List Nat) (n : Nat) :
    Represents path (List.replicate n (.empty : Slot κ α)) fun _ => none :=
  ⟨reachable_replicate_empty path n, by simp [keys, live_replicate_empty],
    by simp [live_replicate_empty]⟩

omit [DecidableEq κ] in
theorem Represents.eq_none (h : Represents path t f) : f k = none ↔ k ∉ keys t := by
  rw [mem_keys, Option.eq_none_iff_forall_not_mem, not_exists]
  exact forall_congr' fun a => not_congr (h.holds k a)

theorem Represents.search_eq_none (h : Represents path t f) :
    search t k (path k) = none ↔ f k = none :=
  h.reachable.search_eq_none.trans h.eq_none.symm

theorem Represents.find_eq (h : Represents path t f) (k : κ) : find path t k = f k := by
  unfold find
  cases hs : search t k (path k) with
  | none => exact (h.search_eq_none.1 hs).symm
  | some i =>
    obtain ⟨a, ha⟩ := getElem?_of_search hs
    have hf : f k = some a := (h.holds k a).2 (mem_live.2 ⟨i, ha⟩)
    simp [ha, hf]

/-- Erasing the item a search finds erases the key. -/
theorem Represents.erase (h : Represents path t f) (hi : search t k (path k) = some i) :
    Represents path (t.set i .deleted) (Function.update f k none) := by
  obtain ⟨a, ha⟩ := getElem?_of_search hi
  obtain ⟨l₁, l₂, hl, hset⟩ := live_set ha .deleted
  simp only [Slot.entry_item, Option.toList_some, List.singleton_append] at hl
  simp only [Slot.entry_deleted, Option.toList_none, List.nil_append] at hset
  have hnodup : ((k, a) :: (l₁ ++ l₂)).map Prod.fst |>.Nodup := by
    have hperm : (live t).Perm ((k, a) :: (l₁ ++ l₂)) := by
      rw [hl]
      exact List.perm_middle
    exact (hperm.map Prod.fst).nodup_iff.1 h.nodup
  rw [List.map_cons, List.nodup_cons] at hnodup
  refine ⟨h.reachable.erase i, by rw [keys, hset]; exact hnodup.2, fun k' b => ?_⟩
  rw [hset]
  by_cases hk : k' = k
  · rw [hk, Function.update_self]
    exact iff_of_false (by simp) fun hm => hnodup.1 (List.mem_map.2 ⟨_, hm, rfl⟩)
  · rw [Function.update_of_ne hk, h.holds, hl]
    simp [hk]

omit [DecidableEq κ] in
/-- No key stands in two slots. -/
theorem Represents.slot_inj (h : Represents path t f) {j : Nat} {b : α}
    (hi : t[i]? = some (.item k a)) (hj : t[j]? = some (.item k b)) : i = j := by
  by_contra hij
  obtain ⟨l₁, l₂, hl, hset⟩ := live_set hi .deleted
  have hmem : (k, b) ∈ live (t.set i .deleted) :=
    mem_live.2 ⟨j, by rw [List.getElem?_set_ne hij, hj]⟩
  have hnodup := h.nodup
  rw [hset, Slot.entry_deleted, Option.toList_none, List.nil_append] at hmem
  rw [keys, hl, Slot.entry_item, Option.toList_some, List.singleton_append,
    (List.perm_middle.map Prod.fst).nodup_iff, List.map_cons, List.nodup_cons] at hnodup
  exact hnodup.1 (List.mem_map.2 ⟨_, hmem, rfl⟩)

theorem Represents.search_item (h : Represents path t f) (hi : t[i]? = some (.item k a)) :
    search t k (path k) = some i := by
  have hk : k ∈ keys t := mem_keys.2 ⟨a, mem_live.2 ⟨i, hi⟩⟩
  cases hs : search t k (path k) with
  | none => exact absurd hk (h.reachable.search_eq_none.1 hs)
  | some j =>
    obtain ⟨b, hb⟩ := getElem?_of_search hs
    rw [h.slot_inj hi hb]

/-- Writing an item sets its key, if the slot holds no other and the key is in no other slot. -/
theorem Represents.set (h : Represents path t f) (hlt : i < t.length)
    (hreach : Reachable path (t.set i (.item k a)))
    (hown : ∀ k' b, t[i]? = some (.item k' b) → k' = k)
    (hclear : (∀ k' b, t[i]? ≠ some (.item k' b)) → f k = none) :
    Represents path (t.set i (.item k a)) (Function.update f k (some a)) := by
  obtain ⟨l₁, l₂, hl, hset⟩ := live_set (List.getElem?_eq_getElem hlt) (.item k a)
  simp only [Slot.entry_item, Option.toList_some, List.singleton_append] at hset
  -- off the slot no item has the key, and the slot holds nothing else
  have hfresh : k ∉ (l₁ ++ l₂).map Prod.fst ∧ ((l₁ ++ l₂).map Prod.fst).Nodup ∧
      ∀ k' b, k' ≠ k → ((k', b) ∈ live t ↔ (k', b) ∈ l₁ ++ l₂) := by
    have hnodup : ((l₁ ++ (t[i].entry.toList ++ l₂)).map Prod.fst).Nodup := hl ▸ h.nodup
    cases hs : t[i].entry with
    | none =>
      have hk : f k = none := by
        refine hclear fun k' b hi => ?_
        rw [List.getElem?_eq_getElem hlt, Option.some.injEq] at hi
        simp [hi] at hs
      rw [hs, Option.toList_none, List.nil_append] at hl hnodup
      refine ⟨?_, hnodup, fun k' b _ => by rw [hl]⟩
      rw [← hl]
      exact h.eq_none.1 hk
    | some e =>
      obtain ⟨k', b⟩ := e
      obtain rfl := hown k' b (by rw [List.getElem?_eq_getElem hlt, Slot.entry_eq_some.1 hs])
      rw [hs, Option.toList_some, List.singleton_append] at hl hnodup
      rw [(List.perm_middle.map Prod.fst).nodup_iff, List.map_cons, List.nodup_cons] at hnodup
      refine ⟨hnodup.1, hnodup.2, fun k'' c hk => ?_⟩
      rw [hl]
      simp [hk]
  obtain ⟨hk, hnodup, hother⟩ := hfresh
  refine ⟨hreach, ?_, fun k' b => ?_⟩
  · rw [keys, hset, (List.perm_middle.map Prod.fst).nodup_iff, List.map_cons, List.nodup_cons]
    exact ⟨hk, hnodup⟩
  · rw [hset]
    by_cases hkk : k' = k
    · rw [hkk, Function.update_self, Option.some.injEq]
      have hnot : ∀ c, (k, c) ∉ l₁ ++ l₂ := fun c hm => hk (List.mem_map.2 ⟨_, hm, rfl⟩)
      have hcons : (k, b) ∈ l₁ ++ (k, a) :: l₂ ↔ b = a ∨ (k, b) ∈ l₁ ++ l₂ := by
        simp only [List.mem_append, List.mem_cons, Prod.mk.injEq, true_and]
        tauto
      rw [hcons]
      simp [hnot, eq_comm]
    · rw [Function.update_of_ne hkk, h.holds, hother k' b hkk]
      simp [hkk]

/-- Writing an item at the place of its key sets the key, if the key is not also further on. -/
theorem Represents.write (h : Represents path t f) (hi : place t k (path k) = some i)
    (hlt : i < t.length) (hclear : t[i]? = some .deleted → f k = none) (a : α) :
    Represents path (t.set i (.item k a)) (Function.update f k (some a)) := by
  obtain ⟨-, -, -, -, hown⟩ := split_of_place hi
  refine h.set hlt (h.reachable.write hi a) hown fun hfree => ?_
  have hti := List.getElem?_eq_getElem hlt
  rw [hti] at hclear hfree
  cases hs : t[i] with
  | empty => exact h.eq_none.2 (h.reachable.notMem_of_empty hi (by rw [hti, hs]))
  | deleted => exact hclear (by rw [hs])
  | item k' b => exact absurd (by rw [hs]) (hfree k' b)

theorem Represents.assign (h : Represents path t f) {b : α}
    (hi : t[i]? = some (.item k b)) (a : α) :
    Represents path (t.set i (.item k a)) (Function.update f k (some a)) := by
  refine h.set (List.getElem?_eq_some_iff.1 hi).1 (h.reachable.assign hi) ?_ ?_
  · intro k' c hc
    rw [hi, Option.some.injEq, Slot.item.injEq] at hc
    exact hc.1.symm
  · exact fun hfree => absurd hi (hfree k b)

omit [DecidableEq κ] in
/-- Written on a tombstone, an item comes in front of the key's old one, and erasing it again
uncovers that one. -/
theorem set_deleted_of_write (hi : t[i]? = some .deleted) (s : Slot κ α) :
    (t.set i s).set i .deleted = t := by
  obtain ⟨hlt, hi⟩ := List.getElem?_eq_some_iff.1 hi
  rw [List.set_set, ← hi, List.set_getElem_self]

end Represents

end Probe
