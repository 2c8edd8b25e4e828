import Mathlib.Data.Nat.Basic
import Mathlib.Tactic.Push
import DragonQ6A.Probe.Table

/-!
# The hash map

`map.c`.  The outcome of `calloc` is a function of the number of entries asked for.  `map_rehash`
and `map_reput` call each other; `map_rehash` takes the insertion as a parameter, `map_reput` has
fuel, and `reput_eq` says that two rounds are always enough: a map is rehashed only when every slot
holds an item, and the new table has room for all of them.  An item keeps the key it was put under,
and is never `NULL`.  `size`, `count` and the indices of slots, `unsigned` and `int` in the code, are
natural numbers: a table of 2^31 slots is out of memory's reach.
-/

open Probe

namespace DragonQ6A.Qrtr

/-- `struct map`; `size` is the length of `data`. -/
structure RawMap (α : Type) where
  count : ℕ
  data : List (Slot UInt32 α)
deriving DecidableEq

namespace RawMap

variable {α : Type}

def size (m : RawMap α) : ℕ := m.data.length

/-- The items, in the order of an iteration. -/
def entries (m : RawMap α) : List (UInt32 × α) := live m.data

/-! ## The functions of the map -/

/-- `map_create`. -/
def create : RawMap α := ⟨0, []⟩

/-- The loop of `map_hash`, with `n` rounds left. -/
def hashLoop (m : RawMap α) (key : UInt32) : ℕ → ℕ → Except Int ℕ × RawMap α
  | 0, _ => (.error (-2), m)
  | n + 1, idx =>
    match m.data[idx]? with
    | some (.item k _) =>
      if k = key then (.ok idx, m) else hashLoop m key n ((idx + 1) % m.size)
    | _ => (.ok idx, { m with count := m.count + 1 })

/-- `map_hash`. -/
def hash (m : RawMap α) (key : UInt32) : Except Int ℕ × RawMap α :=
  if m.count = m.size then (.error (-1), m)
  else hashLoop m key m.size (key.toNat % m.size)

/-- The loop of `map_rehash` over the old table; `put` is `map_put`. -/
def rehashLoop (put : RawMap α → UInt32 → α → Option (Int × RawMap α)) :
    List (Slot UInt32 α) → RawMap α → Option (Int × RawMap α)
  | [], m => some (0, m)
  | .item key value :: oldt, m =>
    match put m key value with
    | some (rc, m) => if rc < 0 then some (rc, m) else rehashLoop put oldt m
    | none => none
  | _ :: oldt, m => rehashLoop put oldt m

/-- `map_rehash`. -/
def rehash (put : RawMap α → UInt32 → α → Option (Int × RawMap α)) (calloc : ℕ → Bool)
    (m : RawMap α) : Option (Int × RawMap α) :=
  if calloc (m.size + 256) then
    rehashLoop put m.data ⟨0, List.replicate (m.size + 256) .empty⟩
  else some (-1, m)

/-- `map_reput`: the return value, `*old`, and the map; `none` when the fuel is out. -/
def reput (calloc : ℕ → Bool) :
    ℕ → RawMap α → UInt32 → α → Option (Int × Option α × RawMap α)
  | 0, _, _, _ => none
  | fuel + 1, m, key, value =>
    match hash m key with
    | (.ok rc, m) =>
      some (0, (m.data[rc]?.bind Slot.entry).map Prod.snd,
        { m with data := m.data.set rc (.item key value) })
    | (.error _, m) =>
      match rehash (fun m key value => (reput calloc fuel m key value).map fun r => (r.1, r.2.2))
          calloc m with
      | some (rc, m) => if rc < 0 then some (rc, none, m) else reput calloc fuel m key value
      | none => none

/-- The loop of `map_find`, with `n` rounds left. -/
def findLoop (m : RawMap α) (key : UInt32) : ℕ → ℕ → Option ℕ
  | 0, _ => none
  | n + 1, idx =>
    match m.data[idx]? with
    | some (.item k _) =>
      if k = key then some idx else findLoop m key n ((idx + 1) % m.size)
    | some .deleted => findLoop m key n ((idx + 1) % m.size)
    | _ => none

/-- `map_find`. -/
def find (m : RawMap α) (key : UInt32) : Option ℕ :=
  if m.size = 0 then none else findLoop m key m.size (key.toNat % m.size)

/-- `map_contains`. -/
def contains (m : RawMap α) (key : UInt32) : Bool := (m.find key).isSome

/-- `map_get`. -/
def get (m : RawMap α) (key : UInt32) : Option α :=
  (m.find key).bind fun e => (m.data[e]?.bind Slot.entry).map Prod.snd

/-- `map_remove`: 0 when the key was there. -/
def remove (m : RawMap α) (key : UInt32) : Int × RawMap α :=
  match m.find key with
  | some e => (0, ⟨m.count - 1, m.data.set e .deleted⟩)
  | none => (1, m)

/-- `map_length`. -/
def length (m : RawMap α) : ℕ := m.count

/-- The loop of `map_iter_from`, with `n` slots left. -/
def iterLoop (m : RawMap α) : ℕ → ℕ → Option ℕ
  | 0, _ => none
  | n + 1, i =>
    match m.data[i]? with
    | some (.item _ _) => some i
    | _ => iterLoop m n (i + 1)

/-- `map_iter_from`. -/
def iterFrom (m : RawMap α) (start : ℕ) : Option ℕ := m.iterLoop (m.size - start) start

/-- `map_iter_item`. -/
def iterItem (m : RawMap α) (iter : ℕ) : Option α := (m.data[iter]?.bind Slot.entry).map Prod.snd

/-- `map_clear`: the released items, and the map. -/
def clear (m : RawMap α) : List α × RawMap α :=
  (m.entries.map Prod.snd, ⟨0, List.replicate m.size .empty⟩)

/-! ## Well-formed maps -/

/-- The slots of a key in the order they are tried. -/
def path (n : ℕ) (key : UInt32) : List ℕ := walk n n (key.toNat % n)

theorem mem_path {n : ℕ} (hn : 0 < n) (key : UInt32) {i : ℕ} : i ∈ path n key ↔ i < n :=
  mem_walk (Nat.mod_lt _ hn)

/-- `count` counts the items, and every item can be found. -/
structure WF (m : RawMap α) : Prop where
  count_eq : m.count = m.entries.length
  reachable : Reachable (path m.size) m.data

theorem wf_create : (create : RawMap α).WF := ⟨rfl, fun i k a h => by cases h⟩

/-- The map with `size` slots and nothing in it. -/
def blank (size : ℕ) : RawMap α := ⟨0, List.replicate size .empty⟩

theorem wf_blank (n : ℕ) : (blank n : RawMap α).WF := by
  refine ⟨?_, ?_⟩
  · simp [blank, entries, live_replicate_empty]
  · exact reachable_replicate_empty _ n

@[simp] theorem size_blank (n : ℕ) : (blank n : RawMap α).size = n := List.length_replicate

theorem WF.count_le {m : RawMap α} (h : m.WF) : m.count ≤ m.size := by
  rw [h.count_eq]
  exact length_live_le m.data

theorem findLoop_eq (m : RawMap α) (key : UInt32) (n idx : ℕ) :
    m.findLoop key n idx = search m.data key (walk m.size n idx) := by
  induction n generalizing idx with
  | zero => rfl
  | succ n ih =>
    rw [findLoop, walk, search]
    cases m.data[idx]? with
    | none => rfl
    | some s =>
      cases s with
      | empty => rfl
      | deleted => exact ih _
      | item k a => simp only [ih]

theorem find_eq (m : RawMap α) (key : UInt32) :
    m.find key = search m.data key (path m.size key) := by
  unfold find
  split_ifs with h
  · rw [path, h]
    rfl
  · exact m.findLoop_eq key m.size _

theorem get_eq (m : RawMap α) (key : UInt32) :
    m.get key = Probe.find (path m.size) m.data key := by
  unfold get Probe.find
  rw [find_eq]

/-- The slot an insertion of the key takes. -/
def slotFor (m : RawMap α) (key : UInt32) : Option ℕ := place m.data key (path m.size key)

/-- The map with `value` put under `key`, in the slot `i`. -/
def write (m : RawMap α) (i : ℕ) (key : UInt32) (value : α) : RawMap α where
  count := if (m.data[i]?.bind Slot.entry).isSome then m.count else m.count + 1
  data := m.data.set i (.item key value)

theorem hashLoop_eq {m : RawMap α} {key : UInt32} {n idx i : ℕ}
    (h : place m.data key (walk m.size n idx) = some i) :
    m.hashLoop key n idx = (.ok i,
      { m with count := if (m.data[i]?.bind Slot.entry).isSome then m.count else m.count + 1 }) := by
  induction n generalizing idx with
  | zero => cases h
  | succ n ih =>
    rw [walk, place] at h
    rw [hashLoop]
    split at h
    · next k a hk =>
      rw [hk]
      dsimp only
      split at h
      · next hkey =>
        cases h
        simp [hk, hkey]
      · next hkey =>
        rw [if_neg hkey]
        exact ih h
    · next hk =>
      cases h
      have hentry : m.data[i]?.bind Slot.entry = none := by
        cases hs : m.data[i]? with
        | none => rfl
        | some s =>
          cases s with
          | item k a => exact absurd hs (hk k a)
          | empty => rfl
          | deleted => rfl
      rw [hentry]
      split
      · next k a hk' => exact absurd hk' (hk k a)
      · rfl

/-- A map with fewer items than slots has a slot for every key. -/
theorem WF.slotFor_ne_none {m : RawMap α} (h : m.WF) (hc : m.count < m.size) (key : UInt32) :
    m.slotFor key ≠ none := by
  have hn : 0 < m.size := by omega
  have hfree : ∃ i, i < m.size ∧ ∀ k a, m.data[i]? ≠ some (.item k a) := by
    by_contra hall
    push Not at hall
    refine Nat.ne_of_lt hc (h.count_eq.trans (length_live_eq_iff.2 fun s hs => ?_))
    obtain ⟨i, hi⟩ := List.mem_iff_getElem?.1 hs
    obtain ⟨k, a, hk⟩ := hall i (List.getElem?_eq_some_iff.1 hi).1
    exact ⟨k, a, Option.some.inj (hi.symm.trans hk)⟩
  obtain ⟨i, hi, hitem⟩ := hfree
  exact place_ne_none ((mem_path hn key).2 hi) hitem

theorem slotFor_lt {m : RawMap α} {key : UInt32} {i : ℕ} (h : m.slotFor key = some i)
    (hn : 0 < m.size) : i < m.size := by
  obtain ⟨pre, post, hpath, -⟩ := split_of_place h
  exact (mem_path hn key).1 (by rw [hpath]; simp)

theorem hash_eq {m : RawMap α} {key : UInt32} {i : ℕ} (hc : m.count < m.size)
    (hi : m.slotFor key = some i) : m.hash key = (.ok i,
      { m with count := if (m.data[i]?.bind Slot.entry).isSome then m.count else m.count + 1 }) := by
  rw [hash, if_neg (by omega)]
  exact hashLoop_eq hi

/-! ## Insertion -/

/-- `value` put under `key` in a map with a slot for it. -/
def insert (m : RawMap α) (key : UInt32) (value : α) : RawMap α :=
  match m.slotFor key with
  | some i => m.write i key value
  | none => m

/-- What an insertion replaces. -/
def replaced (m : RawMap α) (key : UInt32) : Option α :=
  (m.slotFor key).bind fun i => (m.data[i]?.bind Slot.entry).map Prod.snd

/-- The map `map_rehash` makes of `m`. -/
def rebuilt (m : RawMap α) : RawMap α :=
  m.entries.foldl (fun m e => m.insert e.1 e.2) (blank (m.size + 256))

@[simp] theorem size_insert (m : RawMap α) (key : UInt32) (value : α) :
    (m.insert key value).size = m.size := by
  unfold insert
  split
  · exact List.length_set
  · rfl

theorem WF.write {m : RawMap α} (h : m.WF) {key : UInt32} {i : ℕ} (hi : m.slotFor key = some i)
    (hlt : i < m.data.length) (value : α) : (m.write i key value).WF := by
  refine ⟨?_, ?_⟩
  · obtain ⟨l₁, l₂, hl, hset⟩ := live_set (List.getElem?_eq_getElem hlt) (.item key value)
    have hc : m.count = l₁.length + (m.data[i].entry.toList.length + l₂.length) := by
      rw [h.count_eq, entries, hl, List.length_append, List.length_append]
    have hwrite : (m.write i key value).entries = l₁ ++ (key, value) :: l₂ := hset
    rw [hwrite, RawMap.write, List.getElem?_eq_getElem hlt, List.length_append, List.length_cons]
    dsimp only [Option.bind_some]
    split_ifs with he
    · obtain ⟨e, he⟩ := Option.isSome_iff_exists.1 he
      rw [he, Option.toList_some, List.length_singleton] at hc
      omega
    · rw [Option.not_isSome_iff_eq_none.1 he, Option.toList_none, List.length_nil] at hc
      omega
  · have hsize : (m.write i key value).size = m.size := List.length_set
    rw [hsize]
    exact h.reachable.write hi value

theorem WF.insert {m : RawMap α} (h : m.WF) (key : UInt32) (value : α) :
    (m.insert key value).WF := by
  unfold RawMap.insert
  split
  · next i hi =>
    rcases Nat.eq_zero_or_pos m.size with hn | hn
    · rw [slotFor, hn] at hi
      cases hi
    · exact h.write hi (slotFor_lt hi hn) value
  · exact h

theorem count_insert_le (m : RawMap α) (key : UInt32) (value : α) :
    (m.insert key value).count ≤ m.count + 1 := by
  unfold RawMap.insert
  split
  · unfold RawMap.write
    dsimp only
    split <;> omega
  · omega

/-- An insertion into a map with room for it neither fails nor rehashes. -/
theorem reput_of_room {m : RawMap α} (h : m.WF) (hc : m.count < m.size) (calloc : ℕ → Bool)
    (fuel : ℕ) (key : UInt32) (value : α) :
    reput calloc (fuel + 1) m key value = some (0, m.replaced key, m.insert key value) := by
  obtain ⟨i, hi⟩ := Option.ne_none_iff_exists'.1 (h.slotFor_ne_none hc key)
  rw [reput, hash_eq hc hi]
  simp only [replaced, insert, hi, Option.bind_some]
  rfl

theorem rehashLoop_eq (calloc : ℕ → Bool) (fuel : ℕ) (oldt : List (Slot UInt32 α))
    {m : RawMap α} (h : m.WF) (hc : m.count + (live oldt).length ≤ m.size)
    (hroom : (live oldt).length < m.size) :
    rehashLoop (fun m key value => (reput calloc (fuel + 1) m key value).map fun r => (r.1, r.2.2))
        oldt m =
      some (0, (live oldt).foldl (fun m e => m.insert e.1 e.2) m) := by
  induction oldt generalizing m with
  | nil => rfl
  | cons s oldt ih =>
    cases s with
    | item key value =>
      have hl : live (.item key value :: oldt) = (key, value) :: live oldt := live_cons _ _
      rw [hl] at hc hroom ⊢
      rw [List.length_cons] at hc hroom
      have hput := reput_of_room h (by omega) calloc fuel key value
      rw [rehashLoop, hput]
      have hcount := m.count_insert_le key value
      have hsize := m.size_insert key value
      have hrest := ih (h.insert key value) (by omega) (by omega)
      exact hrest
    | empty => exact ih h hc hroom
    | deleted => exact ih h hc hroom

theorem rehash_eq {calloc : ℕ → Bool} (fuel : ℕ) (m : RawMap α) :
    rehash (fun m key value => (reput calloc (fuel + 1) m key value).map fun r => (r.1, r.2.2))
        calloc m =
      some (if calloc (m.size + 256) then (0, m.rebuilt) else (-1, m)) := by
  unfold rehash
  have hle : (live m.data).length ≤ m.size := length_live_le m.data
  have hblank : (blank (m.size + 256) : RawMap α).count = 0 := rfl
  split
  · have hsize : (blank (m.size + 256) : RawMap α).size = m.size + 256 := size_blank _
    have hloop := rehashLoop_eq calloc fuel m.data (wf_blank (m.size + 256)) (by omega) (by omega)
    exact hloop
  · rfl

theorem insertAll_spec (l : List (UInt32 × α)) {m : RawMap α} (h : m.WF) :
    (l.foldl (fun m e => m.insert e.1 e.2) m).WF ∧
      (l.foldl (fun m e => m.insert e.1 e.2) m).size = m.size ∧
      (l.foldl (fun m e => m.insert e.1 e.2) m).count ≤ m.count + l.length := by
  induction l generalizing m with
  | nil => exact ⟨h, rfl, le_rfl⟩
  | cons e l ih =>
    obtain ⟨hwf, hsize, hcount⟩ := ih (h.insert e.1 e.2)
    have hone := m.count_insert_le e.1 e.2
    rw [size_insert] at hsize
    rw [List.foldl_cons, List.length_cons]
    exact ⟨hwf, hsize, by omega⟩

theorem wf_rebuilt (m : RawMap α) : m.rebuilt.WF := (insertAll_spec m.entries (wf_blank _)).1

theorem size_rebuilt (m : RawMap α) : m.rebuilt.size = m.size + 256 := by
  rw [rebuilt, (insertAll_spec m.entries (wf_blank _)).2.1, size_blank]

theorem count_rebuilt_lt (m : RawMap α) : m.rebuilt.count < m.rebuilt.size := by
  have hcount := (insertAll_spec m.entries (wf_blank (m.size + 256))).2.2
  have hle : m.entries.length ≤ m.size := length_live_le m.data
  have hblank : (blank (m.size + 256) : RawMap α).count = 0 := rfl
  rw [hblank] at hcount
  rw [size_rebuilt]
  show (m.entries.foldl (fun m e => m.insert e.1 e.2) (blank (m.size + 256))).count < _
  omega

/-- The outcome of an insertion: it fails, with the map as it was, when the map is full and there
is no memory for a larger one; a full map is rebuilt first. -/
theorem reput_eq {m : RawMap α} (h : m.WF) (calloc : ℕ → Bool) (fuel : ℕ) (key : UInt32)
    (value : α) : reput calloc (fuel + 2) m key value =
      some (if m.count < m.size then (0, m.replaced key, m.insert key value)
        else if calloc (m.size + 256) then (0, m.rebuilt.replaced key, m.rebuilt.insert key value)
        else (-1, none, m)) := by
  by_cases hc : m.count < m.size
  · rw [if_pos hc]
    exact reput_of_room h hc calloc (fuel + 1) key value
  · rw [if_neg hc, reput, hash, if_pos (le_antisymm h.count_le (not_lt.1 hc))]
    dsimp only
    rw [rehash_eq]
    by_cases hm : calloc (m.size + 256) = true
    · simp only [if_pos hm]
      exact reput_of_room m.wf_rebuilt m.count_rebuilt_lt calloc fuel key value
    · simp only [if_neg hm]
      rfl

/-! ## Removal and iteration -/

theorem WF.remove {m : RawMap α} (h : m.WF) (key : UInt32) : (m.remove key).2.WF := by
  unfold RawMap.remove
  rw [find_eq]
  split
  · next e he =>
    obtain ⟨a, ha⟩ := getElem?_of_search he
    obtain ⟨l₁, l₂, hl, hset⟩ := live_set ha .deleted
    refine ⟨?_, ?_⟩
    · have hentries : entries ⟨m.count - 1, m.data.set e .deleted⟩ = l₁ ++ l₂ := hset
      rw [hentries, h.count_eq, entries, hl]
      simp only [Slot.entry_item, Option.toList_some, List.length_append, List.length_singleton]
      omega
    · have hsize : size ⟨m.count - 1, m.data.set e (.deleted : Slot UInt32 α)⟩ = m.size :=
        List.length_set
      rw [hsize]
      exact h.reachable.erase e
  · exact h

theorem iterFrom_of_item {m : RawMap α} {i : ℕ} {key : UInt32} {a : α}
    (h : m.data[i]? = some (.item key a)) : m.iterFrom i = some i := by
  have hi : i < m.size := (List.getElem?_eq_some_iff.1 h).1
  obtain ⟨n, hn⟩ : ∃ n, m.size - i = n + 1 := ⟨m.size - i - 1, by omega⟩
  rw [iterFrom, hn, iterLoop, h]

theorem iterFrom_of_entry_none {m : RawMap α} {i : ℕ} (hi : i < m.data.length)
    (h : m.data[i].entry = none) : m.iterFrom i = m.iterFrom (i + 1) := by
  have hsize : i < m.size := hi
  obtain ⟨n, hn⟩ : ∃ n, m.size - i = n + 1 := ⟨m.size - i - 1, by omega⟩
  have hn' : m.size - (i + 1) = n := by omega
  rw [iterFrom, iterFrom, hn, hn', iterLoop, List.getElem?_eq_getElem hi]
  generalize m.data[i] = s at h
  cases s with
  | item k a => cases h
  | empty => rfl
  | deleted => rfl

theorem iterFrom_of_le {m : RawMap α} {i : ℕ} (hi : m.size ≤ i) : m.iterFrom i = none := by
  rw [iterFrom, Nat.sub_eq_zero_of_le hi]
  rfl

/-- The items of a `map_for_each` from `iter` on, in at most `n` rounds. -/
def forEachFrom (m : RawMap α) : ℕ → Option ℕ → List α
  | n + 1, some iter => (m.iterItem iter).toList ++ forEachFrom m n (m.iterFrom (iter + 1))
  | _, _ => []

/-- The items of a `map_for_each`. -/
def forEach (m : RawMap α) : List α := m.forEachFrom m.size (m.iterFrom 0)

theorem forEachFrom_eq (m : RawMap α) (d : ℕ) {n i : ℕ} (hd : m.size - i = d) (hn : d ≤ n) :
    m.forEachFrom n (m.iterFrom i) = (live (m.data.drop i)).map Prod.snd := by
  induction d generalizing n i with
  | zero =>
    have hi : m.size ≤ i := by omega
    rw [iterFrom_of_le hi, List.drop_eq_nil_of_le hi]
    cases n <;> rfl
  | succ d ih =>
    have hi : i < m.size := by omega
    rw [List.drop_eq_getElem_cons hi, live_cons, List.map_append]
    cases hs : Slot.entry m.data[i] with
    | none =>
      rw [iterFrom_of_entry_none hi hs]
      exact ih (by omega) (by omega)
    | some e =>
      have hitem : m.data[i]? = some (.item e.1 e.2) := by
        rw [List.getElem?_eq_getElem hi, Slot.entry_eq_some.1 hs]
      obtain ⟨n, rfl⟩ : ∃ k, n = k + 1 := ⟨n - 1, by omega⟩
      rw [iterFrom_of_item hitem, forEachFrom, ih (by omega) (by omega), iterItem, hitem]
      rfl

/-- An iteration goes through the items in the order of their slots, each once. -/
theorem forEach_eq (m : RawMap α) : m.forEach = m.entries.map Prod.snd := by
  rw [forEach, m.forEachFrom_eq m.size (by omega) le_rfl]
  rfl

/-! ## What the operations do to the items -/

theorem mem_entries_insert {m : RawMap α} {key : UInt32} {value : α} {e : UInt32 × α}
    (h : e ∈ (m.insert key value).entries) : e = (key, value) ∨ e ∈ m.entries := by
  unfold insert at h
  split at h
  · next i hi =>
    rcases Nat.lt_or_ge i m.data.length with hlt | hge
    · obtain ⟨l₁, l₂, hl, hset⟩ := live_set (List.getElem?_eq_getElem hlt) (.item key value)
      have hwrite : (m.write i key value).entries = l₁ ++ (key, value) :: l₂ := hset
      rw [hwrite, List.mem_append, List.mem_cons] at h
      rw [entries, hl, List.mem_append, List.mem_append]
      tauto
    · have hwrite : (m.write i key value).entries = m.entries := by
        unfold entries write
        rw [List.set_eq_of_length_le hge]
      exact Or.inr (hwrite ▸ h)
  · exact Or.inr h

theorem mem_entries_rebuilt {m : RawMap α} {e : UInt32 × α} (h : e ∈ m.rebuilt.entries) :
    e ∈ m.entries := by
  have hall : ∀ (l : List (UInt32 × α)) (m' : RawMap α),
      e ∈ (l.foldl (fun m e => m.insert e.1 e.2) m').entries → e ∈ l ∨ e ∈ m'.entries := by
    intro l
    induction l with
    | nil => exact fun m' h => Or.inr h
    | cons e' l ih =>
      intro m' h
      rw [List.mem_cons]
      rcases ih _ h with h | h
      · exact Or.inl (Or.inr h)
      · rcases mem_entries_insert h with rfl | h
        · exact Or.inl (Or.inl rfl)
        · exact Or.inr h
  refine (hall m.entries _ h).resolve_right ?_
  simp [blank, entries, live_replicate_empty]

theorem mem_entries_remove {m : RawMap α} {key : UInt32} {e : UInt32 × α}
    (h : e ∈ (m.remove key).2.entries) : e ∈ m.entries := by
  unfold remove at h
  rw [find_eq] at h
  split at h
  · next i hi =>
    obtain ⟨a, ha⟩ := getElem?_of_search hi
    obtain ⟨l₁, l₂, hl, hset⟩ := live_set ha .deleted
    have hentries : entries ⟨m.count - 1, m.data.set i .deleted⟩ = l₁ ++ l₂ := hset
    rw [hentries, List.mem_append] at h
    rw [entries, hl, List.mem_append, List.mem_append]
    tauto
  · exact h

/-- An assignment through the pointer `map_get` returned. -/
def assign (m : RawMap α) (key : UInt32) (value : α) : RawMap α :=
  match m.find key with
  | some e => { m with data := m.data.set e (.item key value) }
  | none => m

end RawMap

/-! ## The maps of a program -/

/-- A well-formed map. -/
structure Map (α : Type) extends RawMap α where
  wf : toRawMap.WF

namespace Map

variable {α : Type}

def create : Map α := ⟨.create, RawMap.wf_create⟩

theorem wf_reput {m : Map α} {calloc : ℕ → Bool} {key : UInt32} {value : α} {rc : Int}
    {old : Option α} {m' : RawMap α}
    (h : m.toRawMap.reput calloc 2 key value = some (rc, old, m')) : m'.WF := by
  rw [RawMap.reput_eq m.wf calloc 0 key value, Option.some.injEq] at h
  split_ifs at h <;> cases h
  · exact m.wf.insert key value
  · exact m.wf_rebuilt.insert key value
  · exact m.wf

/-- `map_reput`; it never runs out of fuel. -/
def reput (m : Map α) (calloc : ℕ → Bool) (key : UInt32) (value : α) : Int × Option α × Map α :=
  match h : m.toRawMap.reput calloc 2 key value with
  | some (rc, old, m') => (rc, old, ⟨m', wf_reput h⟩)
  | none => (-1, none, m)

/-- `map_put`. -/
def put (m : Map α) (calloc : ℕ → Bool) (key : UInt32) (value : α) : Int × Map α :=
  ((m.reput calloc key value).1, (m.reput calloc key value).2.2)

/-- `map_remove`. -/
def remove (m : Map α) (key : UInt32) : Int × Map α :=
  ((m.toRawMap.remove key).1, ⟨(m.toRawMap.remove key).2, m.wf.remove key⟩)

theorem wf_assign (m : Map α) (key : UInt32) (value : α) : (m.toRawMap.assign key value).WF := by
  unfold RawMap.assign
  rw [RawMap.find_eq]
  split
  · next e he =>
    obtain ⟨a, ha⟩ := getElem?_of_search he
    obtain ⟨l₁, l₂, hl, hset⟩ := live_set ha (.item key value)
    have hsize : RawMap.size ⟨m.count, m.data.set e (.item key value)⟩ = m.size := List.length_set
    refine ⟨?_, ?_⟩
    · have hentries : RawMap.entries ⟨m.count, m.data.set e (.item key value)⟩ =
          l₁ ++ (key, value) :: l₂ := hset
      show m.count = _
      rw [hentries, m.wf.count_eq, RawMap.entries, hl]
      simp
    · rw [hsize]
      exact m.wf.reachable.assign ha
  · exact m.wf

def assign (m : Map α) (key : UInt32) (value : α) : Map α :=
  ⟨m.toRawMap.assign key value, m.wf_assign key value⟩

theorem reput_eq (m : Map α) (calloc : ℕ → Bool) (key : UInt32) (value : α) :
    m.toRawMap.reput calloc 2 key value = some ((m.reput calloc key value).1,
      (m.reput calloc key value).2.1, (m.reput calloc key value).2.2.toRawMap) := by
  unfold reput
  split
  · next rc old m' h => exact h
  · next h =>
    rw [RawMap.reput_eq m.wf calloc 0 key value] at h
    cases h

/-- An insertion that does not fail returns 0; one that fails leaves the map alone. -/
theorem reput_rc (m : Map α) (calloc : ℕ → Bool) (key : UInt32) (value : α) :
    (m.reput calloc key value).1 = 0 ∨
      ((m.reput calloc key value).1 = -1 ∧ (m.reput calloc key value).2.2 = m) := by
  have h := m.reput_eq calloc key value
  rw [RawMap.reput_eq m.wf calloc 0 key value, Option.some.injEq] at h
  split_ifs at h
  · exact Or.inl (Prod.mk.inj h).1.symm
  · exact Or.inl (Prod.mk.inj h).1.symm
  · obtain ⟨hrc, hrest⟩ := Prod.mk.inj h
    refine Or.inr ⟨hrc.symm, ?_⟩
    have hm := (Prod.mk.inj hrest).2
    cases hm' : (m.reput calloc key value).2.2 with
    | mk raw wf =>
      rw [hm'] at hm
      cases m
      cases hm
      rfl

theorem mem_entries_reput {m : Map α} {calloc : ℕ → Bool} {key : UInt32} {value : α}
    {e : UInt32 × α} (he : e ∈ (m.reput calloc key value).2.2.entries) :
    e = (key, value) ∨ e ∈ m.entries := by
  have h := m.reput_eq calloc key value
  rw [RawMap.reput_eq m.wf calloc 0 key value, Option.some.injEq] at h
  split_ifs at h <;> obtain ⟨-, hrest⟩ := Prod.mk.inj h <;>
    rw [← (Prod.mk.inj hrest).2] at he
  · exact RawMap.mem_entries_insert he
  · rcases RawMap.mem_entries_insert he with he | he
    · exact Or.inl he
    · exact Or.inr (RawMap.mem_entries_rebuilt he)
  · exact Or.inr he

end Map

end DragonQ6A.Qrtr
