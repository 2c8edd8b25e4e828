import Mathlib.Data.Set.Card
import DragonQ6A.Mirror.Rounds
import DragonQ6A.Qrtr.Map

/-!
# The hash map as a finite map

`map_put` takes the first tombstone on the path of a key without looking whether the key stands
further on.  A run of insertions and removals is a run of a finite map if and only if none of its
insertions does that to a key that is there (`Buried`).  In every run, whatever it does, an
insertion either fails and leaves the map alone or is what the next lookup of its key finds.
-/

open Probe

namespace DragonQ6A.Qrtr.RawMap

variable {α : Type}

/-- The map holds the finite map `f`, every key in one slot. -/
def Is (m : RawMap α) (f : UInt32 → Option α) : Prop := Represents (path m.size) m.data f

/-- The key is in the map, behind a tombstone. -/
def Buried (m : RawMap α) (key : UInt32) : Prop :=
  ∃ i, m.slotFor key = some i ∧ m.data[i]? = some .deleted ∧ key ∈ keys m.data

instance [DecidableEq α] (m : RawMap α) (key : UInt32) : Decidable (m.Buried key) :=
  decidable_of_iff
    ((m.slotFor key).bind (fun i => m.data[i]?) = some .deleted ∧ key ∈ keys m.data) (by
      simp only [Buried, Option.bind_eq_some_iff]
      tauto)

theorem is_create : (create : RawMap α).Is fun _ => none := represents_replicate_empty (path 0) 0

theorem is_blank (n : ℕ) : (blank n : RawMap α).Is fun _ => none := by
  unfold Is
  rw [size_blank]
  exact represents_replicate_empty (path n) n

section Is

variable {m : RawMap α} {f : UInt32 → Option α}

theorem Is.get_eq (h : m.Is f) (key : UInt32) : m.get key = f key := by
  rw [RawMap.get_eq]
  exact h.find_eq key

theorem Is.contains_eq (h : m.Is f) (key : UInt32) : m.contains key = (f key).isSome := by
  rw [← h.get_eq, contains, RawMap.get, find_eq]
  cases hs : search m.data key (path m.size key) with
  | none => rfl
  | some i =>
    obtain ⟨a, ha⟩ := getElem?_of_search hs
    simp [ha]

theorem Is.mem_entries (h : m.Is f) {key : UInt32} {a : α} :
    (key, a) ∈ m.entries ↔ f key = some a :=
  (h.holds key a).symm

theorem Is.remove (h : m.Is f) (key : UInt32) :
    (m.remove key).1 = (if (f key).isSome then 0 else 1) ∧
      (m.remove key).2.Is (Function.update f key none) := by
  unfold RawMap.remove
  rw [find_eq]
  have hnone : search m.data key (path m.size key) = none ↔ f key = none := h.search_eq_none
  cases hs : search m.data key (path m.size key) with
  | none =>
    rw [hnone.1 hs]
    refine ⟨rfl, ?_⟩
    rw [← hnone.1 hs, Function.update_eq_self]
    exact h
  | some e =>
    have hf : f key ≠ none := fun hf => by simp [hnone.2 hf] at hs
    refine ⟨by simp [Option.isSome_iff_ne_none, hf], ?_⟩
    have hsize : size ⟨m.count - 1, m.data.set e (.deleted : Slot UInt32 α)⟩ = m.size :=
      List.length_set
    unfold Is
    rw [hsize]
    exact h.erase hs

theorem Is.insert (h : m.Is f) {key : UInt32} (hb : ¬ m.Buried key) (value : α)
    (hs : m.slotFor key ≠ none) (hn : 0 < m.size) :
    m.replaced key = f key ∧ (m.insert key value).Is (Function.update f key (some value)) := by
  obtain ⟨i, hi⟩ := Option.ne_none_iff_exists'.1 hs
  have hlt : i < m.data.length := slotFor_lt hi hn
  have hclear : m.data[i]? = some .deleted → f key = none := fun hd =>
    h.eq_none.2 fun hk => hb ⟨i, hi, hd, hk⟩
  refine ⟨?_, ?_⟩
  · obtain ⟨-, -, -, -, hown⟩ := split_of_place hi
    simp only [RawMap.replaced, hi, Option.bind_some]
    cases hti : m.data[i] with
    | empty =>
      have hempty : m.data[i]? = some .empty := by rw [List.getElem?_eq_getElem hlt, hti]
      rw [hempty, h.eq_none.2 (h.reachable.notMem_of_empty hi hempty)]
      rfl
    | deleted =>
      have hdel : m.data[i]? = some .deleted := by rw [List.getElem?_eq_getElem hlt, hti]
      rw [hdel, hclear hdel]
      rfl
    | item k a =>
      have hitem : m.data[i]? = some (.item k a) := by rw [List.getElem?_eq_getElem hlt, hti]
      obtain rfl := hown k a hitem
      rw [hitem, (h.holds k a).2 (mem_live.2 ⟨i, hitem⟩)]
      rfl
  · have hsize : (m.write i key value).size = m.size := List.length_set
    unfold RawMap.insert Is
    rw [hi]
    dsimp only
    rw [hsize]
    exact Represents.write h hi hlt hclear value

theorem Is.assign (h : m.Is f) {key : UInt32} {b : α} (hb : f key = some b) (a : α) :
    (m.assign key a).Is (Function.update f key (some a)) := by
  unfold RawMap.assign
  rw [find_eq]
  have hsearch : search m.data key (path m.size key) ≠ none := fun hs => by
    rw [h.search_eq_none.1 hs] at hb
    cases hb
  obtain ⟨e, he⟩ := Option.ne_none_iff_exists'.1 hsearch
  obtain ⟨c, hc⟩ := getElem?_of_search he
  have hsize : size ⟨m.count, m.data.set e (.item key a)⟩ = m.size := List.length_set
  rw [he]
  unfold Is
  rw [hsize]
  exact Represents.assign h hc a

/-- Behind a tombstone the key gets a second slot, and the map is no finite map any more. -/
theorem not_is_insert {key : UInt32} (hb : m.Buried key) (value : α) (g : UInt32 → Option α) :
    ¬ (m.insert key value).Is g := by
  obtain ⟨i, hi, hdel, hk⟩ := hb
  intro h
  obtain ⟨l₁, l₂, hl, hset⟩ := live_set hdel (.item key value)
  have hnodup := h.nodup
  unfold RawMap.insert at hnodup
  rw [hi] at hnodup
  have hkeys : keys (m.write i key value).data = (l₁ ++ (key, value) :: l₂).map Prod.fst := by
    unfold keys
    exact congrArg _ hset
  have hperm := (@List.perm_middle _ (key, value) l₁ l₂).map Prod.fst
  rw [hkeys, hperm.nodup_iff, List.map_cons, List.nodup_cons] at hnodup
  rw [keys, hl] at hk
  exact hnodup.1 hk

end Is

/-! ## Rebuilding -/

/-- A map with an item in every slot has no tombstone. -/
theorem WF.not_buried_of_full {m : RawMap α} (h : m.WF) (hc : ¬ m.count < m.size) (key : UInt32) :
    ¬ m.Buried key := by
  rintro ⟨i, -, hdel, -⟩
  have hfull : m.entries.length = m.data.length := by
    rw [← h.count_eq]
    exact le_antisymm h.count_le (not_lt.1 hc)
  obtain ⟨k, a, hk⟩ := length_live_eq_iff.1 hfull _ (List.mem_of_getElem? hdel)
  cases hk

/-- A key that is buried is put without rebuilding. -/
theorem WF.reput_of_buried {m : RawMap α} (h : m.WF) {key : UInt32} (hb : m.Buried key)
    (calloc : ℕ → Bool) (fuel : ℕ) (value : α) : reput calloc (fuel + 2) m key value =
      some (0, m.replaced key, m.insert key value) := by
  have hc : m.count < m.size := by
    by_contra hc
    exact h.not_buried_of_full hc key hb
  rw [reput_eq h calloc fuel key value, if_pos hc]

theorem notMem_deleted_insert {m : RawMap α} (h : Slot.deleted ∉ m.data) (key : UInt32)
    (value : α) : Slot.deleted ∉ (m.insert key value).data := by
  unfold insert
  split
  · intro hmem
    rcases List.mem_or_eq_of_mem_set hmem with hmem | hmem
    · exact h hmem
    · cases hmem
  · exact h

/-- The tombstones are gone from a map that was rebuilt. -/
theorem not_buried_rebuilt (m : RawMap α) (key : UInt32) : ¬ m.rebuilt.Buried key := by
  have hall : ∀ (l : List (UInt32 × α)) (m : RawMap α), Slot.deleted ∉ m.data →
      Slot.deleted ∉ (l.foldl (fun m e => m.insert e.1 e.2) m).data := by
    intro l
    induction l with
    | nil => exact fun m h => h
    | cons e l ih => exact fun m h => ih _ (notMem_deleted_insert h e.1 e.2)
  rintro ⟨i, -, hdel, -⟩
  refine hall m.entries (blank (m.size + 256)) ?_ (List.mem_of_getElem? hdel)
  intro hmem
  cases List.eq_of_mem_replicate hmem

/-- A finite map is rebuilt as the same one. -/
theorem Is.rebuilt {m : RawMap α} {f : UInt32 → Option α} (h : m.Is f) : m.rebuilt.Is f := by
  have hall : ∀ (todo done : List (UInt32 × α)) (m' : RawMap α) (g : UInt32 → Option α),
      ((done ++ todo).map Prod.fst).Nodup → m'.WF → m'.Is g →
      (∀ k a, g k = some a ↔ (k, a) ∈ done) → m'.count + todo.length < m'.size →
      ∃ g', (todo.foldl (fun m e => m.insert e.1 e.2) m').Is g' ∧
        ∀ k a, g' k = some a ↔ (k, a) ∈ done ++ todo := by
    intro todo
    induction todo with
    | nil => exact fun done m' g _ _ hg hdone _ => ⟨g, hg, by simpa using hdone⟩
    | cons e todo ih =>
      intro done m' g hnodup hwf hg hdone hroom
      obtain ⟨k, a⟩ := e
      rw [List.length_cons] at hroom
      have hnew : g k = none := by
        rw [Option.eq_none_iff_forall_ne_some]
        intro b hb
        rw [List.map_append, List.map_cons, List.nodup_append] at hnodup
        exact hnodup.2.2 k (List.mem_map.2 ⟨_, (hdone k b).1 hb, rfl⟩) k List.mem_cons_self rfl
      have hb : ¬ m'.Buried k := by
        rintro ⟨i, -, -, hk⟩
        exact hg.eq_none.1 hnew hk
      have hins := (hg.insert hb a (hwf.slotFor_ne_none (by omega) k) (by omega)).2
      have hcount := m'.count_insert_le k a
      have hsize := m'.size_insert k a
      have hstep := ih (done ++ [(k, a)]) (m'.insert k a) _ (by simpa using hnodup)
        (hwf.insert k a) hins ?_ (by omega)
      · simpa using hstep
      · intro k' b
        by_cases hk : k' = k
        · have hnot : ∀ c, (k, c) ∉ done := fun c hc => by simp [(hdone k c).2 hc] at hnew
          rw [hk, Function.update_self]
          simp [hnot, eq_comm]
        · rw [Function.update_of_ne hk, hdone]
          simp [hk]
  have hle : m.entries.length ≤ m.size := length_live_le m.data
  have hblank : (blank (m.size + 256) : RawMap α).count = 0 := rfl
  have hsize : (blank (m.size + 256) : RawMap α).size = m.size + 256 := size_blank _
  obtain ⟨g, hg, hgf⟩ := hall m.entries [] (blank (m.size + 256)) (fun _ => none) h.nodup
    (wf_blank _) (is_blank _) (by simp) (by omega)
  have hfg : g = f := by
    funext k
    refine Option.ext fun a => ?_
    rw [hgf k a, h.holds k a]
    rfl
  rw [← hfg]
  exact hg

/-- An insertion of a key that is not buried: it is the finite map's, or fails. -/
theorem Is.reput {m : RawMap α} {f : UInt32 → Option α} (h : m.Is f) (hwf : m.WF) {key : UInt32}
    (hb : ¬ m.Buried key) {calloc : ℕ → Bool} {value : α} {rc : Int} {old : Option α}
    {m' : RawMap α} (hput : m.reput calloc 2 key value = some (rc, old, m')) :
    (rc = 0 ∧ old = f key ∧ m'.Is (Function.update f key (some value))) ∨
      (rc = -1 ∧ old = none ∧ m' = m) := by
  rw [reput_eq hwf calloc 0 key value, Option.some.injEq] at hput
  split_ifs at hput with hc hm
  · cases hput
    exact Or.inl ⟨rfl, h.insert hb value (hwf.slotFor_ne_none hc key) (by omega)⟩
  · cases hput
    have hlt := m.count_rebuilt_lt
    exact Or.inl ⟨rfl, h.rebuilt.insert (m.not_buried_rebuilt key) value
      (m.wf_rebuilt.slotFor_ne_none hlt key) (by omega)⟩
  · cases hput
    exact Or.inr ⟨rfl, rfl, rfl⟩

/-! ## Runs -/

/-- An insertion, with what `calloc` answers in it, or a removal. -/
inductive Op (α : Type)
  | put (calloc : ℕ → Bool) (key : UInt32) (value : α)
  | remove (key : UInt32)

/-- The return value of an operation, `*old`, and the map. -/
def Op.apply (m : RawMap α) : Op α → Option (Int × Option α × RawMap α)
  | put calloc key value => m.reput calloc 2 key value
  | remove key => some ((m.remove key).1, none, (m.remove key).2)

/-- An operation, the map before it, and what it returned. -/
structure Event (α : Type) where
  op : Op α
  before : RawMap α
  rc : Int
  old : Option α

/-- The operations from `map_create` to the map `m`. -/
inductive Run : List (Event α) → RawMap α → Prop
  | create : Run [] create
  | step {tr : List (Event α)} {m m' : RawMap α} {op : Op α} {rc : Int} {old : Option α} :
      Run tr m → op.apply m = some (rc, old, m') → Run (tr ++ [⟨op, m, rc, old⟩]) m'

namespace Event

/-- The finite map after the operation. -/
def update (f : UInt32 → Option α) (e : Event α) : UInt32 → Option α :=
  match e.op with
  | .put _ key value => if e.rc = 0 then Function.update f key (some value) else f
  | .remove key => Function.update f key none

/-- The operation returned what it would on the finite map `f`. -/
def Answers (f : UInt32 → Option α) (e : Event α) : Prop :=
  match e.op with
  | .put _ key _ => (e.rc = 0 ∧ e.old = f key) ∨ (e.rc = -1 ∧ e.old = none)
  | .remove key => e.rc = if (f key).isSome then 0 else 1

/-- The operation does not put a key that is buried. -/
def Unburied (e : Event α) : Prop :=
  match e.op with
  | .put _ key _ => ¬ e.before.Buried key
  | .remove _ => True

instance [DecidableEq α] : (e : Event α) → Decidable e.Unburied
  | ⟨.put _ key _, before, _, _⟩ => inferInstanceAs (Decidable (¬ before.Buried key))
  | ⟨.remove _, _, _, _⟩ => inferInstanceAs (Decidable True)

end Event

/-- The finite map that a run makes. -/
def content (tr : List (Event α)) : UInt32 → Option α := tr.foldl Event.update fun _ => none

theorem content_concat (tr : List (Event α)) (e : Event α) :
    content (tr ++ [e]) = e.update (content tr) :=
  List.foldl_concat ..

theorem WF.apply {m m' : RawMap α} (h : m.WF) {op : Op α} {rc : Int} {old : Option α}
    (hop : op.apply m = some (rc, old, m')) : m'.WF := by
  cases op with
  | put calloc key value =>
    rw [Op.apply, reput_eq h calloc 0 key value, Option.some.injEq] at hop
    split_ifs at hop <;> cases hop
    · exact h.insert key value
    · exact m.wf_rebuilt.insert key value
    · exact h
  | remove key =>
    cases hop
    exact h.remove key

theorem Run.wf {tr : List (Event α)} {m : RawMap α} (h : Run tr m) : m.WF := by
  induction h with
  | create => exact wf_create
  | step _ hop ih => exact ih.apply hop

/-- One operation, on a map that is a finite map. -/
theorem Is.apply {m m' : RawMap α} {f : UInt32 → Option α} (h : m.Is f) (hwf : m.WF) {op : Op α}
    {rc : Int} {old : Option α} (hop : op.apply m = some (rc, old, m'))
    (hb : Event.Unburied ⟨op, m, rc, old⟩) :
    Event.Answers f ⟨op, m, rc, old⟩ ∧ m'.Is (Event.update f ⟨op, m, rc, old⟩) := by
  cases op with
  | put calloc key value =>
    rcases h.reput hwf hb hop with ⟨rfl, hold, his⟩ | ⟨rfl, rfl, rfl⟩
    · exact ⟨Or.inl ⟨rfl, hold⟩, his⟩
    · exact ⟨Or.inr ⟨rfl, rfl⟩, h⟩
  | remove key =>
    cases hop
    exact h.remove key

theorem Run.is_content {tr : List (Event α)} {m : RawMap α} (h : Run tr m)
    (hb : ∀ e ∈ tr, e.Unburied) : m.Is (content tr) ∧
      ∀ pre e post, tr = pre ++ e :: post → e.Answers (content pre) := by
  induction h with
  | create => exact ⟨is_create, by simp⟩
  | @step tr m m' op rc old hr hop ih =>
    rw [List.forall_mem_append, List.forall_mem_singleton] at hb
    obtain ⟨his, hans⟩ := ih hb.1
    obtain ⟨hans', his'⟩ := his.apply hr.wf hop hb.2
    rw [content_concat]
    exact ⟨his', Mirror.forall_split_concat.2 ⟨hans, hans'⟩⟩

theorem Is.length_eq {m : RawMap α} {f : UInt32 → Option α} (h : m.Is f) (hwf : m.WF) :
    m.length = {key | (f key).isSome}.ncard := by
  have hset : {key | (f key).isSome} = ((keys m.data).toFinset : Set UInt32) := by
    ext key
    rw [List.coe_toFinset, Set.mem_ofPred_eq, Set.mem_ofPred_eq, mem_keys, Option.isSome_iff_exists]
    exact exists_congr fun a => h.holds key a
  rw [hset, Set.ncard_coe_finset, List.toFinset_card_of_nodup h.nodup]
  unfold keys
  rw [List.length_map]
  exact hwf.count_eq

/-- As long as no key is put while it is buried, the map answers as a finite map does, and an
iteration gives the value of every key once. -/
theorem Run.finiteMap {tr : List (Event α)} {m : RawMap α} (h : Run tr m)
    (hb : ∀ e ∈ tr, e.Unburied) :
    (∀ pre e post, tr = pre ++ e :: post → e.Answers (content pre)) ∧
      (∀ key, m.get key = content tr key ∧ m.contains key = (content tr key).isSome) ∧
      m.length = {key | (content tr key).isSome}.ncard ∧
      ∃ ks : List UInt32, ks.Nodup ∧ (∀ key, key ∈ ks ↔ (content tr key).isSome) ∧
        m.forEach.map some = ks.map (content tr) := by
  obtain ⟨his, hans⟩ := h.is_content hb
  refine ⟨hans, fun key => ⟨his.get_eq key, his.contains_eq key⟩, his.length_eq h.wf,
    keys m.data, his.nodup, fun key => ?_, ?_⟩
  · rw [mem_keys, Option.isSome_iff_exists]
    exact exists_congr fun a => (his.holds key a).symm
  · rw [forEach_eq, keys, List.map_map, List.map_map]
    apply List.map_congr_left
    intro e he
    exact ((his.holds e.1 e.2).2 he).symm

/-! ## Keys behind a tombstone -/

/-- Every map of a run holds every key in one slot if and only if the run never puts a key while it
is buried. -/
theorem Run.all_is_iff {tr : List (Event α)} {m : RawMap α} (h : Run tr m) :
    ((∀ e ∈ tr, ∃ f, e.before.Is f) ∧ ∃ f, m.Is f) ↔ ∀ e ∈ tr, e.Unburied := by
  induction h with
  | create => simpa using ⟨_, is_create⟩
  | @step tr m m' op rc old hr hop ih =>
    rw [List.forall_mem_append, List.forall_mem_append, List.forall_mem_singleton,
      List.forall_mem_singleton, ← ih]
    constructor
    · rintro ⟨⟨hall, hm⟩, g, hg⟩
      refine ⟨⟨hall, hm⟩, ?_⟩
      cases op with
      | remove key => trivial
      | put calloc key value =>
        intro hb
        rw [Op.apply, hr.wf.reput_of_buried hb calloc 0, Option.some.injEq] at hop
        cases hop
        exact not_is_insert hb value g hg
    · rintro ⟨⟨hall, f, hf⟩, hb⟩
      exact ⟨⟨hall, f, hf⟩, _, (hf.apply hr.wf hop hb).2⟩

/-- A key that was put while it was buried stands further on again when it is removed. -/
theorem WF.get_remove_put_of_buried {m m' : RawMap α} (h : m.WF) {key : UInt32}
    (hb : m.Buried key) {calloc : ℕ → Bool} {value : α} {old : Option α}
    (hput : (Op.put calloc key value).apply m = some (0, old, m')) :
    (m'.remove key).2.get key = m.get key := by
  rw [Op.apply, h.reput_of_buried hb calloc 0, Option.some.injEq] at hput
  cases hput
  obtain ⟨i, hi, hdel, -⟩ := hb
  have hlt : i < m.data.length := (List.getElem?_eq_some_iff.1 hdel).1
  have hinsert : m.insert key value = m.write i key value := by
    unfold RawMap.insert
    rw [hi]
  have hsize : (m.write i key value).size = m.size := List.length_set
  have hfind : (m.write i key value).find key = some i := by
    rw [find_eq, hsize]
    exact search_write hi hlt value
  have hdata : ((m.write i key value).remove key).2.data = m.data := by
    unfold RawMap.remove
    rw [hfind]
    exact set_deleted_of_write hdel _
  rw [hinsert, get_eq, get_eq, size, hdata]
  rfl

/-- In a map that is a finite map, a key that was put and removed is gone if and only if it was not
buried.  If it was, the removal brings back what stood further on. -/
theorem Run.get_remove_put_iff {tr : List (Event α)} {m m' : RawMap α} (h : Run tr m)
    (hb : ∀ e ∈ tr, e.Unburied) {calloc : ℕ → Bool} {key : UInt32} {value : α} {old : Option α}
    (hput : (Op.put calloc key value).apply m = some (0, old, m')) :
    ((m'.remove key).2.get key = none ↔ ¬ m.Buried key) ∧
      (m.Buried key → (m'.remove key).2.get key = m.get key) := by
  obtain ⟨his, -⟩ := h.is_content hb
  have hback : m.Buried key → (m'.remove key).2.get key = m.get key := fun hbur =>
    h.wf.get_remove_put_of_buried hbur hput
  refine ⟨⟨?_, ?_⟩, hback⟩
  · intro hnone hbur
    rw [hback hbur, his.get_eq] at hnone
    obtain ⟨i, -, -, hk⟩ := hbur
    exact his.eq_none.1 hnone hk
  · intro hbur
    rcases his.reput h.wf hbur hput with ⟨-, -, his'⟩ | ⟨hrc, -, -⟩
    · rw [(his'.remove key).2.get_eq, Function.update_self]
    · cases hrc

/-- In any run an insertion ends.  It fails, with the map as it was, exactly when every slot holds
an item and there is no memory for a larger table; otherwise its key finds the new value, and, unless
the table was full and had to be rebuilt, all other keys find what they found before. -/
theorem Run.put_total {tr : List (Event α)} {m : RawMap α} (h : Run tr m) (calloc : ℕ → Bool)
    (key : UInt32) (value : α) : ∃ rc old m', (Op.put calloc key value).apply m = some (rc, old, m') ∧
      m.count = m.forEach.length ∧ m.count ≤ m.size ∧
      ((m.count = m.size ∧ calloc (m.size + 256) = false) ∧ rc = -1 ∧ m' = m ∨
        ¬(m.count = m.size ∧ calloc (m.size + 256) = false) ∧ rc = 0 ∧ m'.get key = some value ∧
          (m.count < m.size → m'.size = m.size ∧ ∀ k, k ≠ key → m'.get k = m.get k)) := by
  have hwf := h.wf
  have hcount : m.count = m.forEach.length := by
    rw [forEach_eq, List.length_map]
    exact hwf.count_eq
  have hget : ∀ m₁ : RawMap α, m₁.WF → m₁.count < m₁.size →
      (m₁.insert key value).get key = some value ∧
        ∀ k, k ≠ key → (m₁.insert key value).get k = m₁.get k := by
    intro m₁ hwf₁ hc
    obtain ⟨i, hi⟩ := Option.ne_none_iff_exists'.1 (hwf₁.slotFor_ne_none hc key)
    have hlt : i < m₁.data.length := slotFor_lt hi (by omega)
    have hinsert : (m₁.insert key value).data = m₁.data.set i (.item key value) := by
      unfold insert
      rw [hi]
      rfl
    have hfind : ∀ k, (m₁.insert key value).get k =
        Probe.find (path m₁.size) (m₁.data.set i (.item key value)) k := by
      intro k
      rw [get_eq, size_insert, hinsert]
    refine ⟨?_, fun k hk => ?_⟩
    · rw [hfind]
      exact find_write hi hlt value
    · rw [hfind, get_eq]
      exact hwf₁.reachable.find_write_of_ne hi hlt value hk
  have hop := reput_eq hwf calloc 0 key value
  by_cases hc : m.count < m.size
  · rw [if_pos hc] at hop
    obtain ⟨hself, hother⟩ := hget m hwf hc
    exact ⟨_, _, _, hop, hcount, hwf.count_le, Or.inr ⟨fun h => absurd h.1 (Nat.ne_of_lt hc),
      rfl, hself, fun _ => ⟨m.size_insert key value, hother⟩⟩⟩
  · rw [if_neg hc] at hop
    by_cases hm : calloc (m.size + 256) = true
    · rw [if_pos hm] at hop
      obtain ⟨hself, -⟩ := hget m.rebuilt m.wf_rebuilt m.count_rebuilt_lt
      exact ⟨_, _, _, hop, hcount, hwf.count_le, Or.inr ⟨fun h => by simp [h.2] at hm,
        rfl, hself, fun h => absurd h hc⟩⟩
    · rw [if_neg hm] at hop
      exact ⟨_, _, _, hop, hcount, hwf.count_le, Or.inl
        ⟨⟨le_antisymm hwf.count_le (not_lt.1 hc), by simpa using hm⟩, rfl, rfl⟩⟩

/-! ## A key behind a tombstone -/

/-- Two keys with the same slot, and the first removed. -/
def collided : RawMap ℕ := (create.rebuilt.insert 1 10).insert 257 20

def holed : RawMap ℕ := (collided.remove 1).2

def firstPut : Event ℕ := ⟨.put (fun _ => true) 1 10, create, 0, none⟩

def secondPut : Event ℕ :=
  ⟨.put (fun _ => false) 257 20, create.rebuilt.insert 1 10, 0, none⟩

def holedRun : List (Event ℕ) := [firstPut] ++ [secondPut] ++ [⟨.remove 1, collided, 0, none⟩]

theorem run_holed : Run holedRun holed := by
  have h₁ : Run [firstPut] (create.rebuilt.insert 1 10) := Run.step .create (by decide +kernel)
  have h₂ : Run ([firstPut] ++ [secondPut]) collided := Run.step h₁ (by decide +kernel)
  exact Run.step h₂ (by decide +kernel)

theorem unburied_holedRun : ∀ e ∈ holedRun, e.Unburied := by decide +kernel

theorem buried_holed : holed.Buried 257 := by decide +kernel

theorem finiteMap_holed : holed.get 257 = content holedRun 257 ∧ holed.get 1 = none := by
  obtain ⟨-, hget, -⟩ := run_holed.finiteMap unburied_holedRun
  refine ⟨(hget 257).1, (hget 1).1.trans ?_⟩
  rfl

theorem is_holed : ∃ f, holed.Is f := (run_holed.all_is_iff.2 unburied_holedRun).2

theorem get_holed : holed.get 257 = some 20 := by decide +kernel

theorem get_remove_put_holed :
    ((holed.insert 257 30).remove 257).2.get 257 = some 20 := by
  have hput : (Op.put (fun _ => false) 257 30).apply holed =
      some (0, none, holed.insert 257 30) := by decide +kernel
  rw [← get_holed]
  exact (run_holed.get_remove_put_iff unburied_holedRun hput).2 buried_holed

theorem room_holed : holed.count < holed.size := by decide +kernel

theorem put_total_holed : ∃ old m', (Op.put (fun _ => false) 257 30).apply holed =
    some (0, old, m') ∧ m'.get 257 = some 30 := by
  obtain ⟨rc, old, m', happly, -, -, hfail | hok⟩ := run_holed.put_total (fun _ => false) 257 30
  · exact absurd hfail.1.1 (Nat.ne_of_lt room_holed)
  · obtain ⟨-, hrc, hget, -⟩ := hok
    rw [hrc] at happly
    exact ⟨old, m', happly, hget⟩

end DragonQ6A.Qrtr.RawMap
