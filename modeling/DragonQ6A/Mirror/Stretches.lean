import Mathlib.Data.List.Chain
import Mathlib.Data.List.Nodup
import DragonQ6A.Mirror.Rounds

/-!
# One announcement for each stretch

When the rounds that fail make no change, the log of an element follows the snapshots of the other
rounds: the element is added where a stretch of snapshots that contain it begins, and removed at the
first snapshot after the stretch.  So its additions and removals alternate.
-/

namespace Mirror

open Change

variable {α : Type}

/-! ## Rounds that get through -/

/-- Each of the rounds makes the changes from the snapshot before it, the first one from `P`. -/
def Follows : Set α → List (Round α) → Prop
  | _, [] => True
  | P, r :: rs => Diff P r.snapshot r.changes ∧ Follows r.snapshot rs

/-- The last snapshot, or `P` if there is none. -/
def final (P : Set α) (rs : List (Round α)) : Set α := rs.getLast?.elim P Round.snapshot

@[simp] theorem final_nil (P : Set α) : final P [] = P := rfl

@[simp] theorem final_cons (P : Set α) (r : Round α) (rs : List (Round α)) :
    final P (r :: rs) = final r.snapshot rs := by
  unfold final
  rw [List.getLast?_cons]
  cases rs.getLast? <;> rfl

@[simp] theorem final_concat (P : Set α) (rs : List (Round α)) (r : Round α) :
    final P (rs ++ [r]) = r.snapshot := by
  simp [final]

theorem follows_append {P : Set α} {rs rs' : List (Round α)} :
    Follows P (rs ++ rs') ↔ Follows P rs ∧ Follows (final P rs) rs' := by
  induction rs generalizing P with
  | nil => simp [Follows]
  | cons r rs ih => simp [Follows, ih, and_assoc]

theorem log_cons (r : Round α) (rs : List (Round α)) : log (r :: rs) = r.changes ++ log rs := rfl

theorem mem_final {a : α} {rs : List (Round α)} (hne : rs ≠ []) (h : ∀ r ∈ rs, a ∈ r.snapshot)
    (P : Set α) : a ∈ final P rs := by
  unfold final
  rw [List.getLast?_eq_some_getLast hne]
  exact h _ (List.getLast_mem hne)

theorem not_mem_final {a : α} {rs : List (Round α)} (h : ∀ r ∈ rs.getLast?, a ∉ r.snapshot) :
    a ∉ final ∅ rs := by
  unfold final
  cases hlast : rs.getLast? with
  | none => exact fun h => h
  | some r => exact h r hlast

/-- The snapshot of the last round that got through, empty if there is none. -/
def latest (rs : List (Round α)) : Set α := final ∅ (rs.filter Round.done)

/-- The failed rounds make no change. -/
def Silent (rs : List (Round α)) : Prop := ∀ r ∈ rs, r.done = false → r.changes = []

theorem Silent.log_filter {rs : List (Round α)} (h : Silent rs) :
    log (rs.filter Round.done) = log rs := by
  induction rs with
  | nil => rfl
  | cons r rs ih =>
    obtain ⟨hr, hrs⟩ := List.forall_mem_cons.1 h
    cases hdone : r.done with
    | true => rw [List.filter_cons_of_pos hdone, log_cons, log_cons, ih hrs]
    | false =>
      rw [List.filter_cons_of_neg (by simp [hdone]), log_cons, ih hrs, hr hdone, List.nil_append]

/-- The rounds that get through follow each other as if there were no others. -/
theorem Rounds.follows {rs : List (Round α)} {P : Set α} (h : Rounds rs P) :
    Follows ∅ (rs.filter Round.done) ∧ latest rs = P := by
  unfold latest
  induction h with
  | nil => exact ⟨trivial, rfl⟩
  | done hr hd ih =>
    obtain ⟨hfollows, rfl⟩ := ih
    rw [List.filter_append, List.filter_singleton]
    exact ⟨follows_append.2 ⟨hfollows, hd, trivial⟩, final_concat _ _ _⟩
  | failed hr hd ih =>
    rw [List.filter_append, List.filter_singleton]
    simpa using ih

/-! ## The changes of one element -/

section Element

variable [DecidableEq α] (a : α)

/-- What is added or removed. -/
def Change.elem : Change α → α
  | add x => x
  | remove x => x

/-- The changes of `a`. -/
def changesOf (cs : List (Change α)) : List (Change α) := cs.filter fun c => c.elem = a

@[simp] theorem changesOf_nil : changesOf a [] = [] := rfl

@[simp] theorem changesOf_append (cs cs' : List (Change α)) :
    changesOf a (cs ++ cs') = changesOf a cs ++ changesOf a cs' :=
  List.filter_append cs cs'

theorem changesOf_map {f : α → Change α} (hf : ∀ x, (f x).elem = x) (l : List α) :
    changesOf a (l.map f) = List.replicate (l.count a) (f a) := by
  induction l with
  | nil => rfl
  | cons x l ih =>
    unfold changesOf at ih ⊢
    by_cases hx : x = a <;> simp [hf, hx, ih, List.replicate_succ]

theorem count_changesOf {c : Change α} (hc : c.elem = a) (cs : List (Change α)) :
    (changesOf a cs).count c = cs.count c :=
  List.count_filter (decide_eq_true hc)

/-- What a round can do to `a`. -/
theorem Diff.changesOf_cases {P D : Set α} {cs : List (Change α)} (h : Diff P D cs) :
    (a ∈ D ∧ a ∉ P ∧ changesOf a cs = [add a]) ∨ (a ∉ D ∧ a ∈ P ∧ changesOf a cs = [remove a]) ∨
      ((a ∈ D ↔ a ∈ P) ∧ changesOf a cs = []) := by
  obtain ⟨new, old, ⟨hnew, hnew_iff⟩, ⟨hold, hold_iff⟩, rfl⟩ := h
  rw [changesOf_append, changesOf_map a (fun _ => rfl), changesOf_map a (fun _ => rfl)]
  have hcount_new : a ∈ D ∧ a ∉ P → new.count a = 1 := fun h =>
    List.count_eq_one_of_mem hnew ((hnew_iff a).2 h)
  have hcount_old : a ∈ P ∧ a ∉ D → old.count a = 1 := fun h =>
    List.count_eq_one_of_mem hold ((hold_iff a).2 h)
  have hno_new : ¬ (a ∈ D ∧ a ∉ P) → new.count a = 0 := fun h =>
    List.count_eq_zero_of_not_mem (mt (hnew_iff a).1 h)
  have hno_old : ¬ (a ∈ P ∧ a ∉ D) → old.count a = 0 := fun h =>
    List.count_eq_zero_of_not_mem (mt (hold_iff a).1 h)
  by_cases hD : a ∈ D
  · by_cases hP : a ∈ P
    · rw [hno_new (by tauto), hno_old (by tauto)]
      simp [hD, hP]
    · rw [hcount_new ⟨hD, hP⟩, hno_old (by tauto)]
      simp [hD, hP]
  · by_cases hP : a ∈ P
    · rw [hno_new (by tauto), hcount_old ⟨hP, hD⟩]
      simp [hD, hP]
    · rw [hno_new (by tauto), hno_old (by tauto)]
      simp [hD, hP]

namespace Follows

variable {P : Set α} {rs : List (Round α)}

/-- The changes of `a` alternate; the first one depends on whether `a` is announced already. -/
theorem alternates (h : Follows P rs) : (changesOf a (log rs)).IsChain (· ≠ ·) ∧
    (a ∉ P → ∀ c ∈ (changesOf a (log rs)).head?, c = add a) ∧
    (a ∈ P → ∀ c ∈ (changesOf a (log rs)).head?, c = remove a) := by
  induction rs generalizing P with
  | nil => simp [log]
  | cons r rs ih =>
    obtain ⟨hdiff, hrest⟩ := h
    obtain ⟨hchain, hadd, hremove⟩ := ih hrest
    rw [log_cons, changesOf_append]
    rcases hdiff.changesOf_cases a with ⟨hD, hP, hcs⟩ | ⟨hD, hP, hcs⟩ | ⟨hsame, hcs⟩
    · rw [hcs]
      refine ⟨List.isChain_cons.2 ⟨fun c hc => ?_, hchain⟩, by simp, fun h => absurd h hP⟩
      rw [hremove hD c hc]
      simp
    · rw [hcs]
      refine ⟨List.isChain_cons.2 ⟨fun c hc => ?_, hchain⟩, fun h => absurd hP h, by simp⟩
      rw [hadd hD c hc]
      simp
    · rw [hcs, List.nil_append]
      exact ⟨hchain, fun h => hadd (mt hsame.1 h), fun h => hremove (hsame.2 h)⟩

open scoped Classical in
/-- Additions and removals balance up to whether `a` is announced. -/
theorem balance (h : Follows P rs) :
    (log rs).count (add a) + (if a ∈ P then 1 else 0) =
      (log rs).count (remove a) + if a ∈ final P rs then 1 else 0 := by
  induction rs generalizing P with
  | nil => rfl
  | cons r rs ih =>
    obtain ⟨hdiff, hrest⟩ := h
    have hrest := ih hrest
    rw [log_cons, List.count_append, List.count_append, final_cons,
      ← count_changesOf a (c := add a) rfl r.changes,
      ← count_changesOf a (c := remove a) rfl r.changes]
    rcases hdiff.changesOf_cases a with ⟨hD, hP, hcs⟩ | ⟨hD, hP, hcs⟩ | ⟨hsame, hcs⟩
    · rw [if_pos hD] at hrest
      rw [hcs, if_neg hP]
      simp
      omega
    · rw [if_neg hD] at hrest
      rw [hcs, if_pos hP]
      simp
      omega
    · rw [hcs]
      simp only [← hsame]
      simpa using hrest

/-- As long as `a` stays, nothing happens to it. -/
theorem changesOf_eq_nil (h : Follows P rs) (hP : a ∈ P) (hrs : ∀ r ∈ rs, a ∈ r.snapshot) :
    changesOf a (log rs) = [] := by
  induction rs generalizing P with
  | nil => rfl
  | cons r rs ih =>
    obtain ⟨hdiff, hrest⟩ := h
    obtain ⟨hr, hrs⟩ := List.forall_mem_cons.1 hrs
    rw [log_cons, changesOf_append, ih hrest hr hrs]
    rcases hdiff.changesOf_cases a with ⟨-, hnot, -⟩ | ⟨hnot, -, -⟩ | ⟨-, hcs⟩
    · exact absurd hP hnot
    · exact absurd hr hnot
    · rw [hcs]
      rfl

end Follows

/-! ## Stretches -/

/-- `mid` is a stretch of snapshots that contain `a`, and cannot be extended. -/
structure Stretch (pre mid post : List (Round α)) : Prop where
  ne_nil : mid ≠ []
  mem : ∀ r ∈ mid, a ∈ r.snapshot
  before : ∀ r ∈ pre.getLast?, a ∉ r.snapshot
  after : ∀ r ∈ post.head?, a ∉ r.snapshot

/-- Among the rounds that got through, `a` is added once for each stretch that contains it, and
removed once right after the stretch. -/
structure OncePerStretch (rs : List (Round α)) : Prop where
  alternates : (changesOf a (log rs)).IsChain (· ≠ ·)
  starts : ∀ c ∈ (changesOf a (log rs)).head?, c = add a
  failed : ∀ r ∈ rs, r.done = false → changesOf a r.changes = []
  added : ∀ pre mid post, rs.filter Round.done = pre ++ (mid ++ post) →
    Stretch a pre mid post → changesOf a (log mid) = [add a]
  removed : ∀ pre mid r post, rs.filter Round.done = pre ++ (mid ++ r :: post) →
    Stretch a pre mid (r :: post) → changesOf a r.changes = [remove a]
  added_iff : ∀ pre r post, rs.filter Round.done = pre ++ r :: post →
    (add a ∈ r.changes ↔ a ∈ r.snapshot ∧ a ∉ final ∅ pre)
  removed_iff : ∀ pre r post, rs.filter Round.done = pre ++ r :: post →
    (remove a ∈ r.changes ↔ a ∈ final ∅ pre ∧ a ∉ r.snapshot)
  balance_mem : a ∈ latest rs → (log rs).count (add a) = (log rs).count (remove a) + 1
  balance_not_mem : a ∉ latest rs → (log rs).count (add a) = (log rs).count (remove a)

section Stretch

variable {a} {pre mid post : List (Round α)} {r : Round α}

theorem Stretch.added (hs : Stretch a pre mid post) (h : Follows ∅ (pre ++ (mid ++ post))) :
    changesOf a (log mid) = [add a] := by
  have hmid := (follows_append.1 (follows_append.1 h).2).1
  have hbefore := not_mem_final hs.before
  cases mid with
  | nil => exact absurd rfl hs.ne_nil
  | cons first rest =>
    obtain ⟨hdiff, hrest⟩ := hmid
    obtain ⟨hfirst, hmem⟩ := List.forall_mem_cons.1 hs.mem
    rw [log_cons, changesOf_append, hrest.changesOf_eq_nil a hfirst hmem, List.append_nil]
    rcases hdiff.changesOf_cases a with ⟨-, -, hcs⟩ | ⟨hnot, -, -⟩ | ⟨hsame, -⟩
    · exact hcs
    · exact absurd hfirst hnot
    · exact absurd (hsame.1 hfirst) hbefore

theorem Stretch.removed (hs : Stretch a pre mid (r :: post))
    (h : Follows ∅ (pre ++ (mid ++ r :: post))) : changesOf a r.changes = [remove a] := by
  obtain ⟨hdiff, -⟩ := (follows_append.1 (follows_append.1 h).2).2
  have hmid := mem_final hs.ne_nil hs.mem (final ∅ pre)
  have hafter := hs.after r rfl
  rcases hdiff.changesOf_cases a with ⟨hr, -, -⟩ | ⟨-, -, hcs⟩ | ⟨hsame, -⟩
  · exact absurd hr hafter
  · exact hcs
  · exact absurd (hsame.2 hmid) hafter

end Stretch

/-- As long as failed rounds change nothing, every element is announced once per stretch. -/
theorem Rounds.oncePerStretch {rs : List (Round α)} {P : Set α} (h : Rounds rs P)
    (hs : Silent rs) : OncePerStretch a rs := by
  obtain ⟨hfollows, -⟩ := h.follows
  have hlog := hs.log_filter
  have halternates := hfollows.alternates a
  have hbalance := hfollows.balance a
  rw [hlog] at halternates hbalance
  rw [if_neg (Set.notMem_empty a), ← latest] at hbalance
  have hdiff : ∀ {pre r post}, rs.filter Round.done = pre ++ r :: post →
      Diff (final ∅ pre) r.snapshot r.changes := fun heq => by
    rw [heq] at hfollows
    exact (follows_append.1 hfollows).2.1
  exact
    { alternates := halternates.1
      starts := halternates.2.1 (Set.notMem_empty a)
      failed := fun r hr hdone => by rw [hs r hr hdone, changesOf_nil]
      added := fun pre mid post heq hstretch => hstretch.added (heq ▸ hfollows)
      removed := fun pre mid r post heq hstretch => hstretch.removed (heq ▸ hfollows)
      added_iff := fun pre r post heq => (hdiff heq).add_mem_iff
      removed_iff := fun pre r post heq => (hdiff heq).remove_mem_iff
      balance_mem := fun hmem => by
        rw [if_pos hmem] at hbalance
        exact hbalance
      balance_not_mem := fun hmem => by
        rw [if_neg hmem] at hbalance
        exact hbalance }

end Element

end Mirror
