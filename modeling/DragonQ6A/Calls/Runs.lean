import DragonQ6A.Calls.Exec

/-!
# Executions in free surroundings

Surroundings that keep no state, answer every call as they like and never make one throw.  `Runs p
tr a` says that `p` can return `a` after the calls `tr`; the rules take a run of a compound program
apart.
-/

namespace Calls

variable {Op : Type} {Ret : Op → Type} {α β γ δ : Type}

/-- Any answer to any call. -/
def free (Ret : Op → Type) : System Ret Unit where
  answers _ _ _ _ := True
  fails _ _ := False
  env _ _ := False

/-- A call and its answer. -/
abbrev Call (Ret : Op → Type) : Type := Event Ret Unit

/-- `p` can return `a` after the calls `tr`. -/
def Runs (p : CallTree Ret α) (tr : List (Call Ret)) (a : α) : Prop :=
  Exec (free Ret) p () tr (some a) ()

variable {p : CallTree Ret α} {tr : List (Call Ret)} {a b : α}

theorem runs_pure : Runs (.pure b : CallTree Ret α) tr a ↔ tr = [] ∧ a = b := by
  simp [Runs, Exec]

theorem runs_bind {f : α → CallTree Ret β} {c : β} : Runs (p.bind f) tr c ↔
    ∃ a tr₁ tr₂, Runs p tr₁ a ∧ Runs (f a) tr₂ c ∧ tr = tr₁ ++ tr₂ := by
  unfold Runs
  rw [exec_bind]
  constructor
  · rintro (⟨a, w, tr₁, tr₂, h₁, h₂, htr⟩ | ⟨-, h⟩)
    · exact ⟨a, tr₁, tr₂, h₁, h₂, htr⟩
    · cases h
  · rintro ⟨a, tr₁, tr₂, h₁, h₂, htr⟩
    exact Or.inl ⟨a, (), tr₁, tr₂, h₁, h₂, htr⟩

theorem runs_request {o : Op} {r : Ret o} :
    Runs (CallTree.request o) tr r ↔ tr = [⟨o, r, (), ()⟩] := by
  constructor
  · rintro ⟨w, -, ⟨r', w', tr', -, rfl, rfl, hr, -⟩ | ⟨h, -⟩⟩
    · rw [Option.some.inj hr]
    · exact h.elim
  · rintro rfl
    exact ⟨(), .refl, Or.inl ⟨r, (), [], trivial, rfl, rfl, rfl, rfl⟩⟩

/-- A call first, then the rest of the program. -/
theorem runs_request_bind {o : Op} {f : Ret o → CallTree Ret β} {c : β} :
    Runs ((CallTree.request o).bind f) tr c ↔
      ∃ r tr', Runs (f r) tr' c ∧ tr = ⟨o, r, (), ()⟩ :: tr' := by
  rw [runs_bind]
  constructor
  · rintro ⟨r, tr₁, tr₂, h₁, h₂, rfl⟩
    rw [runs_request.1 h₁]
    exact ⟨r, tr₂, h₂, rfl⟩
  · rintro ⟨r, tr', h, rfl⟩
    exact ⟨r, [_], tr', runs_request.2 rfl, h, rfl⟩

/-- What a loop shows in its calls is what its rounds show, one after the other. -/
theorem Runs.filterMap_forM {l : List γ} {f : γ → CallTree Ret PUnit} {φ : Call Ret → Option δ}
    {g : γ → List δ} (hf : ∀ x ∈ l, ∀ tr u, Runs (f x) tr u → tr.filterMap φ = g x) {u : PUnit}
    (h : Runs (l.forM f) tr u) : tr.filterMap φ = l.flatMap g := by
  induction l generalizing tr with
  | nil =>
    rw [(runs_pure.1 h).1]
    rfl
  | cons x l ih =>
    obtain ⟨v, tr₁, tr₂, h₁, h₂, rfl⟩ := runs_bind.1 h
    rw [List.filterMap_append, hf x List.mem_cons_self tr₁ v h₁,
      ih (fun y hy => hf y (List.mem_cons_of_mem _ hy)) h₂, List.flatMap_cons]

/-- `p` run with fixed answers. -/
def play (answer : (o : Op) → Ret o) (p : CallTree Ret α) : List (Call Ret) × Option α :=
  ((run (fun _ o => some (answer o, ())) p ()).1, (run (fun _ o => some (answer o, ())) p ()).2.1)

theorem runs_play {answer : (o : Op) → Ret o} (h : (play answer p).2 = some a) :
    Runs p (play answer p).1 a := by
  have hexec := exec_run (M := free Ret) (A := fun _ o => some (answer o, ()))
    (fun w o => ⟨fun _ _ _ => trivial, fun h => by cases h⟩) p ()
  rw [show (run _ p ()).2.1 = some a from h] at hexec
  exact hexec

end Calls
