import DragonQ6A.Calls.Tree

/-!
# Executions of call trees

A `System` says how the surroundings of a program behave: which answer a call may get and what it
does to the world, when a call may throw, and which steps the environment takes on its own.
`Exec M p w tr res w'` is one execution of `p`: the environment may move before every call, a call
that throws takes no effect, and `tr` lists the calls that took effect.  `run` computes one
execution, with the choices made by a resolver.
-/

namespace Calls

open Relation

variable {Op : Type} {Ret : Op → Type} {W α β γ : Type}

/-- The surroundings of a program with world `W`. -/
structure System (Ret : Op → Type) (W : Type) where
  answers : W → (o : Op) → Ret o → W → Prop
  fails : W → Op → Prop
  env : W → W → Prop

/-- A call that took effect, with the world right before and right after it. -/
structure Event (Ret : Op → Type) (W : Type) where
  op : Op
  ret : Ret op
  before : W
  after : W

/-- One execution of a program: `res` is `none` when it ends with an exception. -/
def Exec (M : System Ret W) :
    CallTree Ret α → W → List (Event Ret W) → Option α → W → Prop
  | .pure a, w, tr, res, w' => tr = [] ∧ res = some a ∧ w' = w
  | .throw, w, tr, res, w' => tr = [] ∧ res = none ∧ w' = w
  | .call o k, w, tr, res, w' => ∃ w₁, ReflTransGen M.env w w₁ ∧
      ((∃ r w₂ tr', M.answers w₁ o r w₂ ∧ tr = ⟨o, r, w₁, w₂⟩ :: tr' ∧
          Exec M (k (some r)) w₂ tr' res w') ∨
        (M.fails w₁ o ∧ Exec M (k none) w₁ tr res w'))

variable {M : System Ret W} {w w' : W}

/-! ## Executions of compound programs -/

theorem exec_bind {p : CallTree Ret α} {f : α → CallTree Ret β} {tr : List (Event Ret W)}
    {res : Option β} : Exec M (p.bind f) w tr res w' ↔
      (∃ a w₁ tr₁ tr₂, Exec M p w tr₁ (some a) w₁ ∧ Exec M (f a) w₁ tr₂ res w' ∧
        tr = tr₁ ++ tr₂) ∨ (Exec M p w tr none w' ∧ res = none) := by
  induction p generalizing w tr with
  | pure a =>
    simp only [CallTree.pure_bind', Exec, reduceCtorEq, false_and, and_false, or_false]
    constructor
    · exact fun h => ⟨a, w, [], tr, ⟨rfl, rfl, rfl⟩, h, rfl⟩
    · rintro ⟨b, w₁, tr₁, tr₂, ⟨rfl, hb, rfl⟩, h, rfl⟩
      obtain rfl := Option.some.inj hb
      exact h
  | throw =>
    simp only [CallTree.throw_bind, Exec, reduceCtorEq, false_and, and_false, exists_false,
      false_or, true_and]
    exact ⟨fun ⟨ht, hr, hw⟩ => ⟨⟨ht, hw⟩, hr⟩, fun ⟨⟨ht, hw⟩, hr⟩ => ⟨ht, hr, hw⟩⟩
  | call o k ih =>
    constructor
    · rintro ⟨w₁, he, ⟨r, w₂, tr', ha, rfl, h⟩ | ⟨hf, h⟩⟩
      · rcases (ih _).1 h with ⟨a, w₃, tr₁, tr₂, h₁, h₂, rfl⟩ | ⟨h₁, rfl⟩
        · exact Or.inl ⟨a, w₃, _, tr₂, ⟨w₁, he, Or.inl ⟨r, w₂, tr₁, ha, rfl, h₁⟩⟩, h₂, rfl⟩
        · exact Or.inr ⟨⟨w₁, he, Or.inl ⟨r, w₂, tr', ha, rfl, h₁⟩⟩, rfl⟩
      · rcases (ih _).1 h with ⟨a, w₃, tr₁, tr₂, h₁, h₂, rfl⟩ | ⟨h₁, rfl⟩
        · exact Or.inl ⟨a, w₃, tr₁, tr₂, ⟨w₁, he, Or.inr ⟨hf, h₁⟩⟩, h₂, rfl⟩
        · exact Or.inr ⟨⟨w₁, he, Or.inr ⟨hf, h₁⟩⟩, rfl⟩
    · rintro (⟨a, w₃, tr₁, tr₂, ⟨w₁, he, ⟨r, w₂, tr', ha, rfl, h₁⟩ | ⟨hf, h₁⟩⟩, h₂, rfl⟩ |
        ⟨⟨w₁, he, ⟨r, w₂, tr', ha, rfl, h₁⟩ | ⟨hf, h₁⟩⟩, rfl⟩)
      · exact ⟨w₁, he, Or.inl ⟨r, w₂, _, ha, rfl, (ih _).2 (Or.inl ⟨a, w₃, tr', tr₂, h₁, h₂, rfl⟩)⟩⟩
      · exact ⟨w₁, he, Or.inr ⟨hf, (ih _).2 (Or.inl ⟨a, w₃, tr₁, tr₂, h₁, h₂, rfl⟩)⟩⟩
      · exact ⟨w₁, he, Or.inl ⟨r, w₂, tr', ha, rfl, (ih _).2 (Or.inr ⟨h₁, rfl⟩)⟩⟩
      · exact ⟨w₁, he, Or.inr ⟨hf, (ih _).2 (Or.inr ⟨h₁, rfl⟩)⟩⟩

theorem exec_tryCatch {p h : CallTree Ret α} {tr : List (Event Ret W)} {res : Option α} :
    Exec M (p.tryCatch h) w tr res w' ↔
      (∃ a, Exec M p w tr (some a) w' ∧ res = some a) ∨
      (∃ w₁ tr₁ tr₂, Exec M p w tr₁ none w₁ ∧ Exec M h w₁ tr₂ res w' ∧ tr = tr₁ ++ tr₂) := by
  induction p generalizing w tr with
  | pure a =>
    simp only [CallTree.tryCatch, Exec, reduceCtorEq, false_and, and_false, exists_false, or_false,
      Option.some.injEq]
    constructor
    · rintro ⟨rfl, rfl, rfl⟩
      exact ⟨a, ⟨rfl, rfl, rfl⟩, rfl⟩
    · rintro ⟨b, ⟨rfl, rfl, rfl⟩, rfl⟩
      exact ⟨rfl, rfl, rfl⟩
  | throw =>
    simp only [CallTree.tryCatch, Exec, reduceCtorEq, false_and, and_false, exists_false, false_or]
    constructor
    · exact fun hh => ⟨w, [], tr, ⟨rfl, trivial, rfl⟩, hh, rfl⟩
    · rintro ⟨w₁, tr₁, tr₂, ⟨rfl, -, rfl⟩, hh, rfl⟩
      exact hh
  | call o k ih =>
    constructor
    · rintro ⟨w₁, he, ⟨r, w₂, tr', ha, rfl, hk⟩ | ⟨hf, hk⟩⟩
      · rcases (ih _).1 hk with ⟨a, h₁, rfl⟩ | ⟨w₃, tr₁, tr₂, h₁, h₂, rfl⟩
        · exact Or.inl ⟨a, ⟨w₁, he, Or.inl ⟨r, w₂, tr', ha, rfl, h₁⟩⟩, rfl⟩
        · exact Or.inr ⟨w₃, _, tr₂, ⟨w₁, he, Or.inl ⟨r, w₂, tr₁, ha, rfl, h₁⟩⟩, h₂, rfl⟩
      · rcases (ih _).1 hk with ⟨a, h₁, rfl⟩ | ⟨w₃, tr₁, tr₂, h₁, h₂, rfl⟩
        · exact Or.inl ⟨a, ⟨w₁, he, Or.inr ⟨hf, h₁⟩⟩, rfl⟩
        · exact Or.inr ⟨w₃, tr₁, tr₂, ⟨w₁, he, Or.inr ⟨hf, h₁⟩⟩, h₂, rfl⟩
    · rintro (⟨a, ⟨w₁, he, ⟨r, w₂, tr', ha, rfl, h₁⟩ | ⟨hf, h₁⟩⟩, rfl⟩ |
        ⟨w₃, tr₁, tr₂, ⟨w₁, he, ⟨r, w₂, tr', ha, rfl, h₁⟩ | ⟨hf, h₁⟩⟩, h₂, rfl⟩)
      · exact ⟨w₁, he, Or.inl ⟨r, w₂, tr', ha, rfl, (ih _).2 (Or.inl ⟨a, h₁, rfl⟩)⟩⟩
      · exact ⟨w₁, he, Or.inr ⟨hf, (ih _).2 (Or.inl ⟨a, h₁, rfl⟩)⟩⟩
      · exact ⟨w₁, he, Or.inl ⟨r, w₂, _, ha, rfl, (ih _).2 (Or.inr ⟨w₃, tr', tr₂, h₁, h₂, rfl⟩)⟩⟩
      · exact ⟨w₁, he, Or.inr ⟨hf, (ih _).2 (Or.inr ⟨w₃, tr₁, tr₂, h₁, h₂, rfl⟩)⟩⟩

/-- The `finally` block runs whichever way the body ends, and the outcome of the body stands. -/
theorem exec_tryFinally {p : CallTree Ret α} {fin : CallTree Ret Unit}
    {tr : List (Event Ret W)} {res : Option α} :
    Exec M (p.tryFinally fin) w tr res w' ↔
      (∃ r₁ w₁ tr₁ tr₂, Exec M p w tr₁ r₁ w₁ ∧
        ((Exec M fin w₁ tr₂ (some ()) w' ∧ res = r₁) ∨ (Exec M fin w₁ tr₂ none w' ∧ res = none)) ∧
        tr = tr₁ ++ tr₂) := by
  have hfin : ∀ (w : W) (tr : List (Event Ret W)) (q : CallTree Ret α) (r : Option α),
      (∀ (w w' : W) (tr : List (Event Ret W)) (res : Option α),
        Exec M q w tr res w' ↔ tr = [] ∧ res = r ∧ w' = w) →
      (Exec M (fin.bind fun _ => q) w tr res w' ↔
        (Exec M fin w tr (some ()) w' ∧ res = r) ∨ (Exec M fin w tr none w' ∧ res = none)) := by
    intro w tr q r hq
    rw [exec_bind]
    refine or_congr_left ⟨?_, ?_⟩
    · rintro ⟨⟨⟩, w₁, tr₁, tr₂, h₁, h₂, rfl⟩
      obtain ⟨rfl, rfl, rfl⟩ := (hq _ _ _ _).1 h₂
      exact ⟨by simpa using h₁, rfl⟩
    · rintro ⟨h₁, rfl⟩
      exact ⟨(), w', tr, [], h₁, (hq _ _ _ _).2 ⟨rfl, rfl, rfl⟩, by simp⟩
  induction p generalizing w tr with
  | pure a =>
    rw [CallTree.tryFinally, hfin w tr _ (some a) fun _ _ _ _ => Iff.rfl]
    constructor
    · exact fun h => ⟨some a, w, [], tr, ⟨rfl, rfl, rfl⟩, h, rfl⟩
    · rintro ⟨r₁, w₁, tr₁, tr₂, ⟨rfl, rfl, rfl⟩, h, rfl⟩
      exact h
  | throw =>
    rw [CallTree.tryFinally, hfin w tr _ none fun _ _ _ _ => Iff.rfl]
    constructor
    · exact fun h => ⟨none, w, [], tr, ⟨rfl, rfl, rfl⟩, h, rfl⟩
    · rintro ⟨r₁, w₁, tr₁, tr₂, ⟨rfl, rfl, rfl⟩, h, rfl⟩
      exact h
  | call o k ih =>
    constructor
    · rintro ⟨w₁, he, ⟨r, w₂, tr', ha, rfl, hk⟩ | ⟨hf, hk⟩⟩
      · obtain ⟨r₁, w₃, tr₁, tr₂, h₁, h₂, rfl⟩ := (ih _).1 hk
        exact ⟨r₁, w₃, _, tr₂, ⟨w₁, he, Or.inl ⟨r, w₂, tr₁, ha, rfl, h₁⟩⟩, h₂, rfl⟩
      · obtain ⟨r₁, w₃, tr₁, tr₂, h₁, h₂, rfl⟩ := (ih _).1 hk
        exact ⟨r₁, w₃, tr₁, tr₂, ⟨w₁, he, Or.inr ⟨hf, h₁⟩⟩, h₂, rfl⟩
    · rintro ⟨r₁, w₃, tr₁, tr₂, ⟨w₁, he, ⟨r, w₂, tr', ha, rfl, h₁⟩ | ⟨hf, h₁⟩⟩, h₂, rfl⟩
      · exact ⟨w₁, he, Or.inl ⟨r, w₂, _, ha, rfl, (ih _).2 ⟨r₁, w₃, tr', tr₂, h₁, h₂, rfl⟩⟩⟩
      · exact ⟨w₁, he, Or.inr ⟨hf, (ih _).2 ⟨r₁, w₃, tr₁, tr₂, h₁, h₂, rfl⟩⟩⟩

/-! ## The trace of an execution -/

/-- What a step keeps is kept by any number of steps. -/
theorem keeps_steps {R : W → W → Prop} {I : W → Prop} (hR : ∀ w w', R w w' → I w → I w')
    (h : ReflTransGen R w w') (hw : I w) : I w' := by
  induction h with
  | refl => exact hw
  | tail _ hs ih => exact hR _ _ hs ih

/-- Every call that took effect is one of the program's, and got an answer the system allows. -/
theorem Exec.of_mem_trace {A : Op → Prop} {p : CallTree Ret α} (hp : p.AllCalls A)
    {tr : List (Event Ret W)} {res : Option α} (h : Exec M p w tr res w') :
    ∀ e ∈ tr, A e.op ∧ M.answers e.before e.op e.ret e.after := by
  induction p generalizing w tr with
  | pure a =>
    obtain ⟨rfl, -, -⟩ := h
    simp
  | throw =>
    obtain ⟨rfl, -, -⟩ := h
    simp
  | call o k ih =>
    obtain ⟨w₁, -, ⟨r, w₂, tr', ha, rfl, hk⟩ | ⟨-, hk⟩⟩ := h
    · intro e he
      rcases List.mem_cons.1 he with rfl | he
      · exact ⟨hp.1, ha⟩
      · exact ih _ (hp.2 _) hk e he
    · exact ih _ (hp.2 _) hk

/-- A safe program returns when none of its calls can throw. -/
theorem CallTree.Safe.not_exec_throw {A : Op → Prop} {p : CallTree Ret α} (h : p.Safe A)
    (hM : ∀ w o, A o → ¬ M.fails w o) {tr : List (Event Ret W)} : ¬ Exec M p w tr none w' := by
  obtain ⟨hp, ht⟩ := h
  induction p generalizing w tr with
  | pure a => exact fun h => by cases h.2.1
  | throw => exact ht.elim
  | call o k ih =>
    rintro ⟨w₁, -, ⟨r, w₂, tr', -, -, hk⟩ | ⟨hf, -⟩⟩
    · exact ih _ (hp.2 _) (ht r) hk
    · exact hM w₁ o hp.1 hf

/-- A view of the world that the environment leaves alone, and that every call updates by `g`, is at
the end the fold of `g` over the trace. -/
theorem Exec.foldl {σ : Type} {A : Op → Prop} {g : σ → Event Ret W → σ} {V : W → σ → Prop}
    {p : CallTree Ret α} (hp : p.AllCalls A) (henv : ∀ w w' s, M.env w w' → V w s → V w' s)
    (hcall : ∀ w o r w' s, A o → M.answers w o r w' → V w s → V w' (g s ⟨o, r, w, w'⟩))
    {tr : List (Event Ret W)} {res : Option α} (h : Exec M p w tr res w') {s : σ} (hs : V w s) :
    V w' (tr.foldl g s) := by
  have hstay : ∀ {w w' : W} {s : σ}, ReflTransGen M.env w w' → V w s → V w' s := fun he =>
    keeps_steps (fun w w' => henv w w' _) he
  induction p generalizing w tr s with
  | pure a =>
    obtain ⟨rfl, -, rfl⟩ := h
    exact hs
  | throw =>
    obtain ⟨rfl, -, rfl⟩ := h
    exact hs
  | call o k ih =>
    obtain ⟨w₁, he, ⟨r, w₂, tr', ha, rfl, hk⟩ | ⟨-, hk⟩⟩ := h
    · exact ih _ (hp.2 _) hk (hcall _ _ _ _ _ hp.1 ha (hstay he hs))
    · exact ih _ (hp.2 _) hk (hstay he hs)

/-- A system that allows more has every execution of one that allows less. -/
theorem Exec.mono {M' : System Ret W} (ha : ∀ w o r w', M.answers w o r w' → M'.answers w o r w')
    (hf : ∀ w o, M.fails w o → M'.fails w o) (he : ∀ w w', M.env w w' → M'.env w w')
    {p : CallTree Ret α} {tr : List (Event Ret W)} {res : Option α} (h : Exec M p w tr res w') :
    Exec M' p w tr res w' := by
  induction p generalizing w tr with
  | pure a => exact h
  | throw => exact h
  | call o k ih =>
    obtain ⟨w₁, henv, ⟨r, w₂, tr', hr, rfl, hk⟩ | ⟨hfail, hk⟩⟩ := h
    · exact ⟨w₁, ReflTransGen.mono he _ _ henv, Or.inl ⟨r, w₂, tr', ha _ _ _ _ hr, rfl, ih _ hk⟩⟩
    · exact ⟨w₁, ReflTransGen.mono he _ _ henv, Or.inr ⟨hf _ _ hfail, ih _ hk⟩⟩

/-! ## Computing an execution -/

/-- Run `p` with `A` choosing the answer to every call (`none`: the call throws). -/
def run (A : W → (o : Op) → Option (Ret o × W)) :
    CallTree Ret α → W → List (Event Ret W) × Option α × W
  | .pure a, w => ([], some a, w)
  | .throw, w => ([], none, w)
  | .call o k, w =>
    match A w o with
    | some (r, w₁) =>
      let out := run A (k (some r)) w₁
      (⟨o, r, w, w₁⟩ :: out.1, out.2)
    | none => run A (k none) w

/-- A resolver that only makes choices the system allows. -/
def Resolves (M : System Ret W) (A : W → (o : Op) → Option (Ret o × W)) : Prop :=
  ∀ w o, (∀ r w₁, A w o = some (r, w₁) → M.answers w o r w₁) ∧ (A w o = none → M.fails w o)

theorem exec_run {A : W → (o : Op) → Option (Ret o × W)} (hA : Resolves M A)
    (p : CallTree Ret α) (w : W) :
    Exec M p w (run A p w).1 (run A p w).2.1 (run A p w).2.2 := by
  induction p generalizing w with
  | pure a => exact ⟨rfl, rfl, rfl⟩
  | throw => exact ⟨rfl, rfl, rfl⟩
  | call o k ih =>
    refine ⟨w, .refl, ?_⟩
    rcases h : A w o with _ | ⟨r, w₁⟩
    · right
      simp only [run, h]
      exact ⟨(hA w o).2 h, ih none w⟩
    · left
      simp only [run, h]
      exact ⟨r, w₁, _, (hA w o).1 r w₁ h, rfl, ih (some r) w₁⟩

end Calls
