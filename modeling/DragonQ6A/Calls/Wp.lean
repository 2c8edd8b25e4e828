import DragonQ6A.Calls.Exec

/-!
# Weakest preconditions of call trees

`Wp M p Q E w` says that every execution of `p` from `w` that returns ends in `Q` and every
execution that throws ends in `E`.  Both see the calls that took effect.  The rules below follow
the shape of the program; `wp_forM` is the invariant rule of a loop over a list.
-/

namespace Calls

open Relation

variable {Op : Type} {Ret : Op → Type} {W α β γ : Type} {M : System Ret W} {w : W}

/-- Every execution of `p` from `w` ends in `Q` when it returns and in `E` when it throws. -/
def Wp (M : System Ret W) (p : CallTree Ret α) (Q : List (Event Ret W) → α → W → Prop)
    (E : List (Event Ret W) → W → Prop) (w : W) : Prop :=
  ∀ tr w', (∀ a, Exec M p w tr (some a) w' → Q tr a w') ∧ (Exec M p w tr none w' → E tr w')

section Rules

variable {Q : List (Event Ret W) → α → W → Prop} {E : List (Event Ret W) → W → Prop}

theorem Wp.returns {p : CallTree Ret α} (h : Wp M p Q E w) {tr : List (Event Ret W)} {a : α}
    {w' : W} (hx : Exec M p w tr (some a) w') : Q tr a w' :=
  (h tr w').1 a hx

theorem Wp.throws {p : CallTree Ret α} (h : Wp M p Q E w) {tr : List (Event Ret W)} {w' : W}
    (hx : Exec M p w tr none w') : E tr w' :=
  (h tr w').2 hx

theorem Wp.mono {p : CallTree Ret α} {Q' : List (Event Ret W) → α → W → Prop}
    {E' : List (Event Ret W) → W → Prop} (h : Wp M p Q E w)
    (hQ : ∀ tr a w', Q tr a w' → Q' tr a w') (hE : ∀ tr w', E tr w' → E' tr w') :
    Wp M p Q' E' w :=
  fun tr w' => ⟨fun a hx => hQ tr a w' (h.returns hx), fun hx => hE tr w' (h.throws hx)⟩

@[simp] theorem wp_pure (a : α) : Wp M (.pure a) Q E w ↔ Q [] a w := by
  constructor
  · exact fun h => h.returns ⟨rfl, rfl, rfl⟩
  · rintro h tr w'
    refine ⟨?_, ?_⟩
    · rintro b ⟨rfl, hb, rfl⟩
      obtain rfl := Option.some.inj hb
      exact h
    · rintro ⟨-, hb, -⟩
      cases hb

@[simp] theorem wp_throw : Wp M (.throw : CallTree Ret α) Q E w ↔ E [] w := by
  constructor
  · exact fun h => h.throws ⟨rfl, rfl, rfl⟩
  · rintro h tr w'
    refine ⟨?_, ?_⟩
    · rintro b ⟨-, hb, -⟩
      cases hb
    · rintro ⟨rfl, -, rfl⟩
      exact h

theorem wp_call {o : Op} {k : Option (Ret o) → CallTree Ret α} :
    Wp M (.call o k) Q E w ↔ ∀ w₁, ReflTransGen M.env w w₁ →
      (∀ r w₂, M.answers w₁ o r w₂ → Wp M (k (some r)) (fun tr => Q (⟨o, r, w₁, w₂⟩ :: tr))
        (fun tr => E (⟨o, r, w₁, w₂⟩ :: tr)) w₂) ∧
      (M.fails w₁ o → Wp M (k none) Q E w₁) := by
  constructor
  · intro h w₁ he
    refine ⟨fun r w₂ ha tr w' => ⟨fun a hx => ?_, fun hx => ?_⟩,
      fun hf tr w' => ⟨fun a hx => ?_, fun hx => ?_⟩⟩
    · exact h.returns ⟨w₁, he, Or.inl ⟨r, w₂, tr, ha, rfl, hx⟩⟩
    · exact h.throws ⟨w₁, he, Or.inl ⟨r, w₂, tr, ha, rfl, hx⟩⟩
    · exact h.returns ⟨w₁, he, Or.inr ⟨hf, hx⟩⟩
    · exact h.throws ⟨w₁, he, Or.inr ⟨hf, hx⟩⟩
  · intro h tr w'
    refine ⟨?_, ?_⟩
    · rintro a ⟨w₁, he, ⟨r, w₂, tr', ha, rfl, hx⟩ | ⟨hf, hx⟩⟩
      · exact ((h w₁ he).1 r w₂ ha).returns hx
      · exact ((h w₁ he).2 hf).returns hx
    · rintro ⟨w₁, he, ⟨r, w₂, tr', ha, rfl, hx⟩ | ⟨hf, hx⟩⟩
      · exact ((h w₁ he).1 r w₂ ha).throws hx
      · exact ((h w₁ he).2 hf).throws hx

theorem wp_request {o : Op} {Q : List (Event Ret W) → Ret o → W → Prop} :
    Wp M (CallTree.request o) Q E w ↔ ∀ w₁, ReflTransGen M.env w w₁ →
      (∀ r w₂, M.answers w₁ o r w₂ → Q [⟨o, r, w₁, w₂⟩] r w₂) ∧ (M.fails w₁ o → E [] w₁) := by
  simp only [CallTree.request, wp_call, wp_pure, wp_throw]

theorem wp_bind {p : CallTree Ret β} {f : β → CallTree Ret α} :
    Wp M (p.bind f) Q E w ↔
      Wp M p (fun tr b w₁ => Wp M (f b) (fun tr' => Q (tr ++ tr')) (fun tr' => E (tr ++ tr')) w₁)
        E w := by
  constructor
  · intro h tr w₁
    refine ⟨fun b hb tr' w' => ⟨fun a hx => ?_, fun hx => ?_⟩, fun hx => ?_⟩
    · exact h.returns (exec_bind.2 (Or.inl ⟨b, w₁, tr, tr', hb, hx, rfl⟩))
    · exact h.throws (exec_bind.2 (Or.inl ⟨b, w₁, tr, tr', hb, hx, rfl⟩))
    · exact h.throws (exec_bind.2 (Or.inr ⟨hx, rfl⟩))
  · intro h tr w'
    refine ⟨fun a hx => ?_, fun hx => ?_⟩
    · rcases exec_bind.1 hx with ⟨b, w₁, tr₁, tr₂, hb, hf, rfl⟩ | ⟨-, hr⟩
      · exact (h.returns hb).returns hf
      · cases hr
    · rcases exec_bind.1 hx with ⟨b, w₁, tr₁, tr₂, hb, hf, rfl⟩ | ⟨hp, -⟩
      · exact (h.returns hb).throws hf
      · exact h.throws hp

theorem wp_tryCatch {p q : CallTree Ret α} :
    Wp M (p.tryCatch q) Q E w ↔
      Wp M p Q (fun tr w₁ => Wp M q (fun tr' => Q (tr ++ tr')) (fun tr' => E (tr ++ tr')) w₁)
        w := by
  constructor
  · intro h tr w₁
    refine ⟨fun a hx => ?_, fun hx tr' w' => ⟨fun a hq => ?_, fun hq => ?_⟩⟩
    · exact h.returns (exec_tryCatch.2 (Or.inl ⟨a, hx, rfl⟩))
    · exact h.returns (exec_tryCatch.2 (Or.inr ⟨w₁, tr, tr', hx, hq, rfl⟩))
    · exact h.throws (exec_tryCatch.2 (Or.inr ⟨w₁, tr, tr', hx, hq, rfl⟩))
  · intro h tr w'
    refine ⟨fun a hx => ?_, fun hx => ?_⟩
    · rcases exec_tryCatch.1 hx with ⟨b, hp, hb⟩ | ⟨w₁, tr₁, tr₂, hp, hq, rfl⟩
      · obtain rfl := Option.some.inj hb
        exact h.returns hp
      · exact (h.throws hp).returns hq
    · rcases exec_tryCatch.1 hx with ⟨b, -, hb⟩ | ⟨w₁, tr₁, tr₂, hp, hq, rfl⟩
      · cases hb
      · exact (h.throws hp).throws hq

/-- The loop rule: `I done tr w` holds after the elements `done` have been handled. -/
theorem wp_forM {l : List γ} {f : γ → CallTree Ret PUnit}
    (I : List γ → List (Event Ret W) → W → Prop)
    (hI : ∀ done x rest tr w, l = done ++ x :: rest → I done tr w →
      Wp M (f x) (fun tr' _ w' => I (done ++ [x]) (tr ++ tr') w')
        (fun tr' w' => E (tr ++ tr') w') w)
    (h₀ : I [] [] w) : Wp M (l.forM f) (fun tr _ w' => I l tr w') E w := by
  suffices key : ∀ (rest done : List γ) (tr : List (Event Ret W)) (w : W), l = done ++ rest →
      I done tr w → Wp M (rest.forM f) (fun tr' _ w' => I l (tr ++ tr') w')
        (fun tr' w' => E (tr ++ tr') w') w by
    simpa using key l [] [] w rfl h₀
  intro rest
  induction rest with
  | nil =>
    rintro done tr w rfl h
    refine (wp_pure (M := M) PUnit.unit).2 ?_
    simpa using h
  | cons x rest ih =>
    intro done tr w hl h
    refine wp_bind.2 ((hI done x rest tr w hl h).mono (fun tr' _ w' h' => ?_) fun _ _ h' => h')
    have := ih (done ++ [x]) (tr ++ tr') w' (by simp [hl]) h'
    simpa only [List.append_assoc] using this

/-- The calls of the trace are calls of the program, with answers the system allows. -/
theorem Wp.with_trace {A : Op → Prop} {p : CallTree Ret α} (hp : p.AllCalls A)
    (h : Wp M p Q E w) :
    Wp M p (fun tr a w' => (∀ e ∈ tr, A e.op ∧ M.answers e.before e.op e.ret e.after) ∧ Q tr a w')
      (fun tr w' => (∀ e ∈ tr, A e.op ∧ M.answers e.before e.op e.ret e.after) ∧ E tr w') w :=
  fun _ _ => ⟨fun _ hx => ⟨hx.of_mem_trace hp, h.returns hx⟩,
    fun hx => ⟨hx.of_mem_trace hp, h.throws hx⟩⟩

end Rules

/-- An invariant of the environment and of every call a program makes is kept by the program,
whichever way it ends. -/
theorem wp_invariant {A : Op → Prop} {I : W → Prop} {p : CallTree Ret α} (hp : p.AllCalls A)
    (henv : ∀ w w', M.env w w' → I w → I w')
    (hcall : ∀ w o r w', A o → M.answers w o r w' → I w → I w') (h : I w) :
    Wp M p (fun _ _ => I) (fun _ => I) w := by
  induction p generalizing w with
  | pure a => exact (wp_pure a).2 h
  | throw => exact wp_throw.2 h
  | call o k ih =>
    refine wp_call.2 fun w₁ he => ?_
    have h₁ : I w₁ := keeps_steps henv he h
    exact ⟨fun r w₂ ha => ih _ (hp.2 _) (hcall _ _ _ _ hp.1 ha h₁), fun _ => ih _ (hp.2 _) h₁⟩

end Calls
