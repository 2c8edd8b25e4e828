import Mathlib.Logic.Relation

/-!
# Call trees

A program that works by calling into its surroundings is a `CallTree`: it returns, throws, or
makes a call `o` and goes on with the answer (`some r`), or, when the call itself throws, with
`none`.  `call o` followed by `bind` is a plain call whose exception propagates; `tryCatch` and
`tryFinally` are the two ways a program can intercept it.
-/

namespace Calls

/-- A program over the calls `Op`, where the answer to `o` has type `Ret o`. -/
inductive CallTree {Op : Type} (Ret : Op → Type) (α : Type) : Type
  | pure (a : α)
  | throw
  | call (o : Op) (k : Option (Ret o) → CallTree Ret α)

namespace CallTree

variable {Op : Type} {Ret : Op → Type} {α β : Type}

protected def bind : CallTree Ret α → (α → CallTree Ret β) → CallTree Ret β
  | .pure a, f => f a
  | .throw, _ => .throw
  | .call o k, f => .call o fun r => (k r).bind f

instance : Monad (CallTree Ret) where
  pure := .pure
  bind := .bind

/-- The call `o`, with its exception, if any, passed on to the caller. -/
def request (o : Op) : CallTree Ret (Ret o) :=
  .call o fun
    | some r => .pure r
    | none => .throw

/-- `try p catch (Throwable t) { h }`. -/
def tryCatch : CallTree Ret α → CallTree Ret α → CallTree Ret α
  | .pure a, _ => .pure a
  | .throw, h => h
  | .call o k, h => .call o fun r => (k r).tryCatch h

/-- `try p finally { fin }`: `fin` runs on both ways out of `p`. -/
def tryFinally : CallTree Ret α → CallTree Ret Unit → CallTree Ret α
  | .pure a, fin => fin.bind fun _ => .pure a
  | .throw, fin => fin.bind fun _ => .throw
  | .call o k, fin => .call o fun r => (k r).tryFinally fin

@[simp] theorem pure_bind' (a : α) (f : α → CallTree Ret β) : (CallTree.pure a).bind f = f a := rfl

@[simp] theorem throw_bind (f : α → CallTree Ret β) : (CallTree.throw).bind f = .throw := rfl

/-- Every call of the tree, on every path, satisfies `A`. -/
def AllCalls (A : Op → Prop) : CallTree Ret α → Prop
  | .pure _ => True
  | .throw => True
  | .call o k => A o ∧ ∀ r, (k r).AllCalls A

section AllCalls

variable {A : Op → Prop}

theorem AllCalls.mono {B : Op → Prop} {p : CallTree Ret α} (hp : p.AllCalls A)
    (h : ∀ o, A o → B o) : p.AllCalls B := by
  induction p with
  | pure a => trivial
  | throw => trivial
  | call o k ih => exact ⟨h o hp.1, fun r => ih r (hp.2 r)⟩

theorem allCalls_pure (a : α) : (Pure.pure a : CallTree Ret α).AllCalls A := trivial

theorem AllCalls.bind {p : CallTree Ret α} {f : α → CallTree Ret β} (hp : p.AllCalls A)
    (hf : ∀ a, (f a).AllCalls A) : (p.bind f).AllCalls A := by
  induction p with
  | pure a => exact hf a
  | throw => trivial
  | call o k ih => exact ⟨hp.1, fun r => ih r (hp.2 r)⟩

theorem AllCalls.tryCatch {p h : CallTree Ret α} (hp : p.AllCalls A) (hh : h.AllCalls A) :
    (p.tryCatch h).AllCalls A := by
  induction p with
  | pure a => trivial
  | throw => exact hh
  | call o k ih => exact ⟨hp.1, fun r => ih r (hp.2 r)⟩

theorem allCalls_request {o : Op} (ho : A o) : (request o : CallTree Ret _).AllCalls A := by
  refine ⟨ho, fun r => ?_⟩
  cases r <;> trivial

theorem AllCalls.forM {γ : Type} {l : List γ} {f : γ → CallTree Ret PUnit}
    (hf : ∀ x ∈ l, (f x).AllCalls A) : (l.forM f).AllCalls A := by
  induction l with
  | nil => trivial
  | cons x l ih =>
    exact (hf x List.mem_cons_self).bind fun _ => ih fun y hy => hf y (List.mem_cons_of_mem _ hy)

theorem AllCalls.foldlM {f : β → α → CallTree Ret β} (hf : ∀ b a, (f b a).AllCalls A)
    (l : List α) {b : β} : (l.foldlM f b).AllCalls A := by
  induction l generalizing b with
  | nil => trivial
  | cons a l ih => exact (hf b a).bind fun _ => ih

end AllCalls

/-- As long as no call throws, the program does not throw. -/
def Total : CallTree Ret α → Prop
  | .pure _ => True
  | .throw => False
  | .call _ k => ∀ r, (k (some r)).Total

section Total

theorem total_request (o : Op) : (request o : CallTree Ret _).Total := fun _ => trivial

theorem Total.bind {p : CallTree Ret α} {f : α → CallTree Ret β} (hp : p.Total)
    (hf : ∀ a, (f a).Total) : (p.bind f).Total := by
  induction p with
  | pure a => exact hf a
  | throw => exact hp.elim
  | call o k ih => exact fun r => ih _ (hp r)

theorem Total.tryCatch {p : CallTree Ret α} (hp : p.Total) (h : CallTree Ret α) :
    (p.tryCatch h).Total := by
  induction p with
  | pure a => trivial
  | throw => exact hp.elim
  | call o k ih => exact fun r => ih _ (hp r)

theorem Total.forM {γ : Type} {l : List γ} {f : γ → CallTree Ret PUnit}
    (hf : ∀ x, (f x).Total) : (l.forM f).Total := by
  induction l with
  | nil => trivial
  | cons x l ih => exact (hf x).bind fun _ => ih

theorem Total.foldlM {f : β → α → CallTree Ret β} (hf : ∀ b a, (f b a).Total)
    (l : List α) {b : β} : (l.foldlM f b).Total := by
  induction l generalizing b with
  | nil => trivial
  | cons a l ih => exact (hf b a).bind fun _ => ih

end Total

/-- Every call satisfies `A`, and the program throws only when one of them does. -/
structure Safe (A : Op → Prop) (p : CallTree Ret α) : Prop where
  calls : p.AllCalls A
  total : p.Total

section Safe

variable {A : Op → Prop}

theorem Safe.mono {B : Op → Prop} {p : CallTree Ret α} (hp : p.Safe A) (h : ∀ o, A o → B o) :
    p.Safe B :=
  ⟨hp.calls.mono h, hp.total⟩

theorem safe_pure (a : α) : (Pure.pure a : CallTree Ret α).Safe A := ⟨trivial, trivial⟩

theorem safe_request {o : Op} (ho : A o) : (request o : CallTree Ret _).Safe A :=
  ⟨allCalls_request ho, total_request o⟩

theorem Safe.bind {p : CallTree Ret α} {f : α → CallTree Ret β} (hp : p.Safe A)
    (hf : ∀ a, (f a).Safe A) : (p.bind f).Safe A :=
  ⟨hp.calls.bind fun a => (hf a).calls, hp.total.bind fun a => (hf a).total⟩

theorem Safe.tryCatch {p h : CallTree Ret α} (hp : p.Safe A) (hh : h.AllCalls A) :
    (p.tryCatch h).Safe A :=
  ⟨hp.calls.tryCatch hh, hp.total.tryCatch h⟩

theorem Safe.forM {γ : Type} {f : γ → CallTree Ret PUnit} (hf : ∀ x, (f x).Safe A)
    (l : List γ) : (l.forM f).Safe A :=
  ⟨AllCalls.forM fun x _ => (hf x).calls, Total.forM fun x => (hf x).total⟩

theorem Safe.foldlM {f : β → α → CallTree Ret β} (hf : ∀ b a, (f b a).Safe A) (l : List α)
    {b : β} : (l.foldlM f b).Safe A :=
  ⟨AllCalls.foldlM (fun b a => (hf b a).calls) l, Total.foldlM (fun b a => (hf b a).total) l⟩

end Safe

end CallTree

end Calls
