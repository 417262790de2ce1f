import Wsic.Lib.CMemory

/-!
# Computations that record calls

General support: a computation that may fault, together with the calls of one kind that it makes
on its way, those before a fault included. The calls are an addition to the computation: without
them it is the one of `Checked`.
-/

open CMemory

namespace Tracing

/-- The recorded calls in order, and how the computation ends. -/
structure Traced (E α : Type) where
  calls : List E
  result : Checked α

namespace Traced

variable {E α β : Type}

instance : Monad (Traced E) where
  pure a := ⟨[], .ok a⟩
  bind x f := match x.result with
    | .ok a => ⟨x.calls ++ (f a).calls, (f a).result⟩
    | .error fault => ⟨x.calls, .error fault⟩

instance : MonadLift Checked (Traced E) where
  monadLift x := ⟨[], x⟩

/-- A recorded call. -/
def call (event : E) (x : Checked α) : Traced E α := ⟨[event], x⟩

/-! ### The computation without its calls -/

@[simp] theorem result_pure (a : α) : (pure a : Traced E α).result = .ok a := rfl

@[simp] theorem result_call (event : E) (x : Checked α) : (call event x).result = x := rfl

@[simp] theorem result_liftM (x : Checked α) : (liftM x : Traced E α).result = x := rfl

@[simp] theorem result_bind (x : Traced E α) (f : α → Traced E β) :
    (x >>= f).result = x.result >>= fun a ↦ (f a).result := by
  change (match x.result with
    | .ok a => (⟨x.calls ++ (f a).calls, (f a).result⟩ : Traced E β)
    | .error fault => ⟨x.calls, .error fault⟩).result = _
  cases x.result <;> rfl

/-! ### What holds of all recorded calls -/

/-- All recorded calls meet the condition. -/
def All (P : E → Prop) (x : Traced E α) : Prop := ∀ event ∈ x.calls, P event

section All

variable {P : E → Prop}

theorem all_pure (a : α) : All P (pure a : Traced E α) := fun _ he ↦ absurd he List.not_mem_nil

theorem all_liftM (x : Checked α) : All P (liftM x : Traced E α) :=
  fun _ he ↦ absurd he List.not_mem_nil

theorem all_call {event : E} (h : P event) (x : Checked α) : All P (call event x) := by
  intro other hother
  rw [List.mem_singleton.mp hother]
  exact h

/-- Behind a step: the step has returned. -/
theorem all_bind {x : Traced E α} {f : α → Traced E β} (h : All P x)
    (hf : ∀ a, x.result = .ok a → All P (f a)) : All P (x >>= f) := by
  change All P (match x.result with
    | .ok a => (⟨x.calls ++ (f a).calls, (f a).result⟩ : Traced E β)
    | .error fault => ⟨x.calls, .error fault⟩)
  cases hx : x.result with
  | error fault => exact h
  | ok a =>
    intro event he
    exact (List.mem_append.mp he).elim (h event) (hf a hx event)

end All

end Traced
end Tracing
