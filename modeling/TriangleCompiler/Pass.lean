import TriangleCompiler.Fault

/-! Passes over a program: computations that change a state of type `σ` and stop where a promise is
    broken. What was done before a fault stays done. -/

namespace TriangleCompiler

/-- A computation on a state that ends with a value or with a fault. -/
abbrev Pass (σ : Type) := EStateM Fault σ

namespace Pass

variable {σ α β : Type}

/-- Stops with a fault. -/
def fault (f : Fault) : Pass σ α :=
  throw f

/-- The value, or a fault if there is none. -/
def require (f : Fault) : Option α → Pass σ α
  | some a => pure a
  | none => fault f

/-- The state that a pass leads to from `s`. -/
def finalState (x : Pass σ α) (s : σ) : Except Fault σ :=
  match x s with
  | .ok _ t => .ok t
  | .error f _ => .error f

@[simp] theorem pure_apply (a : α) (s : σ) : (pure a : Pass σ α) s = .ok a s := rfl

@[simp] theorem fault_apply (f : Fault) (s : σ) : (fault f : Pass σ α) s = .error f s := rfl

@[simp] theorem require_some (f : Fault) (a : α) : (require f (some a) : Pass σ α) = pure a := rfl

@[simp] theorem require_none (f : Fault) : (require f none : Pass σ α) = fault f := rfl

theorem bind_apply (x : Pass σ α) (g : α → Pass σ β) (s : σ) :
    (x >>= g) s = match x s with
      | .ok a t => g a t
      | .error f t => .error f t := by
  show EStateM.bind x g s = _
  unfold EStateM.bind
  cases x s <;> rfl

end Pass

end TriangleCompiler
