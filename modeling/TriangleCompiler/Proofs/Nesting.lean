import TriangleCompiler.Proofs.Passes

/-! Sequences of actions that open and close scopes, and what they do to a stack with one frame for each open
    scope. Actions that close only scopes that they have opened themselves leave the frames below alone, so
    a scope that is opened and closed again leaves nothing behind. -/

namespace TriangleCompiler

/-- What an action does to the scopes that are open. -/
inductive Nesting where
  | opens
  | closes
  | stays
deriving DecidableEq, Repr

namespace Nesting

/-- The number of open scopes behind an action, if there are `n` before it and one is left to close. -/
def after? : Nat → Nesting → Option Nat
  | n, opens => some (n + 1)
  | n, stays => some n
  | 0, closes => none
  | n + 1, closes => some n

/-- The number of open scopes behind a sequence of actions, if there are `n` before it. -/
def heightFrom? (n : Nat) (xs : List Nesting) : Option Nat :=
  xs.foldlM after? n

/-- The number of scopes that a sequence of actions opens and leaves open. There is none if somewhere in
    it more scopes are closed than were opened so far. -/
def height? (xs : List Nesting) : Option Nat :=
  heightFrom? 0 xs

/-- Nowhere in the sequence are more scopes closed than were opened so far. -/
def Nested (xs : List Nesting) : Prop := (height? xs).isSome

instance (xs : List Nesting) : Decidable (Nested xs) := inferInstanceAs (Decidable (_ = true))

/-- The sequence closes exactly the scopes that it opens, and never more than it has opened so far. -/
def Balanced (xs : List Nesting) : Prop := height? xs = some 0

instance (xs : List Nesting) : Decidable (Balanced xs) := inferInstanceAs (Decidable (_ = _))

variable {n m k : Nat} {x : Nesting} {xs ys : List Nesting}

theorem after?_add (h : after? n x = some k) (m : Nat) : after? (n + m) x = some (k + m) := by
  cases x with
  | opens =>
    cases h
    rw [after?, Nat.add_right_comm]
  | stays =>
    cases h
    rfl
  | closes =>
    cases n with
    | zero => cases h
    | succ n =>
      cases h
      rw [Nat.add_right_comm]
      rfl

theorem heightFrom?_cons (n : Nat) (x : Nesting) (xs : List Nesting) :
    heightFrom? n (x :: xs) = (after? n x).bind (heightFrom? · xs) := List.foldlM_cons

theorem heightFrom?_append (n : Nat) (xs ys : List Nesting) :
    heightFrom? n (xs ++ ys) = (heightFrom? n xs).bind (heightFrom? · ys) := List.foldlM_append

theorem heightFrom?_singleton (n : Nat) (x : Nesting) : heightFrom? n [x] = after? n x := by
  rw [heightFrom?_cons]
  cases after? n x <;> rfl

/-- Scopes that are open all the time make no difference. -/
theorem heightFrom?_add (h : heightFrom? n xs = some k) (m : Nat) : heightFrom? (n + m) xs = some (k + m) := by
  induction xs generalizing n with
  | nil =>
    cases h
    rfl
  | cons x xs ih =>
    rw [heightFrom?_cons, Option.bind_eq_some_iff] at h
    obtain ⟨next, hfirst, hrest⟩ := h
    rw [heightFrom?_cons, after?_add hfirst]
    exact ih hrest

theorem nested_iff : Nested xs ↔ ∃ k, height? xs = some k := Option.isSome_iff_exists

theorem Nested.left (h : Nested (xs ++ ys)) : Nested xs := by
  obtain ⟨k, hk⟩ := nested_iff.mp h
  rw [height?, heightFrom?_append, Option.bind_eq_some_iff] at hk
  obtain ⟨next, hleft, -⟩ := hk
  exact nested_iff.mpr ⟨next, hleft⟩

theorem Balanced.append (hxs : Balanced xs) (hys : Balanced ys) : Balanced (xs ++ ys) := by
  rw [Balanced, height?, heightFrom?_append, ← height?, hxs]
  exact hys

end Nesting

/-! ### Actions -/

section Actions
variable {ε σ α : Type} {perform : α → Pass σ ε} {a : α} {actions before after : List α} {e : ε} {log : List ε}
  {s t u : σ}

theorem exists_mapM_cons (hfirst : perform a s = .ok e t) (hrest : ∃ log u, actions.mapM perform t = .ok log u) :
    ∃ log u, (a :: actions).mapM perform s = .ok log u := by
  obtain ⟨log, u, hrest⟩ := hrest
  refine ⟨e :: log, u, ?_⟩
  rw [List.mapM_cons, Pass.bind_of_ok hfirst, Pass.bind_of_ok hrest]
  rfl

theorem mapM_singleton (h : perform a s = .ok e t) : [a].mapM perform s = .ok [e] t := by
  rw [List.mapM_cons, Pass.bind_of_ok h]
  rfl

/-- The first of several actions, and those behind it. -/
theorem exists_of_mapM_cons (h : (a :: actions).mapM perform s = .ok log u) :
    ∃ e rest t, perform a s = .ok e t ∧ actions.mapM perform t = .ok rest u ∧ log = e :: rest := by
  rw [List.mapM_cons] at h
  obtain ⟨e, t, hfirst, h⟩ := Pass.exists_of_bind h
  obtain ⟨rest, u', hrest, h⟩ := Pass.exists_of_bind h
  cases h
  exact ⟨e, rest, t, hfirst, hrest, rfl⟩

/-- A run of actions in two parts. -/
theorem exists_of_mapM_append (h : (before ++ after).mapM perform s = .ok log u) :
    ∃ log₁ log₂ t, before.mapM perform s = .ok log₁ t ∧ after.mapM perform t = .ok log₂ u ∧ log = log₁ ++ log₂ := by
  rw [List.mapM_append] at h
  obtain ⟨log₁, t, hbefore, h⟩ := Pass.exists_of_bind h
  obtain ⟨log₂, u', hafter, h⟩ := Pass.exists_of_bind h
  cases h
  exact ⟨log₁, log₂, t, hbefore, hafter, rfl⟩

end Actions

/-! ### Traces -/

/-- From `s` to `t` by steps with these labels. -/
inductive Trace {ε σ : Type} (step : ε → σ → σ → Prop) : List ε → σ → σ → Prop where
  | nil {s : σ} : Trace step [] s s
  | cons {e : ε} {log : List ε} {s t u : σ} : step e s t → Trace step log t u → Trace step (e :: log) s u

namespace Trace
variable {ε ε' σ σ' α : Type} {step : ε → σ → σ → Prop} {step' : ε' → σ' → σ' → Prop}
  {log log' : List ε} {s t u : σ}

theorem append_iff : Trace step (log ++ log') s u ↔ ∃ t, Trace step log s t ∧ Trace step log' t u := by
  induction log generalizing s with
  | nil =>
    refine ⟨fun h => ⟨s, .nil, h⟩, ?_⟩
    rintro ⟨t, hnil, h⟩
    cases hnil
    exact h
  | cons e log ih =>
    constructor
    · rintro (_ | ⟨hstep, hrest⟩)
      obtain ⟨t, hlog, hlog'⟩ := ih.mp hrest
      exact ⟨t, .cons hstep hlog, hlog'⟩
    · rintro ⟨t, _ | ⟨hstep, hlog⟩, hlog'⟩
      exact .cons hstep (ih.mpr ⟨t, hlog, hlog'⟩)

/-- Steps that are steps of another kind too make a run of that kind. -/
theorem map {label : ε → ε'} {view : σ → σ'} (hstep : ∀ e s t, step e s t → step' (label e) (view s) (view t))
    (h : Trace step log s t) : Trace step' (log.map label) (view s) (view t) := by
  induction h with
  | nil => exact .nil
  | cons hfirst _ ih => exact .cons (hstep _ _ _ hfirst) ih

/-- Actions that are performed one after the other make a run of what happens. -/
theorem of_mapM {perform : α → Pass σ ε} (hstep : ∀ a s e t, perform a s = .ok e t → step e s t) {actions : List α}
    (h : actions.mapM perform s = .ok log t) : Trace step log s t := by
  induction actions generalizing s log with
  | nil =>
    cases h
    exact .nil
  | cons a actions ih =>
    obtain ⟨e, rest, next, hfirst, hrest, rfl⟩ := exists_of_mapM_cons h
    exact .cons (hstep a s e next hfirst) (ih hrest)

/-- What happens at an action does to the scopes what the action does. -/
theorem labels_of_mapM {perform : α → Pass σ ε} {f : α → Nesting} {g : ε → Nesting}
    (hlabel : ∀ a s e t, perform a s = .ok e t → g e = f a) {actions : List α}
    (h : actions.mapM perform s = .ok log t) : log.map g = actions.map f := by
  induction actions generalizing s log with
  | nil =>
    cases h
    rfl
  | cons a actions ih =>
    obtain ⟨e, rest, next, hfirst, hrest, rfl⟩ := exists_of_mapM_cons h
    rw [List.map_cons, List.map_cons, hlabel a s e next hfirst, ih hrest]

end Trace

/-! ### Frames -/

/-- A step on a stack with one frame for each open scope, from the innermost outwards. A new scope has the
    frame `fresh`, and only the innermost frame changes while its scope is open. -/
inductive Moves {φ : Type} (fresh : φ) (grows : φ → φ → Prop) : Nesting → List φ → List φ → Prop where
  | opens {stack : List φ} : Moves fresh grows .opens stack (fresh :: stack)
  | closes {frame : φ} {stack : List φ} : Moves fresh grows .closes (frame :: stack) stack
  | stays {frame frame' : φ} {stack : List φ} : grows frame frame' →
      Moves fresh grows .stays (frame :: stack) (frame' :: stack)

section Frames
open Nesting
variable {φ : Type} {fresh : φ} {grows : φ → φ → Prop} {xs : List Nesting} {stack stack' below : List φ}

/-- While no scope is closed that was open at the start, the frames below its innermost one stay as they
    are, and that one grows. -/
theorem Trace.keeps_below (hrefl : ∀ x, grows x x) (htrans : ∀ {x y z}, grows x y → grows y z → grows x z)
    (h : Trace (Moves fresh grows) xs stack stack') (tops : List φ) {frame : φ} {n : Nat}
    (hstack : stack = tops ++ frame :: below) (hheight : heightFrom? tops.length xs = some n) :
    ∃ tops' frame', stack' = tops' ++ frame' :: below ∧ tops'.length = n ∧ grows frame frame' := by
  -- Above `frame` stand the frames of the scopes that were opened on the way, the only ones that may be closed.
  induction h generalizing tops frame with
  | nil =>
    cases hheight
    exact ⟨tops, frame, hstack, rfl, hrefl frame⟩
  | cons hmove _ ih =>
    rw [heightFrom?_cons] at hheight
    cases hmove with
    | opens => exact ih (fresh :: tops) (by rw [hstack, List.cons_append]) hheight
    | closes =>
      cases tops with
      | nil => cases hheight
      | cons top tops =>
        obtain ⟨-, hstack⟩ := List.cons.inj hstack
        exact ih tops hstack hheight
    | stays hgrows =>
      cases tops with
      | nil =>
        obtain ⟨rfl, rfl⟩ := List.cons.inj hstack
        obtain ⟨tops', frame', hstack', hlength, hgrows'⟩ := ih [] rfl hheight
        exact ⟨tops', frame', hstack', hlength, htrans hgrows hgrows'⟩
      | cons top tops =>
        obtain ⟨rfl, rfl⟩ := List.cons.inj hstack
        exact ih (_ :: tops) rfl hheight

/-- A scope that is opened and closed again leaves the stack as it was. -/
theorem Trace.restores (hrefl : ∀ x, grows x x) (htrans : ∀ {x y z}, grows x y → grows y z → grows x z)
    (h : Trace (Moves fresh grows) (.opens :: (xs ++ [.closes])) stack stack') (hxs : Balanced xs) : stack' = stack := by
  cases h with
  | cons hopen hrest =>
    cases hopen
    obtain ⟨middle, hinside, hclose⟩ := Trace.append_iff.mp hrest
    obtain ⟨tops, frame, rfl, hlength, -⟩ := hinside.keeps_below hrefl htrans [] rfl hxs
    obtain rfl := List.length_eq_zero_iff.mp hlength
    cases hclose with
    | cons hclose hnil =>
      cases hclose
      cases hnil
      rfl

end Frames

end TriangleCompiler
