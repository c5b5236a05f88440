import TriangleCompiler.Proofs.Machine.Execution

/-! The routes that the machine takes: the addresses of the instructions that it executes, one after the other.
    A route depends only on the instructions at its own addresses, and there is one way on from each
    configuration, so two runs from one configuration are the same for as long as both go on. -/

namespace TriangleCompiler.Machine

variable {σ : Type}

/-- The machine gets from one configuration to the other, and on its way it executes the instructions at
    these addresses. -/
inductive Route (I : Interpretation σ) (code : List Instruction) : Config σ → List Nat → Config σ → Prop where
  | refl (c : Config σ) : Route I code c [] c
  | step {c d e : Config σ} {route : List Nat} : step? I code c = some d → Route I code d route e →
      Route I code c (c.pc :: route) e

/-- All addresses are from `lo` on and before `hi`. -/
def Inside (lo hi : Nat) (route : List Nat) : Prop := ∀ a ∈ route, lo ≤ a ∧ a < hi

variable {I : Interpretation σ} {code code' : List Instruction} {c d e : Config σ} {route route' : List Nat}
  {lo hi n : Nat}

theorem Inside.nil : Inside lo hi [] := fun a ha => by cases ha

theorem Inside.append (h : Inside lo hi route) (h' : Inside lo hi route') : Inside lo hi (route ++ route') :=
  List.forall_mem_append.mpr ⟨h, h'⟩

theorem Inside.mono {lo' hi' : Nat} (h : Inside lo hi route) (hlo : lo' ≤ lo) (hhi : hi ≤ hi') :
    Inside lo' hi' route := fun a ha =>
  ⟨Nat.le_trans hlo (h a ha).1, Nat.lt_of_lt_of_le (h a ha).2 hhi⟩

theorem Inside.count_eq_zero (h : Inside lo hi route) {a : Nat} (ha : a < lo) : route.count a = 0 :=
  List.count_eq_zero.mpr fun hmem => Nat.not_le_of_lt ha (h a hmem).1

namespace Route

theorem single (h : step? I code c = some d) : Route I code c [c.pc] d := .step h (.refl d)

theorem trans (h : Route I code c route d) (h' : Route I code d route' e) :
    Route I code c (route ++ route') e := by
  induction h with
  | refl => exact h'
  | step hstep _ ih => exact .step hstep (ih h')

theorem steps?_eq (h : Route I code c route d) : steps? I code route.length c = some d := by
  induction h with
  | refl => rfl
  | step hstep _ ih => rw [List.length_cons, steps?, hstep, Option.bind_some, ih]

theorem reaches (h : Route I code c route d) : Reaches I code c d := ⟨_, h.steps?_eq⟩

/-- Before each step of a route the machine is at the address that the route has there. -/
theorem getElem?_eq (h : Route I code c route e) (hsteps : steps? I code n c = some d)
    (hlt : n < route.length) : route[n]? = some d.pc := by
  induction h generalizing n with
  | refl => cases hlt
  | step hstep _ ih =>
    cases n with
    | zero =>
      cases hsteps
      rfl
    | succ n =>
      rw [steps?, hstep, Option.bind_some] at hsteps
      exact ih hsteps (Nat.lt_of_succ_lt_succ hlt)

/-- A route in some code is one in all code that has the same instructions along it. -/
theorem congr (h : Route I code c route d) (hcode : ∀ a ∈ route, code'[a]? = code[a]?) :
    Route I code' c route d := by
  induction h with
  | refl c => exact .refl c
  | @step c d e route hstep _ ih =>
    have hstep' : step? I code' c = some d := by
      rw [step?, hcode _ List.mem_cons_self]
      exact hstep
    exact .step hstep' (ih fun a ha => hcode a (List.mem_cons_of_mem _ ha))

/-- If the machine gets to the address `hi` at all, and from each address in front of it to addresses behind
    `lo` and up to `hi`, it stays between them until it gets to `hi`. -/
theorem first_arrival (h : Route I code c route e) (he : e.pc = hi) (hlo : lo < c.pc) (hhi : c.pc ≤ hi)
    (hstep : ∀ c d : Config σ, step? I code c = some d → lo ≤ c.pc → c.pc < hi → lo < d.pc ∧ d.pc ≤ hi) :
    ∃ route d, Route I code c route d ∧ d.pc = hi ∧ Inside (lo + 1) hi route := by
  induction h with
  | refl c => exact ⟨[], c, .refl c, he, .nil⟩
  | @step c d e route hfirst _ ih =>
    by_cases hc : c.pc = hi
    · exact ⟨[], c, .refl c, hc, .nil⟩
    · obtain ⟨hlo', hhi'⟩ := hstep c d hfirst (Nat.le_of_lt hlo) (by omega)
      obtain ⟨route, d', hroute, hd', hinside⟩ := ih he hlo' hhi'
      refine ⟨c.pc :: route, d', .step hfirst hroute, hd', ?_⟩
      rintro a (_ | ⟨_, ha⟩)
      · exact ⟨hlo, by omega⟩
      · exact hinside a ha

end Route

theorem Reaches.exists_route (h : Reaches I code c d) : ∃ route, Route I code c route d := by
  obtain ⟨n, hn⟩ := h
  induction n generalizing c with
  | zero =>
    obtain rfl : c = d := Option.some.inj hn
    exact ⟨[], .refl c⟩
  | succ n ih =>
    obtain ⟨e, hstep, hsteps⟩ := Option.bind_eq_some_iff.mp hn
    obtain ⟨route, hroute⟩ := ih hsteps
    exact ⟨_, .step hstep hroute⟩

end TriangleCompiler.Machine
