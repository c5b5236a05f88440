import TriangleCompiler.Proofs.Evaluation
import TriangleCompiler.Proofs.Generation.Emission
import TriangleCompiler.Proofs.Generation.TypedCode

/-! How the machine follows an evaluation. Where the evaluation finishes the machine gets to a matching
    configuration, where it fails the machine gets stuck, and where it runs out of fuel the machine still
    runs. The words of the store that have a place are on the stack. -/

namespace TriangleCompiler.Generation

open Evaluation Machine

variable {σ α β : Type} {I : Interpretation σ} {code : List Instruction} {c d : Config σ} {m n pc : Nat}

/-! ### Following an evaluation -/

/-- From the configuration `c` the machine follows an evaluation with the outcome `r`: to a configuration
    with `Q` if there is a value, and for at least `n` steps if there is too little fuel. -/
def Simulates (I : Interpretation σ) (code : List Instruction) (n : Nat) (c : Config σ) (r : Outcome α)
    (Q : α → Config σ → Prop) : Prop :=
  match r with
  | .finished a => ∃ d, Reaches I code c d ∧ Q a d
  | .failed => ∃ d, Reaches I code c d ∧ Stuck I code d
  | .outOfFuel => (steps? I code n c).isSome

namespace Simulates

variable {r : Outcome α} {Q R : α → Config σ → Prop}

theorem pure {a : α} (h : Q a c) : Simulates I code n c (.finished a) Q := ⟨c, .refl c, h⟩

theorem imp (h : Simulates I code n c r Q) (himp : ∀ a d, Q a d → R a d) : Simulates I code n c r R := by
  cases r with
  | finished a =>
    obtain ⟨d, hd, hQ⟩ := h
    exact ⟨d, hd, himp a d hQ⟩
  | failed => exact h
  | outOfFuel => exact h

theorem mono (h : Simulates I code n c r Q) (hle : m ≤ n) : Simulates I code m c r Q := by
  cases r with
  | finished a => exact h
  | failed => exact h
  | outOfFuel => exact isSome_steps?_of_le h hle

theorem of_reaches (hd : Reaches I code c d) (h : Simulates I code n d r Q) : Simulates I code n c r Q := by
  cases r with
  | finished a =>
    obtain ⟨e, he, hQ⟩ := h
    exact ⟨e, hd.trans he, hQ⟩
  | failed =>
    obtain ⟨e, he, hstuck⟩ := h
    exact ⟨e, hd.trans he, hstuck⟩
  | outOfFuel =>
    obtain ⟨m, hm⟩ := hd
    have hmore : (steps? I code (m + n) c).isSome := by rw [steps?_add, hm]; exact h
    exact isSome_steps?_of_le hmore (Nat.le_add_left n m)

theorem of_step (hd : step? I code c = some d) (h : Simulates I code n d r Q) : Simulates I code n c r Q :=
  h.of_reaches (.single hd)

/-- A step that is known about counts. -/
theorem step (hd : step? I code c = some d) (h : Simulates I code n d r Q) :
    Simulates I code (n + 1) c r Q := by
  cases r with
  | finished a => exact of_step (n := n) hd h
  | failed => exact of_step (n := n) hd h
  | outOfFuel =>
    show ((step? I code c).bind (steps? I code n)).isSome
    rw [hd]
    exact h

theorem bind {f : α → Outcome β} {S : β → Config σ → Prop} (h : Simulates I code n c r Q)
    (hf : ∀ a d, Q a d → Simulates I code n d (f a) S) : Simulates I code n c (r >>= f) S := by
  cases r with
  | finished a =>
    obtain ⟨d, hd, hQ⟩ := h
    exact (hf a d hQ).of_reaches hd
  | failed => exact h
  | outOfFuel => exact h

/-- A step behind the evaluation. -/
theorem follow (h : Simulates I code n c r Q)
    (hstep : ∀ a d, Q a d → ∃ e, step? I code d = some e ∧ R a e) : Simulates I code n c r R := by
  cases r with
  | finished a =>
    obtain ⟨d, hd, hQ⟩ := h
    obtain ⟨e, he, hR⟩ := hstep a d hQ
    exact ⟨e, hd.trans (.single he), hR⟩
  | failed => exact h
  | outOfFuel => exact h

/-- A step that is made exactly where there is a value. -/
theorem ofOption {o : Option α} {f : α → Config σ} (hstep : step? I code c = o.map f)
    (hc : ¬Halted code c) : Simulates I code n c (.ofOption o) fun a d => d = f a := by
  cases o with
  | some a => exact ⟨f a, .single hstep, rfl⟩
  | none => exact ⟨c, .refl c, hstep, hc⟩

end Simulates

/-! ### Calls -/

section Calls
variable {p : Primitive} {rest : List Word} {io : σ} {k : Nat}

theorem not_halted_call (h : code[c.pc]? = some (.call p)) : ¬Halted code c := by
  simp [Halted, h, Instruction.call]

theorem simulates_function (operands : List Word) (h : code[pc]? = some (.call p))
    (hp : p.convention = .function operands.length) :
    Simulates I code n ⟨pc, rest ++ operands, io⟩ (.ofOption (I p operands io)) fun r d =>
      d = ⟨pc + 1, rest ++ [r.1], r.2⟩ :=
  .ofOption ((step?_call p h).trans (callPrimitive?_function hp)) (not_halted_call h)

theorem simulates_procedure (operands : List Word) (h : code[pc]? = some (.call p))
    (hp : p.convention = .procedure operands.length) :
    Simulates I code n ⟨pc, rest ++ operands, io⟩ (.ofOption (I p operands io)) fun r d =>
      d = ⟨pc + 1, rest, r.2⟩ :=
  .ofOption ((step?_call p h).trans (callPrimitive?_procedure hp)) (not_halted_call h)

theorem simulates_input (h : code[pc]? = some (.call p)) (hp : p.convention = .input) (hk : k ≤ Word.max)
    (hlt : k < rest.length) :
    Simulates I code n ⟨pc, rest ++ [Int16.ofNat k], io⟩ (.ofOption (I p [] io)) fun r d =>
      d = ⟨pc + 1, rest.set k r.1, r.2⟩ :=
  .ofOption ((step?_call p h).trans (callPrimitive?_input hp hk hlt)) (not_halted_call h)

end Calls

/-! ### Pieces of code -/

/-- The piece stands in the code from the address on. -/
def At (code : List α) (start : Nat) (piece : List α) : Prop :=
  ∃ before after, code = before ++ (piece ++ after) ∧ before.length = start

section At
variable {code : List α} {start : Nat} {piece piece' rest : List α} {i : α}

theorem At.length_le (h : At code start piece) : start + piece.length ≤ code.length := by
  obtain ⟨before, after, rfl, rfl⟩ := h
  simp only [List.length_append]
  omega

theorem At.left (h : At code start (piece ++ piece')) : At code start piece := by
  obtain ⟨before, after, rfl, rfl⟩ := h
  exact ⟨before, piece' ++ after, by simp, rfl⟩

theorem At.right (h : At code start (piece ++ piece')) : At code (start + piece.length) piece' := by
  obtain ⟨before, after, rfl, rfl⟩ := h
  exact ⟨before ++ piece, after, by simp, by simp⟩

theorem At.head (h : At code start (i :: rest)) : code[start]? = some i := by
  obtain ⟨before, after, rfl, rfl⟩ := h
  simp

theorem At.tail (h : At code start (i :: rest)) : At code (start + 1) rest := by
  have happend : At code start ([i] ++ rest) := h
  exact happend.right

end At

/-- Jumps in code that is not too large go where they should. -/
theorem index?_cappedTarget {a : Nat} (h : a ≤ Word.max) :
    Word.index? (cappedTarget Word.max a) = some a := by
  rw [cappedTarget, Nat.min_eq_left h]
  exact Word.index?_ofNat h

/-! ### The store on the stack -/

/-- The word in a place. -/
def Place.word? (stack : List Word) : Place → Option Word
  | known value => some value
  | slot _ offset => stack[offset]?

/-- What has a place has there its word of the store. -/
def Layout.Holds (L : Layout) (store : Store) (stack : List Word) : Prop :=
  ∀ id p, L.place? id = some p → p.word? stack = some (store id)

/-- On the stack there are the words that have a place, and nothing else. -/
structure Layout.Represents (L : Layout) (store : Store) (stack : List Word) : Prop where
  length_eq : stack.length = L.size
  holds : L.Holds store stack

/-- Before the instruction at `pc` the machine is where the evaluation is. -/
def Matches (L : Layout) (pc : Nat) (s : World σ) (c : Config σ) : Prop :=
  ∃ stack, c = ⟨pc, stack, s.io⟩ ∧ L.Represents s.store stack

/-- Before the instruction at `pc` the value of an expression is on top of the stack. -/
def Pushed (L : Layout) (pc : Nat) (store : Store) (r : Word × σ) (c : Config σ) : Prop :=
  ∃ stack, c = ⟨pc, stack ++ [r.1], r.2⟩ ∧ L.Represents store stack

section Store
variable {L L' : Layout} {store : Store} {stack : List Word} {id : NodeId} {w : Word}

theorem Place.word?_append {p : Place} (h : p.word? stack = some w) (more : List Word) :
    p.word? (stack ++ more) = some w := by
  cases p with
  | known value => exact h
  | slot assignable k =>
    obtain ⟨hlt, -⟩ := List.getElem?_eq_some_iff.mp h
    exact (List.getElem?_append_left hlt).trans h

theorem Layout.Holds.append (h : L.Holds store stack) (more : List Word) :
    L.Holds store (stack ++ more) :=
  fun id p hp => Place.word?_append (h id p hp) more

/-- A word in a slot may change, since no other name has the slot. -/
theorem Layout.Represents.set {assignable : Bool} {k : Nat} (h : L.Represents store stack)
    (hid : L.place? id = some (.slot assignable k)) (w : Word) :
    L.Represents (store.set id w) (stack.set k w) := by
  obtain ⟨hlength, hholds⟩ := h
  refine ⟨by rw [List.length_set, hlength], ?_⟩
  intro id' p hp
  by_cases heq : id' = id
  · subst heq
    rw [hid] at hp
    cases hp
    rw [Store.set_self]
    exact List.getElem?_set_self (hlength ▸ Layout.lt_size hid)
  · rw [Store.set_of_ne heq]
    have hword := hholds id' p hp
    cases p with
    | known value => exact hword
    | slot assignable' k' =>
      have hne : k ≠ k' := fun hkk =>
        heq (L.apart id' id k' (Layout.offset?_eq hp) (hkk ▸ Layout.offset?_eq hid))
      exact (List.getElem?_set_ne hne).trans hword

theorem Layout.Represents.allocate (h : L.Represents store stack) (id : NodeId) (assignable : Bool)
    (w : Word) : (L.allocate id assignable).Represents (store.set id w) (stack ++ [w]) := by
  obtain ⟨hlength, hholds⟩ := h
  refine ⟨by rw [List.length_append, hlength]; rfl, ?_⟩
  intro id' p hp
  by_cases heq : id' = id
  · subst heq
    rw [Layout.place?_allocate_self] at hp
    cases hp
    rw [Store.set_self, Place.word?, ← hlength]
    exact List.getElem?_concat_length
  · rw [Layout.place?_allocate_of_ne heq] at hp
    rw [Store.set_of_ne heq]
    exact Place.word?_append (hholds id' p hp) [w]

theorem Layout.Represents.define (h : L.Represents store stack) (id : NodeId) (w : Word) :
    (L.define id w).Represents (store.set id w) stack := by
  refine ⟨h.length_eq, ?_⟩
  intro id' p hp
  simp only [Layout.define] at hp
  split at hp
  · rename_i heq
    cases hp
    rw [heq, Store.set_self]
    rfl
  · rename_i hne
    rw [Store.set_of_ne hne]
    exact h.holds id' p hp

/-- Behind a scope only the words in front of it are left. -/
theorem Layout.Represents.restrict (h : L'.Represents store stack) (hL : L.Extends L')
    (hsize : L.size ≤ L'.size) : L.Represents store (stack.take L.size) := by
  refine ⟨by rw [List.length_take, h.length_eq, Nat.min_eq_left hsize], ?_⟩
  intro id p hp
  have hword := h.holds id p (hL id p hp)
  cases p with
  | known value => exact hword
  | slot assignable k =>
    exact (List.getElem?_take_of_lt (Layout.lt_size hp)).trans hword

/-- The end of a scope drops what was declared in it. -/
theorem Matches.pop {s : World σ} (h : Matches L' pc s c) (hL : L.Extends L') (hsize : L.size ≤ L'.size)
    (hmax : L'.size ≤ Word.max) (hi : code[pc]? = some (.pop (Int16.ofNat (L'.size - L.size)))) :
    ∃ d, step? I code c = some d ∧ Matches L (pc + 1) s d := by
  obtain ⟨stack, rfl, hstack⟩ := h
  have hlength := hstack.length_eq
  have hkept : stack.length - (L'.size - L.size) = L.size := by omega
  exact ⟨_, step?_pop hi (by omega) (by omega), _, by rw [hkept], hstack.restrict hL hsize⟩

/-- A value goes from the top of the stack to its place. -/
theorem Pushed.assign {r : Word × σ} {assignable : Bool} {k : Nat} (h : Pushed L pc store r c)
    (hid : L.place? id = some (.slot assignable k)) (hmax : L.size ≤ Word.max)
    (hi : code[pc]? = some (storeSlot k)) : ∃ d, step? I code c = some d ∧
      Matches L (pc + 1) ⟨store.set id r.1, r.2⟩ d := by
  obtain ⟨stack, rfl, hstack⟩ := h
  have hk := Layout.lt_size hid
  have hlt : k < stack.length := by rw [hstack.length_eq]; exact hk
  exact ⟨_, step?_store hi (by omega) hlt, _, rfl, hstack.set hid r.1⟩

end Store

/-! ### Tests and loops -/

section Tests
variable {L : Layout} {b : Bool} {target : Word} {k : Nat} {store : Store} {r : Word × σ}

/-- A conditional jump takes the value of the test away. -/
theorem Pushed.branch (h : Pushed L pc store r c) (hi : code[pc]? = some (.jumpIf (Word.ofBool b) target))
    (hk : Word.index? target = some k) : ∃ d, step? I code c = some d ∧
      Matches L (if r.1 = Word.ofBool b then k else pc + 1) ⟨store, r.2⟩ d := by
  obtain ⟨stack, rfl, hstack⟩ := h
  exact ⟨_, step?_jumpIf hi hk, stack, rfl, hstack⟩

theorem Matches.jump {s : World σ} (h : Matches L pc s c) (hi : code[pc]? = some (.jump target))
    (hk : Word.index? target = some k) : ∃ d, step? I code c = some d ∧ Matches L k s d := by
  obtain ⟨stack, rfl, hstack⟩ := h
  exact ⟨_, step?_jump hi hk, stack, rfl, hstack⟩

/-- A loop with the test at its bottom: the test ends with the conditional jump at `jump`, which goes to
    the top. -/
theorem simulates_iterate {top bottom jump : Nat} {test : World σ → Outcome (Word × σ)}
    {body : World σ → Outcome (World σ)}
    (hjump : code[jump]? = some (.jumpIf (Word.ofBool true) target)) (htop : Word.index? target = some top)
    (htest : ∀ s c, Matches L bottom s c → Simulates I code n c (test s) (Pushed L jump s.store))
    (hbody : ∀ s c, Matches L top s c → Simulates I code n c (body s) (Matches L bottom)) {fuel : Nat}
    (hfuel : fuel ≤ n) {s : World σ} {c : Config σ} (hc : Matches L bottom s c) :
    Simulates I code fuel c (iterate test body fuel s) (Matches L (jump + 1)) := by
  induction fuel generalizing s c with
  | zero => exact rfl
  | succ fuel ih =>
    have hle : fuel ≤ n := Nat.le_of_succ_le hfuel
    rw [iterate]
    refine ((htest s c hc).mono hfuel).bind fun r d hd => ?_
    obtain ⟨e, hstep, he⟩ := hd.branch hjump htop
    -- the jump is the step that every round makes
    refine Simulates.step hstep ?_
    by_cases hr : r.1 = Word.ofBool true
    · rw [if_pos hr] at he
      simp only [if_pos hr]
      exact ((hbody _ _ he).mono hle).bind fun s' c' hc' => ih hle hc'
    · rw [if_neg hr] at he
      simp only [if_neg hr]
      exact Simulates.pure he

end Tests

end TriangleCompiler.Generation
