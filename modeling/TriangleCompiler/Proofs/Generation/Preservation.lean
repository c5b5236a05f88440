import TriangleCompiler.Proofs.Generation.Simulation

/-! The code of well-typed phrases does what the phrases mean: the machine follows the evaluation of
    expressions, declarations and commands. -/

namespace TriangleCompiler

open Evaluation Generation Machine
open Typing

/-! ### Names and built-in routines -/

namespace Evaluation

variable {σ : Type} {I : Interpretation σ} {links : Resolution} {store : Store} {name : Name}

theorem valueOf?_constant {b : Builtin} {type : SimpleType} {value : Word}
    (hlink : links.get? name.id = some (.builtin b)) (hkind : b.kind = .constant type value) :
    valueOf? links store name = some value := by
  simp [valueOf?, hlink, hkind]

theorem valueOf?_located {L : Layout} {link : Link} {p : Place} (hlink : links.get? name.id = some link)
    (h : L.Locates link p) : ∃ id, L.place? id = some p ∧ valueOf? links store name = some (store id) := by
  cases h with
  | @const id _ h => exact ⟨id, h, by simp [valueOf?, hlink]⟩
  | @var id _ h => exact ⟨id, h, by simp [valueOf?, hlink]⟩

theorem apply_eq {b : Builtin} {p : Primitive} (hlink : links.get? name.id = some (.builtin b))
    (hkind : b.kind.primitive? = some p) (operands : List Word) (io : σ) :
    apply I links name operands io = .ofOption (I p operands io) := by
  simp only [apply, hlink]
  generalize b.kind = kind at hkind
  cases kind with
  | type | constant => cases hkind
  | routine | binary | unary =>
    cases hkind
    rfl

theorem assign_eq {id : NodeId} (hlink : links.get? name.id = some (.var id)) (w : Word) (s : World σ) :
    assign links name w s = .finished ⟨s.store.set id w, s.io⟩ := by
  simp [assign, hlink]

end Evaluation

namespace Builtin

variable {b : Builtin} {p : Primitive} {result : SimpleType} {formal : Option Formal}

/-- A function pops its operand and takes nothing by reference. -/
theorem convention_of_function (h : b.kind = .routine p result formal) (hresult : result ≠ .void) :
    p.convention = .function formal.toList.length ∧ ∀ type, formal ≠ some ⟨type, true⟩ := by
  cases b <;> cases h <;> first | exact absurd rfl hresult | exact ⟨rfl, by simp⟩

/-- A procedure takes an address only by reference. -/
theorem convention_of_procedure (h : b.kind = .routine p .void formal) :
    p.convention = if formal.any (·.byReference) then .input else .procedure formal.toList.length := by
  cases b <;> cases h <;> rfl

theorem convention_of_value (h : b.kind = .routine p .void formal)
    (hvalue : ∀ type, formal ≠ some ⟨type, true⟩) : p.convention = .procedure formal.toList.length := by
  cases b <;> cases h <;> first | rfl | exact absurd rfl (hvalue _)

theorem convention_of_unary {operand : SimpleType} (h : b.kind = .unary p operand result) :
    p.convention = .function 1 := by
  cases b <;> cases h
  rfl

theorem convention_of_binary {lhs rhs : SimpleType} (h : b.kind = .binary p lhs rhs result) :
    p.convention = .function 2 := by
  cases b <;> cases h <;> rfl

end Builtin

/-! ### Expressions -/

namespace Generation

variable {σ : Type} {I : Interpretation σ} {code : List Instruction} {L : Layout} {store : Store}
  {stack : List Word} {pc : Nat} {io : σ} {id : NodeId}

/-- The value of what has a place is pushed. -/
theorem step?_load_place {p : Place} (h : L.Holds store stack) (hsize : L.size ≤ Word.max)
    (hp : L.place? id = some p) (hi : code[pc]? = some p.entity.load) :
    step? I code ⟨pc, stack, io⟩ = some ⟨pc + 1, stack ++ [store id], io⟩ := by
  have hword := h id p hp
  cases p with
  | known value =>
    cases hword
    exact step?_loadLiteral hi
  | slot assignable k =>
    have hk := Layout.lt_size hp
    have hi' : code[pc]? = some ⟨.load, .sb, 1, Int16.ofNat k⟩ := by cases assignable <;> exact hi
    exact step?_load hi' (by omega) hword

end Generation

namespace Typing

mutual

/-- The code of an expression pushes its value. -/
theorem HasType.simulates {σ : Type} {I : Interpretation σ} {code : List Instruction} {n : Nat}
    {links : Resolution} {Γ : Environment} {L : Layout} {store : Store} {e : Expr} {type : SimpleType}
    {ds : Decoration} : HasType links Γ e type ds → L.Fits Γ → L.size ≤ Word.max →
      ∀ {start : Nat} {stack : List Word} {io : σ}, At code start (e.code links L) →
      L.Holds store stack → Simulates I code n ⟨start, stack, io⟩ (e.eval I links store io) fun r d =>
        d = ⟨start + (e.code links L).length, stack ++ [r.1], r.2⟩
  | .int h hlo hhi, _, _, start, stack, io, hat, _ => by
    simp only [Expr.code, literalCode, intValue?_eq h hlo hhi] at hat ⊢
    rw [Expr.eval, intValue?_eq h hlo hhi]
    exact .of_step (step?_loadLiteral hat.head) (.pure rfl)
  | .char h, _, _, start, stack, io, hat, _ => by
    simp only [Expr.code, literalCode, charValue?_eq h] at hat ⊢
    rw [Expr.eval, charValue?_eq h]
    exact .of_step (step?_loadLiteral hat.head) (.pure rfl)
  | .truth hlink hkind, _, _, start, stack, io, hat, _ => by
    simp only [Expr.code, loadCode_constant hlink hkind] at hat ⊢
    rw [Expr.eval, valueOf?_constant hlink hkind]
    exact .of_step (step?_loadLiteral hat.head) (.pure rfl)
  | .declared hlink hΓ, hfits, hsize, start, stack, io, hat, hholds => by
    obtain ⟨-, p, hp⟩ := hfits _ _ hΓ
    simp only [Expr.code, loadCode_located hlink hp] at hat ⊢
    obtain ⟨id, hid, hvalue⟩ := valueOf?_located hlink hp
    rw [Expr.eval, hvalue]
    exact .of_step (step?_load_place hholds hsize hid hat.head) (.pure rfl)
  | .call hlink hkind hresult ha, hfits, hsize, start, stack, io, hat, hholds => by
    obtain ⟨hp, hvalue⟩ := Builtin.convention_of_function hkind hresult
    have hprimitive := congrArg Builtin.Kind.primitive? hkind
    simp only [Expr.code, callCode_eq hlink hprimitive] at hat ⊢
    rw [Expr.eval]
    refine (ha.simulates hvalue hfits hsize hat.left hholds).bind ?_
    rintro ⟨operands, io₁⟩ d ⟨hlength, hd⟩
    subst hd
    rw [← hlength] at hp
    show Simulates I code n _ (apply I links _ operands io₁) _
    rw [apply_eq hlink hprimitive]
    refine (simulates_function operands hat.right.head hp).imp fun r d hd => ?_
    simpa [Nat.add_assoc] using hd
  | .unary hlink hkind h, hfits, hsize, start, stack, io, hat, hholds => by
    have hprimitive := congrArg Builtin.Kind.primitive? hkind
    simp only [Expr.code, callCode_eq hlink hprimitive] at hat ⊢
    rw [Expr.eval]
    refine (h.simulates hfits hsize hat.left hholds).bind ?_
    rintro ⟨w, io₁⟩ d hd
    subst hd
    show Simulates I code n _ (apply I links _ [w] io₁) _
    rw [apply_eq hlink hprimitive]
    refine (simulates_function [w] hat.right.head (Builtin.convention_of_unary hkind)).imp
      fun r d hd => ?_
    simpa [Nat.add_assoc] using hd
  | .binary hlink hkind h₁ h₂, hfits, hsize, start, stack, io, hat, hholds => by
    obtain ⟨p, l, r, hkind⟩ := hkind.exists_primitive
    have hprimitive := congrArg Builtin.Kind.primitive? hkind
    simp only [Expr.code, callCode_eq hlink hprimitive] at hat ⊢
    rw [Expr.eval]
    refine (h₁.simulates hfits hsize hat.left hholds).bind ?_
    rintro ⟨v, io₁⟩ d hd
    subst hd
    refine (h₂.simulates hfits hsize hat.right.left (hholds.append [v])).bind ?_
    rintro ⟨w, io₂⟩ d hd
    subst hd
    show Simulates I code n _ (apply I links _ [v, w] io₂) _
    rw [apply_eq hlink hprimitive, List.append_assoc]
    refine (simulates_function [v, w] hat.right.right.head (Builtin.convention_of_binary hkind)).imp
      fun r d hd => ?_
    simpa [Nat.add_assoc] using hd

/-- The code of an argument that is no reference pushes the operands. -/
theorem Accepts.simulates {σ : Type} {I : Interpretation σ} {code : List Instruction} {n : Nat}
    {links : Resolution} {Γ : Environment} {L : Layout} {store : Store} {formal : Option Builtin.Formal}
    {a : Argument} {ds : Decoration} : Accepts links Γ formal a ds →
      (∀ type, formal ≠ some ⟨type, true⟩) → L.Fits Γ → L.size ≤ Word.max →
      ∀ {start : Nat} {stack : List Word} {io : σ}, At code start (a.code links L) →
      L.Holds store stack → Simulates I code n ⟨start, stack, io⟩ (a.eval I links store io) fun r d =>
        r.1.length = formal.toList.length ∧ d = ⟨start + (a.code links L).length, stack ++ r.1, r.2⟩
  | .none, _, _, _, start, stack, io, _, _ => by
    rw [Argument.eval, Argument.code]
    exact .pure ⟨rfl, by simp⟩
  | .value h, _, hfits, hsize, start, stack, io, hat, hholds => by
    simp only [Argument.code] at hat ⊢
    rw [Argument.eval]
    refine (h.simulates hfits hsize hat hholds).bind ?_
    rintro ⟨w, io₁⟩ d hd
    exact .pure ⟨rfl, hd⟩
  | .reference _ _, hvalue, _, _, _, _, _, _, _ => absurd rfl (hvalue _)

end

section Phrases
variable {σ : Type} {I : Interpretation σ} {code : List Instruction} {n : Nat} {links : Resolution}
  {Γ Γ' : Environment} {L : Layout} {start : Nat} {s : World σ} {c : Config σ}

/-- In a command the value of an expression is pushed on the words that have a place. -/
theorem HasType.pushes {e : Expr} {type : SimpleType} {ds : Decoration} (h : HasType links Γ e type ds)
    (hfits : L.Fits Γ) (hsize : L.size ≤ Word.max) (hat : At code start (e.code links L))
    (hc : Matches L start s c) : Simulates I code n c (e.eval I links s.store s.io)
      (Pushed L (start + (e.code links L).length) s.store) := by
  obtain ⟨stack, rfl, hstack⟩ := hc
  exact (h.simulates hfits hsize hat hstack.holds).imp fun r d hd => ⟨stack, hd, hstack⟩

/-! ### Declarations -/

/-- A literal has its value without any code. -/
theorem eval_of_literal? {e : Expr} {w : Word} (h : literal? e = some w) (store : Store) (io : σ) :
    e.eval I links store io = .finished (w, io) := by
  cases e with
  | int | char =>
    rw [literal?] at h
    rw [Expr.eval, h]
    rfl
  | _ => cases h

theorem Declares.simulates {d : SingleDeclaration} {ds : Decoration} (h : Declares links Γ d Γ' ds)
    (hfits : L.Fits Γ) (hsize : L.size ≤ Word.max) (hat : At code start (d.code links L))
    (hc : Matches L start s c) : Simulates I code n c (d.eval I links s)
      (Matches (d.layoutAfter L) (start + (d.code links L).length)) := by
  cases h with
  | @const tag _ value _ _ h =>
    rw [SingleDeclaration.eval]
    simp only [SingleDeclaration.code, SingleDeclaration.layoutAfter] at hat ⊢
    cases hliteral : literal? value with
    | some known =>
      rw [eval_of_literal? hliteral]
      obtain ⟨stack, rfl, hstack⟩ := hc
      exact .pure ⟨stack, rfl, hstack.define tag.id known⟩
    | none =>
      simp only [hliteral] at hat
      refine (h.pushes hfits hsize hat hc).bind ?_
      rintro ⟨w, io⟩ d hd
      obtain ⟨stack, rfl, hstack⟩ := hd
      exact .pure ⟨stack ++ [w], rfl, hstack.allocate tag.id false w⟩
  | @var tag =>
    rw [SingleDeclaration.eval]
    simp only [SingleDeclaration.code, SingleDeclaration.layoutAfter] at hat ⊢
    obtain ⟨stack, rfl, hstack⟩ := hc
    exact .of_step (step?_push hat.head) (.pure ⟨stack ++ [0], rfl, hstack.allocate tag.id true 0⟩)

theorem DeclaresAll.simulates {parts : List SingleDeclaration} {ds : Decoration}
    (h : DeclaresAll links Γ parts Γ' ds) (hfits : L.Fits Γ) (hnodup : (declarationIds parts).Nodup)
    (hnew : L.Unplaced (declarationIds parts)) (hsize : L.size ≤ start)
    (hcode : code.length ≤ Word.max) (hat : At code start (declarationsCode links L parts))
    (hc : Matches L start s c) : Simulates I code n c (evalDeclarations I links s parts)
      (Matches (layoutAfterDeclarations L parts) (start + (declarationsCode links L parts).length)) := by
  induction h generalizing L start s c with
  | nil => exact .pure hc
  | cons hd _ ih =>
    -- every word that is taken costs an instruction, so there are never more words than addresses
    have hroom := hat.length_le
    have hgrowth := hd.size_le hfits
    have hfits' := hd.fits hfits (hnew.mono fun _ => List.mem_append_left _)
    have hnew' := (hnew.mono fun _ => List.mem_append_right _).layoutAfter hnodup
    simp only [declarationsCode, layoutAfterDeclarations, evalDeclarations, List.length_append,
      ← Nat.add_assoc] at hat ⊢
    refine (hd.simulates hfits (by omega) hat.left hc).bind fun s' c' hc' => ?_
    exact ih hfits' (List.nodup_append.mp hnodup).2.1 hnew' (by omega) hat.right hc'

/-! ### Commands -/

theorem Accepts.receive_eq {formal : Option Builtin.Formal} {a : Argument} {ds : Decoration}
    (h : Accepts links Γ formal a ds) (hvalue : ∀ type, formal ≠ some ⟨type, true⟩) (w : Word) :
    receive links a w s = .finished s := by
  cases h with
  | none | value => rfl
  | reference => exact absurd rfl (hvalue _)

/-- A procedure does what it does to input and output, and stores what it reads. -/
theorem simulates_call {position : Position} {callee : Name} {a : Argument} {b : Builtin} {p : Primitive}
    {formal : Option Builtin.Formal} {ds : Decoration}
    (hlink : links.get? callee.id = some (.builtin b)) (hkind : b.kind = .routine p .void formal)
    (ha : Accepts links Γ formal a ds) (hfits : L.Fits Γ) (hsize : L.size ≤ Word.max)
    (hat : At code start (a.code links L ++ [Instruction.call p])) (hc : Matches L start s c) :
    Simulates I code n c (Command.eval I links n (.call position callee a) s)
      (Matches L (start + (a.code links L).length + 1)) := by
  have hprimitive := congrArg Builtin.Kind.primitive? hkind
  have hp := Builtin.convention_of_procedure hkind
  obtain ⟨stack, rfl, hstack⟩ := hc
  rw [Command.eval]
  by_cases href : ∃ type, formal = some ⟨type, true⟩
  · obtain ⟨type, rfl⟩ := href
    cases ha with
    | @reference _ name id _ hname hΓ =>
      obtain ⟨-, q, hq⟩ := hfits _ _ hΓ
      cases hq with
      | @var _ k hid =>
        -- the address is no operand: the word that the routine leads to goes there
        have hk := Layout.lt_size hid
        have hlt : k < stack.length := by rw [hstack.length_eq]; exact hk
        simp only [Argument.code, placeCode_var hname hid] at hat ⊢
        refine .of_step (step?_loadAddress hat.head) ?_
        show Simulates I code n _ (apply I links callee [] s.io >>= fun _ => _) _
        rw [apply_eq hlink hprimitive]
        refine (simulates_input hat.right.head hp (by omega) hlt).bind fun r d hd => ?_
        subst hd
        show Simulates I code n _ (assign links name r.1 ⟨s.store, r.2⟩) _
        rw [assign_eq hname]
        exact .pure ⟨_, rfl, hstack.set hid r.1⟩
  · have hvalue : ∀ type, formal ≠ some ⟨type, true⟩ := fun type h => href ⟨type, h⟩
    refine (ha.simulates hvalue hfits hsize hat.left hstack.holds).bind ?_
    rintro ⟨operands, io⟩ d ⟨hlength, hd⟩
    subst hd
    have hp' : p.convention = .procedure operands.length :=
      hlength ▸ Builtin.convention_of_value hkind hvalue
    show Simulates I code n _ (apply I links callee operands io >>= fun _ => _) _
    rw [apply_eq hlink hprimitive]
    refine (simulates_procedure operands hat.right.head hp').bind fun r d hd => ?_
    subst hd
    show Simulates I code n _ (receive links a r.1 ⟨s.store, r.2⟩) _
    rw [ha.receive_eq hvalue]
    exact .pure ⟨stack, rfl, hstack⟩

/-- The end of the body of a counting loop counts up. -/
theorem simulates_countUp {id : NodeId} {k : Nat} (hid : L.place? id = some (.slot true k))
    (hsize : L.size ≤ Word.max) (hat : At code start [loadSlot k, .call .succ, storeSlot k])
    (hc : Matches L start s c) : Simulates I code n c (do
        let (w, io) ← .ofOption (I .succ [s.store id] s.io)
        return (⟨s.store.set id w, io⟩ : World σ)) (Matches L (start + 3)) := by
  obtain ⟨stack, rfl, hstack⟩ := hc
  refine .of_step (step?_load_place hstack.holds hsize hid hat.head) ?_
  refine (simulates_function [s.store id] hat.tail.head rfl).bind fun r d hd => ?_
  have hpushed : Pushed L (start + 2) s.store r d := ⟨stack, hd, hstack⟩
  obtain ⟨e, hstep, he⟩ := hpushed.assign hid hsize hat.tail.tail.head
  exact .of_step hstep (.pure he)

/-- The test of a counting loop compares the variable with the bound. -/
theorem simulates_test {id : NodeId} {k : Nat} {last : Expr} {type : SimpleType} {ds : Decoration}
    (h : HasType links Γ last type ds) (hfits : L.Fits Γ) (hid : L.place? id = some (.slot true k))
    (hsize : L.size ≤ Word.max) (hat : At code start (loadSlot k :: (last.code links L ++ [Instruction.call .le])))
    (hc : Matches L start s c) : Simulates I code n c (do
        let (bound, io) ← last.eval I links s.store s.io
        .ofOption (I .le [s.store id, bound] io))
      (Pushed L (start + 1 + (last.code links L).length + 1) s.store) := by
  obtain ⟨stack, rfl, hstack⟩ := hc
  refine .of_step (step?_load_place hstack.holds hsize hid hat.head) ?_
  refine (h.simulates hfits hsize hat.tail.left (hstack.holds.append _)).bind ?_
  rintro ⟨bound, io⟩ d hd
  subst hd
  rw [List.append_assoc]
  refine (simulates_function [s.store id, bound] hat.tail.right.head rfl).imp fun r d hd => ?_
  exact ⟨stack, hd, hstack⟩

/-- A counting loop, given what its body does. -/
theorem simulates_for {position : Position} {counter : LoopVariable} {first last : Expr} {body : Command}
    {ds ds' : Decoration}
    (h₁ : HasType links (Γ.declare (.var counter.id) .integer) first .integer ds)
    (h₂ : HasType links (Γ.declare (.var counter.id) .integer) last .integer ds')
    (hfits : L.Fits Γ) (hnew : L.place? counter.id = none) (hsize : L.size ≤ start)
    (hcode : code.length ≤ Word.max)
    (hat : At code start
      (Command.code links (cappedTarget Word.max) L start (.for_ position counter first last body)))
    (hc : Matches L start s c)
    (hbody : ∀ {start : Nat} {s : World σ} {c : Config σ},
      (L.allocate counter.id true).Fits (Γ.declare (.var counter.id) .integer) →
      (L.allocate counter.id true).size ≤ start →
      At code start (body.code links (cappedTarget Word.max) (L.allocate counter.id true) start) →
      Matches (L.allocate counter.id true) start s c → Simulates I code n c (body.eval I links n s)
        (Matches (L.allocate counter.id true) (start +
          (body.code links (cappedTarget Word.max) (L.allocate counter.id true) start).length))) :
    Simulates I code n c (Command.eval I links n (.for_ position counter first last body) s)
      (Matches L (start +
        (Command.code links (cappedTarget Word.max) L start
          (.for_ position counter first last body)).length)) := by
  let inner := L.allocate counter.id true
  let begin_ := first.code links inner
  let bound := last.code links inner
  let init := Instruction.push 1 :: (begin_ ++ [storeSlot L.size])
  let top := start + init.length + 1
  let inside := body.code links (cappedTarget Word.max) inner top
  let loop := inside ++ [loadSlot L.size, .call .succ, storeSlot L.size]
  let bottom := top + loop.length
  let jump := bottom + 1 + bound.length + 1
  have hid : inner.place? counter.id = some (.slot true L.size) := Layout.place?_allocate_self _ _
  have hL : L.Extends inner := Layout.extends_allocate hnew true
  have hfits' : inner.Fits (Γ.declare (.var counter.id) .integer) := hfits.counter hnew
  have hinner : inner.size = L.size + 1 := rfl
  have hlength : start + (Command.code links (cappedTarget Word.max) L start
      (.for_ position counter first last body)).length = jump + 2 := by
    simp only [Command.code, List.length_append, List.length_cons, List.length_nil, jump, bottom, loop,
      inside, top, init, begin_, bound, inner]
    omega
  have htop : top ≤ jump := by
    simp only [jump, bottom]
    omega
  have hroom : inner.size ≤ top := by
    simp only [hinner, top]
    omega
  have hend := hat.length_le
  rw [hlength] at hend ⊢
  have hmax : inner.size ≤ Word.max := by omega
  replace hat : At code start (init ++ Instruction.jump (cappedTarget Word.max bottom) ::
      (loop ++ ((loadSlot L.size :: (bound ++ [Instruction.call .le])) ++
        [Instruction.jumpIf (Word.ofBool true) (cappedTarget Word.max top), .pop (Int16.ofNat 1)]))) := by
    simpa [Command.code, init, bottom, loop, inside, top, bound, begin_, inner] using hat
  have hatLoop : At code top (loop ++ ((loadSlot L.size :: (bound ++ [Instruction.call .le])) ++
      [Instruction.jumpIf (Word.ofBool true) (cappedTarget Word.max top), .pop (Int16.ofNat 1)])) := hat.right.tail
  have hatEnd : At code jump
      [.jumpIf (Word.ofBool true) (cappedTarget Word.max top), .pop (Int16.ofNat 1)] := by
    have htest : bottom + (loadSlot L.size :: (bound ++ [Instruction.call .le])).length = jump := by
      simp only [List.length_cons, List.length_append, List.length_nil, jump]
      omega
    exact htest ▸ hatLoop.right.right
  obtain ⟨stack, rfl, hstack⟩ := hc
  rw [Command.eval]
  -- the variable is there when the first value is computed
  refine .of_step (step?_push hat.left.head) ?_
  have hentered : Matches inner (start + 1) ⟨s.store.set counter.id 0, s.io⟩ ⟨start + 1, stack ++ [0], s.io⟩ :=
    ⟨stack ++ [0], rfl, hstack.allocate counter.id true 0⟩
  refine (h₁.pushes hfits' hmax hat.left.tail.left hentered).bind fun r d hd => ?_
  obtain ⟨e, hassign, he⟩ := hd.assign hid hmax hat.left.tail.right.head
  have hpc : start + 1 + (first.code links inner).length + 1 = start + init.length := by
    simp only [init, begin_, List.length_cons, List.length_append, List.length_nil]
    omega
  rw [hpc] at he
  obtain ⟨e', hjump, he'⟩ := he.jump hat.right.head (index?_cappedTarget (by omega))
  refine .of_step hassign (.of_step hjump ?_)
  -- from here on it is a loop with its test at the bottom, and then the scope ends
  refine (simulates_iterate hatEnd.head (index?_cappedTarget (by omega)) ?_ ?_ (Nat.le_refl n) he').follow ?_
  · intro s c hc
    exact simulates_test h₂ hfits' hid hmax hatLoop.right.left hc
  · intro s c hc
    have hbody' := hbody hfits' hroom hatLoop.left.left hc
    refine hbody'.bind fun s' c' hc' => ?_
    have hbottom : top + inside.length + 3 = bottom := by
      simp only [bottom, loop, List.length_append, List.length_cons, List.length_nil]
      omega
    rw [← hbottom]
    exact simulates_countUp hid hmax hatLoop.left.right hc'
  · intro s c hc
    exact hc.pop hL (by omega) hmax (by simpa [hinner] using hatEnd.tail.head)

end Phrases

mutual

/-- The machine follows a well-typed command whose names are new. -/
theorem WellTyped.simulates {σ : Type} {I : Interpretation σ} {code : List Instruction} {n : Nat}
    {links : Resolution} {Γ : Environment} {x : Command} {ds : Decoration} : WellTyped links Γ x ds →
      ∀ {L : Layout} {start : Nat} {s : World σ} {c : Config σ}, L.Fits Γ → x.ids.Nodup →
      L.Unplaced x.ids → L.size ≤ start → code.length ≤ Word.max →
      At code start (x.code links (cappedTarget Word.max) L start) → Matches L start s c →
      Simulates I code n c (x.eval I links n s)
        (Matches L (start + (x.code links (cappedTarget Word.max) L start).length))
  | .assign hlink hΓ h, L, start, s, c, hfits, _, _, hsize, hcode, hat, hc => by
    have hroom := hat.length_le
    obtain ⟨-, p, hp⟩ := hfits _ _ hΓ
    cases hp with
    | var hid =>
      simp only [Command.code, placeCode_var hlink hid, List.length_append, ← Nat.add_assoc] at hat ⊢
      rw [Command.eval]
      refine (h.pushes hfits (by omega) hat.left hc).bind ?_
      rintro ⟨w, io⟩ d hd
      obtain ⟨e, hstep, he⟩ := hd.assign hid (by omega) hat.right.head
      refine .of_step hstep ?_
      show Simulates I code n _ (assign links _ w ⟨s.store, io⟩) _
      rw [assign_eq hlink]
      exact .pure he
  | .blank, L, start, s, c, _, _, _, _, _, _, hc => by
    rw [Command.eval, Command.code]
    exact .pure hc
  | .call hlink hkind ha, L, start, s, c, hfits, _, _, hsize, hcode, hat, hc => by
    have hroom := hat.length_le
    have hprimitive := congrArg Builtin.Kind.primitive? hkind
    simp only [Command.code, callCode_eq hlink hprimitive, List.length_append, ← Nat.add_assoc] at hat ⊢
    exact simulates_call hlink hkind ha hfits (by omega) hat hc
  | @WellTyped.ifThen _ _ _ condition body _ _ h₁ h₂, L, start, s, c, hfits, hnodup, hnew, hsize, hcode,
      hat, hc => by
    let inside := start + (condition.code links L).length + 1
    let taken := body.code links (cappedTarget Word.max) L inside
    have hroom := hat.length_le
    simp only [Command.code] at hat hroom ⊢
    have hend : start + (condition.code links L ++ .jumpIf (Word.ofBool false)
        (cappedTarget Word.max (inside + taken.length)) :: taken).length = inside + taken.length := by
      simp only [List.length_append, List.length_cons, inside]
      omega
    rw [hend] at hroom ⊢
    have hskip : inside + taken.length ≤ Word.max := by omega
    rw [Command.eval]
    refine (h₁.pushes hfits (by omega) hat.left hc).bind ?_
    rintro ⟨w, io⟩ d hd
    obtain ⟨e, hstep, he⟩ := hd.branch hat.right.head (index?_cappedTarget hskip)
    refine .of_step hstep ?_
    dsimp only at he ⊢
    split
    · rename_i hw
      rw [if_pos hw] at he
      exact .pure he
    · rename_i hw
      rw [if_neg hw] at he
      exact h₂.simulates hfits (List.nodup_append.mp hnodup).2.1
        (hnew.mono fun _ => List.mem_append_right _) (by omega) hcode hat.right.tail he
  | @WellTyped.ifElse _ _ _ condition positive negative _ _ _ h₁ h₂ h₃, L, start, s, c, hfits, hnodup,
      hnew, hsize, hcode, hat, hc => by
    let inside := start + (condition.code links L).length + 1
    let taken := positive.code links (cappedTarget Word.max) L inside
    let otherwise := inside + taken.length + 1
    let other := negative.code links (cappedTarget Word.max) L otherwise
    have hroom := hat.length_le
    simp only [Command.code] at hat hroom ⊢
    have hend : start + (condition.code links L ++ .jumpIf (Word.ofBool false)
        (cappedTarget Word.max otherwise) :: (taken ++ .jump (cappedTarget Word.max
          (otherwise + other.length)) :: other)).length = otherwise + other.length := by
      simp only [List.length_append, List.length_cons, inside, otherwise]
      omega
    rw [hend] at hroom ⊢
    have hleave : otherwise + other.length ≤ Word.max := by omega
    have hskip : otherwise ≤ Word.max := by omega
    obtain ⟨-, hnodup, -⟩ := List.nodup_append.mp hnodup
    replace hnew := hnew.mono fun _ => List.mem_append_right _
    rw [Command.eval]
    refine (h₁.pushes hfits (by omega) hat.left hc).bind ?_
    rintro ⟨w, io⟩ d hd
    obtain ⟨e, hstep, he⟩ := hd.branch hat.right.head (index?_cappedTarget hskip)
    refine .of_step hstep ?_
    dsimp only at he ⊢
    split
    · rename_i hw
      rw [if_pos hw] at he
      exact h₃.simulates hfits (List.nodup_append.mp hnodup).2.1
        (hnew.mono fun _ => List.mem_append_right _) (by omega) hcode hat.right.tail.right.tail he
    · rename_i hw
      rw [if_neg hw] at he
      refine (h₂.simulates hfits (List.nodup_append.mp hnodup).1
        (hnew.mono fun _ => List.mem_append_left _) (by omega) hcode hat.right.tail.left he).follow
        fun s' c' hc' => ?_
      exact hc'.jump hat.right.tail.right.head (index?_cappedTarget hleave)
  | @WellTyped.while_ _ _ _ condition body _ _ h₁ h₂, L, start, s, c, hfits, hnodup, hnew, hsize, hcode,
      hat, hc => by
    let top := start + 1
    let loop := body.code links (cappedTarget Word.max) L top
    let bottom := top + loop.length
    let jump := bottom + (condition.code links L).length
    have hroom := hat.length_le
    simp only [Command.code] at hat hroom ⊢
    have hend : start + (Instruction.jump (cappedTarget Word.max bottom) :: (loop ++
        (condition.code links L ++ [Instruction.jumpIf (Word.ofBool true) (cappedTarget Word.max top)]))).length =
          jump + 1 := by
      simp only [List.length_append, List.length_cons, List.length_nil, jump, bottom, top]
      omega
    rw [hend] at hroom ⊢
    -- the machine enters the loop at its test
    have hle : L.size ≤ Word.max := by omega
    have hbottom : bottom ≤ Word.max := by omega
    obtain ⟨e, hstep, he⟩ := hc.jump hat.head (index?_cappedTarget hbottom)
    rw [Command.eval]
    refine .of_step hstep (simulates_iterate hat.tail.right.right.head (index?_cappedTarget (by omega))
      ?_ ?_ (Nat.le_refl n) he)
    · intro s c hc
      exact h₁.pushes hfits hle hat.tail.right.left hc
    · intro s c hc
      exact h₂.simulates hfits (List.nodup_append.mp hnodup).2.1
        (hnew.mono fun _ => List.mem_append_right _) (by omega) hcode hat.tail.left hc
  | @WellTyped.for_ _ _ position counter first last body _ _ _ h₁ h₂ h₃, L, start, s, c, hfits, hnodup,
      hnew, hsize, hcode, hat, hc => by
    have hids := within_for position counter first last body
    have hnodup' := hids.nodup hnodup
    have hnew' := hnew.mono fun _ => hids.mem
    refine simulates_for h₁ h₂ hfits (hnew' _ List.mem_cons_self) hsize hcode hat hc ?_
    intro start s c hfits' hsize' hat' hc'
    exact h₃.simulates hfits' (List.nodup_cons.mp hnodup').2 (hnew'.allocate hnodup' true) hsize' hcode hat' hc'
  | @WellTyped.let_ _ _ _ _ declaration body _ _ h₁ h₂, L, start, s, c, hfits, hnodup, hnew, hsize, hcode,
      hat, hc => by
    have hroom := hat.length_le
    obtain ⟨hdeclared, hbody, -⟩ := List.nodup_append.mp hnodup
    have hnew₁ : L.Unplaced (declarationIds declaration.parts) :=
      hnew.mono fun _ => List.mem_append_left _
    have hnew₂ := (hnew.mono fun _ => List.mem_append_right _).layoutAfterDeclarations hnodup
    have hgrowth := h₁.size_le hfits hdeclared hnew₁
    simp only [Command.code, List.length_append, ← Nat.add_assoc] at hat hroom ⊢
    rw [Command.eval]
    refine (h₁.simulates hfits hdeclared hnew₁ hsize hcode hat.left hc).bind fun s' c' hc' => ?_
    refine (h₂.simulates (h₁.fits hfits hdeclared hnew₁) hbody hnew₂ (by omega) hcode hat.right.left
      hc').follow fun s'' c'' hc'' => ?_
    exact hc''.pop (extends_layoutAfterDeclarations hnew₁) hgrowth.1 (by omega) hat.right.right.head
  | .sequential h, L, start, s, c, hfits, hnodup, hnew, hsize, hcode, hat, hc => by
    simp only [Command.code] at hat ⊢
    rw [Command.eval]
    exact h.simulates hfits hnodup hnew hsize hcode hat hc

theorem AllWellTyped.simulates {σ : Type} {I : Interpretation σ} {code : List Instruction} {n : Nat}
    {links : Resolution} {Γ : Environment} {parts : List Command} {ds : Decoration} :
      AllWellTyped links Γ parts ds →
      ∀ {L : Layout} {start : Nat} {s : World σ} {c : Config σ}, L.Fits Γ → (commandIds parts).Nodup →
      L.Unplaced (commandIds parts) → L.size ≤ start → code.length ≤ Word.max →
      At code start (commandsCode links (cappedTarget Word.max) L start parts) → Matches L start s c →
      Simulates I code n c (evalCommands I links n parts s)
        (Matches L (start + (commandsCode links (cappedTarget Word.max) L start parts).length))
  | .nil, L, start, s, c, _, _, _, _, _, _, hc => by
    rw [evalCommands, commandsCode]
    exact .pure hc
  | .cons h hrest, L, start, s, c, hfits, hnodup, hnew, hsize, hcode, hat, hc => by
    obtain ⟨hfirst, hothers, -⟩ := List.nodup_append.mp hnodup
    simp only [commandsCode, List.length_append, ← Nat.add_assoc] at hat ⊢
    rw [evalCommands]
    refine (h.simulates hfits hfirst (hnew.mono fun _ => List.mem_append_left _) hsize hcode hat.left
      hc).bind fun s' c' hc' => ?_
    exact hrest.simulates hfits hothers (hnew.mono fun _ => List.mem_append_right _) (by omega) hcode
      hat.right hc'

end

end Typing

end TriangleCompiler
