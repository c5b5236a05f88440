import TriangleCompiler.Proofs.Generation.Emission

/-! Code as it depends on where it starts and on the targets of its jumps. Its length depends on neither,
    and other targets change nothing but the operands of the jumps. -/

namespace TriangleCompiler

open Machine (Entity Instruction Word)
open Generation

/-! ### Lengths -/

section Lengths
variable (links : Resolution) (target target' : Nat → Word)

mutual

/-- Code has the same length wherever it starts and wherever its jumps go. -/
theorem Command.length_code : ∀ (c : Command) (L : Layout) (start start' : Nat),
    (c.code links target L start).length = (c.code links target' L start').length
  | .assign _ _ _, L, start, start' | .blank _, L, start, start' | .error _, L, start, start'
  | .call _ _ _, L, start, start' => by rw [Command.code, Command.code]
  | .ifThen _ condition body, L, start, start' => by
    simp only [Command.code, List.length_append, List.length_cons]
    rw [body.length_code L _ (start' + (condition.code links L).length + 1)]
  | .ifElse _ condition positive negative, L, start, start' => by
    simp only [Command.code, List.length_append, List.length_cons]
    rw [positive.length_code L _ (start' + (condition.code links L).length + 1), negative.length_code L _ _]
  | .while_ _ condition body, L, start, start' => by
    simp only [Command.code, List.length_append, List.length_cons]
    rw [body.length_code L _ (start' + 1)]
  | .for_ _ counter first last body, L, start, start' => by
    simp only [Command.code, List.length_append, List.length_cons]
    rw [body.length_code (L.allocate counter.id true) _ _]
  | .let_ _ declaration body, L, start, start' => by
    simp only [Command.code, List.length_append]
    rw [body.length_code (layoutAfterDeclarations L declaration.parts) _ _]
  | .sequential _ parts, L, start, start' => by
    rw [Command.code, Command.code]
    exact length_commandsCode parts L start start'

theorem length_commandsCode : ∀ (cs : List Command) (L : Layout) (start start' : Nat),
    (commandsCode links target L start cs).length = (commandsCode links target' L start' cs).length
  | [], L, start, start' => by rw [commandsCode, commandsCode]
  | c :: rest, L, start, start' => by
    simp only [commandsCode, List.length_append]
    rw [c.length_code L start start', length_commandsCode rest L _ _]

end

end Lengths

theorem commandsCode_append (links : Resolution) (target : Nat → Word) (L : Layout) (start : Nat)
    (cs cs' : List Command) : commandsCode links target L start (cs ++ cs') =
      commandsCode links target L start cs ++
        commandsCode links target L (start + (commandsCode links target L start cs).length) cs' := by
  induction cs generalizing start with
  | nil => simp [commandsCode]
  | cons c cs ih => simp [commandsCode, ih, Nat.add_assoc]

/-! ### Targets -/

/-- An instruction with another target, if it is a jump. -/
def Machine.Instruction.redirect (f : Word → Word) (i : Instruction) : Instruction :=
  if i.isJump then { i with operand := f i.operand } else i

section Targets
variable {links : Resolution} {target target' : Nat → Word} {f : Word → Word}

theorem redirect_of_not_jump {i : Instruction} (h : i.isJump = false) : i.redirect f = i := by
  rw [Instruction.redirect, h, if_neg Bool.false_ne_true]

theorem redirect_id (i : Instruction) : i.redirect id = i := by
  unfold Instruction.redirect
  split <;> rfl

theorem redirect_jump (w : Word) : (Instruction.jump w).redirect f = .jump (f w) := rfl

theorem redirect_jumpIf (value w : Word) : (Instruction.jumpIf value w).redirect f = .jumpIf value (f w) := rfl

/-- Code without a jump. -/
def Straight (is : List Instruction) : Prop := ∀ i ∈ is, i.isJump = false

theorem Straight.map_redirect {is : List Instruction} (h : Straight is) :
    is.map (Instruction.redirect f) = is := by
  rw [List.map_congr_left fun i hi => redirect_of_not_jump (h i hi), List.map_id']

theorem Straight.append {is js : List Instruction} (h : Straight is) (h' : Straight js) :
    Straight (is ++ js) := List.forall_mem_append.mpr ⟨h, h'⟩

theorem straight_literalCode (value : Option Word) : Straight (literalCode value) := by
  intro i hi
  obtain ⟨w, -, rfl⟩ := List.mem_map.mp hi
  rfl

theorem straight_callCode (name : Name) : Straight (callCode links name) := by
  intro i hi
  unfold callCode at hi
  split at hi
  · obtain ⟨w, -, rfl⟩ := List.mem_map.mp hi
    rfl
  · cases hi

theorem straight_placeCode {L : Layout} {g : Entity → Option Instruction} (name : Name)
    (hg : ∀ e i, g e = some i → i.isJump = false) : Straight (placeCode links L g name) := by
  intro i hi
  unfold placeCode at hi
  split at hi
  · obtain ⟨p, -, hp⟩ := Option.bind_eq_some_iff.mp (Option.mem_toList.mp hi)
    exact hg _ i hp
  · obtain ⟨p, -, hp⟩ := Option.bind_eq_some_iff.mp (Option.mem_toList.mp hi)
    exact hg _ i hp
  · cases hi

theorem isJump_load (e : Entity) : e.load.isJump = false := by cases e <;> rfl

theorem isJump_loadAddress {e : Entity} {i : Instruction} (h : e.loadAddress? = some i) :
    i.isJump = false := by
  cases e with
  | var => cases h; rfl
  | known | stored => cases h

theorem isJump_store {e : Entity} {i : Instruction} (h : e.store? = some i) : i.isJump = false := by
  cases e with
  | var => cases h; rfl
  | known | stored => cases h

theorem straight_loadCode {L : Layout} (name : Name) : Straight (loadCode links L name) := by
  unfold loadCode
  split
  · split
    · intro i hi
      rw [List.mem_singleton.mp hi]
      rfl
    · intro i hi
      cases hi
  · refine straight_placeCode name fun e i h => ?_
    cases h
    exact isJump_load e

mutual

theorem Expr.straight (L : Layout) : (e : Expr) → Straight (e.code links L)
  | .int _ _ | .char _ _ => straight_literalCode _
  | .name _ name => straight_loadCode name
  | .call _ callee argument => (argument.straight L).append (straight_callCode callee)
  | .unary _ op operand => (operand.straight L).append (straight_callCode op)
  | .binary _ op lhs rhs => (lhs.straight L).append ((rhs.straight L).append (straight_callCode op))
  | .error _ => fun _ h => nomatch h

theorem Argument.straight (L : Layout) : (a : Argument) → Straight (a.code links L)
  | .blank _ | .error _ => fun _ h => nomatch h
  | .value _ expr => expr.straight L
  | .var _ name => straight_placeCode name fun _ _ => isJump_loadAddress

end

theorem straight_declarationsCode (L : Layout) (ds : List SingleDeclaration) :
    Straight (declarationsCode links L ds) := by
  induction ds generalizing L with
  | nil => exact fun _ h => nomatch h
  | cons d ds ih =>
    refine Straight.append ?_ (ih _)
    cases d with
    | const tag name value =>
      rw [SingleDeclaration.code]
      split
      · exact fun _ h => nomatch h
      · exact value.straight L
    | var tag name type =>
      intro i hi
      rw [List.mem_singleton.mp hi]
      rfl
    | error => exact fun _ h => nomatch h

mutual

/-- Code with other targets is the code with its jumps redirected. Only addresses inside the code and the
    one right behind it are targets. -/
theorem Command.map_redirect_code : ∀ (c : Command) {L : Layout} {start : Nat},
    (∀ a ≤ start + (c.code links target L start).length, f (target a) = target' a) →
      (c.code links target L start).map (Instruction.redirect f) = c.code links target' L start
  | .assign _ name value, L, start, _ =>
    ((value.straight L).append (straight_placeCode name fun _ _ => isJump_store)).map_redirect
  | .blank _, L, start, _ | .error _, L, start, _ => rfl
  | .call _ callee argument, L, start, _ =>
    ((argument.straight L).append (straight_callCode callee)).map_redirect
  | .ifThen _ condition body, L, start, h => by
    simp only [Command.code, List.length_append, List.length_cons] at h ⊢
    rw [← body.map_redirect_code fun a ha => h a (by omega), List.length_map, ← h _ (by omega)]
    simp only [List.map_append, List.map_cons, (condition.straight L).map_redirect, redirect_jumpIf]
  | .ifElse _ condition positive negative, L, start, h => by
    simp only [Command.code, List.length_append, List.length_cons] at h ⊢
    rw [← positive.map_redirect_code fun a ha => h a (by omega), List.length_map,
      ← negative.map_redirect_code fun a ha => h a (by omega), List.length_map, ← h _ (by omega),
      ← h _ (by omega)]
    simp only [List.map_append, List.map_cons, (condition.straight L).map_redirect, redirect_jumpIf,
      redirect_jump]
  | .while_ _ condition body, L, start, h => by
    simp only [Command.code, List.length_append, List.length_cons] at h ⊢
    rw [← body.map_redirect_code fun a ha => h a (by omega), List.length_map, ← h _ (by omega),
      ← h _ (by omega)]
    simp only [List.map_append, List.map_cons, List.map_nil, (condition.straight L).map_redirect,
      redirect_jumpIf, redirect_jump]
  | .for_ _ counter first last body, L, start, h => by
    simp only [Command.code, List.length_append, List.length_cons, List.length_nil] at h ⊢
    rw [← body.map_redirect_code fun a ha => h a (by omega), List.length_map, ← h _ (by omega),
      ← h _ (by omega)]
    simp only [List.map_append, List.map_cons, List.map_nil, (first.straight _).map_redirect,
      (last.straight _).map_redirect, redirect_jumpIf, redirect_jump]
    rfl
  | .let_ _ declaration body, L, start, h => by
    simp only [Command.code, List.length_append] at h ⊢
    rw [← body.map_redirect_code fun a ha => h a (by omega)]
    simp only [List.map_append, (straight_declarationsCode L _).map_redirect]
    rfl
  | .sequential _ parts, L, start, h => map_redirect_commandsCode parts h

theorem map_redirect_commandsCode : ∀ (cs : List Command) {L : Layout} {start : Nat},
    (∀ a ≤ start + (commandsCode links target L start cs).length, f (target a) = target' a) →
      (commandsCode links target L start cs).map (Instruction.redirect f) =
        commandsCode links target' L start cs
  | [], L, start, _ => rfl
  | c :: rest, L, start, h => by
    simp only [commandsCode, List.length_append] at h ⊢
    rw [← c.map_redirect_code fun a ha => h a (by omega), List.length_map,
      ← map_redirect_commandsCode rest fun a ha => h a (by omega), List.map_append]

end

end Targets

/-! ### Programs -/

theorem Program.length_fullCode (p : Program) (links : Resolution) (target target' : Nat → Word) :
    (p.fullCode links target).length = (p.fullCode links target').length := by
  rw [Program.fullCode, Program.fullCode, List.length_append, List.length_append,
    p.command.length_code links target target' .empty 0 0]

theorem Program.map_redirect_fullCode {p : Program} {links : Resolution} {target target' : Nat → Word}
    {f : Word → Word} (h : ∀ a ≤ (p.fullCode links target).length, f (target a) = target' a) :
    (p.fullCode links target).map (Instruction.redirect f) = p.fullCode links target' := by
  rw [Program.fullCode, List.length_append] at h
  rw [Program.fullCode, Program.fullCode, List.map_append,
    p.command.map_redirect_code fun a ha => h a (by omega)]
  rfl

/-- As long as there is room no target is capped. -/
theorem Program.fullCode_cappedTarget {p : Program} {links : Resolution} {limit : Nat}
    (h : (p.fullCode links Int16.ofNat).length ≤ limit) :
    p.fullCode links (cappedTarget limit) = p.fullCode links Int16.ofNat := by
  have hsame : (p.fullCode links Int16.ofNat).map (Instruction.redirect id) =
      p.fullCode links (cappedTarget limit) := by
    refine Program.map_redirect_fullCode fun a ha => ?_
    rw [cappedTarget, Nat.min_eq_left (by omega)]
    rfl
  rw [← hsame, List.map_congr_left fun i _ => redirect_id i, List.map_id']

end TriangleCompiler
