import TriangleCompiler.Proofs.Generation.Heights
import TriangleCompiler.Proofs.Generation.Targets
import TriangleCompiler.Proofs.Program.Frames

/-! The code of a command that is somewhere in a program. The frames around the command give the layout that
    it has and the address where its code starts. Its code is a block: the jumps in it go behind its first
    instruction, and no further than right behind its last one. -/

namespace TriangleCompiler

open Generation Machine Typing

/-! ### Where code starts -/

namespace CommandFrame

variable (links : Resolution) (target : Nat → Word)

/-- The layout of what is in the frame. -/
def layout (L : Layout) : CommandFrame → Layout
  | for_ _ counter _ _ => L.allocate counter.id true
  | let_ _ declaration => layoutAfterDeclarations L declaration.parts
  | ifThen _ _ | positive _ _ _ | negative _ _ _ | while_ _ _ | part _ _ _ => L

/-- The number of instructions in front of what is in the frame. -/
def offset (L : Layout) (start : Nat) : CommandFrame → Nat
  | ifThen _ condition | positive _ condition _ => (condition.code links L).length + 1
  | negative _ condition other =>
    let inside := (condition.code links L).length + 1
    inside + (other.code links target L (start + inside)).length + 1
  | while_ _ _ => 1
  | for_ _ counter first _ => (first.code links (L.allocate counter.id true)).length + 3
  | let_ _ declaration => (declarationsCode links L declaration.parts).length
  | part _ before _ => (commandsCode links target L start before).length

/-- The layout of what is in all of these frames. -/
def layoutAll (L : Layout) (fs : List CommandFrame) : Layout := fs.foldl layout L

/-- The address where the code of what is in all of these frames starts. -/
def address (L : Layout) (start : Nat) : List CommandFrame → Nat
  | [] => start
  | f :: fs => address (f.layout L) (start + f.offset links target L start) fs

end CommandFrame

/-- A well-typed command whose code starts at the address `start`. When the machine comes there the stack is
    as high as the layout says. -/
structure Stands (links : Resolution) (code : List Instruction) (L : Layout) (start : Nat) (c : Command) :
    Prop where
  typed : ∃ Γ ds, L.Fits Γ ∧ WellTyped links Γ c ds
  nodup : c.ids.Nodup
  unplaced : L.Unplaced c.ids
  size_le : L.size ≤ start
  located : At code start (c.code links (cappedTarget Word.max) L start)
  height : heightAfter 0 (code.take start) = L.size

namespace Typing

theorem AllWellTyped.append {links : Resolution} {Γ : Environment} {before after : List Command}
    {ds : Decoration} (h : AllWellTyped links Γ (before ++ after) ds) :
    (∃ ds', AllWellTyped links Γ before ds') ∧ ∃ ds', AllWellTyped links Γ after ds' := by
  induction before generalizing ds with
  | nil => exact ⟨⟨[], .nil⟩, ds, h⟩
  | cons c before ih =>
    cases h with
    | cons hc hrest =>
      obtain ⟨⟨ds', hbefore⟩, hafter⟩ := ih hrest
      exact ⟨⟨_, .cons hc hbefore⟩, hafter⟩

end Typing

section Stands
variable {links : Resolution} {code : List Instruction} {L : Layout} {start : Nat} {c : Command}

theorem Generation.At.getElem? {piece : List Instruction} {a : Nat} (hat : At code start piece) (hlo : start ≤ a)
    (hhi : a < start + piece.length) : code[a]? = piece[a - start]? := by
  obtain ⟨pre, post, rfl, rfl⟩ := hat
  rw [List.getElem?_append_right hlo, List.getElem?_append_left (by omega)]

/-- The height of the stack behind a first part of some code. -/
theorem Generation.At.heightAfter_eq {P : Word → Nat → Prop} {before rest : List Instruction} {h h' : Nat}
    (hat : At code start (before ++ rest)) (hflows : Flows P h before h')
    (hheight : heightAfter 0 (code.take start) = h) :
    heightAfter 0 (code.take (start + before.length)) = h' := by
  obtain ⟨pre, post, rfl, rfl⟩ := hat
  rw [List.take_left] at hheight
  rw [List.append_assoc, ← List.append_assoc pre, ← List.length_append, List.take_left, heightAfter_append,
    hheight, hflows.heightAfter_eq]

/-- The height of the stack behind one instruction. -/
theorem Machine.heightAfter_take_succ {i : Instruction} {h taken given : Nat} (hi : code[start]? = some i)
    (heffect : i.effect? = some (taken, given)) (hheight : heightAfter 0 (code.take start) = h + taken) :
    heightAfter 0 (code.take (start + 1)) = h + given := by
  rw [List.take_add_one, hi, heightAfter_append, hheight]
  exact heightAfter_cons heffect h

/-- In a command that stands somewhere, its parts stand where their frames say. -/
theorem Stands.inside {f : CommandFrame} (h : Stands links code L start (f.plug c))
    (hcode : code.length ≤ Word.max) :
    Stands links code (f.layout L) (start + f.offset links (cappedTarget Word.max) L start) c := by
  obtain ⟨⟨Γ, ds, hfits, htyped⟩, hnodup, hnew, hsize, hat, hheight⟩ := h
  have htarget : ∀ a ≤ Word.max, (cappedTarget Word.max a).index? = some a := fun _ => index?_cappedTarget
  have hroom := Nat.le_trans hat.length_le hcode
  have hmax : L.size ≤ Word.max := by omega
  cases f with
  | ifThen position condition =>
    cases htyped with
    | ifThen h₁ h₂ =>
      simp only [CommandFrame.plug, Command.code] at hat
      have htest := hat.heightAfter_eq (h₁.flows (P := fun _ _ => True) hfits hmax (Nat.le_refl _)) hheight
      exact ⟨⟨Γ, _, hfits, h₂⟩, (List.nodup_append.mp hnodup).2.1, hnew.mono fun _ => List.mem_append_right _,
        Nat.le_add_right_of_le hsize, hat.right.tail, heightAfter_take_succ hat.right.head rfl htest⟩
  | positive position condition other =>
    cases htyped with
    | ifElse h₁ h₂ h₃ =>
      simp only [CommandFrame.plug, Command.code] at hat
      have htest := hat.heightAfter_eq (h₁.flows (P := fun _ _ => True) hfits hmax (Nat.le_refl _)) hheight
      exact ⟨⟨Γ, _, hfits, h₂⟩, (List.nodup_append.mp (List.nodup_append.mp hnodup).2.1).1,
        hnew.mono fun _ hid => List.mem_append_right _ (List.mem_append_left _ hid),
        Nat.le_add_right_of_le hsize, hat.right.tail.left, heightAfter_take_succ hat.right.head rfl htest⟩
  | negative position condition other =>
    cases htyped with
    | ifElse h₁ h₂ h₃ =>
      simp only [CommandFrame.plug, Command.code, List.length_append, List.length_cons] at hat hroom
      obtain ⟨-, hnodup, -⟩ := List.nodup_append.mp hnodup
      have htest := hat.heightAfter_eq (h₁.flows (P := fun _ _ => True) hfits hmax (Nat.le_refl _)) hheight
      have htaken := hat.right.tail.heightAfter_eq (h₂.flows htarget _ hfits (List.nodup_append.mp hnodup).1
        (hnew.mono fun _ hid => List.mem_append_right _ (List.mem_append_left _ hid)) (by omega) (by omega))
        (heightAfter_take_succ hat.right.head rfl htest)
      simp only [CommandFrame.offset, ← Nat.add_assoc]
      exact ⟨⟨Γ, _, hfits, h₃⟩, (List.nodup_append.mp hnodup).2.1,
        hnew.mono fun _ hid => List.mem_append_right _ (List.mem_append_right _ hid),
        by simp only [CommandFrame.layout]; omega, hat.right.tail.right.tail,
        heightAfter_take_succ hat.right.tail.right.head rfl htaken⟩
  | while_ position condition =>
    cases htyped with
    | while_ h₁ h₂ =>
      simp only [CommandFrame.plug, Command.code] at hat
      exact ⟨⟨Γ, _, hfits, h₂⟩, (List.nodup_append.mp hnodup).2.1, hnew.mono fun _ => List.mem_append_right _,
        Nat.le_add_right_of_le hsize, hat.tail.left, heightAfter_take_succ (h := L.size) hat.head rfl hheight⟩
  | for_ position counter first last =>
    cases htyped with
    | for_ h₁ h₂ h₃ =>
      have hids := within_for position counter first last c
      have hnodup' := hids.nodup hnodup
      have hnew' := hnew.mono fun _ => hids.mem
      have hfits' := hfits.counter (hnew' _ List.mem_cons_self)
      simp only [CommandFrame.plug, Command.code] at hat hroom
      have hinner : (L.allocate counter.id true).size = L.size + 1 := rfl
      have hlength : (Instruction.push 1 :: (first.code links (L.allocate counter.id true) ++
          [storeSlot L.size])).length = (first.code links (L.allocate counter.id true)).length + 2 := by
        simp
      simp only [List.length_append, hlength] at hroom
      have hinit := hat.heightAfter_eq (flows_push.append ((h₁.flows (P := fun _ _ => True) hfits' (by omega)
        (Nat.le_refl _)).append (flows_storeSlot hmax (Nat.lt_succ_self _)))) hheight
      have hjump := heightAfter_take_succ (h := L.size + 1) hat.right.head rfl hinit
      have hbody := hat.right.tail.left.left
      rw [hlength] at hjump hbody
      refine ⟨⟨_, _, hfits', h₃⟩, (List.nodup_cons.mp hnodup').2, hnew'.allocate hnodup' true, ?_,
        hbody, hjump⟩
      simp only [CommandFrame.layout, CommandFrame.offset]
      omega
  | let_ position declaration =>
    cases htyped with
    | let_ h₁ h₂ =>
      obtain ⟨hdeclared, hbody, -⟩ := List.nodup_append.mp hnodup
      have hnew₁ : L.Unplaced (declarationIds declaration.parts) := hnew.mono fun _ => List.mem_append_left _
      have hnew₂ := (hnew.mono fun _ => List.mem_append_right _).layoutAfterDeclarations hnodup
      have hgrowth := h₁.size_le hfits hdeclared hnew₁
      simp only [CommandFrame.plug, Command.code, List.length_append] at hat hroom
      refine ⟨⟨_, _, h₁.fits hfits hdeclared hnew₁, h₂⟩, hbody, hnew₂, ?_, hat.right.left,
        hat.heightAfter_eq (h₁.flows (P := fun _ _ => True) hfits hdeclared hnew₁ (by omega)) hheight⟩
      simp only [CommandFrame.layout, CommandFrame.offset]
      omega
  | part position before after =>
    cases htyped with
    | sequential h =>
      obtain ⟨⟨ds', hbefore⟩, ds'', hrest⟩ := h.append
      simp only [CommandFrame.plug, Command.ids, commandIds_append, commandIds] at hnodup hnew
      simp only [CommandFrame.plug, Command.code, commandsCode_append, commandsCode, List.length_append]
        at hat hroom
      obtain ⟨hnodup₁, hnodup₂, -⟩ := List.nodup_append.mp hnodup
      cases hrest with
      | cons h₂ _ =>
        have hflows := hbefore.flows htarget start hfits hnodup₁ (hnew.mono fun _ => List.mem_append_left _) hsize
          (by omega)
        exact ⟨⟨Γ, _, hfits, h₂⟩, (List.nodup_append.mp hnodup₂).1,
          hnew.mono fun _ hid => List.mem_append_right _ (List.mem_append_left _ hid),
          Nat.le_add_right_of_le hsize, hat.right.left, hat.heightAfter_eq hflows hheight⟩

/-- The same in any number of frames. -/
theorem Stands.inside_all {fs : List CommandFrame} (h : Stands links code L start (CommandFrame.plugAll fs c))
    (hcode : code.length ≤ Word.max) : Stands links code (CommandFrame.layoutAll L fs)
      (CommandFrame.address links (cappedTarget Word.max) L start fs) c := by
  induction fs generalizing L start with
  | nil => exact h
  | cons f fs ih => exact ih (Stands.inside (f := f) h hcode)

end Stands

/-! ### Code as a block -/

/-- Jumps lead behind the address `lo`, and not behind the address `hi`. -/
def JumpsBetween (target : Nat → Word) (lo hi : Nat) (is : List Instruction) : Prop :=
  ∀ i ∈ is, i.isJump = true → ∃ a, i.operand = target a ∧ lo < a ∧ a ≤ hi

section Blocks
variable {links : Resolution} {target : Nat → Word} {lo hi : Nat} {is js : List Instruction}

theorem Straight.jumpsBetween (h : Straight is) : JumpsBetween target lo hi is := by
  intro i hi hjump
  rw [h i hi] at hjump
  cases hjump

namespace JumpsBetween

theorem append (h : JumpsBetween target lo hi is) (h' : JumpsBetween target lo hi js) :
    JumpsBetween target lo hi (is ++ js) := List.forall_mem_append.mpr ⟨h, h'⟩

theorem jump {a : Nat} (hlo : lo < a) (hhi : a ≤ hi) (h : JumpsBetween target lo hi is) :
    JumpsBetween target lo hi (.jump (target a) :: is) :=
  List.forall_mem_cons.mpr ⟨fun _ => ⟨a, rfl, hlo, hhi⟩, h⟩

theorem jumpIf {v : Word} {a : Nat} (hlo : lo < a) (hhi : a ≤ hi) (h : JumpsBetween target lo hi is) :
    JumpsBetween target lo hi (.jumpIf v (target a) :: is) :=
  List.forall_mem_cons.mpr ⟨fun _ => ⟨a, rfl, hlo, hhi⟩, h⟩

theorem plain {i : Instruction} (hi' : i.isJump = false) (h : JumpsBetween target lo hi is) :
    JumpsBetween target lo hi (i :: is) := by
  refine List.forall_mem_cons.mpr ⟨fun hjump => ?_, h⟩
  rw [hi'] at hjump
  cases hjump

theorem nil : JumpsBetween target lo hi [] := fun _ h => by cases h

theorem mono {lo' hi' : Nat} (h : JumpsBetween target lo hi is) (hlo : lo' ≤ lo) (hhi : hi ≤ hi') :
    JumpsBetween target lo' hi' is := by
  intro i hi hjump
  obtain ⟨a, ha, hlo', hhi'⟩ := h i hi hjump
  exact ⟨a, ha, Nat.lt_of_le_of_lt hlo hlo', Nat.le_trans hhi' hhi⟩

end JumpsBetween

mutual

/-- The jumps in the code of a command lead behind its first instruction and at most right behind its
    last one. -/
theorem Command.jumpsBetween : ∀ (c : Command) (L : Layout) (start : Nat),
    JumpsBetween target start (start + (c.code links target L start).length) (c.code links target L start)
  | .assign _ name value, L, start =>
    ((value.straight L).append (straight_placeCode name fun _ _ => isJump_store)).jumpsBetween
  | .blank _, L, start | .error _, L, start => .nil
  | .call _ callee argument, L, start =>
    ((argument.straight L).append (straight_callCode callee)).jumpsBetween
  | .ifThen _ condition body, L, start => by
    simp only [Command.code, List.length_append, List.length_cons]
    exact (condition.straight L).jumpsBetween.append (.jumpIf (by omega) (by omega)
      ((body.jumpsBetween L _).mono (by omega) (by omega)))
  | .ifElse _ condition positive negative, L, start => by
    simp only [Command.code, List.length_append, List.length_cons]
    exact (condition.straight L).jumpsBetween.append (.jumpIf (by omega) (by omega)
      (((positive.jumpsBetween L _).mono (by omega) (by omega)).append (.jump (by omega) (by omega)
        ((negative.jumpsBetween L _).mono (by omega) (by omega)))))
  | .while_ _ condition body, L, start => by
    simp only [Command.code, List.length_append, List.length_cons]
    exact .jump (by omega) (by omega) (((body.jumpsBetween L _).mono (by omega) (by omega)).append
      ((condition.straight L).jumpsBetween.append (.jumpIf (by omega) (by omega) .nil)))
  | .for_ _ counter first last body, L, start => by
    simp only [Command.code, List.length_append, List.length_cons, List.length_nil]
    refine .append (.plain rfl ((first.straight _).jumpsBetween.append (.plain rfl .nil))) ?_
    refine .jump (by omega) (by omega) (.append (.append ?_ (.plain rfl (.plain rfl (.plain rfl .nil)))) ?_)
    · exact (body.jumpsBetween _ _).mono (by omega) (by omega)
    · exact .plain rfl ((last.straight _).jumpsBetween.append
        (.plain rfl (.jumpIf (by omega) (by omega) (.plain rfl .nil))))
  | .let_ _ declaration body, L, start => by
    simp only [Command.code, List.length_append, List.length_cons]
    exact (straight_declarationsCode L _).jumpsBetween.append
      (((body.jumpsBetween _ _).mono (by omega) (by omega)).append (.plain rfl .nil))
  | .sequential _ parts, L, start => jumpsBetween_commandsCode parts L start

theorem jumpsBetween_commandsCode : ∀ (cs : List Command) (L : Layout) (start : Nat),
    JumpsBetween target start (start + (commandsCode links target L start cs).length)
      (commandsCode links target L start cs)
  | [], L, start => .nil
  | c :: rest, L, start => by
    simp only [commandsCode, List.length_append]
    exact ((c.jumpsBetween L start).mono (by omega) (by omega)).append
      ((jumpsBetween_commandsCode rest L _).mono (by omega) (by omega))

end

end Blocks

/-- From an instruction of a block the machine goes on behind the first instruction of the block and at most
    right behind its last one. -/
theorem Stands.step? {σ : Type} {I : Interpretation σ} {links : Resolution} {code : List Instruction}
    {L : Layout} {start : Nat} {c : Command} (h : Stands links code L start c) (hcode : code.length ≤ Word.max)
    {d e : Config σ} (hstep : step? I code d = some e) (hlo : start ≤ d.pc)
    (hhi : d.pc < start + (c.code links (cappedTarget Word.max) L start).length) :
    start < e.pc ∧ e.pc ≤ start + (c.code links (cappedTarget Word.max) L start).length := by
  obtain ⟨i, hi, hexecute⟩ := Option.bind_eq_some_iff.mp hstep
  rw [h.located.getElem? hlo hhi] at hi
  have hroom := Nat.le_trans h.located.length_le hcode
  obtain ⟨Γ, ds, hfits, htyped⟩ := h.typed
  have hflows := htyped.flows (fun _ => index?_cappedTarget) start hfits h.nodup h.unplaced h.size_le hroom
  obtain ⟨taken, given, rest, heffect, -⟩ := hflows.getElem? hi
  obtain ⟨-, hleads⟩ := execute?_height hexecute heffect
  rcases hleads.next_or_jump with hnext | ⟨hjump, hindex⟩
  · omega
  · obtain ⟨a, ha, hlo', hhi'⟩ := c.jumpsBetween L start i (List.mem_of_getElem? hi) hjump
    rw [ha, index?_cappedTarget (Nat.le_trans hhi' hroom)] at hindex
    cases hindex
    exact ⟨hlo', hhi'⟩

end TriangleCompiler
