import TriangleCompiler.Proofs.Generation.Preservation
import TriangleCompiler.Proofs.Machine.Safety

/-! The stack before every instruction of a program. There is a layout for each of them, which says where
    the declared names are by then; their words are values of their types, and a word that is going to be
    popped as a truth value is one. An instruction keeps this if the instructions that it leads to do. -/

namespace TriangleCompiler

open Evaluation Generation Machine
open Typing

/-! ### The layouts of a program -/

/-- The same layout before each of the instructions. -/
def Generation.Layout.throughout (L : Layout) (piece : List Instruction) : List Layout :=
  piece.map fun _ => L

/-- The layouts before the instructions of declarations. -/
def declarationLayouts (links : Resolution) (L : Layout) : List SingleDeclaration → List Layout
  | [] => []
  | d :: rest => L.throughout (d.code links L) ++ declarationLayouts links (d.layoutAfter L) rest

mutual

/-- The layouts before the instructions of a command. A name that the command declares has its place as
    soon as there is a word for it, and up to the instruction that drops the word. -/
def Command.layouts (links : Resolution) (L : Layout) : Command → List Layout
  | .assign _ name value => L.throughout (value.code links L ++ placeCode links L Entity.store? name)
  | .blank _ | .error _ => []
  | .call _ callee argument => L.throughout (argument.code links L ++ callCode links callee)
  | .ifThen _ condition body => L.throughout (condition.code links L) ++ L :: body.layouts links L
  | .ifElse _ condition positive negative =>
    L.throughout (condition.code links L) ++
      L :: (positive.layouts links L ++ L :: negative.layouts links L)
  | .while_ _ condition body =>
    L :: (body.layouts links L ++ (L.throughout (condition.code links L) ++ [L]))
  | .for_ _ counter first last body =>
    let inner := L.allocate counter.id true
    L :: (inner.throughout (first.code links inner) ++ [inner]) ++
      inner :: ((body.layouts links inner ++ [inner, inner, inner]) ++
        inner :: (inner.throughout (last.code links inner) ++ [inner, inner, inner]))
  | .let_ _ declaration body =>
    let inner := layoutAfterDeclarations L declaration.parts
    declarationLayouts links L declaration.parts ++ (body.layouts links inner ++ [inner])
  | .sequential _ parts => commandsLayouts links L parts

/-- The layouts before the instructions of commands. -/
def commandsLayouts (links : Resolution) (L : Layout) : List Command → List Layout
  | [] => []
  | c :: rest => c.layouts links L ++ commandsLayouts links L rest

end

/-- The layouts before the instructions of a program. -/
def Program.layouts (p : Program) (links : Resolution) : List Layout :=
  p.command.layouts links .empty ++ [.empty]

@[simp] theorem Generation.Layout.length_throughout (L : Layout) (piece : List Instruction) :
    (L.throughout piece).length = piece.length := List.length_map _

theorem Generation.Layout.throughout_append (L : Layout) (piece piece' : List Instruction) :
    L.throughout (piece ++ piece') = L.throughout piece ++ L.throughout piece' := List.map_append

theorem length_declarationLayouts (links : Resolution) (L : Layout) (parts : List SingleDeclaration) :
    (declarationLayouts links L parts).length = (declarationsCode links L parts).length := by
  induction parts generalizing L with
  | nil => rfl
  | cons d rest ih => simp [declarationLayouts, declarationsCode, ih]

mutual

/-- There is one layout for each instruction. -/
theorem Command.length_layouts {links : Resolution} {target : Nat → Word} : ∀ (x : Command) (L : Layout)
    (start : Nat), (x.layouts links L).length = (x.code links target L start).length
  | .assign .., L, start => by simp [Command.layouts, Command.code]
  | .blank _, L, start => by simp [Command.layouts, Command.code]
  | .error _, L, start => by simp [Command.layouts, Command.code]
  | .call .., L, start => by simp [Command.layouts, Command.code]
  | .ifThen _ condition body, L, start => by
    simp [Command.layouts, Command.code, ← body.length_layouts]
  | .ifElse _ condition positive negative, L, start => by
    simp [Command.layouts, Command.code, ← positive.length_layouts, ← negative.length_layouts]
  | .while_ _ condition body, L, start => by
    simp [Command.layouts, Command.code, ← body.length_layouts]
  | .for_ _ counter first last body, L, start => by
    simp [Command.layouts, Command.code, ← body.length_layouts]
  | .let_ _ declaration body, L, start => by
    simp [Command.layouts, Command.code, length_declarationLayouts, ← body.length_layouts]
  | .sequential _ parts, L, start => by
    rw [Command.layouts, Command.code]
    exact length_commandsLayouts parts L start

theorem length_commandsLayouts {links : Resolution} {target : Nat → Word} : ∀ (parts : List Command)
    (L : Layout) (start : Nat),
    (commandsLayouts links L parts).length = (commandsCode links target L start parts).length
  | [], L, start => by simp [commandsLayouts, commandsCode]
  | x :: rest, L, start => by
    simp [commandsLayouts, commandsCode, ← x.length_layouts, ← length_commandsLayouts rest]

end

/-! ### What is asked of a configuration -/

/-- A value of the type may be the word. -/
def SimpleType.Admits : SimpleType → Word → Prop
  | .boolean, w => w.IsTruth
  | _, _ => True

theorem SimpleType.admits_zero (type : SimpleType) : type.Admits 0 := by
  cases type with
  | boolean => exact Or.inl rfl
  | _ => trivial

namespace Generation

/-- Code with the layout before each of its instructions, and the types of the nodes of its program. -/
structure Listing where
  code : List Instruction
  layouts : List Layout
  types : Types

/-- The words of the nodes that have a type are values of it. -/
def Agrees (types : Types) (store : Store) : Prop :=
  ∀ id type, types.get? id = some type → type.Admits (store id)

/-- If the instruction addresses a word of the stack, it is the word of a name. -/
def Layout.Covers (L : Layout) (i : Instruction) : Prop :=
  i.op ∈ [OpCode.load, .store, .loadAddress] →
    ∃ id assignable k, L.place? id = some (.slot assignable k) ∧ i.operand = Int16.ofNat k

/-- The words of the declared names are on the stack and are values of their types; the next instruction
    addresses no other words, and if it pops a truth value there is one. -/
structure Listing.Sound {σ : Type} (l : Listing) (c : Config σ) : Prop where
  live : ∃ L store, l.layouts[c.pc]? = some L ∧ L.Holds store c.stack ∧ Agrees l.types store ∧
    ∀ i, l.code[c.pc]? = some i → L.Covers i
  popped : ∀ i, l.code[c.pc]? = some i → i.TakesTruth → TruthOnTop c.stack

/-- The piece of code stands in the listing from the address on, with these layouts. -/
structure Listing.Places (l : Listing) (start : Nat) (piece : List Instruction) (layouts : List Layout) :
    Prop where
  code : At l.code start piece
  layouts : At l.layouts start layouts

/-- The piece of code stands in the listing with the same layout everywhere. -/
def Listing.Stands (l : Listing) (L : Layout) (start : Nat) (piece : List Instruction) : Prop :=
  l.Places start piece (L.throughout piece)

section Listing
variable {l : Listing} {start : Nat} {i : Instruction} {piece piece' : List Instruction} {L : Layout}
  {layouts layouts' : List Layout}

namespace Listing

theorem Places.left (h : l.Places start (piece ++ piece') (layouts ++ layouts')) :
    l.Places start piece layouts := ⟨h.code.left, h.layouts.left⟩

theorem Places.right (h : l.Places start (piece ++ piece') (layouts ++ layouts'))
    (hlength : layouts.length = piece.length) : l.Places (start + piece.length) piece' layouts' :=
  ⟨h.code.right, hlength ▸ h.layouts.right⟩

theorem Places.tail (h : l.Places start (i :: piece) (L :: layouts)) : l.Places (start + 1) piece layouts :=
  ⟨h.code.tail, h.layouts.tail⟩

theorem Places.first (h : l.Places start (i :: piece) (L :: layouts)) : l.Stands L start [i] :=
  @Places.left l start [i] piece [L] layouts h

theorem Stands.left (h : l.Stands L start (piece ++ piece')) : l.Stands L start piece := by
  rw [Stands, Layout.throughout_append] at h
  exact Places.left h

theorem Stands.right (h : l.Stands L start (piece ++ piece')) : l.Stands L (start + piece.length) piece' := by
  rw [Stands, Layout.throughout_append] at h
  exact Places.right h (L.length_throughout piece)

theorem Stands.tail (h : l.Stands L start (i :: piece)) : l.Stands L (start + 1) piece := Places.tail h

theorem Stands.head (h : l.Stands L start (i :: piece)) : l.code[start]? = some i := h.code.head

/-- A configuration is sound if the next instruction finds the words that it addresses and pops. -/
theorem Stands.sound {σ : Type} {store : Store} {stack : List Word} {io : σ}
    (h : l.Stands L start (i :: piece)) (hcovers : L.Covers i) (hholds : L.Holds store stack)
    (hagrees : Agrees l.types store) (htruth : i.TakesTruth → TruthOnTop stack) :
    l.Sound (⟨start, stack, io⟩ : Config σ) := by
  refine ⟨⟨L, store, h.layouts.head, hholds, hagrees, fun j hj => ?_⟩, fun j hj hj' => ?_⟩
  · cases hj.symm.trans h.head
    exact hcovers
  · cases hj.symm.trans h.head
    exact htruth hj'

end Listing

theorem Layout.Covers.of_op (op : OpCode) (hop : i.op = op) (h : op ∉ [OpCode.load, .store, .loadAddress]) :
    L.Covers i :=
  fun hi => absurd (hop ▸ hi) h

theorem Layout.Covers.of_slot {id : NodeId} {assignable : Bool} {k : Nat}
    (hid : L.place? id = some (.slot assignable k)) (hi : i.operand = Int16.ofNat k) : L.Covers i :=
  fun _ => ⟨id, assignable, k, hid, hi⟩

theorem Agrees.set {types : Types} {store : Store} {id : NodeId} {type : SimpleType} {w : Word}
    (h : Agrees types store) (hid : types.get? id = some type) (hw : type.Admits w) :
    Agrees types (store.set id w) := by
  intro id' type' hid'
  by_cases heq : id' = id
  · subst heq
    cases hid.symm.trans hid'
    rwa [Store.set_self]
  · rw [Store.set_of_ne heq]
    exact h id' type' hid'

end Listing

/-! ### Single instructions -/

section Instructions
variable {σ : Type} {I : Interpretation σ} {l : Listing} {n : Nat} {L L' : Layout} {pc k : Nat}
  {piece : List Instruction} {i : Instruction} {store : Store} {stack : List Word} {io : σ}
  {d : Config σ} {id : NodeId} {type : SimpleType} {assignable : Bool}

/-- For `n` steps nothing goes wrong from the address on, if the words of the layout are on the stack and
    nothing else. -/
def SafeAt (I : Interpretation σ) (l : Listing) (n : Nat) (L : Layout) (pc : Nat) : Prop :=
  ∀ store stack io, L.Represents store stack → Agrees l.types store →
    Safe I l.code l.Sound n ⟨pc, stack, io⟩

/-- The same with a value of the type on top. -/
def SafeWith (I : Interpretation σ) (l : Listing) (n : Nat) (L : Layout) (type : SimpleType) (pc : Nat) :
    Prop :=
  ∀ store stack w io, L.Represents store stack → Agrees l.types store → type.Admits w →
    Safe I l.code l.Sound n ⟨pc, stack ++ [w], io⟩

theorem SafeAt.of_succ (h : SafeAt I l (n + 1) L pc) : SafeAt I l n L pc :=
  fun store stack io hstack hagrees => (h store stack io hstack hagrees).of_succ

theorem SafeWith.of_succ (h : SafeWith I l (n + 1) L type pc) : SafeWith I l n L type pc :=
  fun store stack w io hstack hagrees hw => (h store stack w io hstack hagrees hw).of_succ

/-- An instruction that pops no truth value is followed by the next one. -/
theorem safe_step (op : OpCode) (hat : l.Stands L pc (i :: piece)) (hop : i.op = op)
    (hquiet : op ≠ .jumpIf ∧ op ≠ .call) (hcovers : L.Covers i) (hholds : L.Holds store stack)
    (hagrees : Agrees l.types store) (hstep : step? I l.code ⟨pc, stack, io⟩ = some d)
    (h : Safe I l.code l.Sound n d) : Safe I l.code l.Sound n ⟨pc, stack, io⟩ :=
  .of_step (hat.sound hcovers hholds hagrees fun ht =>
    absurd ht (Instruction.not_takesTruth hop hquiet.1 hquiet.2)) hstep h

/-- An instruction that addresses nothing and pops no truth value. -/
theorem safe_quiet (op : OpCode) (hat : l.Stands L pc (i :: piece)) (hop : i.op = op)
    (hquiet : op ∉ [OpCode.jumpIf, .call, .load, .store, .loadAddress]) (hholds : L.Holds store stack)
    (hagrees : Agrees l.types store) (hstep : step? I l.code ⟨pc, stack, io⟩ = some d)
    (h : Safe I l.code l.Sound n d) : Safe I l.code l.Sound n ⟨pc, stack, io⟩ := by
  simp only [List.mem_cons, not_or] at hquiet
  obtain ⟨hjump, hcall, hrest⟩ := hquiet
  refine safe_step op hat hop ⟨hjump, hcall⟩ (.of_op op hop ?_) hholds hagrees hstep h
  simpa using hrest

theorem SafeAt.jump {target : Word} (h : SafeAt I l n L k) (hat : l.Stands L pc (.jump target :: piece))
    (hk : Word.index? target = some k) : SafeAt I l n L pc := by
  intro store stack io hstack hagrees
  exact safe_quiet .jump hat rfl (by decide) hstack.holds hagrees (step?_jump hat.head hk)
    (h store stack io hstack hagrees)

theorem SafeAt.assign (h : SafeAt I l n L (pc + 1)) (hat : l.Stands L pc (storeSlot k :: piece))
    (hid : L.place? id = some (.slot assignable k)) (htype : l.types.get? id = some type)
    (hsize : L.size ≤ Word.max) : SafeWith I l n L type pc := by
  intro store stack w io hstack hagrees hw
  have hk := Layout.lt_size hid
  have hlt : k < stack.length := by rw [hstack.length_eq]; exact hk
  exact safe_step .store hat rfl (by decide) (.of_slot hid rfl) (hstack.holds.append [w]) hagrees
    (step?_store hat.head (by omega) hlt) (h _ _ _ (hstack.set hid w) (hagrees.set htype hw))

/-- A word for a variable is zero at first, which every type admits. -/
theorem SafeAt.push (h : SafeAt I l n (L.allocate id true) (pc + 1))
    (hat : l.Stands L pc (.push 1 :: piece)) (htype : l.types.get? id = some type) : SafeAt I l n L pc := by
  intro store stack io hstack hagrees
  exact safe_quiet .push hat rfl (by decide) hstack.holds hagrees (step?_push hat.head)
    (h _ _ _ (hstack.allocate id true 0) (hagrees.set htype type.admits_zero))

/-- The value of a constant stays where it was pushed. -/
theorem SafeAt.keep (h : SafeAt I l n (L.allocate id assignable) pc) (htype : l.types.get? id = some type) :
    SafeWith I l n L type pc := by
  intro store stack w io hstack hagrees hw
  exact h _ _ _ (hstack.allocate id assignable w) (hagrees.set htype hw)

theorem SafeAt.pop (h : SafeAt I l n L (pc + 1))
    (hat : l.Stands L' pc (.pop (Int16.ofNat (L'.size - L.size)) :: piece)) (hL : L.Extends L')
    (hsize : L.size ≤ L'.size) (hmax : L'.size ≤ Word.max) : SafeAt I l n L' pc := by
  intro store stack io hstack hagrees
  have hlength := hstack.length_eq
  have hkept : stack.length - (L'.size - L.size) = L.size := by omega
  refine safe_quiet .pop hat rfl (by decide) hstack.holds hagrees
    (step?_pop hat.head (by omega) (by omega)) ?_
  rw [hkept]
  exact h _ _ _ (hstack.restrict hL hsize) hagrees

theorem Listing.Stands.sound_branch {v w target : Word} (hat : l.Stands L pc (.jumpIf v target :: piece))
    (hstack : L.Represents store stack) (hagrees : Agrees l.types store) (hw : w.IsTruth) :
    l.Sound (⟨pc, stack ++ [w], io⟩ : Config σ) :=
  hat.sound (.of_op .jumpIf rfl (by decide)) (hstack.holds.append [w]) hagrees
    fun _ => ⟨stack, w, rfl, hw⟩

/-- A conditional jump pops a truth value; it is a step on both ways. -/
theorem SafeAt.branch {b : Bool} {target : Word} (hjump : SafeAt I l n L k) (hgo : SafeAt I l n L (pc + 1))
    (hat : l.Stands L pc (.jumpIf (Word.ofBool b) target :: piece)) (hk : Word.index? target = some k) :
    SafeWith I l (n + 1) L .boolean pc := by
  intro store stack w io hstack hagrees hw
  refine .step (hat.sound_branch hstack hagrees hw) (step?_jumpIf hat.head hk) ?_
  split
  · exact hjump store stack io hstack hagrees
  · exact hgo store stack io hstack hagrees

theorem safe_literal {w : Word} (hat : l.Stands L pc (.loadLiteral w :: piece)) (hholds : L.Holds store stack)
    (hagrees : Agrees l.types store) (h : Safe I l.code l.Sound n ⟨pc + 1, stack ++ [w], io⟩) :
    Safe I l.code l.Sound n ⟨pc, stack, io⟩ :=
  safe_quiet .loadLiteral hat rfl (by decide) hholds hagrees (step?_loadLiteral hat.head) h

/-- The value of what has a place is pushed. -/
theorem safe_load {q : Place} (hat : l.Stands L pc (q.entity.load :: piece)) (hsize : L.size ≤ Word.max)
    (hid : L.place? id = some q) (hholds : L.Holds store stack) (hagrees : Agrees l.types store)
    (h : Safe I l.code l.Sound n ⟨pc + 1, stack ++ [store id], io⟩) :
    Safe I l.code l.Sound n ⟨pc, stack, io⟩ := by
  have hstep : step? I l.code ⟨pc, stack, io⟩ = some ⟨pc + 1, stack ++ [store id], io⟩ :=
    step?_load_place hholds hsize hid hat.head
  rcases q with value | ⟨_ | _, k⟩
  · exact safe_quiet .loadLiteral hat rfl (by decide) hholds hagrees hstep h
  · exact safe_step .load hat rfl (by decide) (.of_slot hid rfl) hholds hagrees hstep h
  · exact safe_step .load hat rfl (by decide) (.of_slot hid rfl) hholds hagrees hstep h

/-- A call goes on with whatever the routine leads to, if it leads to anything. -/
theorem safe_call {p : Primitive} {r : Option (Word × σ)} {f : Word × σ → Config σ}
    (hat : l.Stands L pc (.call p :: piece)) (hcall : callPrimitive? I p ⟨pc, stack, io⟩ = r.map f)
    (hnot : p = .not → TruthOnTop stack) (hholds : L.Holds store stack) (hagrees : Agrees l.types store)
    (h : ∀ a, r = some a → Safe I l.code l.Sound n (f a)) : Safe I l.code l.Sound n ⟨pc, stack, io⟩ := by
  refine .of_next (hat.sound (.of_op .call rfl (by decide)) hholds hagrees fun ht => hnot ht.eq_not)
    fun d hd => ?_
  rw [step?_call p hat.head, hcall] at hd
  obtain ⟨a, ha, rfl⟩ := Option.map_eq_some_iff.mp hd
  exact h a ha

end Instructions

end Generation

end TriangleCompiler
