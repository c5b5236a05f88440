import TriangleCompiler.Fault

/-! Side tables: at most one value for each node of a program, written once. -/

namespace TriangleCompiler

/-- A place for a value for each node of a program. -/
structure NodeTable (α : Type) where
  slots : Array (Option α)

namespace NodeTable

variable {α : Type}

/-- A table for `nodeCount` nodes without any value. -/
def empty (nodeCount : Nat) : NodeTable α :=
  ⟨Array.replicate nodeCount none⟩

/-- The value of a node. -/
def get? (t : NodeTable α) (id : NodeId) : Option α :=
  t.slots[id]?.join

/-- Why a node cannot be given a value: it has no place, or it has a value already. -/
def refusal? (t : NodeTable α) (id : NodeId) : Option Fault :=
  match t.slots[id]? with
  | none => some (.nodeOutOfBounds id t.slots.size)
  | some none => none
  | some (some _) => some (.nodeDecorated id)

/-- Puts a value into the place of a node, if there is one. -/
def write (t : NodeTable α) (id : NodeId) (value : α) : NodeTable α :=
  ⟨t.slots.setIfInBounds id (some value)⟩

/-- Gives a node its value. -/
@[inline] def set (t : NodeTable α) (id : NodeId) (value : α) : Except Fault (NodeTable α) :=
  match t.refusal? id with
  | some fault => .error fault
  | none => .ok (t.write id value)

/-- The nodes that have a value, in the order of their numbers. -/
def toList (t : NodeTable α) : List (NodeId × α) :=
  t.slots.toList.zipIdx.filterMap fun (slot, id) => slot.map (id, ·)

/-- The number of nodes that have a value. -/
def size (t : NodeTable α) : Nat :=
  t.slots.toList.countP Option.isSome

/-- Whether no node has a value. -/
def isEmpty (t : NodeTable α) : Bool :=
  t.size = 0

/-- The nodes and their values, which `render` writes, between braces. -/
def text (render : α → String) (t : NodeTable α) : String :=
  "\x7b" ++ ", ".intercalate (t.toList.map fun (id, value) => s!"{NodeId.text id}: {render value}") ++
    "\x7d"

@[simp] theorem get?_empty (n : Nat) (id : NodeId) : (empty n : NodeTable α).get? id = none := by
  simp only [get?, empty, Array.getElem?_replicate]
  split <;> rfl

theorem refusal?_eq_none_iff {t : NodeTable α} {id : NodeId} :
    t.refusal? id = none ↔ id < t.slots.size ∧ t.get? id = none := by
  unfold refusal? get?
  by_cases h : id < t.slots.size
  · rw [Array.getElem?_eq_getElem h]
    cases t.slots[id] <;> simp [h]
  · simp [h]

theorem set_of_refusal {t : NodeTable α} {id : NodeId} {fault : Fault} (h : t.refusal? id = some fault) (value : α) :
    t.set id value = .error fault := by
  rw [set, h]

theorem set_of_no_refusal {t : NodeTable α} {id : NodeId} (h : t.refusal? id = none) (value : α) :
    t.set id value = .ok (t.write id value) := by
  rw [set, h]

theorem get?_write {t : NodeTable α} {id : NodeId} (h : id < t.slots.size) (value : α) (id' : NodeId) :
    (t.write id value).get? id' = if id' = id then some value else t.get? id' := by
  simp only [get?, write, Array.getElem?_setIfInBounds]
  by_cases he : id = id'
  · subst he
    simp [h]
  · have he' : ¬id' = id := fun e => he e.symm
    simp [he, he']

@[simp] theorem size_slots_write (t : NodeTable α) (id : NodeId) (value : α) :
    (t.write id value).slots.size = t.slots.size := by
  simp [write]

end NodeTable

/-- The links from names to declarations. -/
abbrev Resolution := NodeTable Link

/-- The types of nodes. -/
abbrev Types := NodeTable SimpleType

end TriangleCompiler
