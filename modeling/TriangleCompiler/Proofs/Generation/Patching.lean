import TriangleCompiler.Proofs.Generation.Layout
import TriangleCompiler.Proofs.Generation.Steps

/-! The history of the code. A pass that emits code changes it in two ways: an instruction is put behind
    the others, or a jump among them gets its target. Whatever the program is, no jump gets a target more
    than once, and a jump that does was emitted by the same phrase. -/

namespace TriangleCompiler

namespace Generation

open Machine (Code Entity Instruction OpCode Register Word)

/-- A change to the code. -/
inductive Edit where
  | emit (i : Instruction)
  | patch (address : Nat)
deriving DecidableEq, Repr

/-- The code behind an edit. A patch lets a jump go on behind everything that was emitted before it. -/
def Edit.apply (code : List Instruction) : Edit → List Instruction
  | emit i => code ++ [i]
  | patch address => code.modify address ({ · with operand := Int16.ofNat code.length })

/-- The code behind edits. -/
def replay (code : List Instruction) (es : List Edit) : List Instruction :=
  es.foldl Edit.apply code

/-- The instructions that edits emit, as they are emitted. -/
def emitted : List Edit → List Instruction
  | [] => []
  | .emit i :: es => i :: emitted es
  | .patch _ :: es => emitted es

/-- The addresses that edits patch, each as often as it is patched. -/
def patched : List Edit → List Nat
  | [] => []
  | .emit _ :: es => patched es
  | .patch address :: es => address :: patched es

/-- All of an instruction but its operand. -/
def withoutOperand (i : Instruction) : OpCode × Register × UInt8 := (i.op, i.register, i.length)

/-- `Runs x s es a t` says that the pass `x` leads from `s` to the value `a` and the state `t`, and that on
    the way it makes the edits `es`, in this order. What never changes the code makes none. -/
inductive Runs : {α : Type} → GenerateM α → State → List Edit → α → State → Prop where
  | emit {i : Instruction} {s t : State} {address : Nat} : emit i s = .ok (some address) t →
      Runs (emit i) s [.emit i] (some address) t
  | noRoom {i : Instruction} {s t : State} : emit i s = .ok none t → Runs (emit i) s [] none t
  | patch {s t : State} {address : Nat} : patch (some address) s = .ok () t →
      Runs (patch (some address)) s [.patch address] () t
  | quiet {α : Type} {x : GenerateM α} {s t : State} {a : α} :
      (∀ s a t, x s = .ok a t → t.code = s.code) → x s = .ok a t → Runs x s [] a t
  | bind {α β : Type} {x : GenerateM α} {g : α → GenerateM β} {s t u : State} {a : α} {b : β}
      {es es' : List Edit} : Runs x s es a t → Runs (g a) t es' b u → Runs (x >>= g) s (es ++ es') b u

/-! ### What edits do to code -/

theorem patched_append (es es' : List Edit) : patched (es ++ es') = patched es ++ patched es' := by
  induction es with
  | nil => rfl
  | cons e es ih => cases e <;> simp [patched, ih]

theorem replay_append (code : List Instruction) (es es' : List Edit) :
    replay code (es ++ es') = replay (replay code es) es' :=
  List.foldl_append

/-- There are as many instructions as were emitted. -/
theorem length_replay (code : List Instruction) (es : List Edit) :
    (replay code es).length = code.length + (emitted es).length := by
  induction es generalizing code with
  | nil => rfl
  | cons e es ih =>
    refine (ih _).trans ?_
    cases e with
    | emit i => simp only [Edit.apply, emitted, List.length_append, List.length_cons, List.length_nil]; omega
    | patch address => simp [Edit.apply, emitted]

/-- An instruction that is not patched stays as it was emitted. -/
theorem getElem?_replay_of_not_mem {es : List Edit} {a : Nat} (h : a ∉ patched es) (code : List Instruction) :
    (replay code es)[a]? = (code ++ emitted es)[a]? := by
  induction es generalizing code with
  | nil => simp [replay, emitted]
  | cons e es ih =>
    cases e with
    | emit i =>
      refine (ih h _).trans ?_
      simp [Edit.apply, emitted]
    | patch address =>
      obtain ⟨hne, h⟩ := not_or.mp (mt List.mem_cons.mpr h)
      refine (ih h _).trans ?_
      simp only [Edit.apply, emitted, List.getElem?_append, List.length_modify, List.getElem?_modify]
      simp [Ne.symm hne]

/-- Every instruction stays as it was emitted but for its operand. -/
theorem map_withoutOperand_replay (code : List Instruction) (es : List Edit) :
    (replay code es).map withoutOperand = (code ++ emitted es).map withoutOperand := by
  induction es generalizing code with
  | nil => simp [replay, emitted]
  | cons e es ih =>
    refine (ih _).trans ?_
    cases e with
    | emit i => simp [Edit.apply, emitted]
    | patch address =>
      have hmodify : ∀ operand, (code.modify address ({ · with operand := operand })).map withoutOperand =
          code.map withoutOperand := by
        intro operand
        refine List.ext_getElem? fun a => ?_
        rw [List.getElem?_map, List.getElem?_map, List.getElem?_modify]
        cases code[a]? with
        | none => rfl
        | some i => split <;> rfl
      simp [Edit.apply, emitted, hmodify]

/-! ### Runs -/

section Runs
variable {α β : Type} {x : GenerateM α} {g : α → GenerateM β} {s t : State} {a : α} {es : List Edit}

theorem emit_ok {i : Instruction} {address : Option Nat} (h : emit i s = .ok address t) :
    (address = none ∧ t.code = s.code) ∨
      (address = some s.code.size ∧ t.code.instructions = s.code.instructions.push i) := by
  rcases emit_cases i s with ⟨-, hok⟩ | ⟨-, hroom, hok⟩ | ⟨-, hok⟩ <;> rw [hok] at h <;> cases h
  · exact .inl ⟨rfl, rfl⟩
  · exact .inr ⟨rfl, rfl⟩
  · exact .inl ⟨rfl, rfl⟩

theorem patch_ok {address : Nat} (h : patch (some address) s = .ok () t) :
    t.code = s.code.retarget address := by
  rcases patch_cases address s with ⟨fault, hfault⟩ | hok
  · rw [hfault] at h
    cases h
  · rw [hok] at h
    cases h
    rfl

/-- The edits of a run account for all of the code. -/
theorem Runs.instructions_eq (h : Runs x s es a t) :
    t.code.instructions.toList = replay s.code.instructions.toList es := by
  induction h with
  | emit h =>
    rcases emit_ok h with ⟨hnone, -⟩ | ⟨-, hcode⟩
    · cases hnone
    · simp [hcode, replay, Edit.apply]
  | noRoom h =>
    rcases emit_ok h with ⟨-, hcode⟩ | ⟨hsome, -⟩
    · rw [hcode]
      rfl
    · cases hsome
  | patch h =>
    rw [patch_ok h]
    simp [replay, Edit.apply, Code.retarget, Code.nextAddress, Code.size]
  | quiet hquiet h =>
    rw [hquiet _ _ _ h]
    rfl
  | bind _ _ ih ih' => rw [ih', ih, replay_append]

theorem Runs.size_le (h : Runs x s es a t) : s.code.size ≤ t.code.size := by
  have hlength := congrArg List.length h.instructions_eq
  rw [length_replay, Array.length_toList, Array.length_toList] at hlength
  rw [Code.size, Code.size]
  omega

end Runs

/-! ### Passes that patch a jump once at most -/

/-- The edits patch no address more than once: apart from those of `pending`, only addresses from `lo` up
    to `hi`. -/
def Once (pending : List Nat) (lo hi : Nat) (es : List Edit) : Prop :=
  ∀ a, (patched es).count a ≤ pending.count a + if lo ≤ a ∧ a < hi then 1 else 0

/-- Where the pass ends, it has patched every address once at most: those of `pending` and those that it
    emitted. -/
def Tidy {α : Type} (pending : List Nat) (x : GenerateM α) : Prop :=
  ∀ s a t, x s = .ok a t → ∃ es, Runs x s es a t ∧ Once pending s.code.size t.code.size es

namespace Tidy
variable {α β : Type} {x : GenerateM α} {g : α → GenerateM β} {p q : List Nat}

theorem quiet (h : ∀ s a t, x s = .ok a t → t.code = s.code) : Tidy [] x :=
  fun _ _ _ hok => ⟨[], .quiet h hok, fun _ => Nat.zero_le _⟩

theorem bind (hx : Tidy p x) (hg : ∀ a, Tidy q (g a)) : Tidy (p ++ q) (x >>= g) := by
  intro s b u hok
  obtain ⟨a, t, hxs, hok⟩ := Pass.exists_of_bind hok
  obtain ⟨es, hruns, honce⟩ := hx s a t hxs
  obtain ⟨es', hruns', honce'⟩ := hg a t b u hok
  refine ⟨es ++ es', hruns.bind hruns', fun address => ?_⟩
  have hle := hruns.size_le
  have hle' := hruns'.size_le
  have hfirst := honce address
  have hsecond := honce' address
  rw [patched_append, List.count_append, List.count_append]
  split at hfirst <;> split at hsecond <;> split <;> omega

/-- The address of a jump that has just been emitted may be patched. -/
theorem emit_bind {g : Option Nat → GenerateM β} (i : Instruction)
    (hg : ∀ address : Option Nat, Tidy (p ++ address.toList) (g address)) : Tidy p (emit i >>= g) := by
  intro s b u hok
  rw [Pass.bind_apply] at hok
  cases hemit : emit i s with
  | error fault t =>
    rw [hemit] at hok
    cases hok
  | ok address t =>
    rw [hemit] at hok
    obtain ⟨es, hruns, honce⟩ := hg address t b u hok
    have hle := hruns.size_le
    rcases emit_ok hemit with ⟨rfl, hcode⟩ | ⟨rfl, hcode⟩
    · refine ⟨[] ++ es, .bind (.noRoom hemit) hruns, fun a => ?_⟩
      rw [← hcode]
      simpa using honce a
    · have hsize : t.code.size = s.code.size + 1 := by simp [Code.size, hcode]
      refine ⟨[.emit i] ++ es, .bind (.emit hemit) hruns, fun a => ?_⟩
      have hcount := honce a
      have hown : (some s.code.size).toList.count a = if s.code.size = a then 1 else 0 := by
        simp [List.count_singleton]
      rw [hsize, List.count_append, hown] at hcount
      show (patched es).count a ≤ _
      split at hcount <;> split at hcount <;> split <;> omega

theorem emit (i : Instruction) : Tidy [] (Generation.emit i) := by
  intro s address t hok
  rcases emit_ok hok with ⟨rfl, -⟩ | ⟨rfl, -⟩
  · exact ⟨[], .noRoom hok, fun _ => Nat.zero_le _⟩
  · exact ⟨[.emit i], .emit hok, fun _ => Nat.zero_le _⟩

theorem patch (address : Option Nat) : Tidy address.toList (Generation.patch address) := by
  cases address with
  | none => exact .quiet fun s a t hok => by cases hok; rfl
  | some address =>
    intro s _ t hok
    refine ⟨[.patch address], .patch hok, fun a => ?_⟩
    exact Nat.le_add_right _ _

end Tidy

/-- What completes only jumps of its own does so once for each of them. -/
theorem Composed.tidy {places : Position → Prop} {α : Type} {pending : List Nat} {n m : Nat} {x : GenerateM α}
    (h : Composed places pending n m x) : Tidy pending x := by
  induction h with
  | emit i => exact .emit i
  | jump i _ ih => exact .emit_bind i ih
  | patch address => exact .patch address
  | visit => exact .quiet fun s a t hok => by cases hok; rfl
  | openScope => exact .quiet fun s a t hok => by cases hok; rfl
  | dropScope =>
    refine .quiet fun s a t hok => ?_
    rcases dropScope_cases s with ⟨fault, h⟩ | ⟨inner, rest, -, h⟩ <;> rw [h] at hok <;> cases hok
    rfl
  | @allocate _ size =>
    refine .quiet fun s a t hok => ?_
    rcases allocate_cases size s with ⟨fault, h⟩ | ⟨inner, rest, -, ⟨-, h⟩ | ⟨-, offset, storage, h⟩⟩ <;>
      rw [h] at hok <;> cases hok <;> rfl
  | define id entity =>
    refine .quiet fun s a t hok => ?_
    rcases define_cases id entity s with ⟨fault, h⟩ | h <;> rw [h] at hok <;> cases hok
    rfl
  | still hstill => exact .quiet fun s a t hok => congrArg State.code (hstill.eq_of_ok hok)
  | fault f => exact .quiet fun s a t hok => by cases hok
  | bind _ _ ihx ihg => exact ihx.bind ihg
  | fewer _ _ ih => exact ih

end Generation

open Generation

theorem Program.tidy (p : Program) (cx : Context) : Tidy [] (p.generate cx) :=
  (p.composed_anywhere (n := 0) cx).tidy

end TriangleCompiler
