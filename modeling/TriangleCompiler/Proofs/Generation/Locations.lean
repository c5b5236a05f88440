import TriangleCompiler.Proofs.Generation.Steps

/-! Where the errors in sizes are reported: at the command at hand. Every command moves the place at hand to
    itself before anything else is done, so the place that generation starts with is never reported. -/

namespace TriangleCompiler

namespace Generation

open Pass (Keeps)
open Machine (Entity Instruction)

/-- The place at hand is one of these places, and so are those of the errors so far. -/
structure State.Within (places : Position → Prop) (s : State) : Prop where
  position : places s.position
  errors : ∀ d ∈ s.errors.toList, places d.position

/-- The state with another place at hand. -/
def State.movedTo (position : Position) (s : State) : State := { s with position := position }

variable {places : Position → Prop}

/-! ### Elementary steps -/

/-- An error is reported at the place at hand. -/
theorem State.Within.push {s : State} (h : s.Within places) {d : Diagnostic} (hd : d.position = s.position) :
    ∀ e ∈ (s.errors.push d).toList, places e.position := by
  intro e he
  simp only [Array.toList_push, List.mem_append, List.mem_singleton] at he
  rcases he with he | rfl
  · exact h.errors e he
  · exact hd ▸ h.position

theorem keeps_emit (i : Instruction) : Keeps (State.Within places) (emit i) := by
  rintro s _ ⟨rfl, hs⟩
  rcases emit_cases i s with ⟨-, hok⟩ | ⟨-, hroom, hok⟩ | ⟨-, hok⟩ <;> rw [hok]
  · exact .ok ⟨rfl, hs⟩
  · exact .ok ⟨rfl, hs.position, hs.errors⟩
  · exact .ok ⟨rfl, hs.position, hs.push rfl⟩

theorem keeps_patch (address? : Option Nat) : Keeps (State.Within places) (patch address?) := by
  cases address? with
  | none => exact .pure ()
  | some address =>
    rintro s _ ⟨rfl, hs⟩
    rcases patch_cases address s with ⟨fault, hfault⟩ | hok
    · rw [hfault]
      exact .error ⟨rfl, hs⟩
    · rw [hok]
      exact .ok ⟨rfl, hs.position, hs.errors⟩

theorem keeps_visit {position : Position} (h : places position) : Keeps (State.Within places) (visit position) := by
  rintro s _ ⟨rfl, hs⟩
  exact .ok ⟨rfl, h, hs.errors⟩

theorem keeps_openScope : Keeps (State.Within places) openScope := by
  rintro s _ ⟨rfl, hs⟩
  exact .ok ⟨rfl, hs.position, hs.errors⟩

theorem keeps_dropScope : Keeps (State.Within places) dropScope := by
  rintro s _ ⟨rfl, hs⟩
  rcases dropScope_cases s with ⟨fault, hfault⟩ | ⟨inner, rest, -, hok⟩
  · rw [hfault]
    exact .error ⟨rfl, hs⟩
  · rw [hok]
    exact .ok ⟨rfl, hs.position, hs.errors⟩

theorem keeps_allocate (size : UInt8) : Keeps (State.Within places) (allocate size) := by
  rintro s _ ⟨rfl, hs⟩
  rcases allocate_cases size s with ⟨fault, hfault⟩ | ⟨inner, rest, -, ⟨-, hok⟩ | ⟨-, offset, storage, hok⟩⟩
  · rw [hfault]
    exact .error ⟨rfl, hs⟩
  · rw [hok]
    exact .ok ⟨rfl, hs.position, hs.errors⟩
  · rw [hok]
    exact .ok ⟨rfl, hs.position, hs.push rfl⟩

theorem keeps_define (id : NodeId) (entity : Entity) : Keeps (State.Within places) (define id entity) := by
  rintro s _ ⟨rfl, hs⟩
  rcases define_cases id entity s with ⟨fault, hfault⟩ | hok
  · rw [hfault]
    exact .error ⟨rfl, hs⟩
  · rw [hok]
    exact .ok ⟨rfl, hs.position, hs.errors⟩

theorem Still.keeps {α : Type} {x : GenerateM α} (h : Still x) : Keeps (State.Within places) x := by
  rintro s _ ⟨rfl, hs⟩
  rcases h s with ⟨a, hok⟩ | ⟨fault, hfault⟩
  · rw [hok]
    exact .ok ⟨rfl, hs⟩
  · rw [hfault]
    exact .error ⟨rfl, hs⟩

/-- What moves to these places only stays within them. -/
theorem Composed.keeps {α : Type} {pending : List Nat} {n m : Nat} {x : GenerateM α}
    (h : Composed places pending n m x) : Keeps (State.Within places) x := by
  induction h with
  | emit i => exact keeps_emit i
  | jump i _ ih => exact (keeps_emit i).bind ih
  | patch address => exact keeps_patch address
  | visit h => exact keeps_visit h
  | openScope => exact keeps_openScope
  | dropScope => exact keeps_dropScope
  | allocate => exact keeps_allocate _
  | define id entity => exact keeps_define id entity
  | still h => exact h.keeps
  | fault f => exact .fault f
  | bind _ _ ihx ihg => exact ihx.bind ihg
  | fewer _ _ ih => exact ih

end Generation

open Generation Pass
open Phrase (Placed Throughout)

/-- A command does not depend on the place at hand. -/
theorem Command.generate_movedTo (cx : Context) (c : Command) (position : Position) (s : Generation.State) :
    c.generate cx (s.movedTo position) = c.generate cx s := by
  cases c <;> simp only [Command.generate] <;> rfl

/-- The errors in the sizes of a program are at the places of its phrases, whatever room there is and
    whether or not generation stops with a fault. -/
theorem Program.errorsAt_generate {places : Position → Prop} {p : Program}
    (h : Throughout (Placed places) [.command p.command]) (cx : Context) (code : Machine.Code) :
    ∀ d ∈ ((p.generate cx).stateAfter (.start p code)).errors.toList, places d.position := by
  have hkeeps := (Program.composed (n := 0) cx h).keeps
  have hmoved : p.generate cx ((Generation.State.start p code).movedTo p.command.position) =
      p.generate cx (.start p code) := by
    rw [Program.generate, bind_apply, bind_apply, Command.generate_movedTo]
  have hwithin : Generation.State.Within places ((Generation.State.start p code).movedTo p.command.position) :=
    ⟨h.self.position, fun _ hd => by cases hd⟩
  have hafter := (hkeeps.stateAfter hwithin).errors
  rw [stateAfter, hmoved] at hafter
  exact hafter

end TriangleCompiler
