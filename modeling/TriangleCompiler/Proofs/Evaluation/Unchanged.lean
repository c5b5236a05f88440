import TriangleCompiler.Proofs.Evaluation
import TriangleCompiler.Proofs.Parser.Numbering

/-! What a command leaves as it is. A command changes the words of the variables that it assigns or passes
    by reference, and those of its own declarations; all others are the same behind it. -/

namespace TriangleCompiler

open Evaluation
open Machine (Interpretation Word)

/-- The variable that a name stands for. -/
def Resolution.varOf? (links : Resolution) (name : Name) : Option NodeId :=
  match links.get? name.id with
  | some (.var id) => some id
  | _ => none

/-- The variable that is passed by reference. -/
def Argument.passed (links : Resolution) : Argument → List NodeId
  | .var _ name => (links.varOf? name).toList
  | .blank _ | .value _ _ | .error _ => []

mutual

/-- The variables that a command assigns or passes by reference. Functions take nothing by reference, so
    expressions do not count. -/
def Command.assigned (links : Resolution) : Command → List NodeId
  | .assign _ target _ => (links.varOf? target).toList
  | .call _ _ argument => argument.passed links
  | .blank _ | .error _ => []
  | .ifElse _ _ positive negative => positive.assigned links ++ negative.assigned links
  | .ifThen _ _ body | .while_ _ _ body | .for_ _ _ _ _ body | .let_ _ _ body => body.assigned links
  | .sequential _ parts => assignedInAll links parts

def assignedInAll (links : Resolution) : List Command → List NodeId
  | [] => []
  | c :: rest => c.assigned links ++ assignedInAll links rest

end

namespace Evaluation

variable {α β σ : Type}

/-- If the evaluation is finished, its value has the property. -/
def Outcome.Ensures (x : Outcome α) (P : α → Prop) : Prop := ∀ a, x = .finished a → P a

theorem Outcome.Ensures.pure {P : α → Prop} {a : α} (h : P a) : (Outcome.finished a).Ensures P := by
  rintro _ ⟨⟩
  exact h

theorem Outcome.Ensures.bind {x : Outcome α} {f : α → Outcome β} {P : α → Prop} {Q : β → Prop}
    (h : x.Ensures P) (hf : ∀ a, P a → (f a).Ensures Q) : (x >>= f).Ensures Q := by
  cases x with
  | finished a => exact hf a (h a rfl)
  | failed | outOfFuel =>
    intro b hb
    cases hb

/-- Whatever the value of the first evaluation is. -/
theorem Outcome.Ensures.after {x : Outcome α} {f : α → Outcome β} {Q : β → Prop}
    (hf : ∀ a, (f a).Ensures Q) : (x >>= f).Ensures Q :=
  Outcome.Ensures.bind (P := fun _ => True) (fun _ _ => trivial) fun a _ => hf a

section
variable {I : Interpretation σ} {links : Resolution} {id : NodeId} {w : Word}

theorem ensures_assign {name : Name} {v : Word} {s : World σ} (h : s.store id = w)
    (hid : id ∉ (links.varOf? name).toList) : (assign links name v s).Ensures fun s => s.store id = w := by
  unfold assign
  split
  · rename_i id' hlink
    have hne : id ≠ id' := by simpa [Resolution.varOf?, hlink] using hid
    exact .pure ((Store.set_of_ne hne _ _).trans h)
  · intro s' hs'
    cases hs'

theorem ensures_receive {a : Argument} {v : Word} {s : World σ} (h : s.store id = w)
    (hid : id ∉ a.passed links) : (receive links a v s).Ensures fun s => s.store id = w := by
  cases a with
  | var _ name => exact ensures_assign h hid
  | blank | value | error => exact .pure h

theorem ensures_iterate {P : World σ → Prop} {test : World σ → Outcome (Word × σ)}
    {body : World σ → Outcome (World σ)} (hP : ∀ store io io', P ⟨store, io⟩ → P ⟨store, io'⟩)
    (hbody : ∀ s, P s → (body s).Ensures P) {fuel : Nat} {s : World σ} (h : P s) :
    (iterate test body fuel s).Ensures P := by
  induction fuel generalizing s with
  | zero =>
    intro s' hs'
    cases hs'
  | succ fuel ih =>
    rw [iterate]
    refine .after fun r => ?_
    have hs : P ⟨s.store, r.2⟩ := hP _ _ _ h
    dsimp only
    split
    · exact (hbody _ hs).bind fun s' hs' => ih hs'
    · exact .pure hs

end

end Evaluation

section
variable {σ : Type} {I : Interpretation σ} {links : Resolution} {id : NodeId} {w : Word}

theorem SingleDeclaration.ensures_eval {d : SingleDeclaration} {s : World σ} (h : s.store id = w)
    (hids : id ∉ d.ids) : (d.eval I links s).Ensures fun s => s.store id = w := by
  cases d with
  | const tag name value =>
    have hne : id ≠ tag.id := fun heq => hids (heq ▸ List.mem_cons_self)
    refine .after fun r => .pure ?_
    exact (Store.set_of_ne hne _ _).trans h
  | var tag name type =>
    have hne : id ≠ tag.id := fun heq => hids (heq ▸ List.mem_cons_self)
    exact .pure ((Store.set_of_ne hne _ _).trans h)
  | error =>
    intro s' hs'
    cases hs'

theorem ensures_evalDeclarations {parts : List SingleDeclaration} {s : World σ} (h : s.store id = w)
    (hids : id ∉ declarationIds parts) : (evalDeclarations I links s parts).Ensures fun s => s.store id = w := by
  induction parts generalizing s with
  | nil => exact .pure h
  | cons d rest ih =>
    rw [declarationIds, List.mem_append, not_or] at hids
    rw [evalDeclarations]
    exact (SingleDeclaration.ensures_eval h hids.1).bind fun s' hs' => ih hs' hids.2

mutual

/-- What a command neither declares, assigns nor passes by reference has the same word behind it. -/
theorem Command.ensures_eval : ∀ (c : Command) {fuel : Nat} {s : World σ}, s.store id = w →
    id ∉ c.assigned links → id ∉ c.ids → (c.eval I links fuel s).Ensures fun s => s.store id = w
  | .assign _ target value, fuel, s, h, hid, _ => by
    rw [Command.eval]
    exact .after fun r => ensures_assign h hid
  | .blank _, fuel, s, h, _, _ => by
    rw [Command.eval]
    exact .pure h
  | .call _ callee argument, fuel, s, h, hid, _ => by
    rw [Command.eval]
    exact .after fun r => .after fun r' => ensures_receive h hid
  | .ifThen _ condition body, fuel, s, h, hid, hids => by
    rw [Command.ids, List.mem_append, not_or] at hids
    rw [Command.eval]
    refine .after fun r => ?_
    dsimp only
    split
    · exact .pure h
    · exact body.ensures_eval h hid hids.2
  | .ifElse _ condition positive negative, fuel, s, h, hid, hids => by
    simp only [Command.ids, Command.assigned, List.mem_append, not_or] at hid hids
    rw [Command.eval]
    refine .after fun r => ?_
    dsimp only
    split
    · exact negative.ensures_eval h hid.2 hids.2.2
    · exact positive.ensures_eval h hid.1 hids.2.1
  | .while_ _ condition body, fuel, s, h, hid, hids => by
    rw [Command.ids, List.mem_append, not_or] at hids
    rw [Command.eval]
    exact ensures_iterate (fun _ _ _ hs => hs) (fun s hs => body.ensures_eval hs hid hids.2) h
  | .for_ _ counter first last body, fuel, s, h, hid, hids => by
    simp only [Command.ids, List.mem_cons, List.mem_append, not_or] at hids
    obtain ⟨-, hne, -, -, hbody⟩ := hids
    rw [Command.eval]
    refine .after fun r => ensures_iterate (fun _ _ _ hs => hs) (fun s hs => ?_) ?_
    · refine (body.ensures_eval hs hid hbody).bind fun s' hs' => .after fun r => .pure ?_
      exact (Store.set_of_ne hne _ _).trans hs'
    · exact (Store.set_of_ne hne _ _).trans ((Store.set_of_ne hne _ _).trans h)
  | .let_ _ declaration body, fuel, s, h, hid, hids => by
    rw [Command.ids, List.mem_append, not_or] at hids
    rw [Command.eval]
    exact (ensures_evalDeclarations h hids.1).bind fun s' hs' => body.ensures_eval hs' hid hids.2
  | .sequential _ parts, fuel, s, h, hid, hids => by
    rw [Command.eval]
    exact ensures_evalCommands parts h hid hids
  | .error _, fuel, s, _, _, _ => by
    rw [Command.eval]
    intro s' hs'
    cases hs'

theorem ensures_evalCommands : ∀ (cs : List Command) {fuel : Nat} {s : World σ}, s.store id = w →
    id ∉ assignedInAll links cs → id ∉ commandIds cs →
      (evalCommands I links fuel cs s).Ensures fun s => s.store id = w
  | [], fuel, s, h, _, _ => by
    rw [evalCommands]
    exact .pure h
  | c :: rest, fuel, s, h, hid, hids => by
    simp only [assignedInAll, commandIds, List.mem_append, not_or] at hid hids
    rw [evalCommands]
    exact (c.ensures_eval h hid.1 hids.1).bind fun s' hs' => ensures_evalCommands rest hs' hid.2 hids.2

end

end

end TriangleCompiler
