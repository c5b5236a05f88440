import Mathlib.Data.List.Forall2
import TriangleCompiler.Proofs.Parser.Rewording
import TriangleCompiler.Proofs.Resolution.Events

/-! The names of a program that is moved to other places. Where the names keep their spellings they get the
    same links, and the same errors are reported at their new places. -/

namespace TriangleCompiler

namespace Resolution

open Pass (Follows)

structure Reworded (w : Rewording) (s t : State) : Prop where
  links_eq : t.links = s.links
  errors : List.Forall₂ w.Restates s.errors.toList t.errors.toList

theorem Reworded.start (w : Rewording) (p : Program) : Reworded w (.start p) (.start (p.reword w)) :=
  ⟨rfl, .nil⟩

variable {w : Rewording}

theorem follows_report (position : Position) (cause : ScopeError) :
    Follows (Reworded w) (report position cause) (report (w.place position) cause) := by
  intro s t hR
  have hnew : w.Restates ⟨position, .scope cause⟩ ⟨w.place position, .scope cause⟩ := ⟨rfl, fun _ => rfl⟩
  refine .ok ⟨hR.links_eq, ?_⟩
  simp only [Array.toList_push]
  exact List.rel_append hR.errors (.cons hnew .nil)

theorem follows_link (id : NodeId) (target : Link) : Follows (Reworded w) (link id target) (link id target) := by
  intro s t hR
  unfold link
  rw [hR.links_eq]
  cases s.links.set id target with
  | error fault => exact .error hR
  | ok links => exact .ok ⟨rfl, hR.errors⟩

/-- What an event is in a program that is moved to other places. -/
def Event.reword (w : Rewording) : Event → Event
  | bind id target => bind id target
  | report position cause => report (w.place position) cause

theorem follows_performAll (es : List Event) :
    Follows (Reworded w) (performAll es) (performAll (es.map (·.reword w))) := by
  induction es with
  | nil => exact .pure ()
  | cons e es ih =>
    refine Follows.bind ?_ fun _ => ih
    cases e with
    | bind id target => exact follows_link id target
    | report position cause => exact follows_report position cause

theorem useEvent_reword (hw : w.Keeps) (scopes : SymbolTable) (name : Name) :
    useEvent scopes (name.reword w) = (useEvent scopes name).reword w := by
  unfold useEvent
  rw [name.spelling_reword hw]
  cases scopes.retrieve? name.spelling <;> rfl

theorem declareEvents_reword (hw : w.Keeps) (scopes : SymbolTable) (name : Name) (target : Link) :
    declareEvents scopes (name.reword w) target = (declareEvents scopes name target).map (·.reword w) := by
  unfold declareEvents
  rw [name.spelling_reword hw]
  cases scopes.enter name.spelling target <;> rfl

theorem scopesWith_reword (hw : w.Keeps) (scopes : SymbolTable) (name : Name) (target : Link) :
    scopesWith scopes (name.reword w) target = scopesWith scopes name target := by
  unfold scopesWith
  rw [name.spelling_reword hw]

end Resolution

open Resolution Pass

mutual

theorem Expr.events_reword {w : Rewording} (hw : w.Keeps) (scopes : SymbolTable) :
    ∀ e : Expr, (e.reword w).events scopes = (e.events scopes).map (·.reword w)
  | .int _ _ | .char _ _ | .error _ => by simp only [Expr.reword, Expr.events, List.map_nil]
  | .name _ name => by
    simp only [Expr.reword, Expr.events, useEvent_reword hw, List.map_cons, List.map_nil]
  | .call _ callee argument => by
    simp only [Expr.reword, Expr.events, useEvent_reword hw, argument.events_reword hw, List.map_cons]
  | .unary _ op operand => by
    simp only [Expr.reword, Expr.events, useEvent_reword hw, operand.events_reword hw, List.map_cons]
  | .binary _ op lhs rhs => by
    simp only [Expr.reword, Expr.events, useEvent_reword hw, lhs.events_reword hw, rhs.events_reword hw,
      List.map_append, List.map_cons]

theorem Argument.events_reword {w : Rewording} (hw : w.Keeps) (scopes : SymbolTable) :
    ∀ a : Argument, (a.reword w).events scopes = (a.events scopes).map (·.reword w)
  | .blank _ | .error _ => by simp only [Argument.reword, Argument.events, List.map_nil]
  | .value _ expr => by simp only [Argument.reword, Argument.events, expr.events_reword hw]
  | .var _ name => by
    simp only [Argument.reword, Argument.events, useEvent_reword hw, List.map_cons, List.map_nil]

end

theorem SingleDeclaration.scopesAfter_reword {w : Rewording} (hw : w.Keeps) (scopes : SymbolTable)
    (d : SingleDeclaration) : (d.reword w).scopesAfter scopes = d.scopesAfter scopes := by
  cases d with
  | const tag name value => exact scopesWith_reword hw scopes name _
  | var tag name type => exact scopesWith_reword hw scopes name _
  | error => rfl

theorem SingleDeclaration.events_reword {w : Rewording} (hw : w.Keeps) (scopes : SymbolTable)
    (d : SingleDeclaration) : (d.reword w).events scopes = (d.events scopes).map (·.reword w) := by
  cases d with
  | const tag name value =>
    simp only [SingleDeclaration.reword, SingleDeclaration.events, Tag.id_reword, scopesWith_reword hw,
      declareEvents_reword hw, value.events_reword hw, List.map_append]
  | var tag name type =>
    simp only [SingleDeclaration.reword, SingleDeclaration.events, Tag.id_reword, TypeDenoter.reword,
      scopesWith_reword hw, declareEvents_reword hw, useEvent_reword hw, List.map_append, List.map_cons,
      List.map_nil]
  | error => rfl

theorem scopesAfterDeclarations_reword {w : Rewording} (hw : w.Keeps) (scopes : SymbolTable)
    (ds : List SingleDeclaration) :
    scopesAfterDeclarations scopes (ds.map (·.reword w)) = scopesAfterDeclarations scopes ds := by
  induction ds generalizing scopes with
  | nil => rfl
  | cons d ds ih =>
    simp only [List.map_cons, scopesAfterDeclarations, d.scopesAfter_reword hw, ih]

theorem declarationEvents_reword {w : Rewording} (hw : w.Keeps) (scopes : SymbolTable)
    (ds : List SingleDeclaration) :
    declarationEvents scopes (ds.map (·.reword w)) = (declarationEvents scopes ds).map (·.reword w) := by
  induction ds generalizing scopes with
  | nil => rfl
  | cons d ds ih =>
    simp only [List.map_cons, declarationEvents, d.scopesAfter_reword hw, d.events_reword hw, ih, List.map_append]

mutual

theorem Command.events_reword {w : Rewording} (hw : w.Keeps) (scopes : SymbolTable) :
    ∀ c : Command, (c.reword w).events scopes = (c.events scopes).map (·.reword w)
  | .assign _ target value => by
    simp only [Command.reword, Command.events, useEvent_reword hw, value.events_reword hw, List.map_append,
      List.map_cons, List.map_nil]
  | .blank _ | .error _ => by simp only [Command.reword, Command.events, List.map_nil]
  | .call _ callee argument => by
    simp only [Command.reword, Command.events, useEvent_reword hw, argument.events_reword hw, List.map_append,
      List.map_cons, List.map_nil]
  | .ifThen _ condition body | .while_ _ condition body => by
    simp only [Command.reword, Command.events, condition.events_reword hw, body.events_reword hw, List.map_append]
  | .ifElse _ condition positive negative => by
    simp only [Command.reword, Command.events, condition.events_reword hw, positive.events_reword hw,
      negative.events_reword hw, List.map_append]
  | .for_ _ counter first last body => by
    simp only [Command.reword, Command.events, LoopVariable.reword, scopesWith_reword hw, declareEvents_reword hw,
      first.events_reword hw, last.events_reword hw, body.events_reword hw, List.map_append]
  | .let_ _ declaration body => by
    simp only [Command.reword, Command.events, Declaration.parts_reword, scopesAfterDeclarations_reword hw,
      declarationEvents_reword hw, body.events_reword hw, List.map_append]
  | .sequential _ parts => by
    simp only [Command.reword, Command.events, commandEvents_reword hw scopes parts]

theorem commandEvents_reword {w : Rewording} (hw : w.Keeps) (scopes : SymbolTable) : ∀ cs : List Command,
    commandEvents scopes (rewordCommands w cs) = (commandEvents scopes cs).map (·.reword w)
  | [] => by simp only [rewordCommands, commandEvents, List.map_nil]
  | c :: rest => by
    simp only [rewordCommands, commandEvents, c.events_reword hw, commandEvents_reword hw scopes rest,
      List.map_append]

end

theorem Program.follows_resolve {w : Rewording} (hw : w.Keeps) (p : Program) :
    Follows (Resolution.Reworded w) p.resolve (p.reword w).resolve := by
  have hevents : (p.reword w).command.events .standard = _ := p.command.events_reword hw .standard
  rw [p.resolve_eq_events, (p.reword w).resolve_eq_events, hevents]
  exact follows_performAll _

end TriangleCompiler
