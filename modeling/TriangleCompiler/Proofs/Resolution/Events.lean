import TriangleCompiler.Proofs.Parser.Numbering
import TriangleCompiler.Proofs.Passes
import TriangleCompiler.Proofs.Resolution.Tables
import TriangleCompiler.Resolution

/-! What linking the names of a program comes to: a list of events, each of them a link that is made or an
    error that is reported. The events depend on the tree and on the scopes around it alone, so what a
    scope is good for is said without the state of the pass. The pass has one table, in which it opens and
    closes the scopes; it carries out these events, and behind a command the table is as it was. -/

namespace TriangleCompiler

namespace Resolution

/-- A step of the pass that links names. -/
inductive Event where
  | bind (id : NodeId) (target : Link)
  | report (position : Position) (cause : ScopeError)
deriving DecidableEq, Repr

/-- Carries an event out. -/
def Event.perform : Event → Pass State Unit
  | bind id target => link id target
  | report position cause => Resolution.report position cause

/-- Carries events out, one after the other. -/
def performAll : List Event → Pass State Unit
  | [] => pure ()
  | e :: rest => do
    e.perform
    performAll rest

/-- What happens where a name is used. -/
def useEvent (scopes : SymbolTable) (name : Name) : Event :=
  match scopes.retrieve? name.spelling with
  | some target => .bind name.id target
  | none => .report name.position (.undeclared name.spelling)

/-- What happens where a name is declared. -/
def declareEvents (scopes : SymbolTable) (name : Name) (target : Link) : List Event :=
  match scopes.enter name.spelling target with
  | .ok _ => []
  | .error _ => [.report name.position (.duplicateDeclaration name.spelling)]

/-- The scopes behind the declaration of a name. -/
def scopesWith (scopes : SymbolTable) (name : Name) (target : Link) : SymbolTable :=
  match scopes.enter name.spelling target with
  | .ok scopes => scopes
  | .error _ => scopes

end Resolution

open Resolution

mutual

/-- The events in an expression. -/
def Expr.events (scopes : SymbolTable) : Expr → List Event
  | .int _ _ | .char _ _ | .error _ => []
  | .name _ name => [useEvent scopes name]
  | .call _ callee argument => useEvent scopes callee :: argument.events scopes
  | .unary _ op operand => useEvent scopes op :: operand.events scopes
  | .binary _ op lhs rhs => lhs.events scopes ++ useEvent scopes op :: rhs.events scopes

/-- The events in an argument. -/
def Argument.events (scopes : SymbolTable) : Argument → List Event
  | .blank _ | .error _ => []
  | .value _ expr => expr.events scopes
  | .var _ name => [useEvent scopes name]

end

/-- The scopes behind a declaration. -/
def SingleDeclaration.scopesAfter (scopes : SymbolTable) : SingleDeclaration → SymbolTable
  | .const tag name _ => scopesWith scopes name (.const tag.id)
  | .var tag name _ => scopesWith scopes name (.var tag.id)
  | .error _ => scopes

/-- The events in a declaration. -/
def SingleDeclaration.events (scopes : SymbolTable) : SingleDeclaration → List Event
  | .const tag name value =>
    declareEvents scopes name (.const tag.id) ++ value.events (scopesWith scopes name (.const tag.id))
  | .var tag name type =>
    declareEvents scopes name (.var tag.id) ++
      [useEvent (scopesWith scopes name (.var tag.id)) type.name]
  | .error _ => []

/-- The scopes behind declarations. -/
def scopesAfterDeclarations (scopes : SymbolTable) : List SingleDeclaration → SymbolTable
  | [] => scopes
  | d :: rest => scopesAfterDeclarations (d.scopesAfter scopes) rest

/-- The events in declarations. -/
def declarationEvents (scopes : SymbolTable) : List SingleDeclaration → List Event
  | [] => []
  | d :: rest => d.events scopes ++ declarationEvents (d.scopesAfter scopes) rest

mutual

/-- The events in a command. -/
def Command.events (scopes : SymbolTable) : Command → List Event
  | .assign _ target value => value.events scopes ++ [useEvent scopes target]
  | .blank _ | .error _ => []
  | .call _ callee argument => argument.events scopes ++ [useEvent scopes callee]
  | .ifThen _ condition body => condition.events scopes ++ body.events scopes
  | .ifElse _ condition positive negative =>
    condition.events scopes ++ (positive.events scopes ++ negative.events scopes)
  | .while_ _ condition body => condition.events scopes ++ body.events scopes
  | .for_ _ counter first last body =>
    let inside := scopesWith scopes.openScope counter.name (.var counter.id)
    declareEvents scopes.openScope counter.name (.var counter.id) ++
      (first.events inside ++ (last.events inside ++ body.events inside))
  | .let_ _ declaration body =>
    declarationEvents scopes.openScope declaration.parts ++
      body.events (scopesAfterDeclarations scopes.openScope declaration.parts)
  | .sequential _ parts => commandEvents scopes parts

/-- The events in commands. -/
def commandEvents (scopes : SymbolTable) : List Command → List Event
  | [] => []
  | c :: rest => c.events scopes ++ commandEvents scopes rest

end

/-! ### The pass carries out the events -/

namespace Resolution

@[simp] theorem performAll_nil : performAll [] = pure () := rfl

theorem performAll_cons (e : Event) (es : List Event) :
    performAll (e :: es) = e.perform >>= fun _ => performAll es := rfl

@[simp] theorem performAll_append (es fs : List Event) :
    performAll (es ++ fs) = performAll es >>= fun _ => performAll fs := by
  induction es with
  | nil => rw [List.nil_append, performAll_nil, pure_bind]
  | cons e es ih => rw [List.cons_append, performAll_cons, performAll_cons, ih, bind_assoc]

theorem performAll_singleton (e : Event) : performAll [e] = e.perform := by
  rw [performAll_cons, performAll_nil]
  exact bind_pure_unit

/-- With the names of `t` in sight the pass `x` carries out the events, and then those of `u` are in sight.
    On the way it closes the scopes that it opens. Where an event stops with a fault, so does the pass. -/
structure Carries (x : ResolveM Unit) (events : List Event) (t u : SymbolTable) : Prop where
  reaches : t.Reaches u
  ok : ∀ s s', performAll events s = .ok () s' → x ⟨t, s⟩ = .ok () ⟨u, s'⟩
  error : ∀ s fault s', performAll events s = .error fault s' → ∃ v, x ⟨t, s⟩ = .error fault ⟨v, s'⟩

namespace Carries
variable {x y : ResolveM Unit} {es fs : List Event} {t u v : SymbolTable}

theorem pure (t : SymbolTable) : Carries (Pure.pure ()) [] t t where
  reaches := .refl t
  ok s s' h := by
    cases h
    rfl
  error s fault s' h := by cases h

/-- Only what the pass does with the names of `t` in sight matters. -/
theorem of_eq (hx : Carries x es t u) (h : ∀ s, y ⟨t, s⟩ = x ⟨t, s⟩) : Carries y es t u where
  reaches := hx.reaches
  ok s s' hrun := (h s).trans (hx.ok s s' hrun)
  error s fault s' hrun := by
    rw [h s]
    exact hx.error s fault s' hrun

/-- An event that is carried out itself. -/
theorem record (e : Event) (t : SymbolTable) : Carries (record e.perform) [e] t t where
  reaches := .refl t
  ok s s' h := by
    rw [performAll_singleton] at h
    rw [Resolution.record, h]
  error s fault s' h := by
    rw [performAll_singleton] at h
    exact ⟨t, by rw [Resolution.record, h]⟩

theorem bind (hx : Carries x es t u) (hy : Carries y fs u v) : Carries (x >>= fun _ => y) (es ++ fs) t v where
  reaches := hx.reaches.trans hy.reaches
  ok s s' h := by
    rw [performAll_append] at h
    obtain ⟨_, r, hfirst, hrest⟩ := Pass.exists_of_bind h
    rw [Pass.bind_of_ok (hx.ok s r hfirst)]
    exact hy.ok r s' hrest
  error s fault s' h := by
    rw [performAll_append, Pass.bind_apply] at h
    cases hfirst : performAll es s with
    | ok _ r =>
      rw [hfirst] at h
      rw [Pass.bind_of_ok (hx.ok s r hfirst)]
      exact hy.error r fault s' h
    | error fault' r =>
      rw [hfirst] at h
      cases h
      obtain ⟨w, herror⟩ := hx.error s fault s' hfirst
      exact ⟨w, Pass.bind_of_error herror⟩

theorem use (name : Name) (t : SymbolTable) : Carries (use name) [useEvent t name] t t := by
  refine (record (useEvent t name) t).of_eq fun s => ?_
  rw [Resolution.use, useEvent, Pass.get_bind]
  cases t.retrieve? name.spelling <;> rfl

theorem declare (name : Name) (target : Link) (t : SymbolTable) :
    Carries (declare name target) (declareEvents t name target) t (scopesWith t name target) := by
  unfold declareEvents scopesWith
  cases henter : t.enter name.spelling target with
  | ok u =>
    have hdeclare : ∀ s, Resolution.declare name target ⟨t, s⟩ = .ok () ⟨u, s⟩ := by
      intro s
      rw [Resolution.declare, Pass.get_bind, henter]
      rfl
    refine ⟨.enter henter, fun s s' h => ?_, fun s fault s' h => by cases h⟩
    cases h
    exact hdeclare s
  | error existing =>
    refine (record (.report name.position (.duplicateDeclaration name.spelling)) t).of_eq fun s => ?_
    rw [Resolution.declare, Pass.get_bind, henter]
    rfl

/-- A scope is closed again, whatever was declared in it. -/
theorem inScope (hx : Carries x es t.openScope u) : Carries (inScope x) es t t where
  reaches := .refl t
  ok s s' h := by
    have hopen : Resolution.openScope ⟨t, s⟩ = .ok () ⟨t.openScope, s⟩ := rfl
    rw [Resolution.inScope, Pass.bind_of_ok hopen, Pass.bind_of_ok (hx.ok s s' h), Resolution.closeScope,
      hx.reaches.closeScope]
  error s fault s' h := by
    have hopen : Resolution.openScope ⟨t, s⟩ = .ok () ⟨t.openScope, s⟩ := rfl
    obtain ⟨v, herror⟩ := hx.error s fault s' h
    exact ⟨v, by rw [Resolution.inScope, Pass.bind_of_ok hopen, Pass.bind_of_error herror]⟩

end Carries

end Resolution

mutual

theorem Expr.carries (t : SymbolTable) : ∀ e : Expr, Carries e.resolve (e.events t) t t
  | .int _ _ | .char _ _ | .error _ => by
    rw [Expr.resolve, Expr.events]
    exact .pure t
  | .name _ name => by
    rw [Expr.resolve, Expr.events]
    exact .use name t
  | .call _ callee argument => by
    rw [Expr.resolve, Expr.events]
    exact (Carries.use callee t).bind (argument.carries t)
  | .unary _ op operand => by
    rw [Expr.resolve, Expr.events]
    exact (Carries.use op t).bind (operand.carries t)
  | .binary _ op lhs rhs => by
    rw [Expr.resolve, Expr.events]
    exact (lhs.carries t).bind ((Carries.use op t).bind (rhs.carries t))

theorem Argument.carries (t : SymbolTable) : ∀ a : Argument, Carries a.resolve (a.events t) t t
  | .blank _ | .error _ => by
    rw [Argument.resolve, Argument.events]
    exact .pure t
  | .value _ expr => by
    rw [Argument.resolve, Argument.events]
    exact expr.carries t
  | .var _ name => by
    rw [Argument.resolve, Argument.events]
    exact .use name t

end

theorem SingleDeclaration.carries (t : SymbolTable) (d : SingleDeclaration) :
    Carries d.resolve (d.events t) t (d.scopesAfter t) := by
  cases d with
  | const tag name value => exact (Carries.declare name (.const tag.id) t).bind (value.carries _)
  | var tag name type => exact (Carries.declare name (.var tag.id) t).bind (.use type.name _)
  | error => exact .pure t

theorem carries_resolveDeclarations (t : SymbolTable) (ds : List SingleDeclaration) :
    Carries (resolveDeclarations ds) (declarationEvents t ds) t (scopesAfterDeclarations t ds) := by
  induction ds generalizing t with
  | nil => exact .pure t
  | cons d ds ih => exact (d.carries t).bind (ih (d.scopesAfter t))

mutual

theorem Command.carries (t : SymbolTable) : ∀ c : Command, Carries c.resolve (c.events t) t t
  | .assign _ target value => by
    rw [Command.resolve, Command.events]
    exact (value.carries t).bind (.use target t)
  | .blank _ | .error _ => by
    rw [Command.resolve, Command.events]
    exact .pure t
  | .call _ callee argument => by
    rw [Command.resolve, Command.events]
    exact (argument.carries t).bind (.use callee t)
  | .ifThen _ condition body | .while_ _ condition body => by
    rw [Command.resolve, Command.events]
    exact (condition.carries t).bind (body.carries t)
  | .ifElse _ condition positive negative => by
    rw [Command.resolve, Command.events]
    exact (condition.carries t).bind ((positive.carries t).bind (negative.carries t))
  | .for_ _ counter first last body => by
    rw [Command.resolve, Command.events]
    exact ((Carries.declare counter.name (.var counter.id) t.openScope).bind
      ((first.carries _).bind ((last.carries _).bind (body.carries _)))).inScope
  | .let_ _ declaration body => by
    rw [Command.resolve, Command.events]
    exact ((carries_resolveDeclarations t.openScope declaration.parts).bind (body.carries _)).inScope
  | .sequential _ parts => by
    rw [Command.resolve, Command.events]
    exact carries_resolveCommands t parts

theorem carries_resolveCommands (t : SymbolTable) :
    ∀ cs : List Command, Carries (resolveCommands cs) (commandEvents t cs) t t
  | [] => by
    rw [resolveCommands, commandEvents]
    exact .pure t
  | c :: rest => by
    rw [resolveCommands, commandEvents]
    exact (c.carries t).bind (carries_resolveCommands t rest)

end

/-- Linking the names of a program is carrying out its events in the standard environment. -/
theorem Program.resolve_eq_events (p : Program) : p.resolve = performAll (p.command.events .standard) := by
  have hcarries := p.command.carries .standard
  funext s
  rw [Program.resolve, SymbolTable.ofBuiltins_all]
  cases hrun : performAll (p.command.events .standard) s with
  | ok a s' => simp only [hcarries.ok s s' hrun]
  | error fault s' =>
    obtain ⟨v, herror⟩ := hcarries.error s fault s' hrun
    simp only [herror]

/-- When all names of a program are linked, the scopes are those of the start. -/
theorem Program.resolve_restores (p : Program) {s s' : State} (h : p.resolve.finalState s = .ok s') :
    p.command.resolve ⟨.standard, s⟩ = .ok () ⟨.standard, s'⟩ := by
  obtain ⟨_, hrun⟩ := Pass.exists_of_finalState h
  rw [p.resolve_eq_events] at hrun
  exact (p.command.carries .standard).ok s s' hrun

end TriangleCompiler
