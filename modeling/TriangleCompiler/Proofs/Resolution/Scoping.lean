import TriangleCompiler.Proofs.Resolution.Events
import TriangleCompiler.Proofs.Resolution.Scopes

/-! Lexical scoping without tables. Every name in a program stands behind the declarations of the scopes
    around it, which are passed down the tree; what is used stands for the first declaration of its name
    in the innermost scope that has one, or for something in the standard environment. The pass that
    links names does what the names in the program come to, one after the other. -/

namespace TriangleCompiler

namespace Scoping

/-- The declarations of one scope so far, in their order. -/
abbrev Declared := List (String × Link)

/-- What a name stands for behind the declarations of the scopes around it, the innermost one first. -/
def target? (scopes : List Declared) (spelling : String) : Option Link :=
  (scopes.findSome? (·.lookup spelling)).or ((Builtin.ofName? spelling).map .builtin)

/-- A name where it stands in a program. -/
inductive Occurrence where
  /-- It is used, and these scopes are around it. -/
  | use (name : Name) (scopes : List Declared)
  /-- It is declared, and this is in the same scope before it. -/
  | declaration (name : Name) (scope : Declared)
deriving DecidableEq, Repr

namespace Occurrence

/-- The number of the name. -/
def id : Occurrence → NodeId
  | use name _ | declaration name _ => name.id

/-- What the name is to be linked to; where it is declared this is nothing. -/
def link? : Occurrence → Option Link
  | use name scopes => target? scopes name.spelling
  | declaration _ _ => none

/-- What is wrong with the name: it is used and stands for nothing, or it is declared once more. -/
def diagnostic? : Occurrence → Option Diagnostic
  | use name scopes =>
    if (target? scopes name.spelling).isNone then
      some ⟨name.position, .scope (.undeclared name.spelling)⟩
    else none
  | declaration name scope =>
    if (scope.lookup name.spelling).isSome then
      some ⟨name.position, .scope (.duplicateDeclaration name.spelling)⟩
    else none

end Occurrence

end Scoping

open Scoping

mutual

/-- The names in an expression. -/
def Expr.occurrences (scopes : List Declared) : Expr → List Occurrence
  | .int _ _ | .char _ _ | .error _ => []
  | .name _ name => [.use name scopes]
  | .call _ callee argument => .use callee scopes :: argument.occurrences scopes
  | .unary _ op operand => .use op scopes :: operand.occurrences scopes
  | .binary _ op lhs rhs => lhs.occurrences scopes ++ .use op scopes :: rhs.occurrences scopes

/-- The names in an argument. -/
def Argument.occurrences (scopes : List Declared) : Argument → List Occurrence
  | .blank _ | .error _ => []
  | .value _ expr => expr.occurrences scopes
  | .var _ name => [.use name scopes]

end

/-- What a declaration declares. -/
def SingleDeclaration.declared : SingleDeclaration → Declared
  | .const tag name _ => [(name.spelling, .const tag.id)]
  | .var tag name _ => [(name.spelling, .var tag.id)]
  | .error _ => []

/-- The names in a declaration behind those of `scope`. What it declares is in sight in its own value or
    type. -/
def SingleDeclaration.occurrences (outer : List Declared) (scope : Declared) (d : SingleDeclaration) :
    List Occurrence :=
  let inside := (scope ++ d.declared) :: outer
  match d with
  | .const _ name value => .declaration name scope :: value.occurrences inside
  | .var _ name type => [.declaration name scope, .use type.name inside]
  | .error _ => []

/-- The names in declarations, each of which is in sight in those behind it. -/
def declarationOccurrences (outer : List Declared) (scope : Declared) :
    List SingleDeclaration → List Occurrence
  | [] => []
  | d :: rest => d.occurrences outer scope ++ declarationOccurrences outer (scope ++ d.declared) rest

mutual

/-- The names in a command. What it declares is in sight in its body, and the variable of a counting loop
    in the bounds of the loop as well. -/
def Command.occurrences (scopes : List Declared) : Command → List Occurrence
  | .assign _ target value => value.occurrences scopes ++ [.use target scopes]
  | .blank _ | .error _ => []
  | .call _ callee argument => argument.occurrences scopes ++ [.use callee scopes]
  | .ifThen _ condition body => condition.occurrences scopes ++ body.occurrences scopes
  | .ifElse _ condition positive negative =>
    condition.occurrences scopes ++ (positive.occurrences scopes ++ negative.occurrences scopes)
  | .while_ _ condition body => condition.occurrences scopes ++ body.occurrences scopes
  | .for_ _ counter first last body =>
    let inside := [(counter.name.spelling, .var counter.id)] :: scopes
    .declaration counter.name [] ::
      (first.occurrences inside ++ (last.occurrences inside ++ body.occurrences inside))
  | .let_ _ declaration body =>
    declarationOccurrences scopes [] declaration.parts ++
      body.occurrences (declaration.parts.flatMap SingleDeclaration.declared :: scopes)
  | .sequential _ parts => commandOccurrences scopes parts

/-- The names in commands. -/
def commandOccurrences (scopes : List Declared) : List Command → List Occurrence
  | [] => []
  | c :: rest => c.occurrences scopes ++ commandOccurrences scopes rest

end

/-- The names in a program. -/
def Program.occurrences (p : Program) : List Occurrence := p.command.occurrences []

/-! ### Every name occurs once -/

/-- The numbers of names. -/
def Scoping.nameIds (os : List Occurrence) : List NodeId := os.map Occurrence.id

@[simp] theorem Scoping.nameIds_nil : nameIds [] = [] := rfl

@[simp] theorem Scoping.nameIds_cons (o : Occurrence) (os : List Occurrence) :
    nameIds (o :: os) = o.id :: nameIds os := rfl

@[simp] theorem Scoping.nameIds_append (os os' : List Occurrence) :
    nameIds (os ++ os') = nameIds os ++ nameIds os' := List.map_append

mutual

theorem Expr.within_occurrences (scopes : List Declared) :
    ∀ e : Expr, Within (nameIds (e.occurrences scopes)) e.ids
  | .int _ _ | .char _ _ | .error _ => fun id => by simp [Expr.occurrences]
  | .name tag name => fun id => by
    simp only [Expr.occurrences, Expr.ids, nameIds_cons, nameIds_nil, Occurrence.id, List.count_cons]
    omega
  | .call tag callee argument => fun id => by
    have hargument := argument.within_occurrences scopes id
    simp only [Expr.occurrences, Expr.ids, nameIds_cons, Occurrence.id, List.count_cons, List.count_append]
    omega
  | .unary tag op operand => fun id => by
    have hoperand := operand.within_occurrences scopes id
    simp only [Expr.occurrences, Expr.ids, nameIds_cons, Occurrence.id, List.count_cons, List.count_append]
    omega
  | .binary tag op lhs rhs => fun id => by
    have hlhs := lhs.within_occurrences scopes id
    have hrhs := rhs.within_occurrences scopes id
    simp only [Expr.occurrences, Expr.ids, nameIds_append, nameIds_cons, Occurrence.id, List.count_cons,
      List.count_append]
    omega

theorem Argument.within_occurrences (scopes : List Declared) :
    ∀ a : Argument, Within (nameIds (a.occurrences scopes)) a.ids
  | .blank _ | .error _ => fun id => by simp [Argument.occurrences]
  | .value tag expr => fun id => by
    have hexpr := expr.within_occurrences scopes id
    simp only [Argument.occurrences, Argument.ids, List.count_cons]
    omega
  | .var tag name => fun id => by
    simp only [Argument.occurrences, Argument.ids, nameIds_cons, nameIds_nil, Occurrence.id,
      List.count_cons]
    omega

end

theorem SingleDeclaration.within_occurrences (outer : List Declared) (scope : Declared)
    (d : SingleDeclaration) : Within (nameIds (d.occurrences outer scope)) d.ids := by
  intro id
  cases d with
  | const tag name value =>
    have hvalue := value.within_occurrences ((scope ++ [(name.spelling, .const tag.id)]) :: outer) id
    simp only [SingleDeclaration.occurrences, SingleDeclaration.declared, SingleDeclaration.ids,
      nameIds_cons, Occurrence.id, List.count_cons]
    omega
  | var tag name type =>
    simp only [SingleDeclaration.occurrences, SingleDeclaration.ids, nameIds_cons, nameIds_nil,
      Occurrence.id, List.count_cons]
    omega
  | error => simp [SingleDeclaration.occurrences]

theorem within_declarationOccurrences (outer : List Declared) (scope : Declared)
    (ds : List SingleDeclaration) :
    Within (nameIds (declarationOccurrences outer scope ds)) (declarationIds ds) := by
  intro id
  induction ds generalizing scope with
  | nil => exact Nat.le_refl _
  | cons d ds ih =>
    have hd := d.within_occurrences outer scope id
    have hds := ih (scope ++ d.declared)
    simp only [declarationOccurrences, declarationIds, nameIds_append, List.count_append]
    omega

mutual

theorem Command.within_occurrences (scopes : List Declared) :
    ∀ c : Command, Within (nameIds (c.occurrences scopes)) c.ids
  | .assign _ target value => fun id => by
    have hvalue := value.within_occurrences scopes id
    simp only [Command.occurrences, Command.ids, nameIds_append, nameIds_cons, nameIds_nil, Occurrence.id,
      List.count_append, List.count_cons, List.count_nil]
    omega
  | .blank _ | .error _ => fun id => by simp [Command.occurrences]
  | .call _ callee argument => fun id => by
    have hargument := argument.within_occurrences scopes id
    simp only [Command.occurrences, Command.ids, nameIds_append, nameIds_cons, nameIds_nil, Occurrence.id,
      List.count_append, List.count_cons, List.count_nil]
    omega
  | .ifThen _ condition body | .while_ _ condition body => fun id => by
    have hcondition := condition.within_occurrences scopes id
    have hbody := body.within_occurrences scopes id
    simp only [Command.occurrences, Command.ids, nameIds_append, List.count_append]
    omega
  | .ifElse _ condition positive negative => fun id => by
    have hcondition := condition.within_occurrences scopes id
    have hpositive := positive.within_occurrences scopes id
    have hnegative := negative.within_occurrences scopes id
    simp only [Command.occurrences, Command.ids, nameIds_append, List.count_append]
    omega
  | .for_ _ counter first last body => fun id => by
    have hfirst := first.within_occurrences ([(counter.name.spelling, .var counter.id)] :: scopes) id
    have hlast := last.within_occurrences ([(counter.name.spelling, .var counter.id)] :: scopes) id
    have hbody := body.within_occurrences ([(counter.name.spelling, .var counter.id)] :: scopes) id
    simp only [Command.occurrences, Command.ids, nameIds_append, nameIds_cons, Occurrence.id,
      List.count_append, List.count_cons]
    omega
  | .let_ _ declaration body => fun id => by
    have hparts := within_declarationOccurrences scopes [] declaration.parts id
    have hbody := body.within_occurrences
      (declaration.parts.flatMap SingleDeclaration.declared :: scopes) id
    simp only [Command.occurrences, Command.ids, nameIds_append, List.count_append]
    omega
  | .sequential _ parts => fun id => by
    have hparts := within_commandOccurrences scopes parts id
    simpa only [Command.occurrences, Command.ids] using hparts

theorem within_commandOccurrences (scopes : List Declared) :
    ∀ cs : List Command, Within (nameIds (commandOccurrences scopes cs)) (commandIds cs)
  | [] => fun id => by simp [commandOccurrences]
  | c :: rest => fun id => by
    have hc := c.within_occurrences scopes id
    have hrest := within_commandOccurrences scopes rest id
    simp only [commandOccurrences, commandIds, nameIds_append, List.count_append]
    omega

end

/-! ### Tables of symbols and the declarations in sight -/

namespace Scoping

open Resolution

/-- A table gives the names what they stand for behind the declarations in sight. -/
def Mirrors (t : SymbolTable) (scopes : List Declared) : Prop :=
  ∀ spelling, t.retrieve? spelling = target? scopes spelling

/-- The same, and the innermost scope of the table has the declarations of `scope`. -/
def MirrorsInner (t : SymbolTable) (outer : List Declared) (scope : Declared) : Prop :=
  Mirrors t (scope :: outer) ∧ ∀ spelling, t.inner[spelling]? = scope.lookup spelling

variable {t : SymbolTable} {outer scopes : List Declared} {scope : Declared} {name : Name} {link : Link}

theorem target?_cons (scope : Declared) (outer : List Declared) (spelling : String) :
    target? (scope :: outer) spelling = (scope.lookup spelling).or (target? outer spelling) := by
  rw [target?, target?, List.findSome?_cons]
  cases scope.lookup spelling <;> rfl

theorem mirrors_standard : Mirrors .standard [] := fun spelling => by
  rw [SymbolTable.retrieve?_standard]
  rfl

theorem Mirrors.openScope (h : Mirrors t scopes) : MirrorsInner t.openScope scopes [] := by
  refine ⟨fun spelling => ?_, fun spelling => t.inner_openScope spelling⟩
  rw [SymbolTable.retrieve?_openScope, h spelling, target?_cons]
  rfl

theorem lookup_declare (scope : Declared) (spelling spelling' : String) (link : Link) :
    (scope ++ [(spelling, link)]).lookup spelling' =
      (scope.lookup spelling').or (if spelling' = spelling then some link else none) := by
  rw [List.lookup_append]
  by_cases hsame : spelling' = spelling
  · simp [hsame]
  · have hne : (spelling' == spelling) = false := by simpa using hsame
    simp [hsame, hne, List.lookup_cons]

/-- A name that its scope declares already keeps its first declaration. -/
theorem MirrorsInner.declare (h : MirrorsInner t outer scope) (name : Name) (link : Link) :
    MirrorsInner (scopesWith t name link) outer (scope ++ [(name.spelling, link)]) := by
  obtain ⟨hmirrors, hinner⟩ := h
  unfold scopesWith
  cases henter : t.enter name.spelling link with
  | ok u =>
    obtain ⟨hnone, hinner'⟩ := SymbolTable.inner_enter henter
    rw [hinner] at hnone
    refine ⟨fun spelling => ?_, fun spelling => ?_⟩
    · rw [SymbolTable.retrieve?_enter henter, hmirrors, target?_cons, target?_cons, lookup_declare]
      by_cases hsame : spelling = name.spelling
      · simp [hsame, hnone]
      · simp [hsame]
    · rw [hinner', hinner, lookup_declare]
      by_cases hsame : spelling = name.spelling
      · simp [hsame, hnone]
      · simp [hsame]
  | error existing =>
    have hsome := SymbolTable.inner_of_enter_error henter
    rw [hinner] at hsome
    have hkeep : ∀ spelling, (scope ++ [(name.spelling, link)]).lookup spelling = scope.lookup spelling := by
      intro spelling
      rw [lookup_declare]
      by_cases hsame : spelling = name.spelling
      · simp [hsame, hsome]
      · simp [hsame]
    refine ⟨fun spelling => ?_, fun spelling => ?_⟩
    · rw [hmirrors, target?_cons, target?_cons, hkeep]
    · rw [hinner, hkeep]

/-! ### What happens at a name -/

/-- What the pass that links names does where a name occurs. -/
def Occurrence.event? : Occurrence → Option Event
  | use name scopes =>
    match target? scopes name.spelling with
    | some target => some (.bind name.id target)
    | none => some (.report name.position (.undeclared name.spelling))
  | declaration name scope =>
    if (scope.lookup name.spelling).isSome then
      some (.report name.position (.duplicateDeclaration name.spelling))
    else none

theorem Mirrors.event?_use (h : Mirrors t scopes) (name : Name) :
    (Occurrence.use name scopes).event? = some (useEvent t name) := by
  rw [Occurrence.event?, useEvent, h]
  cases target? scopes name.spelling <;> rfl

theorem MirrorsInner.declareEvents_eq (h : MirrorsInner t outer scope) (name : Name) (link : Link) :
    declareEvents t name link = (Occurrence.declaration name scope).event?.toList := by
  unfold declareEvents
  cases henter : t.enter name.spelling link with
  | ok u =>
    obtain ⟨hnone, -⟩ := SymbolTable.inner_enter henter
    rw [h.2] at hnone
    simp [Occurrence.event?, hnone]
  | error existing =>
    have hsome := SymbolTable.inner_of_enter_error henter
    rw [h.2] at hsome
    simp [Occurrence.event?, hsome]

end Scoping

open Resolution

/-- What happens at names, one after the other. -/
def Scoping.eventsOf (os : List Occurrence) : List Event := os.filterMap Occurrence.event?

@[simp] theorem Scoping.eventsOf_append (os os' : List Occurrence) :
    eventsOf (os ++ os') = eventsOf os ++ eventsOf os' := List.filterMap_append

theorem Scoping.eventsOf_cons (o : Occurrence) (os : List Occurrence) :
    eventsOf (o :: os) = o.event?.toList ++ eventsOf os := by
  rw [eventsOf, List.filterMap_cons]
  cases o.event? <;> rfl

theorem Scoping.Mirrors.eventsOf_use {t : SymbolTable} {scopes : List Declared} (h : Mirrors t scopes)
    (name : Name) (os : List Occurrence) :
    eventsOf (.use name scopes :: os) = useEvent t name :: eventsOf os := by
  rw [eventsOf_cons, h.event?_use]
  rfl

mutual

theorem Expr.events_eq {t : SymbolTable} {scopes : List Declared} (h : Mirrors t scopes) :
    ∀ e : Expr, e.events t = eventsOf (e.occurrences scopes)
  | .int _ _ | .char _ _ | .error _ => by rw [Expr.events, Expr.occurrences]; rfl
  | .name _ name => by
    rw [Expr.events, Expr.occurrences, h.eventsOf_use]
    rfl
  | .call _ callee argument => by
    rw [Expr.events, Expr.occurrences, h.eventsOf_use, argument.events_eq h]
  | .unary _ op operand => by
    rw [Expr.events, Expr.occurrences, h.eventsOf_use, operand.events_eq h]
  | .binary _ op lhs rhs => by
    rw [Expr.events, Expr.occurrences, eventsOf_append, h.eventsOf_use, lhs.events_eq h, rhs.events_eq h]

theorem Argument.events_eq {t : SymbolTable} {scopes : List Declared} (h : Mirrors t scopes) :
    ∀ a : Argument, a.events t = eventsOf (a.occurrences scopes)
  | .blank _ | .error _ => by rw [Argument.events, Argument.occurrences]; rfl
  | .value _ expr => by rw [Argument.events, Argument.occurrences, expr.events_eq h]
  | .var _ name => by
    rw [Argument.events, Argument.occurrences, h.eventsOf_use]
    rfl

end

theorem SingleDeclaration.mirrors_scopesAfter {t : SymbolTable} {outer : List Declared} {scope : Declared}
    (h : MirrorsInner t outer scope) (d : SingleDeclaration) :
    MirrorsInner (d.scopesAfter t) outer (scope ++ d.declared) := by
  cases d with
  | const tag name value => exact h.declare name (.const tag.id)
  | var tag name type => exact h.declare name (.var tag.id)
  | error =>
    rw [SingleDeclaration.declared, List.append_nil]
    exact h

theorem SingleDeclaration.events_eq {t : SymbolTable} {outer : List Declared} {scope : Declared}
    (h : MirrorsInner t outer scope) (d : SingleDeclaration) :
    d.events t = eventsOf (d.occurrences outer scope) := by
  have hinside := (d.mirrors_scopesAfter h).1
  cases d with
  | const tag name value =>
    rw [SingleDeclaration.events, SingleDeclaration.occurrences, h.declareEvents_eq, eventsOf_cons,
      ← value.events_eq hinside]
    rfl
  | var tag name type =>
    rw [SingleDeclaration.events, SingleDeclaration.occurrences, h.declareEvents_eq, eventsOf_cons,
      hinside.eventsOf_use]
    rfl
  | error => rfl

theorem mirrors_scopesAfterDeclarations {t : SymbolTable} {outer : List Declared} {scope : Declared}
    (h : MirrorsInner t outer scope) (ds : List SingleDeclaration) :
    MirrorsInner (scopesAfterDeclarations t ds) outer (scope ++ ds.flatMap SingleDeclaration.declared) := by
  induction ds generalizing t scope with
  | nil =>
    rw [List.flatMap_nil, List.append_nil]
    exact h
  | cons d ds ih =>
    rw [List.flatMap_cons, ← List.append_assoc]
    exact ih (d.mirrors_scopesAfter h)

theorem declarationEvents_eq {t : SymbolTable} {outer : List Declared} {scope : Declared}
    (h : MirrorsInner t outer scope) (ds : List SingleDeclaration) :
    declarationEvents t ds = eventsOf (declarationOccurrences outer scope ds) := by
  induction ds generalizing t scope with
  | nil => rfl
  | cons d ds ih =>
    rw [declarationEvents, declarationOccurrences, eventsOf_append, d.events_eq h,
      ih (d.mirrors_scopesAfter h)]

mutual

theorem Command.events_eq {t : SymbolTable} {scopes : List Declared} (h : Mirrors t scopes) :
    ∀ c : Command, c.events t = eventsOf (c.occurrences scopes)
  | .assign _ target value => by
    rw [Command.events, Command.occurrences, eventsOf_append, h.eventsOf_use, value.events_eq h]
    rfl
  | .blank _ | .error _ => by rw [Command.events, Command.occurrences]; rfl
  | .call _ callee argument => by
    rw [Command.events, Command.occurrences, eventsOf_append, h.eventsOf_use, argument.events_eq h]
    rfl
  | .ifThen _ condition body => by
    rw [Command.events, Command.occurrences, eventsOf_append, condition.events_eq h, body.events_eq h]
  | .ifElse _ condition positive negative => by
    rw [Command.events, Command.occurrences, eventsOf_append, eventsOf_append, condition.events_eq h,
      positive.events_eq h, negative.events_eq h]
  | .while_ _ condition body => by
    rw [Command.events, Command.occurrences, eventsOf_append, condition.events_eq h, body.events_eq h]
  | .for_ _ counter first last body => by
    have hinside := (h.openScope.declare counter.name (.var counter.id)).1
    rw [Command.events, Command.occurrences, h.openScope.declareEvents_eq, eventsOf_cons, eventsOf_append,
      eventsOf_append, first.events_eq hinside, last.events_eq hinside, body.events_eq hinside]
    rfl
  | .let_ _ declaration body => by
    have hinside := (mirrors_scopesAfterDeclarations h.openScope declaration.parts).1
    rw [Command.events, Command.occurrences, eventsOf_append, declarationEvents_eq h.openScope,
      body.events_eq hinside]
    rfl
  | .sequential _ parts => by rw [Command.events, Command.occurrences, commandEvents_eq h parts]

theorem commandEvents_eq {t : SymbolTable} {scopes : List Declared} (h : Mirrors t scopes) :
    ∀ cs : List Command, commandEvents t cs = eventsOf (commandOccurrences scopes cs)
  | [] => by rw [commandEvents, commandOccurrences]; rfl
  | c :: rest => by
    rw [commandEvents, commandOccurrences, eventsOf_append, c.events_eq h, commandEvents_eq h rest]

end

end TriangleCompiler
