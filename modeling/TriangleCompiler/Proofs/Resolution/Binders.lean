import Mathlib.Data.List.Nodup
import Mathlib.Data.List.Pairwise
import TriangleCompiler.Proofs.Parser.Names
import TriangleCompiler.Proofs.Resolution.Scoping

/-! The declarations of a program, each with its name and with the link that its uses get. No two of them
    have a number in common, every one of them is an occurrence of its name, and the scopes in sight of a
    name are made of nothing else. -/

namespace TriangleCompiler

open Scoping

/-- The node of a declaration; nothing in the standard environment has one. -/
def Link.nodes : Link → List NodeId
  | .const id | .var id => [id]
  | .builtin _ => []

/-- What is declared, and under which name. -/
structure Binder where
  name : Name
  link : Link
  nodes_ne_nil : link.nodes ≠ []
deriving DecidableEq

def Binder.const (name : Name) (id : NodeId) : Binder := ⟨name, .const id, List.cons_ne_nil _ _⟩

def Binder.var (name : Name) (id : NodeId) : Binder := ⟨name, .var id, List.cons_ne_nil _ _⟩

def SingleDeclaration.binders : SingleDeclaration → List Binder
  | .const tag name _ => [.const name tag.id]
  | .var tag name _ => [.var name tag.id]
  | .error _ => []

mutual

/-- The constants, the variables and the variables of loops that are declared in a command. -/
def Command.binders : Command → List Binder
  | .assign _ _ _ | .blank _ | .error _ | .call _ _ _ => []
  | .ifThen _ _ body | .while_ _ _ body => body.binders
  | .ifElse _ _ positive negative => positive.binders ++ negative.binders
  | .for_ _ counter _ _ body => .var counter.name counter.id :: body.binders
  | .let_ _ declaration body => declaration.parts.flatMap SingleDeclaration.binders ++ body.binders
  | .sequential _ parts => commandBinders parts

def commandBinders : List Command → List Binder
  | [] => []
  | c :: rest => c.binders ++ commandBinders rest

end

def Program.binders (p : Program) : List Binder := p.command.binders

/-! ### Numbers -/

/-- The numbers of a declaration and of its name. -/
def Binder.ids (b : Binder) : List NodeId := b.name.id :: b.link.nodes

def binderIds (bs : List Binder) : List NodeId := bs.flatMap Binder.ids

theorem binderIds_cons (b : Binder) (bs : List Binder) : binderIds (b :: bs) = b.ids ++ binderIds bs :=
  List.flatMap_cons

theorem binderIds_append (bs bs' : List Binder) : binderIds (bs ++ bs') = binderIds bs ++ binderIds bs' :=
  List.flatMap_append

theorem SingleDeclaration.within_binders (d : SingleDeclaration) : Within (binderIds d.binders) d.ids := by
  intro id
  cases d <;>
    simp only [SingleDeclaration.binders, SingleDeclaration.ids, binderIds, List.flatMap_cons, List.flatMap_nil,
      Binder.ids, Binder.const, Binder.var, Link.nodes, List.append_nil, List.count_cons, List.count_nil] <;>
    omega

theorem within_declarationBinders (ds : List SingleDeclaration) :
    Within (binderIds (ds.flatMap SingleDeclaration.binders)) (declarationIds ds) := by
  intro id
  induction ds with
  | nil => exact Nat.le_refl _
  | cons d ds ih =>
    have hd := d.within_binders id
    rw [List.flatMap_cons, binderIds_append, declarationIds, List.count_append, List.count_append]
    omega

mutual

theorem Command.within_binders : ∀ c : Command, Within (binderIds c.binders) c.ids
  | .assign _ _ _ | .blank _ | .error _ | .call _ _ _ => fun id => by simp [Command.binders, binderIds]
  | .ifThen _ condition body | .while_ _ condition body => fun id => by
    have hbody := body.within_binders id
    rw [Command.binders, Command.ids, List.count_append]
    omega
  | .ifElse _ condition positive negative => fun id => by
    have hpositive := positive.within_binders id
    have hnegative := negative.within_binders id
    rw [Command.binders, Command.ids, binderIds_append]
    simp only [List.count_append]
    omega
  | .for_ _ counter first last body => fun id => by
    have hbody := body.within_binders id
    rw [Command.binders, Command.ids, binderIds_cons]
    simp only [Binder.ids, Binder.var, Link.nodes, List.count_append, List.count_cons, List.count_nil]
    omega
  | .let_ _ declaration body => fun id => by
    have hparts := within_declarationBinders declaration.parts id
    have hbody := body.within_binders id
    rw [Command.binders, Command.ids, binderIds_append]
    simp only [List.count_append]
    omega
  | .sequential _ parts => fun id => by
    rw [Command.binders, Command.ids]
    exact within_commandBinders parts id

theorem within_commandBinders : ∀ cs : List Command, Within (binderIds (commandBinders cs)) (commandIds cs)
  | [] => fun id => by simp [commandBinders, binderIds]
  | c :: rest => fun id => by
    have hc := c.within_binders id
    have hrest := within_commandBinders rest id
    rw [commandBinders, commandIds, binderIds_append, List.count_append, List.count_append]
    omega

end

/-- Declarations that have a number in common are the same. -/
theorem Command.binder_unique {c : Command} (hids : c.ids.Nodup) {b b' : Binder} (hb : b ∈ c.binders)
    (hb' : b' ∈ c.binders) {id : NodeId} (hid : id ∈ b.ids) (hid' : id ∈ b'.ids) : b = b' := by
  by_contra hne
  have hsymm : Std.Symm (Function.onFun List.Disjoint Binder.ids) := ⟨fun _ _ h _ hid hid' => h hid' hid⟩
  have hdisjoint := (List.nodup_flatMap.mp (c.within_binders.nodup hids)).2
  exact hdisjoint.forall hb hb' hne hid hid'

/-! ### Occurrences -/

namespace Scoping

/-- The name that occurs. -/
def Occurrence.name : Occurrence → Name
  | use name _ | declaration name _ => name

/-- The scopes that matter to the name. -/
def Occurrence.sight : Occurrence → List Declared
  | use _ scopes => scopes
  | declaration _ scope => [scope]

/-- The name is one of these, and what is declared is an identifier. -/
def Occurrence.Among (names : List (Token.Kind × Name)) : Occurrence → Prop
  | use name _ => ∃ k, (k, name) ∈ names
  | declaration name _ => (.identifier, name) ∈ names

theorem Occurrence.Among.mono {names names' : List (Token.Kind × Name)} {o : Occurrence} (h : o.Among names)
    (hsub : names ⊆ names') : o.Among names' := by
  cases o with
  | use name _ =>
    obtain ⟨k, hmem⟩ := h
    exact ⟨k, hsub hmem⟩
  | declaration name _ => exact hsub h

/-- These are the names that occur. -/
structure Occur (names : List (Token.Kind × Name)) (os : List Occurrence) : Prop where
  among : ∀ o ∈ os, o.Among names
  occurs : ∀ entry ∈ names, ∃ o ∈ os, o.name = entry.2

section Occur
variable {names names' : List (Token.Kind × Name)} {os os' : List Occurrence}

theorem Occur.nil : Occur [] [] where
  among := fun _ h => by cases h
  occurs := fun _ h => by cases h

theorem Occur.append (h : Occur names os) (h' : Occur names' os') : Occur (names ++ names') (os ++ os') where
  among := by
    intro o ho
    rcases List.mem_append.mp ho with ho | ho
    · exact (h.among o ho).mono (List.subset_append_left _ _)
    · exact (h'.among o ho).mono (List.subset_append_right _ _)
  occurs := by
    intro entry hentry
    rcases List.mem_append.mp hentry with hentry | hentry
    · obtain ⟨o, ho, hname⟩ := h.occurs entry hentry
      exact ⟨o, List.mem_append_left _ ho, hname⟩
    · obtain ⟨o, ho, hname⟩ := h'.occurs entry hentry
      exact ⟨o, List.mem_append_right _ ho, hname⟩

theorem Occur.use (k : Token.Kind) (name : Name) (scopes : List Declared) :
    Occur [(k, name)] [.use name scopes] where
  among := List.forall_mem_singleton.mpr ⟨k, List.mem_singleton.mpr rfl⟩
  occurs := List.forall_mem_singleton.mpr ⟨_, List.mem_singleton.mpr rfl, rfl⟩

theorem Occur.declaration (name : Name) (scope : Declared) :
    Occur [(.identifier, name)] [.declaration name scope] where
  among := List.forall_mem_singleton.mpr (List.mem_singleton.mpr rfl)
  occurs := List.forall_mem_singleton.mpr ⟨_, List.mem_singleton.mpr rfl, rfl⟩

/-- A name that stands in front of others may be looked at behind them. -/
theorem Occur.swap (h : Occur (names ++ names') os) : Occur (names' ++ names) os where
  among := fun o ho => (h.among o ho).mono fun _ hx => List.mem_append.mpr (List.mem_append.mp hx).symm
  occurs := fun entry hentry => h.occurs entry (List.mem_append.mpr (List.mem_append.mp hentry).symm)

end Occur

end Scoping

mutual

theorem Expr.occur (scopes : List Declared) : ∀ e : Expr, Occur e.names (e.occurrences scopes)
  | .int _ _ | .char _ _ | .error _ => by
    rw [Expr.occurrences, Expr.names]
    exact .nil
  | .name _ name => by
    rw [Expr.occurrences, Expr.names]
    exact .use _ name scopes
  | .call _ callee argument => by
    rw [Expr.occurrences, Expr.names]
    exact (Occur.use _ callee scopes).append (argument.occur scopes)
  | .unary _ op operand => by
    rw [Expr.occurrences, Expr.names]
    exact (Occur.use _ op scopes).append (operand.occur scopes)
  | .binary _ op lhs rhs => by
    rw [Expr.occurrences, Expr.names]
    exact (lhs.occur scopes).append ((Occur.use _ op scopes).append (rhs.occur scopes))

theorem Argument.occur (scopes : List Declared) : ∀ a : Argument, Occur a.names (a.occurrences scopes)
  | .blank _ | .error _ => by
    rw [Argument.occurrences, Argument.names]
    exact .nil
  | .value _ expr => by
    rw [Argument.occurrences, Argument.names]
    exact expr.occur scopes
  | .var _ name => by
    rw [Argument.occurrences, Argument.names]
    exact .use _ name scopes

end

theorem SingleDeclaration.occur (outer : List Declared) (scope : Declared) (d : SingleDeclaration) :
    Occur d.names (d.occurrences outer scope) := by
  cases d with
  | const _ name value => exact (Occur.declaration name scope).append (value.occur _)
  | var _ name type => exact (Occur.declaration name scope).append (.use _ type.name _)
  | error => exact .nil

theorem occur_declarationOccurrences (outer : List Declared) (scope : Declared) (ds : List SingleDeclaration) :
    Occur (ds.flatMap SingleDeclaration.names) (declarationOccurrences outer scope ds) := by
  induction ds generalizing scope with
  | nil => exact .nil
  | cons d ds ih => exact (d.occur outer scope).append (ih _)

mutual

theorem Command.occur (scopes : List Declared) : ∀ c : Command, Occur c.names (c.occurrences scopes)
  | .assign _ target value => by
    rw [Command.occurrences, Command.names]
    exact ((value.occur scopes).append (.use _ target scopes)).swap
  | .blank _ | .error _ => by
    rw [Command.occurrences, Command.names]
    exact .nil
  | .call _ callee argument => by
    rw [Command.occurrences, Command.names]
    exact ((argument.occur scopes).append (.use _ callee scopes)).swap
  | .ifThen _ condition body | .while_ _ condition body => by
    rw [Command.occurrences, Command.names]
    exact (condition.occur scopes).append (body.occur scopes)
  | .ifElse _ condition positive negative => by
    rw [Command.occurrences, Command.names]
    exact (condition.occur scopes).append ((positive.occur scopes).append (negative.occur scopes))
  | .for_ _ counter first last body => by
    rw [Command.occurrences, Command.names]
    refine (Occur.declaration counter.name []).append ?_
    exact (first.occur _).append ((last.occur _).append (body.occur _))
  | .let_ _ declaration body => by
    rw [Command.occurrences, Command.names]
    exact (occur_declarationOccurrences scopes [] declaration.parts).append (body.occur _)
  | .sequential _ parts => by
    rw [Command.occurrences, Command.names]
    exact occur_commandOccurrences scopes parts

theorem occur_commandOccurrences (scopes : List Declared) :
    ∀ cs : List Command, Occur (commandNames cs) (commandOccurrences scopes cs)
  | [] => by
    rw [commandOccurrences, commandNames]
    exact .nil
  | c :: rest => by
    rw [commandOccurrences, commandNames]
    exact (c.occur scopes).append (occur_commandOccurrences scopes rest)

end

/-! ### Declarations -/

section Declarations
variable {b : Binder}

theorem SingleDeclaration.exists_declaration (outer : List Declared) (scope : Declared) {d : SingleDeclaration}
    (hb : b ∈ d.binders) : ∃ scope', .declaration b.name scope' ∈ d.occurrences outer scope := by
  cases d with
  | const | var =>
    cases List.mem_singleton.mp hb
    exact ⟨scope, List.mem_cons_self⟩
  | error => cases hb

theorem exists_declaration_of_declarations (outer : List Declared) (scope : Declared)
    {ds : List SingleDeclaration} (hb : b ∈ ds.flatMap SingleDeclaration.binders) :
    ∃ scope', .declaration b.name scope' ∈ declarationOccurrences outer scope ds := by
  induction ds generalizing scope with
  | nil => cases hb
  | cons d ds ih =>
    rw [List.flatMap_cons] at hb
    rcases List.mem_append.mp hb with hb | hb
    · obtain ⟨scope', h⟩ := d.exists_declaration outer scope hb
      exact ⟨scope', List.mem_append_left _ h⟩
    · obtain ⟨scope', h⟩ := ih (scope ++ d.declared) hb
      exact ⟨scope', List.mem_append_right _ h⟩

mutual

/-- What is declared occurs as a declaration. -/
theorem Command.exists_declaration (scopes : List Declared) : ∀ c : Command, b ∈ c.binders →
    ∃ scope, .declaration b.name scope ∈ c.occurrences scopes
  | .assign _ _ _, hb | .blank _, hb | .error _, hb | .call _ _ _, hb => by
    rw [Command.binders] at hb
    cases hb
  | .ifThen _ _ body, hb | .while_ _ _ body, hb => by
    rw [Command.binders] at hb
    obtain ⟨scope, h⟩ := body.exists_declaration scopes hb
    rw [Command.occurrences]
    exact ⟨scope, List.mem_append_right _ h⟩
  | .ifElse _ _ positive negative, hb => by
    rw [Command.binders] at hb
    rw [Command.occurrences]
    rcases List.mem_append.mp hb with hb | hb
    · obtain ⟨scope, h⟩ := positive.exists_declaration scopes hb
      exact ⟨scope, List.mem_append_right _ (List.mem_append_left _ h)⟩
    · obtain ⟨scope, h⟩ := negative.exists_declaration scopes hb
      exact ⟨scope, List.mem_append_right _ (List.mem_append_right _ h)⟩
  | .for_ _ counter _ _ body, hb => by
    rw [Command.binders] at hb
    rw [Command.occurrences]
    rcases List.mem_cons.mp hb with rfl | hb
    · exact ⟨[], List.mem_cons_self⟩
    · obtain ⟨scope, h⟩ := body.exists_declaration _ hb
      exact ⟨scope, List.mem_cons_of_mem _ (List.mem_append_right _ (List.mem_append_right _ h))⟩
  | .let_ _ declaration body, hb => by
    rw [Command.binders] at hb
    rw [Command.occurrences]
    rcases List.mem_append.mp hb with hb | hb
    · obtain ⟨scope, h⟩ := exists_declaration_of_declarations scopes [] hb
      exact ⟨scope, List.mem_append_left _ h⟩
    · obtain ⟨scope, h⟩ := body.exists_declaration _ hb
      exact ⟨scope, List.mem_append_right _ h⟩
  | .sequential _ parts, hb => by
    rw [Command.binders] at hb
    rw [Command.occurrences]
    exact exists_declaration_of_commands scopes parts hb

theorem exists_declaration_of_commands (scopes : List Declared) :
    ∀ cs : List Command, b ∈ commandBinders cs → ∃ scope, .declaration b.name scope ∈ commandOccurrences scopes cs
  | [], hb => by
    rw [commandBinders] at hb
    cases hb
  | c :: rest, hb => by
    rw [commandBinders] at hb
    rw [commandOccurrences]
    rcases List.mem_append.mp hb with hb | hb
    · obtain ⟨scope, h⟩ := c.exists_declaration scopes hb
      exact ⟨scope, List.mem_append_left _ h⟩
    · obtain ⟨scope, h⟩ := exists_declaration_of_commands scopes rest hb
      exact ⟨scope, List.mem_append_right _ h⟩

end

end Declarations

/-! ### The scopes in sight -/

/-- What a scope has before one of these declarations it has behind it. -/
def Scoping.Extends (P : Declared → Prop) (bs : List Binder) (os : List Occurrence) : Prop :=
  ∀ b scope, b ∈ bs → .declaration b.name scope ∈ os → P scope → P (scope ++ [(b.name.spelling, b.link)])

theorem Scoping.Extends.mono {P : Declared → Prop} {bs bs' : List Binder} {os os' : List Occurrence}
    (h : Extends P bs os) (hbs : bs' ⊆ bs) (hos : os' ⊆ os) : Extends P bs' os' :=
  fun b scope hb ho => h b scope (hbs hb) (hos ho)

/-- All scopes in sight of these names have the property. -/
def Scoping.AllSee (P : Declared → Prop) (os : List Occurrence) : Prop := ∀ o ∈ os, ∀ scope ∈ o.sight, P scope

section Sight
variable {P : Declared → Prop} {scopes outer : List Declared}

theorem Scoping.AllSee.append {os os' : List Occurrence} (h : AllSee P os) (h' : AllSee P os') :
    AllSee P (os ++ os') := by
  intro o ho
  rcases List.mem_append.mp ho with ho | ho
  · exact h o ho
  · exact h' o ho

theorem Scoping.AllSee.nil : AllSee P [] := fun _ h => by cases h

theorem Scoping.AllSee.use (h : ∀ scope ∈ scopes, P scope) (name : Name) : AllSee P [.use name scopes] := by
  intro o ho
  cases List.mem_singleton.mp ho
  exact h

theorem Scoping.AllSee.declaration {scope : Declared} (h : P scope) (name : Name) :
    AllSee P [.declaration name scope] := by
  intro o ho
  cases List.mem_singleton.mp ho
  exact List.forall_mem_singleton.mpr h

mutual

theorem Expr.allSee (h : ∀ scope ∈ scopes, P scope) : ∀ e : Expr, AllSee P (e.occurrences scopes)
  | .int _ _ | .char _ _ | .error _ => by
    rw [Expr.occurrences]
    exact .nil
  | .name _ name => by
    rw [Expr.occurrences]
    exact .use h name
  | .call _ callee argument => by
    rw [Expr.occurrences]
    exact (AllSee.use h callee).append (argument.allSee h)
  | .unary _ op operand => by
    rw [Expr.occurrences]
    exact (AllSee.use h op).append (operand.allSee h)
  | .binary _ op lhs rhs => by
    rw [Expr.occurrences]
    exact (lhs.allSee h).append ((AllSee.use h op).append (rhs.allSee h))

theorem Argument.allSee (h : ∀ scope ∈ scopes, P scope) : ∀ a : Argument, AllSee P (a.occurrences scopes)
  | .blank _ | .error _ => by
    rw [Argument.occurrences]
    exact .nil
  | .value _ expr => by
    rw [Argument.occurrences]
    exact expr.allSee h
  | .var _ name => by
    rw [Argument.occurrences]
    exact .use h name

end

theorem SingleDeclaration.extends {scope : Declared} (d : SingleDeclaration)
    (hstep : Extends P d.binders (d.occurrences outer scope)) (hscope : P scope) : P (scope ++ d.declared) := by
  cases d with
  | const | var => exact hstep _ _ List.mem_cons_self List.mem_cons_self hscope
  | error =>
    rw [SingleDeclaration.declared, List.append_nil]
    exact hscope

theorem SingleDeclaration.allSee {scope : Declared} (houter : ∀ scope ∈ outer, P scope) (hscope : P scope)
    (d : SingleDeclaration) (hstep : Extends P d.binders (d.occurrences outer scope)) :
    AllSee P (d.occurrences outer scope) := by
  have hinside := List.forall_mem_cons.mpr ⟨d.extends hstep hscope, houter⟩
  cases d with
  | const _ name value => exact (AllSee.declaration hscope name).append (value.allSee hinside)
  | var _ name type => exact (AllSee.declaration hscope name).append (.use hinside type.name)
  | error => exact .nil

theorem allSee_declarationOccurrences {scope : Declared} (houter : ∀ scope ∈ outer, P scope) (hscope : P scope)
    (ds : List SingleDeclaration)
    (hstep : Extends P (ds.flatMap SingleDeclaration.binders) (declarationOccurrences outer scope ds)) :
    AllSee P (declarationOccurrences outer scope ds) ∧
      P (scope ++ ds.flatMap SingleDeclaration.declared) := by
  induction ds generalizing scope with
  | nil => exact ⟨.nil, by rwa [List.flatMap_nil, List.append_nil]⟩
  | cons d ds ih =>
    rw [List.flatMap_cons, declarationOccurrences] at hstep
    have hd := hstep.mono (List.subset_append_left _ _) (List.subset_append_left _ _)
    have hds := hstep.mono (List.subset_append_right _ _) (List.subset_append_right _ _)
    obtain ⟨hsee, hbehind⟩ := ih (d.extends hd hscope) hds
    rw [List.flatMap_cons, ← List.append_assoc, declarationOccurrences]
    exact ⟨(d.allSee houter hscope hd).append hsee, hbehind⟩

mutual

/-- A property of scopes that empty ones have, and that a declaration keeps where it is made, is one of
    every scope in sight of a name. -/
theorem Command.allSee (hnil : P []) {scopes : List Declared} (h : ∀ scope ∈ scopes, P scope) :
    ∀ c : Command, Extends P c.binders (c.occurrences scopes) → AllSee P (c.occurrences scopes)
  | .assign _ target value, _ => by
    rw [Command.occurrences]
    exact (value.allSee h).append (.use h target)
  | .blank _, _ | .error _, _ => by
    rw [Command.occurrences]
    exact .nil
  | .call _ callee argument, _ => by
    rw [Command.occurrences]
    exact (argument.allSee h).append (.use h callee)
  | .ifThen _ condition body, hstep | .while_ _ condition body, hstep => by
    rw [Command.occurrences, Command.binders] at hstep
    rw [Command.occurrences]
    have hbody := hstep.mono (List.Subset.refl _) (List.subset_append_right _ _)
    exact (condition.allSee h).append (body.allSee hnil h hbody)
  | .ifElse _ condition positive negative, hstep => by
    rw [Command.occurrences, Command.binders] at hstep
    rw [Command.occurrences]
    have hbodies := hstep.mono (List.Subset.refl _) (List.subset_append_right _ _)
    have hpositive := hbodies.mono (List.subset_append_left _ _) (List.subset_append_left _ _)
    have hnegative := hbodies.mono (List.subset_append_right _ _) (List.subset_append_right _ _)
    exact (condition.allSee h).append
      ((positive.allSee hnil h hpositive).append (negative.allSee hnil h hnegative))
  | .for_ _ counter first last body, hstep => by
    rw [Command.occurrences, Command.binders] at hstep
    rw [Command.occurrences]
    have hscope := hstep _ _ List.mem_cons_self List.mem_cons_self hnil
    have hinside := List.forall_mem_cons.mpr ⟨hscope, h⟩
    have hbounds := hstep.mono (List.subset_cons_self _ _) (List.subset_cons_self _ _)
    have hlast := hbounds.mono (List.Subset.refl _) (List.subset_append_right _ _)
    have hbody := hlast.mono (List.Subset.refl _) (List.subset_append_right _ _)
    exact (AllSee.declaration hnil counter.name).append ((first.allSee hinside).append
      ((last.allSee hinside).append (body.allSee hnil hinside hbody)))
  | .let_ _ declaration body, hstep => by
    rw [Command.occurrences, Command.binders] at hstep
    rw [Command.occurrences]
    have hparts := hstep.mono (List.subset_append_left _ _) (List.subset_append_left _ _)
    have hbody := hstep.mono (List.subset_append_right _ _) (List.subset_append_right _ _)
    obtain ⟨hsee, hscope⟩ := allSee_declarationOccurrences h hnil declaration.parts hparts
    exact hsee.append (body.allSee hnil (List.forall_mem_cons.mpr ⟨hscope, h⟩) hbody)
  | .sequential _ parts, hstep => by
    rw [Command.occurrences, Command.binders] at hstep
    rw [Command.occurrences]
    exact allSee_commandOccurrences hnil h parts hstep

theorem allSee_commandOccurrences (hnil : P []) {scopes : List Declared} (h : ∀ scope ∈ scopes, P scope) :
    ∀ cs : List Command, Extends P (commandBinders cs) (commandOccurrences scopes cs) →
      AllSee P (commandOccurrences scopes cs)
  | [], _ => by
    rw [commandOccurrences]
    exact .nil
  | c :: rest, hstep => by
    rw [commandOccurrences, commandBinders] at hstep
    rw [commandOccurrences]
    have hc := hstep.mono (List.subset_append_left _ _) (List.subset_append_left _ _)
    have hrest := hstep.mono (List.subset_append_right _ _) (List.subset_append_right _ _)
    exact (c.allSee hnil h hc).append (allSee_commandOccurrences hnil h rest hrest)

end

end Sight

end TriangleCompiler
