import TriangleCompiler.Proofs.Resolution.Binders

/-! Places in a tree. What is around a phrase is a list of frames, from the outermost inwards, each of which
    is a node of the tree with one of its children left out. What is there besides the phrase does not depend
    on it: neither the numbers around it nor, if it is an expression, what the program declares. -/

namespace TriangleCompiler

/-- A place for an expression right inside another one. -/
inductive ExprFrame where
  | argument (tag : Tag) (callee : Name) (argumentTag : Tag)
  | operand (tag : Tag) (op : Name)
  | lhs (tag : Tag) (op : Name) (rhs : Expr)
  | rhs (tag : Tag) (op : Name) (lhs : Expr)

/-- A place for a declaration, alone or among others. -/
inductive DeclarationFrame where
  | single
  | part (position : Position) (before after : List SingleDeclaration)

/-- A place for an expression right inside a command. -/
inductive ExprSite where
  | value (position : Position) (target : Name)
  | argument (position : Position) (callee : Name) (argumentTag : Tag)
  | ifThen (position : Position) (body : Command)
  | ifElse (position : Position) (positive negative : Command)
  | while_ (position : Position) (body : Command)
  | first (position : Position) (counter : LoopVariable) (last : Expr) (body : Command)
  | last (position : Position) (counter : LoopVariable) (first : Expr) (body : Command)
  | constant (position : Position) (declaration : DeclarationFrame) (tag : Tag) (name : Name) (body : Command)

/-- A place for a command right inside another one. -/
inductive CommandFrame where
  | ifThen (position : Position) (condition : Expr)
  | positive (position : Position) (condition : Expr) (negative : Command)
  | negative (position : Position) (condition : Expr) (positive : Command)
  | while_ (position : Position) (condition : Expr)
  | for_ (position : Position) (counter : LoopVariable) (first last : Expr)
  | let_ (position : Position) (declaration : Declaration)
  | part (position : Position) (before after : List Command)

/-- A place for an expression in a command. -/
structure ExprPlace where
  commands : List CommandFrame
  site : ExprSite
  exprs : List ExprFrame

/-! ### Phrases at their places -/

def ExprFrame.plug (f : ExprFrame) (e : Expr) : Expr :=
  match f with
  | argument tag callee argumentTag => .call tag callee (.value argumentTag e)
  | operand tag op => .unary tag op e
  | lhs tag op other => .binary tag op e other
  | rhs tag op other => .binary tag op other e

def DeclarationFrame.plug (f : DeclarationFrame) (d : SingleDeclaration) : Declaration :=
  match f with
  | single => .single d
  | part position before after => .sequential position (before ++ d :: after)

def ExprSite.plug (s : ExprSite) (e : Expr) : Command :=
  match s with
  | value position target => .assign position target e
  | argument position callee argumentTag => .call position callee (.value argumentTag e)
  | ifThen position body => .ifThen position e body
  | ifElse position positive negative => .ifElse position e positive negative
  | while_ position body => .while_ position e body
  | first position counter bound body => .for_ position counter e bound body
  | last position counter bound body => .for_ position counter bound e body
  | constant position declaration tag name body => .let_ position (declaration.plug (.const tag name e)) body

def CommandFrame.plug (f : CommandFrame) (c : Command) : Command :=
  match f with
  | ifThen position condition => .ifThen position condition c
  | positive position condition other => .ifElse position condition c other
  | negative position condition other => .ifElse position condition other c
  | while_ position condition => .while_ position condition c
  | for_ position counter first last => .for_ position counter first last c
  | let_ position declaration => .let_ position declaration c
  | part position before after => .sequential position (before ++ c :: after)

/-- An expression inside all of these frames. -/
def ExprFrame.plugAll (fs : List ExprFrame) (e : Expr) : Expr := fs.foldr plug e

/-- A command inside all of these frames. -/
def CommandFrame.plugAll (fs : List CommandFrame) (c : Command) : Command := fs.foldr plug c

/-- The command that has the expression at this place. -/
def ExprPlace.fill (p : ExprPlace) (e : Expr) : Command :=
  CommandFrame.plugAll p.commands (p.site.plug (ExprFrame.plugAll p.exprs e))

/-! ### All places of a tree -/

/-- Puts one more frame around what was found. -/
def below {α β : Type} (frame : α) (found : List (List α × β)) : List (List α × β) :=
  found.map fun q => (frame :: q.1, q.2)

theorem mem_below {α β : Type} {frame : α} {found : List (List α × β)} {q : List α × β} :
    q ∈ below frame found ↔ ∃ frames, q.1 = frame :: frames ∧ (frames, q.2) ∈ found := by
  rw [below, List.mem_map]
  constructor
  · rintro ⟨⟨frames, b⟩, hmem, rfl⟩
    exact ⟨frames, rfl, hmem⟩
  · rintro ⟨frames, hq, hmem⟩
    exact ⟨(frames, q.2), hmem, by rw [← hq]⟩

mutual

/-- The expressions in an expression, each with the frames around it. -/
def Expr.places : Expr → List (List ExprFrame × Expr)
  | .int tag spelling => [([], .int tag spelling)]
  | .char tag spelling => [([], .char tag spelling)]
  | .name tag name => [([], .name tag name)]
  | .error tag => [([], .error tag)]
  | .call tag callee argument => ([], .call tag callee argument) :: argument.places tag callee
  | .unary tag op operand => ([], .unary tag op operand) :: below (.operand tag op) operand.places
  | .binary tag op lhs rhs =>
    ([], .binary tag op lhs rhs) :: (below (.lhs tag op rhs) lhs.places ++ below (.rhs tag op lhs) rhs.places)

def Argument.places (tag : Tag) (callee : Name) : Argument → List (List ExprFrame × Expr)
  | .value argumentTag e => below (.argument tag callee argumentTag) e.places
  | .blank _ | .var _ _ | .error _ => []

end

/-- The values of constants among declarations, each with its place. -/
def declarationSites (position : Position)
    (frame : List SingleDeclaration → List SingleDeclaration → DeclarationFrame) (body : Command)
    (before : List SingleDeclaration) : List SingleDeclaration → List (ExprSite × Expr)
  | [] => []
  | .const tag name e :: after => (.constant position (frame before after) tag name body, e) ::
      declarationSites position frame body (before ++ [.const tag name e]) after
  | d :: after => declarationSites position frame body (before ++ [d]) after

/-- The expressions right inside a command, each with its place. -/
def Command.sites : Command → List (ExprSite × Expr)
  | .assign position target e => [(.value position target, e)]
  | .call position callee (.value argumentTag e) => [(.argument position callee argumentTag, e)]
  | .ifThen position e body => [(.ifThen position body, e)]
  | .ifElse position e positive negative => [(.ifElse position positive negative, e)]
  | .while_ position e body => [(.while_ position body, e)]
  | .for_ position counter e e' body => [(.first position counter e' body, e), (.last position counter e body, e')]
  | .let_ position (.single (.const tag name e)) body => [(.constant position .single tag name body, e)]
  | .let_ position (.sequential position' parts) body =>
    declarationSites position (.part position') body [] parts
  | _ => []

mutual

/-- The commands in a command, each with the frames around it. -/
def Command.places : Command → List (List CommandFrame × Command)
  | .assign position target e => [([], .assign position target e)]
  | .blank position => [([], .blank position)]
  | .call position callee argument => [([], .call position callee argument)]
  | .error position => [([], .error position)]
  | .ifThen position condition body =>
    ([], .ifThen position condition body) :: below (.ifThen position condition) body.places
  | .ifElse position condition positive negative => ([], .ifElse position condition positive negative) ::
      (below (.positive position condition negative) positive.places ++
        below (.negative position condition positive) negative.places)
  | .while_ position condition body =>
    ([], .while_ position condition body) :: below (.while_ position condition) body.places
  | .for_ position counter first last body =>
    ([], .for_ position counter first last body) :: below (.for_ position counter first last) body.places
  | .let_ position declaration body =>
    ([], .let_ position declaration body) :: below (.let_ position declaration) body.places
  | .sequential position parts => ([], .sequential position parts) :: partPlaces position [] parts

def partPlaces (position : Position) (before : List Command) : List Command → List (List CommandFrame × Command)
  | [] => []
  | c :: after => below (.part position before after) c.places ++ partPlaces position (before ++ [c]) after

end

/-- The expressions in a command, each with its place. -/
def Command.exprPlaces (c : Command) : List (ExprPlace × Expr) :=
  c.places.flatMap fun q => q.2.sites.flatMap fun site => site.2.places.map fun found =>
    (⟨q.1, site.1, found.1⟩, found.2)

mutual

theorem Expr.eq_of_mem_places : ∀ (e : Expr) {q : List ExprFrame × Expr}, q ∈ e.places →
    e = ExprFrame.plugAll q.1 q.2
  | .int _ _, q, h | .char _ _, q, h | .name _ _, q, h | .error _, q, h => by
    rw [Expr.places] at h
    rw [List.mem_singleton.mp h]
    rfl
  | .call tag callee argument, q, h => by
    rw [Expr.places] at h
    rcases List.mem_cons.mp h with rfl | h
    · rfl
    · exact argument.eq_of_mem_places tag callee h
  | .unary tag op operand, q, h => by
    rw [Expr.places] at h
    rcases List.mem_cons.mp h with rfl | h
    · rfl
    · obtain ⟨frames, hq, hmem⟩ := mem_below.mp h
      rw [hq, operand.eq_of_mem_places hmem]
      rfl
  | .binary tag op lhs rhs, q, h => by
    rw [Expr.places] at h
    rcases List.mem_cons.mp h with rfl | h
    · rfl
    · rcases List.mem_append.mp h with h | h
      · obtain ⟨frames, hq, hmem⟩ := mem_below.mp h
        rw [hq, lhs.eq_of_mem_places hmem]
        rfl
      · obtain ⟨frames, hq, hmem⟩ := mem_below.mp h
        rw [hq, rhs.eq_of_mem_places hmem]
        rfl

theorem Argument.eq_of_mem_places (tag : Tag) (callee : Name) : ∀ (a : Argument) {q : List ExprFrame × Expr},
    q ∈ a.places tag callee → .call tag callee a = ExprFrame.plugAll q.1 q.2
  | .value argumentTag e, q, h => by
    rw [Argument.places] at h
    obtain ⟨frames, hq, hmem⟩ := mem_below.mp h
    rw [hq, e.eq_of_mem_places hmem]
    rfl
  | .blank _, q, h | .var _ _, q, h | .error _, q, h => by
    rw [Argument.places] at h
    cases h

end

theorem Expr.mem_places (fs : List ExprFrame) (e : Expr) : (fs, e) ∈ (ExprFrame.plugAll fs e).places := by
  induction fs with
  | nil =>
    show ([], e) ∈ e.places
    cases e <;> rw [Expr.places] <;> exact List.mem_cons_self
  | cons f fs ih =>
    have hbelow : ∀ frame : ExprFrame, (frame :: fs, e) ∈ below frame (ExprFrame.plugAll fs e).places :=
      fun _ => mem_below.mpr ⟨fs, rfl, ih⟩
    show (f :: fs, e) ∈ (f.plug (ExprFrame.plugAll fs e)).places
    cases f with
    | argument =>
      simp only [ExprFrame.plug, Expr.places, Argument.places]
      exact List.mem_cons_of_mem _ (hbelow _)
    | operand =>
      simp only [ExprFrame.plug, Expr.places]
      exact List.mem_cons_of_mem _ (hbelow _)
    | lhs =>
      simp only [ExprFrame.plug, Expr.places]
      exact List.mem_cons_of_mem _ (List.mem_append_left _ (hbelow _))
    | rhs =>
      simp only [ExprFrame.plug, Expr.places]
      exact List.mem_cons_of_mem _ (List.mem_append_right _ (hbelow _))

theorem mem_declarationSites {position : Position}
    {frame : List SingleDeclaration → List SingleDeclaration → DeclarationFrame} {body : Command}
    {q : ExprSite × Expr} {before parts : List SingleDeclaration} :
    q ∈ declarationSites position frame body before parts ↔ ∃ new tag name after,
      parts = new ++ .const tag name q.2 :: after ∧
      q.1 = .constant position (frame (before ++ new) after) tag name body := by
  induction parts generalizing before with
  | nil => simp [declarationSites]
  | cons d parts ih =>
    have hlater : (∃ new tag name after, d :: parts = new ++ .const tag name q.2 :: after ∧
        q.1 = .constant position (frame (before ++ new) after) tag name body) ↔
        (∃ tag name, d = .const tag name q.2 ∧ q.1 = .constant position (frame before parts) tag name body) ∨
        q ∈ declarationSites position frame body (before ++ [d]) parts := by
      rw [ih]
      constructor
      · rintro ⟨new, tag, name, after, hparts, hq⟩
        rcases List.cons_eq_append_iff.mp hparts with ⟨rfl, hhere⟩ | ⟨new, rfl, hlater⟩
        · obtain ⟨rfl, rfl⟩ := List.cons.inj hhere
          exact .inl ⟨tag, name, rfl, by simpa using hq⟩
        · exact .inr ⟨new, tag, name, after, hlater, by simpa using hq⟩
      · rintro (⟨tag, name, rfl, hq⟩ | ⟨new, tag, name, after, rfl, hq⟩)
        · exact ⟨[], tag, name, parts, rfl, by simpa using hq⟩
        · exact ⟨d :: new, tag, name, after, rfl, by simpa using hq⟩
    rw [hlater]
    cases d with
    | const tag name e =>
      rw [declarationSites, List.mem_cons]
      refine or_congr ?_ Iff.rfl
      obtain ⟨site, e'⟩ := q
      constructor
      · rintro ⟨⟩
        exact ⟨tag, name, rfl, rfl⟩
      · rintro ⟨tag', name', hd, rfl⟩
        cases hd
        rfl
    | var | error => simp [declarationSites]

theorem Command.mem_sites {c : Command} {q : ExprSite × Expr} : q ∈ c.sites ↔ c = q.1.plug q.2 := by
  obtain ⟨site, e⟩ := q
  constructor
  · intro h
    unfold Command.sites at h
    split at h
    all_goals try (cases List.mem_singleton.mp h; rfl)
    · rcases List.mem_cons.mp h with h | h
      · cases h
        rfl
      · cases List.mem_singleton.mp h
        rfl
    · obtain ⟨new, tag, name, after, rfl, rfl⟩ := mem_declarationSites.mp h
      rfl
    · cases h
  · rintro rfl
    cases site with
    | value | argument | ifThen | ifElse | while_ => exact List.mem_singleton.mpr rfl
    | first => exact List.mem_cons_self
    | last => exact List.mem_cons_of_mem _ (List.mem_singleton.mpr rfl)
    | constant position declaration tag name body =>
      cases declaration with
      | single => exact List.mem_singleton.mpr rfl
      | part position' before after => exact mem_declarationSites.mpr ⟨before, tag, name, after, rfl, rfl⟩

mutual

theorem Command.eq_of_mem_places : ∀ (c : Command) {q : List CommandFrame × Command}, q ∈ c.places →
    c = CommandFrame.plugAll q.1 q.2
  | .assign _ _ _, q, h | .blank _, q, h | .call _ _ _, q, h | .error _, q, h => by
    rw [Command.places] at h
    rw [List.mem_singleton.mp h]
    rfl
  | .ifThen _ _ body, q, h | .while_ _ _ body, q, h | .for_ _ _ _ _ body, q, h | .let_ _ _ body, q, h => by
    rw [Command.places] at h
    rcases List.mem_cons.mp h with rfl | h
    · rfl
    · obtain ⟨frames, hq, hmem⟩ := mem_below.mp h
      rw [hq, body.eq_of_mem_places hmem]
      rfl
  | .ifElse _ _ positive negative, q, h => by
    rw [Command.places] at h
    rcases List.mem_cons.mp h with rfl | h
    · rfl
    · rcases List.mem_append.mp h with h | h
      · obtain ⟨frames, hq, hmem⟩ := mem_below.mp h
        rw [hq, positive.eq_of_mem_places hmem]
        rfl
      · obtain ⟨frames, hq, hmem⟩ := mem_below.mp h
        rw [hq, negative.eq_of_mem_places hmem]
        rfl
  | .sequential position parts, q, h => by
    rw [Command.places] at h
    rcases List.mem_cons.mp h with rfl | h
    · rfl
    · exact eq_of_mem_partPlaces position [] parts h

theorem eq_of_mem_partPlaces (position : Position) (before : List Command) :
    ∀ (parts : List Command) {q : List CommandFrame × Command}, q ∈ partPlaces position before parts →
      .sequential position (before ++ parts) = CommandFrame.plugAll q.1 q.2
  | [], q, h => by
    rw [partPlaces] at h
    cases h
  | c :: after, q, h => by
    rw [partPlaces] at h
    rcases List.mem_append.mp h with h | h
    · obtain ⟨frames, hq, hmem⟩ := mem_below.mp h
      rw [hq, c.eq_of_mem_places hmem]
      rfl
    · rw [← eq_of_mem_partPlaces position (before ++ [c]) after h, List.append_assoc]
      rfl

end

theorem mem_partPlaces {position : Position} {fs : List CommandFrame} {c part : Command}
    {before new after : List Command} (h : (fs, c) ∈ part.places) :
    (.part position (before ++ new) after :: fs, c) ∈
      partPlaces position before (new ++ part :: after) := by
  induction new generalizing before with
  | nil =>
    rw [List.append_nil, List.nil_append, partPlaces]
    exact List.mem_append_left _ (mem_below.mpr ⟨fs, rfl, h⟩)
  | cons d new ih =>
    have hlater := @ih (before ++ [d])
    rw [List.append_assoc] at hlater
    rw [List.cons_append, partPlaces]
    exact List.mem_append_right _ hlater

theorem Command.mem_places (fs : List CommandFrame) (c : Command) :
    (fs, c) ∈ (CommandFrame.plugAll fs c).places := by
  induction fs with
  | nil =>
    show ([], c) ∈ c.places
    cases c <;> rw [Command.places] <;> exact List.mem_cons_self
  | cons f fs ih =>
    have hbelow : ∀ frame : CommandFrame, (frame :: fs, c) ∈ below frame (CommandFrame.plugAll fs c).places :=
      fun _ => mem_below.mpr ⟨fs, rfl, ih⟩
    show (f :: fs, c) ∈ (f.plug (CommandFrame.plugAll fs c)).places
    cases f with
    | ifThen | while_ | for_ | let_ =>
      simp only [CommandFrame.plug, Command.places]
      exact List.mem_cons_of_mem _ (hbelow _)
    | positive =>
      simp only [CommandFrame.plug, Command.places]
      exact List.mem_cons_of_mem _ (List.mem_append_left _ (hbelow _))
    | negative =>
      simp only [CommandFrame.plug, Command.places]
      exact List.mem_cons_of_mem _ (List.mem_append_right _ (hbelow _))
    | part position before after =>
      simp only [CommandFrame.plug, Command.places]
      exact List.mem_cons_of_mem _ (mem_partPlaces ih)

/-- These are all places for expressions in a command, and what is there. -/
theorem Command.mem_exprPlaces {c : Command} {p : ExprPlace} {e : Expr} :
    (p, e) ∈ c.exprPlaces ↔ c = p.fill e := by
  simp only [Command.exprPlaces, List.mem_flatMap, List.mem_map]
  constructor
  · rintro ⟨q, hq, site, hsite, found, hfound, heq⟩
    cases heq
    show c = CommandFrame.plugAll q.1 (site.1.plug (ExprFrame.plugAll found.1 found.2))
    rw [← site.2.eq_of_mem_places hfound, ← Command.mem_sites.mp hsite, ← c.eq_of_mem_places hq]
  · rintro rfl
    exact ⟨(p.commands, _), Command.mem_places p.commands _, (p.site, _), Command.mem_sites.mpr rfl,
      (p.exprs, e), Expr.mem_places p.exprs e, rfl⟩

/-! ### Numbers -/

def DeclarationFrame.before : DeclarationFrame → List SingleDeclaration
  | single => []
  | part _ before _ => before

def DeclarationFrame.after : DeclarationFrame → List SingleDeclaration
  | single => []
  | part _ _ after => after

@[simp] theorem DeclarationFrame.parts_plug (f : DeclarationFrame) (d : SingleDeclaration) :
    (f.plug d).parts = f.before ++ d :: f.after := by
  cases f <;> rfl

def ExprFrame.ids : ExprFrame → List NodeId
  | argument tag callee argumentTag => [callee.id, argumentTag.id, tag.id]
  | operand tag op => [op.id, tag.id]
  | lhs tag op other | rhs tag op other => op.id :: (other.ids ++ [tag.id])

def ExprSite.ids : ExprSite → List NodeId
  | value _ target => [target.id]
  | argument _ callee argumentTag => [callee.id, argumentTag.id]
  | ifThen _ body | while_ _ body => body.ids
  | ifElse _ positive negative => positive.ids ++ negative.ids
  | first _ counter other body | last _ counter other body =>
    counter.name.id :: counter.id :: (other.ids ++ body.ids)
  | constant _ declaration tag name body =>
    declarationIds declaration.before ++ tag.id :: name.id :: (declarationIds declaration.after ++ body.ids)

def CommandFrame.ids : CommandFrame → List NodeId
  | ifThen _ condition | while_ _ condition => condition.ids
  | positive _ condition other | negative _ condition other => condition.ids ++ other.ids
  | for_ _ counter first last => counter.name.id :: counter.id :: (first.ids ++ last.ids)
  | let_ _ declaration => declarationIds declaration.parts
  | part _ before after => commandIds before ++ commandIds after

/-- The numbers around the place. -/
def ExprPlace.ids (p : ExprPlace) : List NodeId :=
  p.commands.flatMap CommandFrame.ids ++ (p.site.ids ++ p.exprs.flatMap ExprFrame.ids)

theorem declarationIds_append (ds ds' : List SingleDeclaration) :
    declarationIds (ds ++ ds') = declarationIds ds ++ declarationIds ds' := by
  induction ds with
  | nil => rfl
  | cons d ds ih => rw [List.cons_append, declarationIds, declarationIds, ih, List.append_assoc]

theorem commandIds_append (cs cs' : List Command) : commandIds (cs ++ cs') = commandIds cs ++ commandIds cs' := by
  induction cs with
  | nil => simp only [List.nil_append, commandIds]
  | cons c cs ih => rw [List.cons_append, commandIds, commandIds, ih, List.append_assoc]

section Count
variable (id : NodeId)

theorem ExprFrame.count_plug (f : ExprFrame) (e : Expr) :
    (f.plug e).ids.count id = f.ids.count id + e.ids.count id := by
  cases f <;>
    simp only [plug, ids, Expr.ids, Argument.ids, List.count_cons, List.count_append, List.count_nil] <;>
    omega

theorem ExprFrame.count_plugAll (fs : List ExprFrame) (e : Expr) :
    (plugAll fs e).ids.count id = (fs.flatMap ids).count id + e.ids.count id := by
  induction fs with
  | nil => exact (Nat.zero_add _).symm
  | cons f fs ih =>
    rw [plugAll, List.foldr_cons, f.count_plug, List.flatMap_cons, List.count_append]
    exact (congrArg _ ih).trans (Nat.add_assoc _ _ _).symm

theorem ExprSite.count_plug (s : ExprSite) (e : Expr) :
    (s.plug e).ids.count id = s.ids.count id + e.ids.count id := by
  cases s <;>
    simp only [plug, ids, Command.ids, Argument.ids, DeclarationFrame.parts_plug, declarationIds_append,
      declarationIds, SingleDeclaration.ids, List.count_cons, List.count_append, List.count_nil] <;>
    omega

theorem CommandFrame.count_plug (f : CommandFrame) (c : Command) :
    (f.plug c).ids.count id = f.ids.count id + c.ids.count id := by
  cases f <;>
    simp only [plug, ids, Command.ids, commandIds_append, commandIds, List.count_cons, List.count_append] <;>
    omega

theorem CommandFrame.count_plugAll (fs : List CommandFrame) (c : Command) :
    (plugAll fs c).ids.count id = (fs.flatMap ids).count id + c.ids.count id := by
  induction fs with
  | nil => exact (Nat.zero_add _).symm
  | cons f fs ih =>
    rw [plugAll, List.foldr_cons, f.count_plug, List.flatMap_cons, List.count_append]
    exact (congrArg _ ih).trans (Nat.add_assoc _ _ _).symm

/-- A number is around the place or in the expression, as often as it is in the command. -/
theorem ExprPlace.count_fill (p : ExprPlace) (e : Expr) :
    (p.fill e).ids.count id = p.ids.count id + e.ids.count id := by
  rw [fill, CommandFrame.count_plugAll, ExprSite.count_plug, ExprFrame.count_plugAll, ids]
  simp only [List.count_append]
  omega

end Count

/-- In a tree whose nodes have different numbers none is both around the place and in the expression. -/
theorem ExprPlace.not_mem_ids {p : ExprPlace} {e : Expr} (hnodup : (p.fill e).ids.Nodup) {id : NodeId}
    (hid : id ∈ p.ids) : id ∉ e.ids := by
  intro hin
  have hone := List.nodup_iff_count.mp hnodup id
  have haround := List.count_pos_iff.mpr hid
  have hinside := List.count_pos_iff.mpr hin
  rw [p.count_fill] at hone
  omega

/-! ### Declarations -/

theorem commandBinders_append (cs cs' : List Command) :
    commandBinders (cs ++ cs') = commandBinders cs ++ commandBinders cs' := by
  induction cs with
  | nil => simp only [List.nil_append, commandBinders]
  | cons c cs ih => rw [List.cons_append, commandBinders, commandBinders, ih, List.append_assoc]

theorem ExprSite.binders_plug (s : ExprSite) (e e' : Expr) : (s.plug e).binders = (s.plug e').binders := by
  cases s <;>
    simp only [plug, Command.binders, DeclarationFrame.parts_plug, List.flatMap_append, List.flatMap_cons,
      SingleDeclaration.binders]

theorem CommandFrame.binders_plugAll (fs : List CommandFrame) {c c' : Command} (h : c.binders = c'.binders) :
    (plugAll fs c).binders = (plugAll fs c').binders := by
  induction fs with
  | nil => exact h
  | cons f fs ih =>
    have ih : (fs.foldr plug c).binders = (fs.foldr plug c').binders := ih
    cases f <;>
      simp only [plugAll, List.foldr_cons, plug, Command.binders, commandBinders_append, commandBinders, ih]

/-- What is declared does not depend on an expression, so the numbers of declarations are around it. -/
theorem ExprPlace.mem_ids_of_binder (p : ExprPlace) {e : Expr} {b : Binder} (hb : b ∈ (p.fill e).binders)
    {id : NodeId} (hid : id ∈ b.ids) : id ∈ p.ids := by
  -- with another expression at this place, which does not have the number
  let other : Expr := .error ⟨id + 1, .start⟩
  have hbinders : (p.fill e).binders = (p.fill other).binders :=
    CommandFrame.binders_plugAll p.commands (p.site.binders_plug _ _)
  have hmem : id ∈ (p.fill other).ids :=
    (p.fill other).within_binders.mem (List.mem_flatMap.mpr ⟨b, hbinders ▸ hb, hid⟩)
  have hother : other.ids.count id = 0 := by
    simp [other, Expr.ids]
  have hcount := List.count_pos_iff.mpr hmem
  rw [p.count_fill, hother] at hcount
  exact List.count_pos_iff.mp hcount

end TriangleCompiler
