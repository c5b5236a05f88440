import TriangleCompiler.Proofs.Parser.Rewording
import TriangleCompiler.Proofs.Resolution.Binders
import TriangleCompiler.Proofs.Resolution.Links

/-! One declaration under another name. If the name is new to the program, and the declaration and the uses
    that are linked to it get it, then nothing else in the program is hidden or laid open: the scopes in
    sight of every name are the old ones with the one entry renamed, and every name has the link it had. -/

namespace TriangleCompiler

namespace Scoping

/-! ### Scopes with one entry renamed -/

/-- The declarations of a scope, with the new name where the link is `target`. -/
def renameIn (target : Link) (new : String) (scope : Declared) : Declared :=
  scope.map fun d => (if d.2 = target then new else d.1, d.2)

/-- A scope that a declaration may be renamed in: it declares a name once only, nothing in it has the new
    name, and what is linked to `target` has the old one. -/
structure Fair (target : Link) (old new : String) (scope : Declared) : Prop where
  nodup : (scope.map Prod.fst).Nodup
  fresh : ∀ d ∈ scope, d.1 ≠ new
  named : ∀ d ∈ scope, d.2 = target → d.1 = old

section Lookup
variable {target : Link} {old new : String} {scope : Declared} {scopes : List Declared}

theorem Fair.nil : Fair target old new [] := ⟨List.nodup_nil, List.forall_mem_nil _, List.forall_mem_nil _⟩

theorem Fair.tail {d : String × Link} (h : Fair target old new (d :: scope)) : Fair target old new scope :=
  ⟨(List.nodup_cons.mp h.nodup).2, (List.forall_mem_cons.mp h.fresh).2, (List.forall_mem_cons.mp h.named).2⟩

theorem lookup_eq_none_iff {spelling : String} :
    scope.lookup spelling = none ↔ spelling ∉ scope.map Prod.fst := by
  rw [List.lookup_eq_none_iff, List.mem_map]
  constructor
  · rintro h ⟨d, hd, rfl⟩
    exact absurd (h d hd) (by simp)
  · intro h d hd
    simpa using fun heq => h ⟨d, hd, heq.symm⟩

theorem Fair.declare (h : Fair target old new scope) {spelling : String} {link : Link}
    (hlookup : scope.lookup spelling = none) (hfresh : spelling ≠ new) (hnamed : link = target → spelling = old) :
    Fair target old new (scope ++ [(spelling, link)]) where
  nodup := by
    rw [List.map_append, List.nodup_append]
    refine ⟨h.nodup, List.nodup_singleton _, ?_⟩
    rintro s hs s' hs' rfl
    cases List.mem_singleton.mp hs'
    exact lookup_eq_none_iff.mp hlookup hs
  fresh := List.forall_mem_append.mpr ⟨h.fresh, List.forall_mem_singleton.mpr hfresh⟩
  named := List.forall_mem_append.mpr ⟨h.named, List.forall_mem_singleton.mpr hnamed⟩

theorem lookup_cons_eq (d : String × Link) (spelling : String) :
    (d :: scope : Declared).lookup spelling = if spelling = d.1 then some d.2 else scope.lookup spelling := by
  rw [List.lookup_cons]
  by_cases hsame : spelling = d.1
  · simp [hsame]
  · have hne : (spelling == d.1) = false := by simpa using hsame
    simp [hsame, hne]

/-- A name other than the new one stands for what it stood for, unless this was renamed. -/
theorem Fair.lookup_renameIn (h : Fair target old new scope) {spelling : String} (hne : spelling ≠ new)
    (htarget : scope.lookup spelling ≠ some target) :
    (renameIn target new scope).lookup spelling = scope.lookup spelling := by
  induction scope with
  | nil => rfl
  | cons d scope ih =>
    rw [renameIn, List.map_cons, lookup_cons_eq, lookup_cons_eq]
    rw [lookup_cons_eq] at htarget
    by_cases hlink : d.2 = target
    · have hother : spelling ≠ d.1 := by
        intro hsame
        rw [if_pos hsame, hlink] at htarget
        exact htarget rfl
      rw [if_neg hother] at htarget
      simp only [hlink, if_true, if_neg hne, if_neg hother]
      exact ih h.tail htarget
    · simp only [if_neg hlink]
      by_cases hsame : spelling = d.1
      · rw [if_pos hsame, if_pos hsame]
      · rw [if_neg hsame] at htarget
        rw [if_neg hsame, if_neg hsame]
        exact ih h.tail htarget

/-- The new name stands for what was renamed, if the old one stood for it. -/
theorem Fair.lookup_new (h : Fair target old new scope) : (renameIn target new scope).lookup new =
    if scope.lookup old = some target then some target else none := by
  induction scope with
  | nil => rfl
  | cons d scope ih =>
    rw [renameIn, List.map_cons, lookup_cons_eq, lookup_cons_eq]
    by_cases hlink : d.2 = target
    · have hold : old = d.1 := (h.named d List.mem_cons_self hlink).symm
      simp [hlink, hold]
    · have hnew : new ≠ d.1 := (h.fresh d List.mem_cons_self).symm
      simp only [if_neg hlink, if_neg hnew]
      rw [← renameIn, ih h.tail]
      by_cases hsame : old = d.1
      · have hnone : scope.lookup d.1 = none :=
          lookup_eq_none_iff.mpr (List.nodup_cons.mp h.nodup).1
        simp [hnone, hsame, hlink]
      · rw [if_neg hsame]

theorem mem_of_lookup {spelling : String} {link : Link} (h : scope.lookup spelling = some link) :
    (spelling, link) ∈ scope := by
  obtain ⟨before, behind, rfl, -⟩ := List.lookup_eq_some_iff.mp h
  exact List.mem_append_right _ List.mem_cons_self

theorem target?_nil_ne (htarget : target.nodes ≠ []) (spelling : String) : target? [] spelling ≠ some target := by
  intro h
  obtain ⟨b, -, rfl⟩ := Option.map_eq_some_iff.mp h
  exact htarget rfl

/-- What is linked to `target` has the old name. -/
theorem eq_of_target? (htarget : target.nodes ≠ []) (h : ∀ scope ∈ scopes, Fair target old new scope)
    {spelling : String} (hlink : target? scopes spelling = some target) : spelling = old := by
  induction scopes with
  | nil => exact absurd hlink (target?_nil_ne htarget spelling)
  | cons scope scopes ih =>
    obtain ⟨hscope, hscopes⟩ := List.forall_mem_cons.mp h
    rw [target?_cons] at hlink
    rcases Option.or_eq_some_iff.mp hlink with hlookup | ⟨-, hlink⟩
    · exact hscope.named _ (mem_of_lookup hlookup) rfl
    · exact ih hscopes hlink

theorem target?_renameIn (h : ∀ scope ∈ scopes, Fair target old new scope) {spelling : String}
    (hne : spelling ≠ new) (hlink : target? scopes spelling ≠ some target) :
    target? (scopes.map (renameIn target new)) spelling = target? scopes spelling := by
  induction scopes with
  | nil => rfl
  | cons scope scopes ih =>
    obtain ⟨hscope, hscopes⟩ := List.forall_mem_cons.mp h
    rw [target?_cons] at hlink
    rw [List.map_cons, target?_cons, target?_cons]
    have hlookup : scope.lookup spelling ≠ some target := by
      intro hsome
      rw [hsome] at hlink
      exact hlink rfl
    rw [hscope.lookup_renameIn hne hlookup]
    cases hfound : scope.lookup spelling with
    | some link => rfl
    | none =>
      rw [hfound] at hlink
      exact ih hscopes hlink

theorem target?_new (htarget : target.nodes ≠ []) (h : ∀ scope ∈ scopes, Fair target old new scope)
    (hlink : target? scopes old = some target) :
    target? (scopes.map (renameIn target new)) new = some target := by
  induction scopes with
  | nil => exact absurd hlink (target?_nil_ne htarget old)
  | cons scope scopes ih =>
    obtain ⟨hscope, hscopes⟩ := List.forall_mem_cons.mp h
    rw [target?_cons] at hlink
    rw [List.map_cons, target?_cons, hscope.lookup_new]
    rcases Option.or_eq_some_iff.mp hlink with hlookup | ⟨hlookup, hlink⟩
    · rw [if_pos hlookup]
      rfl
    · rw [hlookup, if_neg (by simp)]
      exact ih hscopes hlink

end Lookup

/-! ### Names behind renamed scopes -/

/-- The same name in other words, behind the renamed scopes. -/
def Occurrence.rename (w : Rewording) (target : Link) (new : String) : Occurrence → Occurrence
  | use name scopes => use (name.reword w) (scopes.map (renameIn target new))
  | declaration name scope => declaration (name.reword w) (renameIn target new scope)

/-- A declaration gets the new name if it is the one that is renamed, and it keeps its own if not. -/
def Suits (w : Rewording) (target : Link) (new : String) (b : Binder) : Prop :=
  (b.name.reword w).spelling = if b.link = target then new else b.name.spelling

theorem renameIn_append (target : Link) (new : String) (scope scope' : Declared) :
    renameIn target new (scope ++ scope') = renameIn target new scope ++ renameIn target new scope' :=
  List.map_append

theorem Suits.renameIn_eq {w : Rewording} {target : Link} {new : String} {b : Binder}
    (h : Suits w target new b) :
    renameIn target new [(b.name.spelling, b.link)] = [((b.name.reword w).spelling, b.link)] := by
  rw [h]
  rfl

end Scoping

open Scoping

section Rename
variable {w : Rewording} {target : Link} {new : String}

mutual

theorem Expr.occurrences_reword (scopes : List Declared) : ∀ e : Expr,
    (e.reword w).occurrences (scopes.map (renameIn target new)) =
      (e.occurrences scopes).map (Occurrence.rename w target new)
  | .int _ _ | .char _ _ | .error _ => by simp only [Expr.reword, Expr.occurrences, List.map_nil]
  | .name _ name => by
    rw [Expr.reword, Expr.occurrences, Expr.occurrences]
    rfl
  | .call _ callee argument => by
    rw [Expr.reword, Expr.occurrences, Expr.occurrences, argument.occurrences_reword]
    rfl
  | .unary _ op operand => by
    rw [Expr.reword, Expr.occurrences, Expr.occurrences, operand.occurrences_reword]
    rfl
  | .binary _ op lhs rhs => by
    rw [Expr.reword, Expr.occurrences, Expr.occurrences, lhs.occurrences_reword, rhs.occurrences_reword,
      List.map_append]
    rfl

theorem Argument.occurrences_reword (scopes : List Declared) : ∀ a : Argument,
    (a.reword w).occurrences (scopes.map (renameIn target new)) =
      (a.occurrences scopes).map (Occurrence.rename w target new)
  | .blank _ | .error _ => by simp only [Argument.reword, Argument.occurrences, List.map_nil]
  | .value _ expr => by
    rw [Argument.reword, Argument.occurrences, Argument.occurrences, expr.occurrences_reword]
  | .var _ name => by
    rw [Argument.reword, Argument.occurrences, Argument.occurrences]
    rfl

end

theorem SingleDeclaration.declared_reword (d : SingleDeclaration) (h : ∀ b ∈ d.binders, Suits w target new b) :
    (d.reword w).declared = renameIn target new d.declared := by
  cases d with
  | const | var => exact (h _ List.mem_cons_self).renameIn_eq.symm
  | error => rfl

theorem SingleDeclaration.occurrences_reword (outer : List Declared) (scope : Declared) (d : SingleDeclaration)
    (h : ∀ b ∈ d.binders, Suits w target new b) :
    (d.reword w).occurrences (outer.map (renameIn target new)) (renameIn target new scope) =
      (d.occurrences outer scope).map (Occurrence.rename w target new) := by
  have hinside : (renameIn target new scope ++ (d.reword w).declared) :: outer.map (renameIn target new) =
      ((scope ++ d.declared) :: outer).map (renameIn target new) := by
    rw [d.declared_reword h, List.map_cons, renameIn_append]
  cases d with
  | const tag name value =>
    have hvalue := @Expr.occurrences_reword w target new
      ((scope ++ (SingleDeclaration.const tag name value).declared) :: outer) value
    rw [← hinside] at hvalue
    exact congrArg (Occurrence.declaration (name.reword w) (renameIn target new scope) :: ·) hvalue
  | var tag name type =>
    exact congrArg (fun scopes => [Occurrence.declaration (name.reword w) (renameIn target new scope),
      .use (type.name.reword w) scopes]) hinside
  | error => rfl

theorem declarationOccurrences_reword (outer : List Declared) (scope : Declared) (ds : List SingleDeclaration)
    (h : ∀ b ∈ ds.flatMap SingleDeclaration.binders, Suits w target new b) :
    declarationOccurrences (outer.map (renameIn target new)) (renameIn target new scope)
        (ds.map (·.reword w)) =
      (declarationOccurrences outer scope ds).map (Occurrence.rename w target new) := by
  induction ds generalizing scope with
  | nil => rfl
  | cons d ds ih =>
    obtain ⟨hd, hds⟩ := List.forall_mem_append.mp (List.flatMap_cons ▸ h)
    rw [List.map_cons, declarationOccurrences, declarationOccurrences, d.occurrences_reword outer scope hd,
      d.declared_reword hd, ← renameIn_append, ih _ hds, List.map_append]

theorem flatMap_declared_reword (ds : List SingleDeclaration)
    (h : ∀ b ∈ ds.flatMap SingleDeclaration.binders, Suits w target new b) :
    (ds.map (·.reword w)).flatMap SingleDeclaration.declared =
      renameIn target new (ds.flatMap SingleDeclaration.declared) := by
  induction ds with
  | nil => rfl
  | cons d ds ih =>
    obtain ⟨hd, hds⟩ := List.forall_mem_append.mp (List.flatMap_cons ▸ h)
    rw [List.map_cons, List.flatMap_cons, List.flatMap_cons, d.declared_reword hd, ih hds, renameIn_append]

mutual

/-- The names of a command in other words are its names behind the renamed scopes. -/
theorem Command.occurrences_reword (scopes : List Declared) : ∀ c : Command,
    (∀ b ∈ c.binders, Suits w target new b) →
    (c.reword w).occurrences (scopes.map (renameIn target new)) =
      (c.occurrences scopes).map (Occurrence.rename w target new)
  | .assign _ _ value, _ => by
    rw [Command.reword, Command.occurrences, Command.occurrences, value.occurrences_reword, List.map_append]
    rfl
  | .blank _, _ | .error _, _ => by simp only [Command.reword, Command.occurrences, List.map_nil]
  | .call _ _ argument, _ => by
    rw [Command.reword, Command.occurrences, Command.occurrences, argument.occurrences_reword, List.map_append]
    rfl
  | .ifThen _ condition body, h | .while_ _ condition body, h => by
    rw [Command.binders] at h
    rw [Command.reword, Command.occurrences, Command.occurrences, condition.occurrences_reword,
      body.occurrences_reword scopes h, List.map_append]
  | .ifElse _ condition positive negative, h => by
    rw [Command.binders] at h
    obtain ⟨hpositive, hnegative⟩ := List.forall_mem_append.mp h
    rw [Command.reword, Command.occurrences, Command.occurrences, condition.occurrences_reword,
      positive.occurrences_reword scopes hpositive, negative.occurrences_reword scopes hnegative,
      List.map_append, List.map_append]
  | .for_ _ counter first last body, h => by
    rw [Command.binders] at h
    obtain ⟨hcounter, hbody⟩ := List.forall_mem_cons.mp h
    have hinside : [((counter.reword w).name.spelling, .var (counter.reword w).id)] ::
          scopes.map (renameIn target new) =
        ([(counter.name.spelling, .var counter.id)] :: scopes).map (renameIn target new) :=
      congrArg (· :: scopes.map (renameIn target new)) hcounter.renameIn_eq.symm
    rw [Command.reword, Command.occurrences, Command.occurrences, hinside, first.occurrences_reword,
      last.occurrences_reword, body.occurrences_reword _ hbody, List.map_cons, List.map_append,
      List.map_append]
    rfl
  | .let_ _ declaration body, h => by
    rw [Command.binders] at h
    obtain ⟨hparts, hbody⟩ := List.forall_mem_append.mp h
    have hinner := declarationOccurrences_reword scopes [] declaration.parts hparts
    rw [Command.reword, Command.occurrences, Command.occurrences, Declaration.parts_reword,
      flatMap_declared_reword declaration.parts hparts, ← List.map_cons, body.occurrences_reword _ hbody,
      List.map_append, ← hinner]
    rfl
  | .sequential _ parts, h => by
    rw [Command.binders] at h
    rw [Command.reword, Command.occurrences, Command.occurrences, commandOccurrences_reword scopes parts h]

theorem commandOccurrences_reword (scopes : List Declared) : ∀ cs : List Command,
    (∀ b ∈ commandBinders cs, Suits w target new b) →
    commandOccurrences (scopes.map (renameIn target new)) (rewordCommands w cs) =
      (commandOccurrences scopes cs).map (Occurrence.rename w target new)
  | [], _ => by simp only [rewordCommands, commandOccurrences, List.map_nil]
  | c :: rest, h => by
    rw [commandBinders] at h
    obtain ⟨hc, hrest⟩ := List.forall_mem_append.mp h
    rw [rewordCommands, commandOccurrences, commandOccurrences, c.occurrences_reword scopes hc,
      commandOccurrences_reword scopes rest hrest, List.map_append]

end

end Rename

/-! ### Programs whose names are linked -/

/-- The names of the program are linked to what they stand for, and nothing is wrong with them. -/
structure Scoping.Linked (p : Program) (links : Resolution) : Prop where
  nodup : p.command.ids.Nodup
  link_eq : ∀ o ∈ p.occurrences, links.get? o.id = o.link?
  clean : ∀ o ∈ p.occurrences, o.diagnostic? = none

theorem Program.linked_of_resolve {p : Program} {s : Resolution.State}
    (hids : Parser.Counted p.command.ids 0 p.nodeCount) (hs : p.resolve.finalState (.start p) = .ok s)
    (herrors : s.errors = #[]) : Linked p s.links := by
  obtain ⟨s', hs', hdiagnostics, hget⟩ := Program.resolve_eq hids
  cases hs.symm.trans hs'
  have hevents : p.command.events .standard = eventsOf p.occurrences := p.command.events_eq mirrors_standard
  rw [hevents, herrors, diagnostics_eventsOf] at hdiagnostics
  refine ⟨hids.nodup, fun o ho => ?_, List.filterMap_eq_nil_iff.mp hdiagnostics.symm⟩
  have hlinked : ∀ link, s.links.get? o.id = some link ↔
      ∃ o' ∈ p.occurrences, o'.id = o.id ∧ o'.link? = some link := by
    intro link
    rw [hget, hevents]
    exact mem_bindings_eventsOf
  have hnames : (nameIds p.occurrences).Nodup := (p.command.within_occurrences []).nodup hids.nodup
  refine Option.ext fun link => ⟨fun hsome => ?_, fun hsome => (hlinked link).mpr ⟨o, ho, rfl, hsome⟩⟩
  obtain ⟨o', ho', hid, hlink⟩ := (hlinked link).mp hsome
  rwa [List.inj_on_of_nodup_map hnames ho' ho hid] at hlink

/-- The name is that of the declaration, where it is made or where it is used. -/
def Name.StandsFor (links : Resolution) (b : Binder) (name : Name) : Prop :=
  name.id = b.name.id ∨ links.get? name.id = some b.link

instance (links : Resolution) (b : Binder) : DecidablePred (Name.StandsFor links b) :=
  fun name => inferInstanceAs (Decidable (name.id = b.name.id ∨ links.get? name.id = some b.link))

/-- The names that stand for a declaration are replaced by the new one, and no others. -/
def Scoping.Replaces (w : Rewording) (p : Program) (links : Resolution) (b : Binder) (new : String) : Prop :=
  ∀ entry ∈ p.names, (entry.2.reword w).spelling = if entry.2.StandsFor links b then new else entry.2.spelling

namespace Scoping.Linked
variable {p : Program} {links : Resolution} (h : Linked p links) {b b' : Binder} {new : String}
include h

/-- Every name occurs once. -/
theorem eq_of_id {o o' : Occurrence} (ho : o ∈ p.occurrences) (ho' : o' ∈ p.occurrences) (hid : o.id = o'.id) :
    o = o' :=
  List.inj_on_of_nodup_map ((p.command.within_occurrences []).nodup h.nodup) ho ho' hid

theorem lookup_eq_none {name : Name} {scope : Declared} (ho : .declaration name scope ∈ p.occurrences) :
    scope.lookup name.spelling = none := by
  have hclean := h.clean _ ho
  rw [Occurrence.diagnostic?] at hclean
  cases hlookup : scope.lookup name.spelling with
  | none => rfl
  | some link => simp [hlookup] at hclean

/-- A name where it is declared has no link. -/
theorem get?_binder (hb : b ∈ p.binders) : links.get? b.name.id = none := by
  obtain ⟨scope, ho⟩ := p.command.exists_declaration [] hb
  exact h.link_eq _ ho

theorem eq_of_link (hb : b ∈ p.binders) (hb' : b' ∈ p.binders) (hlink : b.link = b'.link) : b = b' := by
  obtain ⟨id, hid⟩ := List.exists_mem_of_ne_nil _ b.nodes_ne_nil
  exact Command.binder_unique h.nodup hb hb' (List.mem_cons_of_mem _ hid)
    (List.mem_cons_of_mem _ (hlink ▸ hid))

theorem eq_of_name_id (hb : b ∈ p.binders) (hb' : b' ∈ p.binders) (hid : b.name.id = b'.name.id) : b = b' :=
  Command.binder_unique h.nodup hb hb' List.mem_cons_self (hid ▸ List.mem_cons_self)

/-- Of the names that are declared only its own stands for a declaration. -/
theorem standsFor_binder (hb : b ∈ p.binders) (hb' : b' ∈ p.binders) :
    b'.name.StandsFor links b ↔ b'.link = b.link := by
  constructor
  · rintro (hid | hlink)
    · rw [h.eq_of_name_id hb' hb hid]
    · rw [h.get?_binder hb'] at hlink
      cases hlink
  · intro hlink
    exact Or.inl (congrArg (·.name.id) (h.eq_of_link hb' hb hlink))

/-- A name that is used stands for a declaration if its scopes say so. -/
theorem standsFor_use (hb : b ∈ p.binders) {name : Name} {scopes : List Declared}
    (ho : .use name scopes ∈ p.occurrences) :
    name.StandsFor links b ↔ target? scopes name.spelling = some b.link := by
  have hlink : links.get? name.id = target? scopes name.spelling := h.link_eq _ ho
  rw [Name.StandsFor, hlink]
  refine or_iff_right fun hid => ?_
  -- no name is both used and declared
  obtain ⟨scope, hdeclared⟩ := p.command.exists_declaration [] hb
  cases h.eq_of_id ho hdeclared hid

theorem suits {w : Rewording} (hb : b ∈ p.binders) (hw : Replaces w p links b new) (hb' : b' ∈ p.binders) :
    Suits w b.link new b' := by
  obtain ⟨scope, ho⟩ := p.command.exists_declaration [] hb'
  have hspelling := hw _ ((p.command.occur []).among _ ho)
  simp only [h.standsFor_binder hb hb'] at hspelling
  exact hspelling

variable (hb : b ∈ p.binders) (hnew : ∀ entry ∈ p.names, entry.2.spelling ≠ new)
include hb hnew

/-- In all scopes of the program the declaration may be renamed. -/
theorem fair : AllSee (Fair b.link b.name.spelling new) p.occurrences := by
  refine p.command.allSee .nil (List.forall_mem_nil _) fun b' scope hb' ho hscope => ?_
  have hne : b'.name.spelling ≠ new := hnew _ ((p.command.occur []).among _ ho)
  refine hscope.declare (h.lookup_eq_none ho) hne fun hlink => ?_
  rw [h.eq_of_link hb' hb hlink]

/-- All that stands for a declaration is spelled alike. -/
theorem spelling_eq {entry : Token.Kind × Name} (hentry : entry ∈ p.names)
    (hstands : entry.2.StandsFor links b) : entry.2.spelling = b.name.spelling := by
  obtain ⟨o, ho, hname⟩ := (p.command.occur []).occurs entry hentry
  rw [← hname] at hstands ⊢
  cases o with
  | use name scopes =>
    exact eq_of_target? b.nodes_ne_nil (h.fair hb hnew _ ho) ((h.standsFor_use hb ho).mp hstands)
  | declaration name scope =>
    obtain ⟨scope', hdeclared⟩ := p.command.exists_declaration [] hb
    rcases hstands with hid | hlink
    · have heq := h.eq_of_id ho hdeclared hid
      cases heq
      rfl
    · cases (h.link_eq _ ho).symm.trans hlink

variable {w : Rewording} (hw : Replaces w p links b new)
include hw

/-- Behind the renamed scopes a name that is used stands for what it stood for. -/
theorem target?_reword {name : Name} {scopes : List Declared} (ho : .use name scopes ∈ p.occurrences) :
    target? (scopes.map (renameIn b.link new)) (name.reword w).spelling = target? scopes name.spelling := by
  have hfair : ∀ scope ∈ scopes, Fair b.link b.name.spelling new scope := h.fair hb hnew _ ho
  obtain ⟨k, hmem⟩ := (p.command.occur []).among _ ho
  have hspelling := hw _ hmem
  simp only [h.standsFor_use hb ho] at hspelling
  rw [hspelling]
  split
  · rename_i hlink
    have hold : name.spelling = b.name.spelling := eq_of_target? b.nodes_ne_nil hfair hlink
    rw [hlink]
    exact target?_new b.nodes_ne_nil hfair (hold ▸ hlink)
  · exact target?_renameIn hfair (hnew _ hmem) ‹_›

/-- In its renamed scope a name that is declared is still declared for the first time. -/
theorem lookup_reword {name : Name} {scope : Declared} (ho : .declaration name scope ∈ p.occurrences) :
    (renameIn b.link new scope).lookup (name.reword w).spelling = none := by
  have hfair : Fair b.link b.name.spelling new scope := h.fair hb hnew _ ho scope (List.mem_singleton.mpr rfl)
  have hmem : (.identifier, name) ∈ p.names := (p.command.occur []).among _ ho
  have hnone := h.lookup_eq_none ho
  have hspelling : (name.reword w).spelling = if name.StandsFor links b then new else name.spelling := hw _ hmem
  rw [hspelling]
  split
  · rename_i hstands
    have hold : name.spelling = b.name.spelling := h.spelling_eq hb hnew hmem hstands
    rw [hfair.lookup_new, ← hold, hnone, if_neg (by simp)]
  · rw [hfair.lookup_renameIn (hnew _ hmem) (by simp [hnone]), hnone]

theorem event?_rename {o : Occurrence} (ho : o ∈ p.occurrences) : (o.rename w b.link new).event? = o.event? := by
  have hclean := h.clean o ho
  cases o with
  | use name scopes =>
    rw [Occurrence.rename, Occurrence.event?, Occurrence.event?, h.target?_reword hb hnew hw ho]
    rw [Occurrence.diagnostic?] at hclean
    cases hlink : target? scopes name.spelling with
    | some link => rfl
    | none => simp [hlink] at hclean
  | declaration name scope =>
    rw [Occurrence.rename, Occurrence.event?, Occurrence.event?, h.lookup_reword hb hnew hw ho,
      h.lookup_eq_none ho]
    rfl

/-- The names of the renamed program are linked as they were. -/
theorem resolve_reword : (p.reword w).resolve = p.resolve := by
  have hoccurrences : (p.reword w).occurrences = p.occurrences.map (Occurrence.rename w b.link new) :=
    p.command.occurrences_reword [] fun b' hb' => h.suits hb hw hb'
  have hevents : (p.reword w).command.events .standard = p.command.events .standard := by
    rw [Command.events_eq mirrors_standard, Command.events_eq mirrors_standard]
    change eventsOf (p.reword w).occurrences = eventsOf p.occurrences
    rw [hoccurrences, eventsOf, eventsOf, List.filterMap_map]
    exact List.filterMap_congr fun o ho => h.event?_rename hb hnew hw ho
  rw [Program.resolve_eq_events, Program.resolve_eq_events, hevents]

end Scoping.Linked

end TriangleCompiler
