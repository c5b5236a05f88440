import TriangleCompiler.Proofs.Resolution.Links

/-! Links are there to stay. Names can be linked into a table that has links already, of the same program
    or of others: what is in the table is never overwritten, and a pass that would do so stops there. A
    program whose names are linked once more stops at the first name that has a link, and if there is no
    such name it reports what it reported before. -/

namespace TriangleCompiler

theorem NodeTable.refusal?_of_get? {α : Type} {t : NodeTable α} {id : NodeId} {a : α}
    (h : t.get? id = some a) : t.refusal? id = some (.nodeDecorated id) := by
  have hslot : t.slots[id]? = some (some a) := Option.join_eq_some_iff.mp h
  rw [refusal?, hslot]

namespace Resolution

/-- Links the names of programs into one table, one program after the other. Where a program stops with a
    fault the next one finds what was done until then. -/
def resolveAll : List Program → State → State
  | [], s => s
  | p :: rest, s => resolveAll rest (p.resolve.stateAfter s)

/-! ### What is linked stays linked -/

theorem perform_bind_refused {id : NodeId} {target : Link} {s : State} {f : Fault}
    (h : s.links.refusal? id = some f) : (Event.bind id target).perform s = .error f s := by
  simp only [Event.perform, link, NodeTable.set_of_refusal h]

/-- An event makes its own link, or none. -/
theorem grows_perform (e : Event) (s : State) :
    s.links.Grows (e.perform.stateAfter s).links (boundIds [e]) := by
  cases e with
  | bind id target =>
    cases hrefusal : s.links.refusal? id with
    | some fault =>
      rw [Pass.stateAfter, perform_bind_refused hrefusal]
      exact .refl s.links _
    | none =>
      have hfree : s.links.Free [id] := by
        simpa [NodeTable.Free] using NodeTable.refusal?_eq_none_iff.mp hrefusal
      simp only [Pass.stateAfter, Event.perform, link, NodeTable.set_of_no_refusal hrefusal]
      exact NodeTable.grows_write hfree target
  | report => exact .refl s.links _

/-- However far a list of events is carried out, the table has grown by some of their links. -/
theorem grows_performAll (es : List Event) (s : State) :
    s.links.Grows ((performAll es).stateAfter s).links (boundIds es) := by
  induction es generalizing s with
  | nil => exact .refl s.links _
  | cons e es ih =>
    have hids : boundIds (e :: es) = boundIds [e] ++ boundIds es := boundIds_append [e] es
    have hfirst : s.links.Grows (e.perform.stateAfter s).links (boundIds (e :: es)) :=
      (grows_perform e s).mono fun id hid => hids ▸ List.mem_append_left _ hid
    rw [Pass.stateAfter] at hfirst
    rw [Pass.stateAfter, performAll_cons]
    cases hrun : e.perform s with
    | ok a t =>
      rw [hrun] at hfirst
      rw [Pass.bind_of_ok hrun]
      exact hfirst.trans ((ih t).mono fun id hid => hids ▸ List.mem_append_right _ hid)
    | error f t =>
      rw [hrun] at hfirst
      rw [Pass.bind_of_error hrun]
      exact hfirst

theorem get?_resolveAll {ps : List Program} {s : State} {id : NodeId} {target : Link}
    (h : s.links.get? id = some target) : (resolveAll ps s).links.get? id = some target := by
  induction ps generalizing s with
  | nil => exact h
  | cons p ps ih =>
    have hgrows := grows_performAll (p.command.events .standard) s
    rw [← p.resolve_eq_events] at hgrows
    exact ih (hgrows.keeps id target h)

end Resolution

/-! ### Linking the same names once more -/

namespace Scoping

open Resolution

/-- The first of the names that has something to be linked to. -/
def firstLinked? (os : List Occurrence) : Option Occurrence := os.find? (·.link?.isSome)

/-- The names before the first one that has something to be linked to. -/
def beforeLinked (os : List Occurrence) : List Occurrence := os.takeWhile (·.link?.isNone)

theorem link?_eq_none_of_mem_beforeLinked {os : List Occurrence} {o : Occurrence}
    (h : o ∈ beforeLinked os) : o.link? = none :=
  Option.isNone_iff_eq_none.mp (List.all_eq_true.mp List.all_takeWhile o h)

/-- The first name that has something to be linked to is used, and stands behind those before it. -/
theorem firstLinked?_eq_some {os : List Occurrence} {o : Occurrence} (h : firstLinked? os = some o) :
    ∃ name scopes link after, o = .use name scopes ∧ target? scopes name.spelling = some link ∧
      os = beforeLinked os ++ o :: after := by
  induction os with
  | nil => cases h
  | cons p os ih =>
    cases hlink : p.link? with
    | some link =>
      have hp : p = o := by simpa [firstLinked?, hlink] using h
      subst hp
      have hbefore : beforeLinked (p :: os) = [] := by simp [beforeLinked, hlink]
      cases p with
      | use name scopes => exact ⟨name, scopes, link, os, rfl, hlink, by rw [hbefore]; rfl⟩
      | declaration => cases hlink
    | none =>
      have hrest : firstLinked? os = some o := by simpa [firstLinked?, hlink] using h
      have hbefore : beforeLinked (p :: os) = p :: beforeLinked os := by simp [beforeLinked, hlink]
      obtain ⟨name, scopes, link, after, ho, htarget, hos⟩ := ih hrest
      exact ⟨name, scopes, link, after, ho, htarget, by rw [hbefore, List.cons_append, ← hos]⟩

/-- Where no name has anything to be linked to the errors are reported, and that is all. -/
theorem performAll_unlinked {os : List Occurrence} (h : ∀ o ∈ os, o.link? = none) (s : State) :
    performAll (eventsOf os) s =
      .ok () { s with errors := s.errors ++ (os.filterMap Occurrence.diagnostic?).toArray } := by
  have hnone : bindings (eventsOf os) = [] := by
    refine List.eq_nil_iff_forall_not_mem.mpr fun p hp => ?_
    obtain ⟨o, ho, -, hlink⟩ := mem_bindings_eventsOf.mp (show (p.1, p.2) ∈ _ from hp)
    simp [h o ho] at hlink
  have hids : boundIds (eventsOf os) = [] := by rw [boundIds, hnone]; rfl
  rw [performAll_ok (by simp [hids]) (by simp [hids, NodeTable.Free]), hnone, diagnostics_eventsOf]
  rfl

/-- The pass stops at the first name that is to be linked, if that name has a link already. -/
theorem performAll_linked {os : List Occurrence} {o : Occurrence} (h : firstLinked? os = some o) {s : State}
    (hget : s.links.get? o.id ≠ none) :
    performAll (eventsOf os) s = .error (.nodeDecorated o.id)
      { s with errors := s.errors ++ ((beforeLinked os).filterMap Occurrence.diagnostic?).toArray } := by
  obtain ⟨name, scopes, link, after, rfl, htarget, hos⟩ := firstLinked?_eq_some h
  have hevent : (Occurrence.use name scopes).event? = some (.bind name.id link) := by
    rw [Occurrence.event?, htarget]
  have hevents : eventsOf os = eventsOf (beforeLinked os) ++ .bind name.id link :: eventsOf after := by
    refine (congrArg eventsOf hos).trans ?_
    rw [eventsOf_append, eventsOf_cons, hevent]
    rfl
  have hbefore := performAll_unlinked (fun o => @link?_eq_none_of_mem_beforeLinked os o) s
  obtain ⟨target, htarget⟩ := Option.ne_none_iff_exists'.mp hget
  rw [hevents, performAll_append, Pass.bind_of_ok hbefore, performAll_cons]
  exact Pass.bind_of_error (perform_bind_refused (NodeTable.refusal?_of_get? htarget))

end Scoping

open Resolution Scoping

theorem Program.resolve_eq_performAll (p : Program) : p.resolve = performAll (eventsOf p.occurrences) := by
  rw [p.resolve_eq_events, p.command.events_eq mirrors_standard, Program.occurrences]

/-- What the names of a program come to when they are linked into a table of its own. -/
theorem Program.resolve_start {p : Program} (hids : Parser.Counted p.command.ids 0 p.nodeCount) :
    ∃ s, p.resolve (.start p) = .ok () s ∧
      s.errors.toList = p.occurrences.filterMap Occurrence.diagnostic? ∧
      ∀ id link, s.links.get? id = some link ↔ ∃ o ∈ p.occurrences, o.id = id ∧ o.link? = some link := by
  have hevents : p.command.events .standard = eventsOf p.occurrences := p.command.events_eq mirrors_standard
  obtain ⟨s, hs, herrors, hget⟩ := Program.resolve_eq hids
  obtain ⟨⟨⟩, hrun⟩ := Pass.exists_of_finalState hs
  refine ⟨s, hrun, by rw [herrors, hevents, diagnostics_eventsOf], fun id link => ?_⟩
  rw [hget, hevents]
  exact mem_bindings_eventsOf

/-- A link is never changed or taken away, whatever programs are linked into the table afterwards and
    whether or not they stop with a fault. The names of every program that is read can be linked into a
    table of its own. If they are linked into that table once more, then the pass stops, provided there is
    a link at all: with the first use that has one as the node that is decorated already, with the table as
    it was, and with the errors of the names before that use. If there is no link it ends as it did the
    first time, and all errors are there once more. -/
theorem Program.resolve_writes_once :
    (∀ (s : State) (ps : List Program) id target, s.links.get? id = some target →
      (resolveAll ps s).links.get? id = some target) ∧
    ∀ (tokens : List Token) (last : Token), last.kind = .endOfText → ∃ r s,
      Program.ofTokens (tokens ++ [last]) = .ok r ∧
      r.program.resolve (.start r.program) = .ok () s ∧
      s.errors.toList = r.program.occurrences.filterMap Occurrence.diagnostic? ∧
      ∀ errors,
        ((∃ id target, s.links.get? id = some target) →
          ∃ name scopes, firstLinked? r.program.occurrences = some (.use name scopes) ∧
            r.program.resolve ⟨s.links, errors⟩ = .error (.nodeDecorated name.id) ⟨s.links, errors ++
              ((beforeLinked r.program.occurrences).filterMap Occurrence.diagnostic?).toArray⟩) ∧
        ((∀ id, s.links.get? id = none) →
          r.program.resolve ⟨s.links, errors⟩ = .ok () ⟨s.links, errors ++ s.errors⟩) := by
  refine ⟨fun s ps id target h => get?_resolveAll h, fun tokens last hlast => ?_⟩
  obtain ⟨r, hr, hids⟩ := Program.exists_ofTokens tokens last hlast
  obtain ⟨s, hrun, herrors, hget⟩ := Program.resolve_start hids
  refine ⟨r, s, hr, hrun, herrors, fun errors => ⟨?_, fun hnone => ?_⟩⟩
  · rintro ⟨id, link, hlink⟩
    obtain ⟨o, ho, -, holink⟩ := (hget id link).mp hlink
    cases hfirst : firstLinked? r.program.occurrences with
    | none => exact absurd (Option.isSome_of_eq_some holink) (List.find?_eq_none.mp hfirst o ho)
    | some first =>
      obtain ⟨name, scopes, link, after, rfl, htarget, hos⟩ := firstLinked?_eq_some hfirst
      -- the first run has linked this use, so the second one finds its place taken
      have hmem : .use name scopes ∈ r.program.occurrences := hos ▸ by simp
      have hlink : s.links.get? name.id = some link := (hget _ _).mpr ⟨_, hmem, rfl, htarget⟩
      refine ⟨name, scopes, rfl, ?_⟩
      rw [Program.resolve_eq_performAll]
      exact performAll_linked hfirst (by simp [Occurrence.id, hlink])
  · have hunlinked : ∀ o ∈ r.program.occurrences, o.link? = none := by
      intro o ho
      refine Option.eq_none_iff_forall_not_mem.mpr fun link hlink => ?_
      have hsome := (hget o.id link).mpr ⟨o, ho, rfl, hlink⟩
      simp [hnone] at hsome
    rw [Program.resolve_eq_performAll, performAll_unlinked hunlinked, ← herrors]

/-- In `x := y + z` only the operator is linked, so the second pass stops there with `y` reported once more,
    and the link outlasts any further passes. In `x := 7` nothing is linked and `x` is reported twice. -/
theorem Program.resolve_writes_once_operator :
    let token (k : Token.Kind) (spelling : String) (column : Int) : Token := ⟨k, spelling, ⟨1, column⟩⟩
    let sum := [token .identifier "x" 1, token .becomes ":=" 3, token .identifier "y" 6, token .operator "+" 8,
      token .identifier "z" 10]
    let number := [token .identifier "x" 1, token .becomes ":=" 3, token .intLiteral "7" 6]
    let last := token .endOfText "" 12
    let undeclared (spelling : String) (column : Int) : Diagnostic :=
      ⟨⟨1, column⟩, .scope (.undeclared spelling)⟩
    last.kind = .endOfText ∧
    (∃ r s, Program.ofTokens (sum ++ [last]) = .ok r ∧ r.program.resolve (.start r.program) = .ok () s ∧
      s.errors.toList = [undeclared "y" 6, undeclared "z" 10, undeclared "x" 1] ∧
      s.links.get? 3 = some (.builtin .add) ∧
      r.program.resolve s = .error (.nodeDecorated 3) ⟨s.links, s.errors ++ #[undeclared "y" 6]⟩ ∧
      (resolveAll [r.program, r.program] s).links.get? 3 = some (.builtin .add)) ∧
    ∃ r s, Program.ofTokens (number ++ [last]) = .ok r ∧ r.program.resolve (.start r.program) = .ok () s ∧
      s.errors.toList = [undeclared "x" 1] ∧ (∀ id, s.links.get? id = none) ∧
      r.program.resolve s = .ok () ⟨s.links, s.errors ++ s.errors⟩ := by
  intro token sum number last undeclared
  obtain ⟨hstays, hagain⟩ := Program.resolve_writes_once
  refine ⟨rfl, ?_, ?_⟩
  · obtain ⟨r, s, hr, hs, herrors, hsecond⟩ := hagain sum last rfl
    have hrun : ((Program.ofTokens (sum ++ [last])).toOption.any fun r => decide
        ((firstLinked? r.program.occurrences).map Occurrence.id = some 3 ∧
          (beforeLinked r.program.occurrences).filterMap Occurrence.diagnostic? = [undeclared "y" 6] ∧
          r.program.occurrences.filterMap Occurrence.diagnostic? =
            [undeclared "y" 6, undeclared "z" 10, undeclared "x" 1] ∧
          (r.program.resolve.finalState (.start r.program)).toOption.map (·.links.get? 3) =
            some (some (.builtin .add)))) = true := by
      decide +kernel
    rw [hr] at hrun
    obtain ⟨hfirst, hbefore, hall, hlink⟩ := of_decide_eq_true hrun
    rw [Pass.finalState, hs] at hlink
    have hlink : s.links.get? 3 = some (.builtin .add) := Option.some.inj hlink
    obtain ⟨name, scopes, hname, hstop⟩ := (hsecond s.errors).1 ⟨3, .builtin .add, hlink⟩
    rw [hname] at hfirst
    rw [hbefore, show name.id = 3 from Option.some.inj hfirst] at hstop
    exact ⟨r, s, hr, hs, herrors.trans hall, hlink, hstop, hstays s [r.program, r.program] 3 _ hlink⟩
  · obtain ⟨r, s, hr, hs, herrors, hsecond⟩ := hagain number last rfl
    have hrun : ((Program.ofTokens (number ++ [last])).toOption.any fun r => decide
        (firstLinked? r.program.occurrences = none ∧
          r.program.occurrences.filterMap Occurrence.diagnostic? = [undeclared "x" 1])) = true := by
      decide +kernel
    rw [hr] at hrun
    obtain ⟨hfirst, hall⟩ := of_decide_eq_true hrun
    have hnone : ∀ id, s.links.get? id = none := by
      refine fun id => Option.eq_none_iff_forall_not_mem.mpr fun target hlink => ?_
      obtain ⟨name, scopes, hname, -⟩ := (hsecond s.errors).1 ⟨id, target, hlink⟩
      rw [hfirst] at hname
      cases hname
    exact ⟨r, s, hr, hs, herrors.trans hall, hnone, (hsecond s.errors).2 hnone⟩

end TriangleCompiler
