import TriangleCompiler.Proofs.Resolution.Scoping

/-! The links that a program gets. Its nodes have different numbers, so no link stands in the way of
    another, and the pass ends without a fault; if it reports nothing, every name that is used has the link
    that its scopes give it. -/

namespace TriangleCompiler

namespace Resolution

/-- The links that events make. -/
def bindings : List Event → List (NodeId × Link)
  | [] => []
  | .bind id target :: rest => (id, target) :: bindings rest
  | .report _ _ :: rest => bindings rest

/-- The errors that events report. -/
def diagnostics : List Event → List Diagnostic
  | [] => []
  | .bind _ _ :: rest => diagnostics rest
  | .report position cause :: rest => ⟨position, .scope cause⟩ :: diagnostics rest

/-- The nodes that events link. -/
def boundIds (es : List Event) : List NodeId := (bindings es).map Prod.fst

@[simp] theorem boundIds_bind (id : NodeId) (target : Link) (es : List Event) :
    boundIds (.bind id target :: es) = id :: boundIds es := rfl

theorem bindings_append (es fs : List Event) : bindings (es ++ fs) = bindings es ++ bindings fs := by
  induction es with
  | nil => rfl
  | cons e es ih => cases e <;> simp [bindings, ih]

theorem diagnostics_append (es fs : List Event) :
    diagnostics (es ++ fs) = diagnostics es ++ diagnostics fs := by
  induction es with
  | nil => rfl
  | cons e es ih => cases e <;> simp [diagnostics, ih]

theorem boundIds_append (es fs : List Event) : boundIds (es ++ fs) = boundIds es ++ boundIds fs := by
  rw [boundIds, bindings_append, List.map_append]
  rfl

/-- Events whose nodes have free places are carried out without a fault. -/
theorem performAll_ok {es : List Event} {s : State} (hnodup : (boundIds es).Nodup)
    (hfree : s.links.Free (boundIds es)) :
    performAll es s =
      .ok () ⟨s.links.writeAll (bindings es), s.errors ++ (diagnostics es).toArray⟩ := by
  induction es generalizing s with
  | nil => simp [bindings, diagnostics, NodeTable.writeAll]
  | cons e es ih =>
    cases e with
    | bind id target =>
      obtain ⟨hid, hnodup⟩ := List.nodup_cons.mp hnodup
      have hone : s.links.Free [id] := hfree.mono (by simp)
      obtain ⟨-, hrest⟩ := NodeTable.Free.write_cons (p := (id, target)) hfree hid
      have hfirst : (Event.bind id target).perform s =
          .ok () { s with links := s.links.write id target } := by
        simp only [Event.perform, link, hone.set]
      rw [performAll_cons, Pass.bind_of_ok hfirst, ih hnodup hrest]
      rfl
    | report position cause =>
      have hfirst : (Event.report position cause).perform s =
          .ok () { s with errors := s.errors.push ⟨position, .scope cause⟩ } := rfl
      have hrest := @ih { s with errors := s.errors.push ⟨position, .scope cause⟩ } hnodup hfree
      rw [performAll_cons, Pass.bind_of_ok hfirst, hrest]
      simp [bindings, diagnostics]

/-! ### What the names in a program come to -/

end Resolution

namespace Scoping

open Resolution

theorem bindings_event? (o : Occurrence) :
    bindings o.event?.toList = (o.link?.map fun link => (o.id, link)).toList := by
  cases o with
  | use name scopes =>
    rw [Occurrence.event?, Occurrence.link?]
    cases target? scopes name.spelling <;> rfl
  | declaration name scope =>
    rw [Occurrence.event?, Occurrence.link?]
    split <;> rfl

theorem diagnostics_event? (o : Occurrence) : diagnostics o.event?.toList = o.diagnostic?.toList := by
  cases o with
  | use name scopes =>
    rw [Occurrence.event?, Occurrence.diagnostic?]
    cases target? scopes name.spelling <;> rfl
  | declaration name scope =>
    rw [Occurrence.event?, Occurrence.diagnostic?]
    split <;> rfl

/-- Names are linked to what scoping gives them. -/
theorem mem_bindings_eventsOf {os : List Occurrence} {id : NodeId} {link : Link} :
    (id, link) ∈ bindings (eventsOf os) ↔ ∃ o ∈ os, o.id = id ∧ o.link? = some link := by
  induction os with
  | nil => simp [eventsOf, bindings]
  | cons o os ih =>
    have hhead : (id, link) ∈ bindings o.event?.toList ↔ o.id = id ∧ o.link? = some link := by
      rw [bindings_event?]
      cases o.link? <;> simp [eq_comm]
    rw [eventsOf_cons, bindings_append, List.mem_append, ih, hhead]
    simp

theorem diagnostics_eventsOf (os : List Occurrence) :
    diagnostics (eventsOf os) = os.filterMap Occurrence.diagnostic? := by
  induction os with
  | nil => rfl
  | cons o os ih =>
    rw [eventsOf_cons, diagnostics_append, ih, diagnostics_event?, List.filterMap_cons]
    cases o.diagnostic? <;> rfl

/-- At most the names that occur are linked, and each of them once. -/
theorem boundIds_eventsOf (os : List Occurrence) : (boundIds (eventsOf os)).Sublist (nameIds os) := by
  induction os with
  | nil => exact List.Sublist.refl _
  | cons o os ih =>
    rw [eventsOf_cons, boundIds_append, boundIds, bindings_event?, nameIds_cons]
    cases o.link? with
    | none => exact ih.cons o.id
    | some link => exact ih.cons_cons o.id

end Scoping

namespace Resolution

/-! ### Names that have their links -/

/-- Every event is a link, and the table has it. -/
def Realized (links : Resolution) (es : List Event) : Prop :=
  ∀ e ∈ es, ∃ id target, e = .bind id target ∧ links.get? id = some target

theorem realized_append {links : Resolution} {es fs : List Event} :
    Realized links (es ++ fs) ↔ Realized links es ∧ Realized links fs := by
  simp only [Realized, List.mem_append, or_imp, forall_and]

theorem realized_cons {links : Resolution} {e : Event} {es : List Event} :
    Realized links (e :: es) ↔ Realized links [e] ∧ Realized links es :=
  @realized_append links [e] es

/-- A name that is used stands for what its scopes say. -/
theorem Realized.use {links : Resolution} {scopes : SymbolTable} {name : Name}
    (h : Realized links [useEvent scopes name]) :
    ∃ target, scopes.retrieve? name.spelling = some target ∧ links.get? name.id = some target := by
  obtain ⟨id, target, heq, hget⟩ := h _ (List.mem_singleton.mpr rfl)
  unfold useEvent at heq
  split at heq
  · cases heq
    exact ⟨_, ‹_›, hget⟩
  · cases heq

/-- A name that is declared was not declared in the same scope before. -/
theorem Realized.declare {links : Resolution} {scopes : SymbolTable} {name : Name} {target : Link}
    (h : Realized links (declareEvents scopes name target)) :
    scopes.enter name.spelling target = .ok (scopesWith scopes name target) := by
  unfold declareEvents at h
  unfold scopesWith
  split
  · assumption
  · rename_i hduplicate
    rw [hduplicate] at h
    obtain ⟨_, _, heq, -⟩ := h _ (List.mem_singleton.mpr rfl)
    cases heq

theorem realized_of_diagnostics {es : List Event} (h : diagnostics es = []) {links : Resolution}
    (hget : ∀ p ∈ bindings es, links.get? p.1 = some p.2) : Realized links es := by
  induction es with
  | nil => simp [Realized]
  | cons e es ih =>
    cases e with
    | bind id target =>
      have htail := ih h fun p hp => hget p (List.mem_cons_of_mem _ hp)
      refine realized_cons.mpr ⟨?_, htail⟩
      intro e he
      cases List.mem_singleton.mp he
      exact ⟨id, target, rfl, hget (id, target) List.mem_cons_self⟩
    | report => cases h

theorem stage_diagnostics {es : List Event} {d : Diagnostic} (h : d ∈ diagnostics es) :
    d.value.stage = .resolve := by
  induction es with
  | nil => cases h
  | cons e es ih =>
    cases e with
    | bind => exact ih h
    | report =>
      rcases List.mem_cons.mp h with rfl | h
      · rfl
      · exact ih h

end Resolution

open Resolution Scoping

/-- The names of a program whose nodes have different numbers are linked without a fault: each of them as
    it comes, and no link in the way of another. -/
theorem Program.resolve_eq {p : Program} (hids : Parser.Counted p.command.ids 0 p.nodeCount) :
    ∃ s, p.resolve.finalState (.start p) = .ok s ∧
      s.errors.toList = diagnostics (p.command.events .standard) ∧
      ∀ id target, s.links.get? id = some target ↔ (id, target) ∈ bindings (p.command.events .standard) := by
  have hevents : p.command.events .standard = eventsOf p.occurrences := p.command.events_eq mirrors_standard
  have hwithin : Within (nameIds p.occurrences) p.command.ids := p.command.within_occurrences []
  have hsub : (boundIds (p.command.events .standard)).Sublist (nameIds p.occurrences) := by
    rw [hevents]
    exact boundIds_eventsOf p.occurrences
  have hnodup := hsub.nodup (hwithin.nodup hids.nodup)
  have hfree : (NodeTable.empty p.nodeCount : Resolution).Free (boundIds (p.command.events .standard)) :=
    NodeTable.free_empty fun id hid => hids.lt (hwithin.mem (hsub.mem hid))
  have hok := performAll_ok (s := .start p) hnodup hfree
  refine ⟨_, by rw [Program.resolve_eq_events, Pass.finalState, hok], ?_, fun id target => ?_⟩
  · simp [State.start]
  · rw [State.start, NodeTable.get?_writeAll hnodup hfree]
    simp

/-- If nothing is reported all names of a program have their links. -/
theorem Program.resolve_ok {p : Program} (hids : Parser.Counted p.command.ids 0 p.nodeCount) :
    ∃ s, p.resolve.finalState (.start p) = .ok s ∧ Reports .resolve #[] s.errors ∧
      (s.errors = #[] → Realized s.links (p.command.events .standard)) := by
  obtain ⟨s, hok, herrors, hget⟩ := Program.resolve_eq hids
  refine ⟨s, hok, ⟨_, herrors, fun d => stage_diagnostics⟩, fun hnone => ?_⟩
  rw [hnone] at herrors
  exact realized_of_diagnostics herrors.symm fun q hq => (hget q.1 q.2).mpr hq

end TriangleCompiler
