import Mathlib.Data.List.Induction
import TriangleCompiler.Proofs.Nesting
import TriangleCompiler.Proofs.Resolution.Scopes

/-! Symbol tables over any sequence of openings, closings and entries. What a table answers is told by the log of
    what happened to it: a name stands for its first entry in the innermost of the open scopes that have one.
    A scope that is opened and closed again leaves the table as it was. -/

namespace TriangleCompiler.SymbolTable

open Nesting (Nested heightFrom? height?)

/-! ### Actions and events -/

/-- What can be done with a symbol table. -/
inductive Action where
  | openScope
  | closeScope
  | enter (name : String) (link : Link)
deriving DecidableEq, Repr

/-- What happens at an action. -/
inductive Event where
  | opened
  | closed
  | entered (name : String) (link : Link)
  /-- The innermost scope declares the name already. -/
  | refused (name : String) (existing : Link)
deriving DecidableEq, Repr

/-- What an action does to the scopes. -/
def Action.nesting : Action → Nesting
  | openScope => .opens
  | closeScope => .closes
  | enter _ _ => .stays

/-- What an event does to the scopes. -/
def Event.nesting : Event → Nesting
  | opened => .opens
  | closed => .closes
  | entered _ _ | refused _ _ => .stays

/-- Performs an action and tells what happened. -/
def perform (a : Action) : Pass SymbolTable Event := fun t =>
  match a with
  | .openScope => .ok .opened t.openScope
  | .closeScope =>
    match t.closeScope with
    | .ok u => .ok .closed u
    | .error fault => .error fault t
  | .enter name link =>
    match t.enter name link with
    | .ok u => .ok (.entered name link) u
    | .error existing => .ok (.refused name existing) t

/-- The steps of a symbol table. -/
inductive Step : Event → SymbolTable → SymbolTable → Prop where
  | opened {inner : Scope} {outer : List Scope} : Step .opened ⟨inner, outer⟩ ⟨∅, inner :: outer⟩
  | closed {inner scope : Scope} {outer : List Scope} : Step .closed ⟨inner, scope :: outer⟩ ⟨scope, outer⟩
  | entered {inner : Scope} {outer : List Scope} {name : String} {link : Link} : inner[name]? = none →
      Step (.entered name link) ⟨inner, outer⟩ ⟨inner.insert name link, outer⟩
  | refused {inner : Scope} {outer : List Scope} {name : String} {existing : Link} : inner[name]? = some existing →
      Step (.refused name existing) ⟨inner, outer⟩ ⟨inner, outer⟩

theorem enter_of_none {t : SymbolTable} {name : String} (h : t.inner[name]? = none) (link : Link) :
    t.enter name link = .ok { t with inner := t.inner.insert name link } := by
  rw [enter, h]

theorem enter_of_some {t : SymbolTable} {name : String} {existing : Link} (h : t.inner[name]? = some existing)
    (link : Link) : t.enter name link = .error existing := by
  rw [enter, h]

theorem perform_of_none {t : SymbolTable} {name : String} (h : t.inner[name]? = none) (link : Link) :
    perform (.enter name link) t = .ok (.entered name link) { t with inner := t.inner.insert name link } := by
  simp only [perform, enter_of_none h]

theorem perform_of_some {t : SymbolTable} {name : String} {existing : Link} (h : t.inner[name]? = some existing)
    (link : Link) : perform (.enter name link) t = .ok (.refused name existing) t := by
  simp only [perform, enter_of_some h]

/-- What happens at an action is a step, and it does to the scopes what the action does. -/
theorem step_of_perform {a : Action} {t u : SymbolTable} {e : Event} (h : perform a t = .ok e u) :
    Step e t u ∧ e.nesting = a.nesting := by
  cases a with
  | openScope =>
    cases h
    exact ⟨.opened, rfl⟩
  | closeScope =>
    obtain ⟨inner, outer⟩ := t
    cases outer with
    | nil => cases h
    | cons scope outer =>
      cases h
      exact ⟨.closed, rfl⟩
  | enter name link =>
    cases hname : t.inner[name]? with
    | none =>
      rw [perform_of_none hname] at h
      cases h
      exact ⟨.entered hname, rfl⟩
    | some existing =>
      rw [perform_of_some hname] at h
      cases h
      exact ⟨.refused hname, rfl⟩

/-- Actions that leave the outermost scope open are all performed. -/
theorem exists_of_nested {actions : List Action} {t : SymbolTable} {k : Nat}
    (h : heightFrom? t.outer.length (actions.map Action.nesting) = some k) :
    ∃ log u, actions.mapM perform t = .ok log u := by
  induction actions generalizing t with
  | nil => exact ⟨[], t, rfl⟩
  | cons a actions ih =>
    rw [List.map_cons, Nesting.heightFrom?_cons] at h
    obtain ⟨inner, outer⟩ := t
    cases a with
    | openScope => exact exists_mapM_cons rfl (ih (t := ⟨∅, inner :: outer⟩) h)
    | closeScope =>
      cases outer with
      | nil => cases h
      | cons scope outer => exact exists_mapM_cons rfl (ih (t := ⟨scope, outer⟩) h)
    | enter name link =>
      cases hname : inner[name]? with
      | none => exact exists_mapM_cons (perform_of_none hname link) (ih h)
      | some existing => exact exists_mapM_cons (perform_of_some hname link) (ih h)

/-! ### Scopes that are closed again -/

/-- All open scopes, from the innermost outwards. -/
def scopes (t : SymbolTable) : List Scope :=
  t.inner :: t.outer

theorem Step.moves {e : Event} {t u : SymbolTable} (h : Step e t u) :
    Moves ∅ (fun _ _ => True) e.nesting t.scopes u.scopes := by
  cases h with
  | opened => exact .opens
  | closed => exact .closes
  | entered => exact .stays trivial
  | refused => exact .stays trivial

theorem trace_of_mapM {actions : List Action} {log : List Event} {t u : SymbolTable}
    (h : actions.mapM perform t = .ok log u) : Trace Step log t u :=
  Trace.of_mapM (fun _ _ _ _ hok => (step_of_perform hok).1) h

theorem nestings_of_mapM {actions : List Action} {log : List Event} {t u : SymbolTable}
    (h : actions.mapM perform t = .ok log u) : log.map Event.nesting = actions.map Action.nesting :=
  Trace.labels_of_mapM (fun a _ _ _ hok => (step_of_perform (a := a) hok).2) h

/-- A scope that is opened and closed again leaves the table as it was, whatever happens inside it. -/
theorem mapM_of_balanced (t : SymbolTable) {body : List Action}
    (hbody : Nesting.Balanced (body.map Action.nesting)) :
    ∃ log, (.openScope :: (body ++ [.closeScope])).mapM perform t = .ok log t := by
  have hinside := Nesting.heightFrom?_add hbody (t.outer.length + 1)
  have hheight : heightFrom? t.outer.length ((.openScope :: (body ++ [.closeScope])).map Action.nesting) =
      some t.outer.length := by
    rw [List.map_cons, List.map_append, Nesting.heightFrom?_cons]
    show heightFrom? (t.outer.length + 1) _ = _
    rw [Nat.zero_add] at hinside
    rw [Nesting.heightFrom?_append, hinside]
    rfl
  obtain ⟨log, u, hok⟩ := exists_of_nested hheight
  have hmoves := (trace_of_mapM hok).map fun _ _ _ hstep => hstep.moves
  rw [nestings_of_mapM hok, List.map_cons, List.map_append] at hmoves
  have hscopes := hmoves.restores (fun _ => trivial) (fun _ _ => trivial) hbody
  obtain ⟨hinner, houter⟩ := List.cons.inj hscopes
  obtain ⟨inner, outer⟩ := u
  cases hinner
  cases houter
  exact ⟨log, hok⟩

/-- From the table `t` the table `u` is reached by actions that close the scopes that they open. -/
def Reaches (t u : SymbolTable) : Prop :=
  ∃ (actions : List Action) (log : List Event), Nesting.Balanced (actions.map Action.nesting) ∧
    actions.mapM perform t = .ok log u

namespace Reaches
variable {t u v : SymbolTable}

theorem refl (t : SymbolTable) : Reaches t t := ⟨[], [], rfl, rfl⟩

theorem trans (h : Reaches t u) (h' : Reaches u v) : Reaches t v := by
  obtain ⟨actions, log, hbalanced, hrun⟩ := h
  obtain ⟨actions', log', hbalanced', hrun'⟩ := h'
  refine ⟨actions ++ actions', log ++ log', by rw [List.map_append]; exact hbalanced.append hbalanced', ?_⟩
  rw [List.mapM_append, Pass.bind_of_ok hrun, Pass.bind_of_ok hrun']
  rfl

theorem enter {name : String} {link : Link} (h : t.enter name link = .ok u) : Reaches t u :=
  ⟨[.enter name link], [.entered name link], rfl, mapM_singleton (by simp only [perform, h])⟩

/-- A scope can be closed when what was opened inside it is closed, and then the table is as it was. -/
theorem closeScope (h : Reaches t.openScope u) : u.closeScope = .ok t := by
  obtain ⟨actions, log, hbalanced, hrun⟩ := h
  obtain ⟨log', hscope⟩ := mapM_of_balanced t hbalanced
  obtain ⟨_, _, _, hopen, hscope, -⟩ := exists_of_mapM_cons hscope
  cases hopen
  obtain ⟨_, _, u', hinside, hscope, -⟩ := exists_of_mapM_append hscope
  -- the actions inside lead to one table only
  rw [hrun] at hinside
  cases hinside
  obtain ⟨_, _, _, hclose, hrest, -⟩ := exists_of_mapM_cons hscope
  cases hrest
  simp only [perform] at hclose
  split at hclose
  · cases hclose
    assumption
  · cases hclose

end Reaches

/-! ### What a log tells -/

/-- The entries that were made in a scope itself, and not in one inside it, in their order. Inside the scope `n`
    others are open before the log. -/
def entriesFrom : Nat → List Event → List (String × Link)
  | _, [] => []
  | n, .opened :: rest => entriesFrom (n + 1) rest
  | n, .closed :: rest => entriesFrom (n - 1) rest
  | n, .entered name link :: rest =>
    if n = 0 then (name, link) :: entriesFrom n rest else entriesFrom n rest
  | n, .refused _ _ :: rest => entriesFrom n rest

/-- The link of a name's first entry in a scope itself, if the log tells what happened since its opening. -/
def firstLink? (log : List Event) (name : String) : Option Link :=
  (entriesFrom 0 log).lookup name

/-- A scope that is open before this part of a log is still open behind it. -/
def StaysOpen (part : List Event) : Prop := Nested (part.map Event.nesting)

instance (part : List Event) : Decidable (StaysOpen part) := inferInstanceAs (Decidable (Nested _))

/-- What happened since each opening of a scope that is still open at the end of the log, from the innermost
    scope outwards. -/
def sinceOpenings : List Event → List (List Event)
  | [] => []
  | e :: rest => sinceOpenings rest ++ if e = .opened ∧ StaysOpen rest then [rest] else []

/-- What happened since the openings of all open scopes, from the innermost outwards. The outermost one is open
    from the start. -/
def sinceOpen (log : List Event) : List (List Event) :=
  sinceOpenings log ++ [log]

/-- What happened since the innermost open scope was opened. -/
def sinceInnermost (log : List Event) : List Event :=
  (sinceOpenings log).headD log

theorem entriesFrom_append {n k : Nat} {log : List Event} (h : heightFrom? n (log.map Event.nesting) = some k)
    (log' : List Event) : entriesFrom n (log ++ log') = entriesFrom n log ++ entriesFrom k log' := by
  induction log generalizing n with
  | nil =>
    cases h
    rfl
  | cons e log ih =>
    rw [List.map_cons, Nesting.heightFrom?_cons] at h
    cases e with
    | opened => exact ih h
    | closed =>
      cases n with
      | zero => cases h
      | succ n => exact ih h
    | entered name link =>
      simp only [List.cons_append, entriesFrom, ih h]
      split <;> rfl
    | refused => exact ih h

theorem StaysOpen.left {part part' : List Event} (h : StaysOpen (part ++ part')) : StaysOpen part := by
  rw [StaysOpen, List.map_append] at h
  exact h.left

theorem sinceOpenings_concat (log : List Event) (e : Event) : sinceOpenings (log ++ [e]) =
    (if e = .opened then [[]] else []) ++
      ((sinceOpenings log).filter fun part => StaysOpen (part ++ [e])).map (· ++ [e]) := by
  induction log with
  | nil =>
    have hnil : StaysOpen [] := rfl
    simp [sinceOpenings, hnil]
  | cons a log ih =>
    rw [List.cons_append, sinceOpenings, ih, sinceOpenings, List.filter_append, List.map_append, List.append_assoc]
    -- What is left is the part behind `a`, which lasts only if the scope is open before `e` as well as behind it.
    congr 2
    by_cases hnext : StaysOpen (log ++ [e])
    · by_cases hopened : a = .opened
      · simp [hopened, hnext, hnext.left]
      · simp [hopened]
    · by_cases hopened : a = .opened ∧ StaysOpen log
      · simp [hopened, hnext]
      · simp [hopened, hnext]

/-- With one more event, what happened since an opening has this event behind it; an opening begins a new
    part, and a closing ends one. -/
theorem sinceOpen_concat {log : List Event} {e : Event} (h : StaysOpen (log ++ [e])) :
    sinceOpen (log ++ [e]) = (if e = .opened then [[]] else []) ++
      ((sinceOpen log).filter fun part => StaysOpen (part ++ [e])).map (· ++ [e]) := by
  rw [sinceOpen, sinceOpenings_concat, sinceOpen, List.filter_append, List.map_append, List.append_assoc,
    List.filter_cons, if_pos (decide_eq_true h)]
  rfl

theorem sinceOpen_eq_cons (log : List Event) : ∃ parts, sinceOpen log = sinceInnermost log :: parts := by
  rw [sinceOpen, sinceInnermost]
  cases sinceOpenings log with
  | nil => exact ⟨[], rfl⟩
  | cons part parts => exact ⟨parts ++ [log], rfl⟩

/-! ### Tables and logs -/

/-- The scopes hold what the parts of a log tell, each of them what happened since its opening. The first has
    `n` open scopes inside it, the second one more, and so on. -/
inductive Records : Nat → List Scope → List (List Event) → Prop where
  | nil {n : Nat} : Records n [] []
  | cons {n : Nat} {scope : Scope} {scopes : List Scope} {part : List Event} {parts : List (List Event)} :
      height? (part.map Event.nesting) = some n → (∀ name, scope[name]? = firstLink? part name) →
      Records (n + 1) scopes parts → Records n (scope :: scopes) (part :: parts)

theorem height?_concat {part : List Event} {n : Nat} (h : height? (part.map Event.nesting) = some n) (e : Event) :
    height? ((part ++ [e]).map Event.nesting) = Nesting.after? n e.nesting := by
  rw [List.map_append, height?, Nesting.heightFrom?_append, ← height?, h]
  exact Nesting.heightFrom?_singleton n e.nesting

namespace Records
variable {n m : Nat} {scopes : List Scope} {parts : List (List Event)} {e : Event}

/-- An event that makes no entry in the scopes leaves them open and what they hold as it is. -/
theorem extend (h : Records n scopes parts) (hafter : Nesting.after? n e.nesting = some m)
    (hentries : ∀ k, n ≤ k → entriesFrom k [e] = []) :
    (parts.filter fun part => StaysOpen (part ++ [e])) = parts ∧
      Records m scopes (parts.map (· ++ [e])) := by
  induction h generalizing m with
  | nil => exact ⟨rfl, .nil⟩
  | @cons n scope scopes part parts hheight hscope _ ih =>
    obtain ⟨hall, hrecords⟩ := ih (Nesting.after?_add hafter 1) fun k hk => hentries k (Nat.le_of_succ_le hk)
    have hheight' := (height?_concat hheight e).trans hafter
    have hopen : StaysOpen (part ++ [e]) := Nesting.nested_iff.mpr ⟨m, hheight'⟩
    refine ⟨?_, .cons hheight' (fun name => ?_) hrecords⟩
    · rw [List.filter_cons, if_pos (decide_eq_true hopen), hall]
    · rw [hscope, firstLink?, firstLink?, entriesFrom_append hheight, hentries n (Nat.le_refl n), List.append_nil]

theorem length_eq (h : Records n scopes parts) : scopes.length = parts.length := by
  induction h with
  | nil => rfl
  | cons _ _ _ ih => rw [List.length_cons, List.length_cons, ih]

/-- A name that is looked up from the first scope on is found where it has a first entry. -/
theorem findSome?_eq (h : Records n scopes parts) (name : String) :
    scopes.findSome? (·[name]?) = parts.findSome? (firstLink? · name) := by
  induction h with
  | nil => rfl
  | cons _ hscope _ ih => rw [List.findSome?_cons, List.findSome?_cons, hscope, ih]

end Records

theorem firstLink?_concat {part : List Event} (h : Nesting.Balanced (part.map Event.nesting)) (name : String)
    (link : Link) (name' : String) : firstLink? (part ++ [.entered name link]) name' =
      (firstLink? part name').or (if name' = name then some link else none) := by
  rw [firstLink?, entriesFrom_append h, List.lookup_append, firstLink?]
  by_cases hname : name' = name
  · simp [entriesFrom, hname]
  · simp [entriesFrom, List.lookup_cons, hname, beq_eq_false_iff_ne.mpr hname]

/-- A step keeps the scopes of a table at what the log tells. -/
theorem Step.records {e : Event} {t u : SymbolTable} {log : List Event} (h : Step e t u)
    (hlog : StaysOpen (log ++ [e])) (hrecords : Records 0 t.scopes (sinceOpen log)) :
    Records 0 u.scopes (sinceOpen (log ++ [e])) := by
  rw [sinceOpen_concat hlog]
  cases h with
  | opened =>
    obtain ⟨hall, hrecords⟩ := hrecords.extend (e := .opened) rfl fun _ _ => rfl
    rw [hall]
    exact .cons rfl (fun name => by simp [firstLink?, entriesFrom]) hrecords
  | refused =>
    obtain ⟨hall, hrecords⟩ := hrecords.extend (e := .refused _ _) rfl fun _ _ => rfl
    rw [hall]
    exact hrecords
  | closed =>
    generalize sinceOpen log = parts at hrecords ⊢
    cases hrecords with
    | @cons _ _ _ part parts hheight _ hrest =>
      -- The innermost scope is the one that is closed.
      have hpart : ¬StaysOpen (part ++ [.closed]) := by
        rw [StaysOpen, Nested, height?_concat hheight]
        exact Bool.false_ne_true
      obtain ⟨hall, hrecords⟩ := hrest.extend (e := .closed) (m := 0) rfl fun _ _ => rfl
      rw [List.filter_cons_of_neg (by simp [hpart]), hall]
      exact hrecords
  | @entered inner outer name link hname =>
    generalize sinceOpen log = parts at hrecords ⊢
    cases hrecords with
    | @cons _ _ _ part parts hheight hinner hrest =>
      have hheight' := height?_concat hheight (.entered name link)
      have hpart : StaysOpen (part ++ [.entered name link]) := Nesting.nested_iff.mpr ⟨0, hheight'⟩
      -- In the scopes around it the entry does not count, as one more scope is open inside them.
      obtain ⟨hall, hrecords⟩ := hrest.extend (e := .entered name link) rfl fun k hk => by
        rw [entriesFrom, if_neg (Nat.ne_of_gt hk)]
        rfl
      rw [List.filter_cons, if_pos (decide_eq_true hpart), hall]
      refine .cons hheight' (fun name' => ?_) hrecords
      rw [firstLink?_concat hheight, getElem?_insert, ← hinner]
      by_cases hsame : name' = name
      · rw [if_pos hsame, if_pos hsame, hsame, hname]
        rfl
      · rw [if_neg hsame, if_neg hsame, Option.or_none]

theorem records_of_trace {log : List Event} {t : SymbolTable} (h : Trace Step log .empty t)
    (hlog : StaysOpen log) : Records 0 t.scopes (sinceOpen log) := by
  induction log using List.reverseRecOn generalizing t with
  | nil =>
    cases h
    exact .cons rfl (fun name => by simp [firstLink?, entriesFrom, empty]) .nil
  | append_singleton log e ih =>
    obtain ⟨u, hbefore, hlast⟩ := Trace.append_iff.mp h
    cases hlast with
    | cons hstep hnil =>
      cases hnil
      exact hstep.records hlog (ih hbefore hlog.left)

theorem inner_of_records {t : SymbolTable} {log : List Event} (h : Records 0 t.scopes (sinceOpen log)) (name : String) :
    t.inner[name]? = firstLink? (sinceInnermost log) name := by
  obtain ⟨parts, hparts⟩ := sinceOpen_eq_cons log
  rw [hparts] at h
  cases h with
  | cons _ hinner _ => exact hinner name

theorem enter_eq_error_iff {t : SymbolTable} {name : String} {link existing : Link} :
    t.enter name link = .error existing ↔ t.inner[name]? = some existing :=
  ⟨inner_of_enter_error, fun h => enter_of_some h link⟩

/-- Actions that never close the outermost scope are all performed. Then as many scopes are open as the log has
    openings without a closing. A name stands for its first entry in the innermost of these scopes that have one;
    it cannot be entered if and only if the innermost scope has one, which is then returned and nothing changes.
    A scope that is opened and closed again leaves the table as it was, whatever happens inside it. -/
theorem mapM_follows_log (actions : List Action) (h : Nested (actions.map Action.nesting)) :
    ∃ log t, actions.mapM perform SymbolTable.empty = .ok log t ∧
      t.depth = (sinceOpen log).length ∧
      (∀ name, t.retrieve? name = (sinceOpen log).findSome? (firstLink? · name)) ∧
      (∀ name link existing,
        (t.enter name link = .error existing ↔ firstLink? (sinceInnermost log) name = some existing) ∧
        (t.enter name link = .error existing →
          perform (.enter name link) t = .ok (.refused name existing) t)) ∧
      ∀ body, Nesting.Balanced (body.map Action.nesting) →
        ∃ inside, (.openScope :: (body ++ [.closeScope])).mapM perform t = .ok inside t := by
  obtain ⟨k, hk⟩ := Nesting.nested_iff.mp h
  obtain ⟨log, t, hrun⟩ := exists_of_nested (t := SymbolTable.empty) hk
  have hlog : StaysOpen log := by rwa [StaysOpen, nestings_of_mapM hrun]
  have hrecords := records_of_trace (trace_of_mapM hrun) hlog
  refine ⟨log, t, hrun, hrecords.length_eq, hrecords.findSome?_eq, fun name link existing => ⟨?_, fun herror => ?_⟩,
    fun _ hbody => mapM_of_balanced t hbody⟩
  · rw [enter_eq_error_iff, inner_of_records hrecords]
  · exact perform_of_some (inner_of_enter_error herror) link

/-- A name that is entered again in a scope inside, and refused there when it is entered once more. -/
theorem mapM_follows_log_shadowed :
    let actions : List Action := [.enter "x" (.var 0), .openScope, .enter "x" (.var 1), .enter "x" (.var 2)]
    Nested (actions.map Action.nesting) ∧ ∃ t, actions.mapM perform SymbolTable.empty =
      .ok [.entered "x" (.var 0), .opened, .entered "x" (.var 1), .refused "x" (.var 1)] t ∧
      t.depth = 2 ∧ t.retrieve? "x" = some (.var 1) ∧ t.enter "x" (.var 3) = .error (.var 1) := by
  intro actions
  have hnested : Nested (actions.map Action.nesting) := rfl
  obtain ⟨log, t, hrun, hdepth, hretrieve, henter, -⟩ := mapM_follows_log actions hnested
  have hevents : actions.mapM perform SymbolTable.empty =
      .ok [.entered "x" (.var 0), .opened, .entered "x" (.var 1), .refused "x" (.var 1)]
        ⟨(∅ : Scope).insert "x" (.var 1), [(∅ : Scope).insert "x" (.var 0)]⟩ := rfl
  rw [hevents] at hrun
  cases hrun
  exact ⟨hnested, _, hevents, hdepth, hretrieve "x", (henter "x" (.var 3) (.var 1)).1.mpr (by decide)⟩

end TriangleCompiler.SymbolTable
