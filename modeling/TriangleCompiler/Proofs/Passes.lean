import TriangleCompiler.Diagnostic
import TriangleCompiler.NodeTable
import TriangleCompiler.Pass

/-! Passes that end without a fault, and what they share: they write values into the places of nodes that
    have none, and they add errors to those that there are. -/

namespace TriangleCompiler

theorem eq_ok_of_toOption {ε α : Type} {x : Except ε α} {a : α} (h : x.toOption = some a) : x = .ok a := by
  cases x with
  | error => cases h
  | ok => exact congrArg Except.ok (Option.some.inj h)

namespace Pass
variable {σ α β : Type} {s t : σ} {a : α} {b : β} {x : Pass σ α} {g : α → Pass σ β}

theorem bind_of_ok (h : x s = .ok a t) : (x >>= g) s = g a t := by
  rw [bind_apply, h]

theorem bind_of_error {fault : Fault} (h : x s = .error fault t) : (x >>= g) s = .error fault t := by
  rw [bind_apply, h]

/-- A pass that looks at its state first. -/
theorem get_bind (g : σ → Pass σ β) (s : σ) : (get >>= g) s = g s s := rfl

theorem discard_of_ok (h : x s = .ok a t) : (discard x) s = .ok () t := by
  show (Functor.mapConst () x) s = _
  simp only [Functor.mapConst, Function.comp, EStateM.map, h]

theorem discard_eq_bind (x : Pass σ α) : discard x = x >>= fun _ => pure () := by
  funext s
  rw [bind_apply]
  show (Functor.mapConst () x) s = _
  simp only [Functor.mapConst, Function.comp, EStateM.map]
  cases x s <;> rfl

/-- The run of a pass in two parts. -/
theorem exists_of_bind {u : σ} (h : (x >>= g) s = .ok b u) : ∃ a t, x s = .ok a t ∧ g a t = .ok b u := by
  rw [bind_apply] at h
  cases hx : x s with
  | ok a t =>
    rw [hx] at h
    exact ⟨a, t, rfl, h⟩
  | error fault t =>
    rw [hx] at h
    cases h

theorem exists_of_finalState (h : x.finalState s = .ok t) : ∃ a, x s = .ok a t := by
  unfold finalState at h
  split at h
  · cases h
    exact ⟨_, ‹_›⟩
  · cases h

/-- From `s` the pass `x` ends without a fault, with a value and a state that have the property `P`. -/
def Ends (x : Pass σ α) (s : σ) (P : α → σ → Prop) : Prop := ∃ a t, x s = .ok a t ∧ P a t

namespace Ends
variable {P P' : α → σ → Prop} {Q : β → σ → Prop}

theorem pure (h : P a s) : Ends (Pure.pure a) s P := ⟨a, s, rfl, h⟩

theorem bind (hx : Ends x s P) (hg : ∀ a t, P a t → Ends (g a) t Q) : Ends (x >>= g) s Q := by
  obtain ⟨a, t, hok, hP⟩ := hx
  obtain ⟨b, u, hok', hQ⟩ := hg a t hP
  exact ⟨b, u, by rw [bind_of_ok hok, hok'], hQ⟩

theorem imp (hx : Ends x s P) (h : ∀ a t, P a t → P' a t) : Ends x s P' := by
  obtain ⟨a, t, hok, hP⟩ := hx
  exact ⟨a, t, hok, h a t hP⟩

theorem discard {P : Unit → σ → Prop} (hx : Ends x s fun _ t => P () t) :
    Ends (Functor.discard x) s P := by
  obtain ⟨a, t, hok, hP⟩ := hx
  exact ⟨(), t, discard_of_ok hok, hP⟩

end Ends

/-- What the pass ends with has the property `P`, wherever it starts. -/
def Gives (x : Pass σ α) (P : α → Prop) : Prop := ∀ s a t, x s = .ok a t → P a

namespace Gives
variable {P : α → Prop} {Q : β → Prop}

theorem pure (h : P a) : Gives (Pure.pure a : Pass σ α) P := fun _ _ _ hok => by cases hok; exact h

theorem bind (hx : Gives x P) (hg : ∀ a, P a → Gives (g a) Q) : Gives (x >>= g) Q := by
  intro s b u hok
  obtain ⟨a, t, hxs, hok⟩ := exists_of_bind hok
  exact hg a (hx s a t hxs) t b u hok

/-- A pass of which only the last part matters. -/
theorem after (hg : ∀ a, Gives (g a) Q) : Gives (x >>= g) Q :=
  @bind σ α β x g (fun _ => True) Q (fun _ _ _ _ => trivial) fun a _ => hg a

end Gives

/-! ### Two passes side by side -/

/-- Two passes end in the same way: with the same value or the same fault, in states that are related. -/
inductive Alike (R : σ → σ → Prop) : EStateM.Result Fault σ α → EStateM.Result Fault σ α → Prop where
  | ok {a : α} {s t : σ} : R s t → Alike R (.ok a s) (.ok a t)
  | error {fault : Fault} {s t : σ} : R s t → Alike R (.error fault s) (.error fault t)

/-- From related states the two passes end in the same way. -/
def Follows (R : σ → σ → Prop) (x y : Pass σ α) : Prop := ∀ s t, R s t → Alike R (x s) (y t)

namespace Follows
variable {R : σ → σ → Prop} {y : Pass σ α} {h : α → Pass σ β}

theorem pure (a : α) : Follows R (Pure.pure a) (Pure.pure a) := fun _ _ hR => .ok hR

theorem fault (f : Fault) : Follows R (Pass.fault f : Pass σ α) (Pass.fault f) := fun _ _ hR => .error hR

theorem require (f : Fault) (a? : Option α) : Follows R (Pass.require f a?) (Pass.require f a?) := by
  cases a? with
  | none => exact fault f
  | some a => exact pure a

theorem bind (hxy : Follows R x y) (hgh : ∀ a, Follows R (g a) (h a)) : Follows R (x >>= g) (y >>= h) := by
  intro s t hR
  have hfirst := hxy s t hR
  rw [bind_apply, bind_apply]
  cases hx : x s <;> cases hy : y t <;> rw [hx, hy] at hfirst <;> cases hfirst
  · exact hgh _ _ _ ‹_›
  · exact .error ‹_›

theorem discard (hxy : Follows R x y) : Follows R (Functor.discard x) (Functor.discard y) := by
  rw [discard_eq_bind, discard_eq_bind]
  exact hxy.bind fun _ => pure ()

/-- Where the one pass ends without a fault, so does the other. -/
theorem ok (hxy : Follows R x y) (hR : R s t) {s' : σ} (hx : x s = .ok a s') :
    ∃ t', y t = .ok a t' ∧ R s' t' := by
  have hend := hxy s t hR
  rw [hx] at hend
  cases hy : y t <;> rw [hy] at hend <;> cases hend
  exact ⟨_, rfl, ‹_›⟩

/-- The states that the two passes lead to are related, or both end with the same fault. -/
theorem finalState (hxy : Follows R x y) (hR : R s t) :
    (∃ s' t', x.finalState s = .ok s' ∧ y.finalState t = .ok t' ∧ R s' t') ∨
      ∃ f, x.finalState s = .error f ∧ y.finalState t = .error f := by
  have hend := hxy s t hR
  unfold Pass.finalState
  cases hx : x s <;> cases hy : y t <;> rw [hx, hy] at hend <;> cases hend
  · exact .inl ⟨_, _, rfl, rfl, ‹_›⟩
  · exact .inr ⟨_, rfl, rfl⟩

end Follows

/-! ### What a pass keeps -/

/-- The state that a pass leaves behind, whether it ends or stops with a fault. -/
def stateAfter (x : Pass σ α) (s : σ) : σ :=
  match x s with
  | .ok _ t => t
  | .error _ t => t

theorem stateAfter_of_finalState (h : x.finalState s = .ok t) : x.stateAfter s = t := by
  obtain ⟨a, hx⟩ := exists_of_finalState h
  rw [stateAfter, hx]

/-- The pass keeps a property of states: beside itself it stays in the same state, one with the property. -/
abbrev Keeps (I : σ → Prop) (x : Pass σ α) : Prop := Follows (fun s t => s = t ∧ I s) x x

theorem Keeps.stateAfter {I : σ → Prop} (h : Keeps I x) (hs : I s) : I (x.stateAfter s) := by
  have hend := h s s ⟨rfl, hs⟩
  rw [Pass.stateAfter]
  cases hx : x s with
  | ok a t =>
    rw [hx] at hend
    cases hend with
    | ok hI => exact hI.2
  | error fault t =>
    rw [hx] at hend
    cases hend with
    | error hI => exact hI.2

end Pass

/-- No number is in `xs` more often than in `ys`. -/
def Within (xs ys : List NodeId) : Prop := ∀ id, xs.count id ≤ ys.count id

namespace Within
variable {xs ys : List NodeId}

theorem mem (h : Within xs ys) {id : NodeId} (hid : id ∈ xs) : id ∈ ys := by
  have hle := h id
  have hpos := List.count_pos_iff.mpr hid
  exact List.count_pos_iff.mp (by omega)

theorem nodup (h : Within xs ys) (hys : ys.Nodup) : xs.Nodup :=
  List.nodup_iff_count.mpr fun id => Nat.le_trans (h id) (List.nodup_iff_count.mp hys id)

end Within

namespace NodeTable
variable {α : Type} {t u v : NodeTable α} {ids ids' : List NodeId} {id : NodeId} {a : α}

/-- Each of the nodes has a place in the table, and no value. -/
def Free (t : NodeTable α) (ids : List NodeId) : Prop :=
  ∀ id ∈ ids, id < t.slots.size ∧ t.get? id = none

/-- `u` has what `t` has, and besides that at most values of the nodes `ids`. -/
structure Grows (t u : NodeTable α) (ids : List NodeId) : Prop where
  size : u.slots.size = t.slots.size
  keeps : ∀ id a, t.get? id = some a → u.get? id = some a
  frame : ∀ id, id ∉ ids → u.get? id = t.get? id

theorem free_empty {n : Nat} (h : ∀ id ∈ ids, id < n) : (empty n : NodeTable α).Free ids :=
  fun id hid => ⟨by simpa [empty] using h id hid, get?_empty n id⟩

theorem Free.mono (h : t.Free ids) (hsub : ∀ id ∈ ids', id ∈ ids) : t.Free ids' :=
  fun id hid => h id (hsub id hid)

theorem Free.left (h : t.Free (ids ++ ids')) : t.Free ids :=
  h.mono fun _ hid => List.mem_append_left _ hid

theorem Free.right (h : t.Free (ids ++ ids')) : t.Free ids' :=
  h.mono fun _ hid => List.mem_append_right _ hid

theorem Free.tail (h : t.Free (id :: ids)) : t.Free ids :=
  h.mono fun _ hid => List.mem_cons_of_mem _ hid

theorem Free.refusal? (h : t.Free [id]) : t.refusal? id = none :=
  refusal?_eq_none_iff.mpr (h id List.mem_cons_self)

theorem Free.set (h : t.Free [id]) (a : α) : t.set id a = .ok (t.write id a) :=
  set_of_no_refusal h.refusal? a

/-- Places that a pass leaves alone stay free. -/
theorem Grows.free (h : Grows t u ids) (hfree : t.Free ids') (hdisj : ∀ id ∈ ids', id ∉ ids) :
    u.Free ids' := by
  intro id hid
  obtain ⟨hlt, hnone⟩ := hfree id hid
  exact ⟨by rw [h.size]; exact hlt, by rw [h.frame id (hdisj id hid)]; exact hnone⟩

theorem Grows.refl (t : NodeTable α) (ids : List NodeId) : Grows t t ids :=
  ⟨rfl, fun _ _ h => h, fun _ _ => rfl⟩

theorem Grows.trans (h : Grows t u ids) (h' : Grows u v ids) : Grows t v ids where
  size := h'.size.trans h.size
  keeps id a hid := h'.keeps id a (h.keeps id a hid)
  frame id hid := (h'.frame id hid).trans (h.frame id hid)

theorem Grows.mono (h : Grows t u ids) (hsub : ∀ id ∈ ids, id ∈ ids') : Grows t u ids' where
  size := h.size
  keeps := h.keeps
  frame id hid := h.frame id fun hmem => hid (hsub id hmem)

/-- What comes behind the nodes that a pass has written is still free. -/
theorem Grows.free_right (h : Grows t u ids) (hnodup : (ids ++ ids').Nodup) (hfree : t.Free (ids ++ ids')) :
    u.Free ids' := by
  obtain ⟨-, -, hdisj⟩ := List.nodup_append.mp hnodup
  refine h.free (hfree.mono fun id hid => List.mem_append_right _ hid) ?_
  exact fun id hid hmem => hdisj id hmem id hid rfl

theorem Grows.free_tail (h : Grows t u [id]) (hnodup : (id :: ids).Nodup) (hfree : t.Free (id :: ids)) :
    u.Free ids :=
  @Grows.free_right _ t u [id] ids h hnodup hfree

/-- So is what comes before them. -/
theorem Grows.free_head (h : Grows t u ids) (hnodup : (id :: ids).Nodup) (hfree : t.Free (id :: ids)) :
    u.Free [id] := by
  refine h.free (hfree.mono (by simp)) ?_
  intro id' hid' hmem
  rw [List.mem_singleton] at hid'
  exact (List.nodup_cons.mp hnodup).1 (hid' ▸ hmem)

theorem grows_write (h : t.Free [id]) (a : α) : Grows t (t.write id a) [id] := by
  obtain ⟨hlt, hnone⟩ := h id List.mem_cons_self
  refine ⟨size_slots_write t id a, fun id' a' hid' => ?_, fun id' hid' => ?_⟩
  · rw [get?_write hlt, if_neg]
    · exact hid'
    · rintro rfl
      rw [hnone] at hid'
      cases hid'
  · rw [get?_write hlt, if_neg (by simpa using hid')]

/-- The table with the values of all the nodes written into it. -/
def writeAll (t : NodeTable α) : List (NodeId × α) → NodeTable α
  | [] => t
  | (id, a) :: rest => (t.write id a).writeAll rest

theorem writeAll_append (t : NodeTable α) (as bs : List (NodeId × α)) :
    t.writeAll (as ++ bs) = (t.writeAll as).writeAll bs := by
  induction as generalizing t with
  | nil => rfl
  | cons p as ih => exact ih _

/-- What is left to write has free places when the first value has been written. -/
theorem Free.write_cons {p : NodeId × α} {as : List (NodeId × α)} (h : t.Free ((p :: as).map Prod.fst))
    (hp : p.1 ∉ as.map Prod.fst) :
    Grows t (t.write p.1 p.2) [p.1] ∧ (t.write p.1 p.2).Free (as.map Prod.fst) := by
  have hid : t.Free [p.1] := h.mono (by simp)
  have hfirst := grows_write hid p.2
  refine ⟨hfirst, hfirst.free (h.mono fun id hid => List.mem_cons_of_mem _ hid) ?_⟩
  rintro id hid hmem
  rw [List.mem_singleton] at hmem
  exact hp (hmem ▸ hid)

theorem grows_writeAll {as : List (NodeId × α)} (hnodup : (as.map Prod.fst).Nodup)
    (hfree : t.Free (as.map Prod.fst)) : Grows t (t.writeAll as) (as.map Prod.fst) := by
  induction as generalizing t with
  | nil => exact Grows.refl t _
  | cons p as ih =>
    obtain ⟨hp, hnodup⟩ := List.nodup_cons.mp hnodup
    obtain ⟨hfirst, hrest⟩ := hfree.write_cons hp
    exact (hfirst.mono (by simp)).trans
      ((ih hnodup hrest).mono fun id hid => List.mem_cons_of_mem _ hid)

/-- Values of some of the nodes `ids` can be written if these have free places. -/
theorem Free.grows_writeAll {as : List (NodeId × α)} (hfree : t.Free ids) (hnodup : ids.Nodup)
    (has : Within (as.map Prod.fst) ids) : Grows t (t.writeAll as) ids :=
  (NodeTable.grows_writeAll (has.nodup hnodup) (hfree.mono fun _ => has.mem)).mono fun _ => has.mem

/-- The values that were written are found again, and only they are new. -/
theorem get?_writeAll {as : List (NodeId × α)} (hnodup : (as.map Prod.fst).Nodup)
    (hfree : t.Free (as.map Prod.fst)) :
    (t.writeAll as).get? id = some a ↔ (id, a) ∈ as ∨ t.get? id = some a := by
  induction as generalizing t with
  | nil => simp [writeAll]
  | cons p as ih =>
    obtain ⟨hp, hnodup⟩ := List.nodup_cons.mp hnodup
    obtain ⟨hlt, hnone⟩ := hfree p.1 (by simp)
    obtain ⟨-, hrest⟩ := hfree.write_cons hp
    show ((t.write p.1 p.2).writeAll as).get? id = some a ↔ _
    rw [ih hnodup hrest, get?_write hlt, List.mem_cons]
    by_cases hid : id = p.1
    · subst hid
      have hmem : (p.1, a) ∉ as := fun h => hp (List.mem_map.mpr ⟨_, h, rfl⟩)
      simp [hmem, hnone, Prod.ext_iff, eq_comm]
    · rw [if_neg hid]
      have : (id, a) ≠ p := by rintro rfl; exact hid rfl
      simp [this]

end NodeTable

/-- The number of stages before this one. -/
def Stage.rank : Stage → Nat
  | scan => 0
  | parse => 1
  | resolve => 2
  | check => 3
  | generate => 4

instance : LE Stage := ⟨fun a b => a.rank ≤ b.rank⟩

instance (a b : Stage) : Decidable (a ≤ b) := inferInstanceAs (Decidable (a.rank ≤ b.rank))

/-- `b` has the errors of `a`, and behind them only errors of the given stage. -/
def Reports (stage : Stage) (a b : Array Diagnostic) : Prop :=
  ∃ new : List Diagnostic, b.toList = a.toList ++ new ∧ ∀ d ∈ new, d.value.stage = stage

namespace Reports
variable {stage : Stage} {a b c : Array Diagnostic}

theorem refl (stage : Stage) (a : Array Diagnostic) : Reports stage a a := ⟨[], by simp, by simp⟩

theorem trans (h : Reports stage a b) (h' : Reports stage b c) : Reports stage a c := by
  obtain ⟨new, hb, hnew⟩ := h
  obtain ⟨new', hc, hnew'⟩ := h'
  refine ⟨new ++ new', by rw [hc, hb, List.append_assoc], fun d hd => ?_⟩
  rcases List.mem_append.mp hd with hd | hd
  · exact hnew d hd
  · exact hnew' d hd

theorem push {position : Position} {cause : ProgramError} (h : cause.stage = stage) :
    Reports stage a (a.push ⟨position, cause⟩) :=
  ⟨[⟨position, cause⟩], by simp, by simpa using h⟩

theorem stage_eq (h : Reports stage #[] b) {d : Diagnostic} (hd : d ∈ b.toList) : d.value.stage = stage := by
  obtain ⟨new, hb, hnew⟩ := h
  rw [hb] at hd
  exact hnew d (by simpa using hd)

theorem size_le (h : Reports stage a b) : a.size ≤ b.size := by
  obtain ⟨new, hb, -⟩ := h
  have hlen := congrArg List.length hb
  simp only [Array.length_toList, List.length_append] at hlen
  omega

end Reports

end TriangleCompiler
