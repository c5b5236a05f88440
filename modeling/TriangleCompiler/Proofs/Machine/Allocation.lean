import TriangleCompiler.Machine.Storage
import TriangleCompiler.Proofs.Nesting

/-! Storage over any sequence of openings, closings and allocations. What all scopes take together is a word at
    every point, so what is computed with sizes is exact in words. While a scope is open, what is allocated in it
    lies below the total and is not handed out again; when it is closed, the total is what it was when it was
    opened. -/

namespace TriangleCompiler.Machine.Storage

open Nesting (Nested)

/-! ### Actions and events -/

/-- What can be done with storage. -/
inductive Action where
  | openScope
  | closeScope
  | allocate (size : UInt8)
deriving DecidableEq, Repr

/-- What happens at an action. -/
inductive Event where
  | opened
  | closed (size : Nat)
  | allocated (offset : Nat) (size : UInt8)
  /-- There is no room for that many words. -/
  | refused (size : UInt8)
deriving DecidableEq, Repr

/-- What an action does to the scopes. -/
def Action.nesting : Action → Nesting
  | openScope => .opens
  | closeScope => .closes
  | allocate _ => .stays

/-- What an event does to the scopes. -/
def Event.nesting : Event → Nesting
  | opened => .opens
  | closed _ => .closes
  | allocated _ _ | refused _ => .stays

/-- Performs an action and tells what happened. -/
def perform (a : Action) : Pass Storage Event := fun s =>
  match a with
  | .openScope => .ok .opened s.openScope
  | .closeScope =>
    match s.closeScope with
    | .ok (size, t) => .ok (.closed size) t
    | .error fault => .error fault s
  | .allocate size =>
    match s.allocate size.toNat with
    | .ok (some offset, t) => .ok (.allocated offset size) t
    | .ok (none, t) => .ok (.refused size) t
    | .error fault => .error fault s

/-- Scopes are closed and words are allocated only where a scope is open; `n` of them are open before the
    actions. -/
def Allowed : Nat → List Action → Prop
  | _, [] => True
  | n, .openScope :: rest => Allowed (n + 1) rest
  | n, .closeScope :: rest => 0 < n ∧ Allowed (n - 1) rest
  | n, .allocate _ :: rest => 0 < n ∧ Allowed n rest

/-- The steps of storage. -/
inductive Step : Event → Storage → Storage → Prop where
  | opened {sizes : List Nat} : Step .opened ⟨sizes⟩ ⟨0 :: sizes⟩
  | closed {size : Nat} {sizes : List Nat} : Step (.closed size) ⟨size :: sizes⟩ ⟨sizes⟩
  | allocated {inner : Nat} {outer : List Nat} {size : UInt8} : inner + total outer + size.toNat ≤ Word.max →
      Step (.allocated (inner + total outer) size) ⟨inner :: outer⟩ ⟨(inner + size.toNat) :: outer⟩
  /-- The scope takes all the room that there is. -/
  | refused {inner : Nat} {outer : List Nat} {size : UInt8} : Word.max < inner + total outer + size.toNat →
      Step (.refused size) ⟨inner :: outer⟩ ⟨(inner + (Word.max - (inner + total outer))) :: outer⟩

theorem allocate_of_room {inner : Nat} {outer : List Nat} {size : Nat} (h : inner + total outer + size ≤ Word.max) :
    allocate ⟨inner :: outer⟩ size = .ok (some (inner + total outer), ⟨(inner + size) :: outer⟩) := if_pos h

theorem allocate_of_full {inner : Nat} {outer : List Nat} {size : Nat} (h : Word.max < inner + total outer + size) :
    allocate ⟨inner :: outer⟩ size =
      .ok (none, ⟨(inner + (Word.max - (inner + total outer))) :: outer⟩) := if_neg (Nat.not_le_of_lt h)

theorem perform_of_room {inner : Nat} {outer : List Nat} {size : UInt8}
    (h : inner + total outer + size.toNat ≤ Word.max) : perform (.allocate size) ⟨inner :: outer⟩ =
      .ok (.allocated (inner + total outer) size) ⟨(inner + size.toNat) :: outer⟩ := by
  simp only [perform, allocate_of_room h]

theorem perform_of_full {inner : Nat} {outer : List Nat} {size : UInt8}
    (h : Word.max < inner + total outer + size.toNat) : perform (.allocate size) ⟨inner :: outer⟩ =
      .ok (.refused size) ⟨(inner + (Word.max - (inner + total outer))) :: outer⟩ := by
  simp only [perform, allocate_of_full h]

/-- What happens at an action is a step, and it does to the scopes what the action does. -/
theorem step_of_perform {a : Action} {s t : Storage} {e : Event} (h : perform a s = .ok e t) :
    Step e s t ∧ e.nesting = a.nesting := by
  obtain ⟨sizes⟩ := s
  cases a with
  | openScope =>
    cases h
    exact ⟨.opened, rfl⟩
  | closeScope =>
    cases sizes with
    | nil => cases h
    | cons size sizes =>
      cases h
      exact ⟨.closed, rfl⟩
  | allocate size =>
    cases sizes with
    | nil => cases h
    | cons inner outer =>
      rcases Nat.lt_or_ge Word.max (inner + total outer + size.toNat) with hfull | hroom
      · rw [perform_of_full hfull] at h
        cases h
        exact ⟨.refused hfull, rfl⟩
      · rw [perform_of_room hroom] at h
        cases h
        exact ⟨.allocated hroom, rfl⟩

/-- Actions for which a scope is open where they need one are all performed. -/
theorem exists_of_allowed {actions : List Action} {s : Storage} (h : Allowed s.depth actions) :
    ∃ log t, actions.mapM perform s = .ok log t := by
  induction actions generalizing s with
  | nil => exact ⟨[], s, rfl⟩
  | cons a actions ih =>
    obtain ⟨sizes⟩ := s
    cases a with
    | openScope => exact exists_mapM_cons rfl (ih (s := ⟨0 :: sizes⟩) h)
    | closeScope =>
      cases sizes with
      | nil => exact absurd h.1 (Nat.lt_irrefl 0)
      | cons size sizes => exact exists_mapM_cons rfl (ih (s := ⟨sizes⟩) h.2)
    | allocate size =>
      cases sizes with
      | nil => exact absurd h.1 (Nat.lt_irrefl 0)
      | cons inner outer =>
        rcases Nat.lt_or_ge Word.max (inner + total outer + size.toNat) with hfull | hroom
        · exact exists_mapM_cons (perform_of_full hfull) (ih h.2)
        · exact exists_mapM_cons (perform_of_room hroom) (ih h.2)

/-! ### Totals -/

theorem total_append (xs ys : List Nat) : total (xs ++ ys) = total xs + total ys := by
  induction xs with
  | nil => exact (Nat.zero_add _).symm
  | cons size xs ih => rw [List.cons_append, total_cons, total_cons, ih, Nat.add_assoc]

theorem Step.moves {e : Event} {s t : Storage} (h : Step e s t) : Moves 0 (· ≤ ·) e.nesting s.sizes t.sizes := by
  cases h with
  | opened => exact .opens
  | closed => exact .closes
  | allocated => exact .stays (Nat.le_add_right _ _)
  | refused => exact .stays (Nat.le_add_right _ _)

theorem moves_of_trace {log : List Event} {s t : Storage} (h : Trace Step log s t) :
    Trace (Moves 0 (· ≤ ·)) (log.map Event.nesting) s.sizes t.sizes := h.map fun _ _ _ hstep => hstep.moves

/-- While no scope is closed that was open at the start, the total does not fall. -/
theorem totalSize_le_of_nested {log : List Event} {s t : Storage} (h : Trace Step log s t)
    (hlog : Nested (log.map Event.nesting)) : s.totalSize ≤ t.totalSize := by
  obtain ⟨sizes⟩ := s
  cases sizes with
  | nil => exact Nat.zero_le _
  | cons inner outer =>
    obtain ⟨n, hheight⟩ := Nesting.nested_iff.mp hlog
    obtain ⟨tops, inner', hsizes, -, hinner⟩ :=
      (moves_of_trace h).keeps_below Nat.le_refl Nat.le_trans [] rfl hheight
    rw [totalSize, totalSize, hsizes, total_append, total_cons, total_cons]
    omega

theorem Step.totalSize_le {e : Event} {s t : Storage} (h : Step e s t) (hs : s.totalSize ≤ Word.max) :
    t.totalSize ≤ Word.max := by
  cases h <;> simp only [totalSize, total_cons] at hs ⊢ <;> omega

theorem totalSize_le_of_trace {log : List Event} {s t : Storage} (h : Trace Step log s t)
    (hs : s.totalSize ≤ Word.max) : t.totalSize ≤ Word.max := by
  induction h with
  | nil => exact hs
  | cons hstep _ ih => exact ih (hstep.totalSize_le hs)

/-- The sum of sizes as it is computed in words, from the outermost scope inwards. -/
def wordSum (sizes : List Nat) : Word :=
  sizes.foldr (fun size sum => sum + Int16.ofNat size) 0

theorem toInt_ofNat {n : Nat} (h : n ≤ Word.max) : (Int16.ofNat n).toInt = n :=
  Int16.toInt_ofNat_of_lt (Nat.lt_succ_of_le h)

theorem toInt_add_ofNat {w : Word} {n m : Nat} (hw : w.toInt = n) (h : n + m ≤ Word.max) :
    (w + Int16.ofNat m).toInt = n + m := by
  simp only [Word.max] at h
  rw [Int16.toInt_add, hw, toInt_ofNat (show m ≤ Word.max by simp only [Word.max]; omega)]
  exact Int.bmod_eq_of_le (by omega) (by omega)

theorem toInt_wordSum {sizes : List Nat} (h : total sizes ≤ Word.max) : (wordSum sizes).toInt = total sizes := by
  induction sizes with
  | nil => rfl
  | cons size sizes ih =>
    rw [total_cons] at h ⊢
    rw [wordSum, List.foldr_cons, ← wordSum, toInt_add_ofNat (ih (by omega)) (by omega)]
    omega

/-- The room that is left, as it is computed in words. -/
def wordRoom (s : Storage) : Word :=
  Int16.ofNat Word.max - wordSum s.sizes

theorem wordRoom_eq {s : Storage} (h : s.totalSize ≤ Word.max) : s.wordRoom = Int16.ofNat (Word.max - s.totalSize) := by
  apply Int16.toInt_inj.mp
  rw [wordRoom, Int16.toInt_sub, toInt_ofNat (Nat.le_refl _), toInt_wordSum h, toInt_ofNat (Nat.sub_le _ _)]
  simp only [totalSize, Word.max] at h ⊢
  rw [Int.bmod_eq_of_le (by omega) (by omega)]
  omega

/-- Every size and the sum of all sizes is a word. In words, the sums of the sizes from the outermost scope
    inwards are exact, and so is what an allocation computes: the room that is left, and the new size of the
    innermost scope, to which the words that find room are added, or else all that room. -/
structure Fits (s : Storage) : Prop where
  size_le : ∀ size ∈ s.sizes, size ≤ Word.max
  total_le : s.totalSize ≤ Word.max
  sums_exact : ∀ outer, outer <:+ s.sizes → (wordSum outer).toInt = total outer
  room_exact : s.wordRoom.toInt = Word.max - s.totalSize
  growth_exact : ∀ inner outer (size : UInt8), s.sizes = inner :: outer → s.totalSize + size.toNat ≤ Word.max →
    (Int16.ofNat inner + Int16.ofNat size.toNat).toInt = inner + size.toNat
  filling_exact : ∀ inner outer, s.sizes = inner :: outer →
    (Int16.ofNat inner + s.wordRoom).toInt = inner + (Word.max - s.totalSize)

theorem total_le_of_suffix {outer sizes : List Nat} (h : outer <:+ sizes) : total outer ≤ total sizes := by
  obtain ⟨inner, rfl⟩ := h
  rw [total_append]
  exact Nat.le_add_left _ _

theorem le_total_of_mem {size : Nat} {sizes : List Nat} (h : size ∈ sizes) : size ≤ total sizes := by
  obtain ⟨inner, outer, rfl⟩ := List.append_of_mem h
  rw [total_append, total_cons]
  omega

theorem fits_of_totalSize_le {s : Storage} (h : s.totalSize ≤ Word.max) : Fits s where
  size_le _ hsize := Nat.le_trans (le_total_of_mem hsize) h
  total_le := h
  sums_exact _ houter := toInt_wordSum (Nat.le_trans (total_le_of_suffix houter) h)
  room_exact := by
    rw [wordRoom_eq h, toInt_ofNat (Nat.sub_le _ _)]
    omega
  growth_exact inner outer size hsizes hroom := by
    have hinner : inner ≤ s.totalSize := le_total_of_mem (hsizes ▸ List.mem_cons_self)
    exact toInt_add_ofNat (toInt_ofNat (by omega)) (by omega)
  filling_exact inner outer hsizes := by
    have hinner : inner ≤ s.totalSize := le_total_of_mem (hsizes ▸ List.mem_cons_self)
    rw [wordRoom_eq h, toInt_add_ofNat (toInt_ofNat (by omega)) (by omega)]
    omega

/-! ### Allocations -/

/-- Words that were allocated. -/
structure Allocation where
  offset : Nat
  size : Nat
deriving DecidableEq, Repr

/-- The word is one of those that were allocated. -/
def Allocation.Covers (a : Allocation) (word : Nat) : Prop := a.offset ≤ word ∧ word < a.offset + a.size

/-- What an event allocates. -/
def Event.allocation? : Event → Option Allocation
  | allocated offset size => some ⟨offset, size.toNat⟩
  | _ => none

/-- The allocations in a log whose scopes are still open at its end. -/
def live : List Event → List Allocation
  | [] => []
  | e :: rest => if Nested (rest.map Event.nesting) then e.allocation?.toList ++ live rest else live rest

theorem exists_of_mem_live {log : List Event} {a : Allocation} (h : a ∈ live log) :
    ∃ before e after, log = before ++ e :: after ∧ e.allocation? = some a ∧ Nested (after.map Event.nesting) := by
  induction log with
  | nil => cases h
  | cons e rest ih =>
    have hrest (hmem : a ∈ live rest) : ∃ before e' after, e :: rest = before ++ e' :: after ∧
        e'.allocation? = some a ∧ Nested (after.map Event.nesting) := by
      obtain ⟨before, e', after, rfl, hallocation, hafter⟩ := ih hmem
      exact ⟨e :: before, e', after, rfl, hallocation, hafter⟩
    rw [live] at h
    split at h
    · rename_i hopen
      rcases List.mem_append.mp h with hfirst | hmem
      · exact ⟨[], e, rest, rfl, Option.mem_toList.mp hfirst, hopen⟩
      · exact hrest hmem
    · exact hrest h

/-- What is allocated begins at the total before it and ends at the total behind it. -/
theorem Step.allocation {e : Event} {s t : Storage} {a : Allocation} (h : Step e s t) (ha : e.allocation? = some a) :
    a.offset = s.totalSize ∧ a.offset + a.size = t.totalSize := by
  cases h with
  | allocated =>
    cases ha
    simp only [totalSize, total_cons, true_and]
    omega
  | opened | closed | refused => cases ha

theorem offset_add_size_le {log : List Event} {s t : Storage} (h : Trace Step log s t) {a : Allocation}
    (ha : a ∈ live log) : a.offset + a.size ≤ t.totalSize := by
  obtain ⟨before, e, after, rfl, hallocation, hafter⟩ := exists_of_mem_live ha
  obtain ⟨u, -, hrest⟩ := Trace.append_iff.mp h
  cases hrest with
  | cons hstep hrest => exact (hstep.allocation hallocation).2 ▸ totalSize_le_of_nested hrest hafter

theorem totalSize_le_offset {log : List Event} {s t : Storage} (h : Trace Step log s t)
    (hlog : Nested (log.map Event.nesting)) {a : Allocation} (ha : a ∈ live log) : s.totalSize ≤ a.offset := by
  obtain ⟨before, e, after, rfl, hallocation, -⟩ := exists_of_mem_live ha
  obtain ⟨u, hbefore, hrest⟩ := Trace.append_iff.mp h
  rw [List.map_append] at hlog
  cases hrest with
  | cons hstep _ => exact (hstep.allocation hallocation).1 ▸ totalSize_le_of_nested hbefore hlog.left

/-- Of two allocations whose scopes are still open, the later one begins behind the end of the other. -/
theorem pairwise_live {log : List Event} {s t : Storage} (h : Trace Step log s t) :
    (live log).Pairwise fun a b => a.offset + a.size ≤ b.offset := by
  induction h with
  | nil => exact .nil
  | @cons e rest s t u hstep hrest ih =>
    rw [live]
    split
    · rename_i hopen
      cases hallocation : e.allocation? with
      | none => exact ih
      | some a =>
        refine List.pairwise_cons.mpr ⟨fun b hb => ?_, ih⟩
        rw [(hstep.allocation hallocation).2]
        exact totalSize_le_offset hrest hopen hb
    · exact ih

/-! ### Sequences of actions -/

theorem trace_of_mapM {actions : List Action} {log : List Event} {s t : Storage}
    (h : actions.mapM perform s = .ok log t) : Trace Step log s t :=
  Trace.of_mapM (fun _ _ _ _ hok => (step_of_perform hok).1) h

theorem nestings_of_mapM {actions : List Action} {log : List Event} {s t : Storage}
    (h : actions.mapM perform s = .ok log t) : log.map Event.nesting = actions.map Action.nesting :=
  Trace.labels_of_mapM (fun a _ _ _ hok => (step_of_perform (a := a) hok).2) h

/-- A scope that is opened and closed again leaves the sizes of the others as they were. -/
theorem sizes_of_balanced {body : List Action} {log : List Event} {s t : Storage}
    (h : (.openScope :: (body ++ [.closeScope])).mapM perform s = .ok log t)
    (hbody : Nesting.Balanced (body.map Action.nesting)) : t.sizes = s.sizes := by
  have hmoves := moves_of_trace (trace_of_mapM h)
  rw [nestings_of_mapM h, List.map_cons, List.map_append] at hmoves
  exact hmoves.restores Nat.le_refl Nat.le_trans hbody

/-- Words are refused only if there is no room for them, and then all the room is taken. -/
theorem exists_of_allocate {s : Storage} (hs : s.totalSize ≤ Word.max) (hopen : 0 < s.depth) (size : Nat) :
    ∃ result t, s.allocate size = .ok (result, t) ∧ Fits t ∧
      (result = none ↔ Word.max < s.totalSize + size) ∧ (result = none → t.totalSize = Word.max) := by
  obtain ⟨sizes⟩ := s
  cases sizes with
  | nil => exact absurd hopen (Nat.lt_irrefl 0)
  | cons inner outer =>
    simp only [totalSize, total_cons] at hs ⊢
    rcases Nat.lt_or_ge Word.max (inner + total outer + size) with hfull | hroom
    · have htotal : totalSize ⟨(inner + (Word.max - (inner + total outer))) :: outer⟩ = Word.max := by
        simp only [totalSize, total_cons]
        omega
      exact ⟨none, _, allocate_of_full hfull, fits_of_totalSize_le (Nat.le_of_eq htotal), by simp [hfull],
        fun _ => htotal⟩
    · refine ⟨_, _, allocate_of_room hroom, fits_of_totalSize_le ?_, ?_, by simp⟩
      · simp only [totalSize, total_cons]
        omega
      · simp only [reduceCtorEq, false_iff]
        omega

/-- Whatever is done with new storage, as long as a scope is open where one is needed: all sizes and sums are
    words; allocations whose scopes are still open have no word in common and lie below the total; closing a
    scope brings back the total that there was when it was opened; and an allocation fails if and only if the
    total would not be a word, and then the total is the largest word. -/
theorem perform_keeps_allocations_apart (actions : List Action) (h : Allowed 0 actions) :
    ∃ log s, actions.mapM perform Storage.empty = .ok log s ∧ Fits s ∧
      (live log).Pairwise (fun a b => ∀ word, ¬(a.Covers word ∧ b.Covers word)) ∧
      (∀ a ∈ live log, a.offset + a.size ≤ s.totalSize) ∧
      (∀ before body, actions = before ++ .openScope :: (body ++ [.closeScope]) →
        Nesting.Balanced (body.map Action.nesting) →
          ∃ log₀ s₀, before.mapM perform Storage.empty = .ok log₀ s₀ ∧ s.totalSize = s₀.totalSize) ∧
      ∀ size : UInt8, 0 < s.depth → ∃ result t, s.allocate size.toNat = .ok (result, t) ∧ Fits t ∧
        (result = none ↔ Word.max < s.totalSize + size.toNat) ∧ (result = none → t.totalSize = Word.max) := by
  obtain ⟨log, s, hrun⟩ := exists_of_allowed (s := Storage.empty) h
  have htrace := trace_of_mapM hrun
  have htotal : s.totalSize ≤ Word.max := totalSize_le_of_trace htrace (Nat.zero_le _)
  refine ⟨log, s, hrun, fits_of_totalSize_le htotal, ?_, fun a ha => offset_add_size_le htrace ha, ?_,
    fun size hopen => exists_of_allocate htotal hopen size.toNat⟩
  · refine (pairwise_live htrace).imp fun hab word hboth => ?_
    have hlower := hboth.2.1
    have hupper := hboth.1.2
    omega
  · rintro before body rfl hbody
    obtain ⟨log₀, log₁, s₀, hbefore, hrest, -⟩ := exists_of_mapM_append hrun
    exact ⟨log₀, s₀, hbefore, congrArg total (sizes_of_balanced hrest hbody)⟩

/-- Two words in a scope that is closed again are handed out a second time in the scope around it. -/
theorem perform_keeps_allocations_apart_around_scope :
    let actions : List Action := [.openScope, .allocate 3, .openScope, .allocate 2, .closeScope, .allocate 255]
    Allowed 0 actions ∧ ∃ log s, actions.mapM perform Storage.empty = .ok log s ∧
      live log = [⟨0, 3⟩, ⟨3, 255⟩] ∧ s.totalSize = 258 ∧ Fits s ∧
      (live log).Pairwise (fun a b => ∀ word, ¬(a.Covers word ∧ b.Covers word)) := by
  intro actions
  have hallowed : Allowed 0 actions := by simp [actions, Allowed]
  obtain ⟨log, s, hrun, hfits, hapart, -⟩ := perform_keeps_allocations_apart actions hallowed
  have hevents : actions.mapM perform Storage.empty =
      .ok [.opened, .allocated 0 3, .opened, .allocated 3 2, .closed 2, .allocated 3 255] ⟨[258]⟩ := rfl
  rw [hevents] at hrun
  cases hrun
  exact ⟨hallowed, _, _, hevents, by decide, rfl, hfits, hapart⟩

end TriangleCompiler.Machine.Storage
