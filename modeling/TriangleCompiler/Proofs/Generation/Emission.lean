import TriangleCompiler.Proofs.Generation.Layout
import TriangleCompiler.Proofs.Generation.Steps

/-! The state of the generator against the code that was written down phrase by phrase: as long as there
    is room the two agree, and afterwards the state has the part of the code that there is room for, and
    an error. -/

namespace TriangleCompiler.Generation

open Machine (Code Entity Instruction Storage Word)
open NodeTable (Free Grows)

/-- The operand of a jump to an address. Addresses do not grow beyond the limit of the code. -/
def cappedTarget (limit address : Nat) : Word := Int16.ofNat (min address limit)

/-- What is reported of a program whose `n` instructions find no room: first that the program is too large,
    and then at most that scopes are, and not even that as long as there are addresses for all of them. -/
def TooLarge (n : Nat) (errors : Array Diagnostic) : Prop :=
  ∃ position scopes, errors.toList = ⟨position, .size .programTooLarge⟩ :: scopes ∧
    (∀ d ∈ scopes, d.value = .size .scopeTooLarge) ∧ (n ≤ Word.max → scopes = [])

theorem TooLarge.mono {n m : Nat} {errors : Array Diagnostic} (h : TooLarge n errors) (hle : n ≤ m) :
    TooLarge m errors := by
  obtain ⟨position, scopes, herrors, hscopes, hnone⟩ := h
  exact ⟨position, scopes, herrors, hscopes, fun hm => hnone (Nat.le_trans hle hm)⟩

/-- The bookkeeping of the generator when `n` instructions were to be emitted. The sizes of scopes are right
    as long as there are addresses for the instructions, and what the names are at run time as long as the
    instructions find room. -/
structure Accounts (limit : Nat) (places : NodeId → Option Place) (sizes : List Nat) (n : Nat)
    (s : State) : Prop where
  limit_eq : s.code.limit = limit
  overflowed : s.overflowed = decide (limit < n)
  depth : s.storage.sizes.length = sizes.length
  storage : n ≤ Word.max → s.storage.sizes = sizes
  /-- Every word of storage has cost an instruction. -/
  room : Storage.total sizes ≤ n
  entities : ∀ id p, places id = some p → ∃ e, s.entities.get? id = some e ∧
    (n ≤ limit → e = p.entity) ∧ ∀ k, p = .slot true k → ∃ offset size, e = .var offset size
  clean : n ≤ limit → s.errors = #[]
  tooLarge : limit < n → TooLarge n s.errors
  reports : Reports .generate #[] s.errors

/-- The state has the instructions of `full` that there is room for. -/
structure Tracks (limit : Nat) (places : NodeId → Option Place) (sizes : List Nat)
    (full : List Instruction) (s : State) : Prop extends Accounts limit places sizes full.length s where
  code : s.code.instructions.toList = full.take limit

variable {limit : Nat} {places places' : NodeId → Option Place} {sizes : List Nat} {n m : Nat}
  {full : List Instruction} {s t : State}

theorem Tracks.size (h : Tracks limit places sizes full s) : s.code.size = min limit full.length := by
  rw [Code.size, ← Array.length_toList, h.code, List.length_take]

theorem Tracks.nextAddress (h : Tracks limit places sizes full s) :
    s.code.nextAddress = cappedTarget limit full.length := by
  rw [Code.nextAddress, h.size, cappedTarget, Nat.min_comm]

theorem Accounts.limit_le (h : Accounts limit places sizes n s) : limit ≤ Word.max := by
  rw [← h.limit_eq]
  exact s.code.addressable

theorem Accounts.reported (h : Accounts limit places sizes n s) (hfull : limit < n) : s.errors ≠ #[] := by
  obtain ⟨position, scopes, herrors, -⟩ := h.tooLarge hfull
  intro hnone
  rw [hnone] at herrors
  cases herrors

/-- The bookkeeping stands still once an instruction has found no room. -/
theorem Accounts.beyond (h : Accounts limit places sizes n s) (hfull : limit < n) :
    Accounts limit places sizes (n + 1) s where
  limit_eq := h.limit_eq
  overflowed := by rw [h.overflowed, decide_eq_true hfull, decide_eq_true (by omega)]
  depth := h.depth
  storage hle := h.storage (Nat.le_of_succ_le hle)
  room := Nat.le_succ_of_le h.room
  entities id p hp := by
    obtain ⟨e, he, -, hvar⟩ := h.entities id p hp
    exact ⟨e, he, fun hle => absurd hle (by omega), hvar⟩
  clean hle := absurd hle (by omega)
  tooLarge _ := (h.tooLarge hfull).mono (Nat.le_succ n)
  reports := h.reports

/-- Where the names of an outer scope are does not change. -/
theorem Accounts.entities_mono {ids : List NodeId} (h : Accounts limit places sizes n s)
    (hgrows : Grows s.entities t.entities ids) (hn : n ≤ m) (id : NodeId) (p : Place)
    (hp : places id = some p) : ∃ e, t.entities.get? id = some e ∧ (m ≤ limit → e = p.entity) ∧
      ∀ k, p = .slot true k → ∃ offset size, e = .var offset size := by
  obtain ⟨e, he, hexact, hvar⟩ := h.entities id p hp
  exact ⟨e, hgrows.keeps id e he, fun hle => hexact (Nat.le_trans hn hle), hvar⟩

/-! ### Passes that emit code -/

/-- From `s` the pass ends without a fault, says at most of the nodes `ids` what they are at run time, and
    leads to a value and a state that have the property `P`. -/
def Emits {α : Type} (x : GenerateM α) (s : State) (ids : List NodeId) (P : α → State → Prop) : Prop :=
  Pass.Ends x s fun a t => Grows s.entities t.entities ids ∧ P a t

namespace Emits
variable {α β : Type} {x : GenerateM α} {g : α → GenerateM β} {ids ids' : List NodeId}
  {P P' : α → State → Prop} {Q : β → State → Prop}

theorem pure {a : α} (h : P a s) : Emits (Pure.pure a) s [] P :=
  Pass.Ends.pure ⟨Grows.refl _ _, h⟩

theorem bind (hx : Emits x s ids P)
    (hg : ∀ a t, Grows s.entities t.entities ids → P a t → Emits (g a) t ids' Q) :
    Emits (x >>= g) s (ids ++ ids') Q := by
  refine Pass.Ends.bind hx ?_
  rintro a t ⟨hgrows, hP⟩
  refine Pass.Ends.imp (hg a t hgrows hP) ?_
  rintro b u ⟨hgrows', hQ⟩
  refine ⟨?_, hQ⟩
  exact (hgrows.mono fun _ h => List.mem_append_left _ h).trans
    (hgrows'.mono fun _ h => List.mem_append_right _ h)

/-- A pass that says of no node what it is leaves every place free. -/
theorem next (hx : Emits x s [] P)
    (hg : ∀ a t, (∀ ids, s.entities.Free ids → t.entities.Free ids) → P a t → Emits (g a) t ids' Q) :
    Emits (x >>= g) s ids' Q :=
  hx.bind fun a t hgrows hP =>
    hg a t (fun _ hfree => hgrows.free hfree fun _ _ => List.not_mem_nil) hP

theorem last (hx : Emits x s ids P) (hg : ∀ a t, P a t → Emits (g a) t [] Q) :
    Emits (x >>= g) s ids Q := by
  rw [← List.append_nil ids]
  exact hx.bind fun a t _ hP => hg a t hP

theorem imp (hx : Emits x s ids P) (h : ∀ a t, P a t → P' a t) : Emits x s ids P' :=
  Pass.Ends.imp hx fun a t ⟨hgrows, hP⟩ => ⟨hgrows, h a t hP⟩

theorem mono (hx : Emits x s ids P) (hsub : ∀ id ∈ ids, id ∈ ids') : Emits x s ids' P :=
  Pass.Ends.imp hx fun _ _ ⟨hgrows, hP⟩ => ⟨hgrows.mono hsub, hP⟩

theorem discard {P : Unit → State → Prop} (hx : Emits x s ids fun _ t => P () t) :
    Emits (Functor.discard x) s ids P :=
  Pass.Ends.discard hx

end Emits

/-! ### Instructions -/

/-- The address of an instruction, if there is room for it. -/
def addressIn (limit n : Nat) : Option Nat :=
  if n < limit then some n else none

/-- An instruction has to be the right one only if it finds room. -/
theorem emits_emit {i : Instruction} (i' : Instruction) (h : Tracks limit places sizes full s)
    (hi : full.length < limit → i = i') : Emits (emit i) s [] fun address t =>
      address = addressIn limit full.length ∧ Tracks limit places sizes (full ++ [i']) t := by
  have hsize := h.size
  have hlen : (full ++ [i']).length = full.length + 1 := by simp
  have hsame : limit ≤ full.length → s.code.instructions.toList = (full ++ [i']).take limit := by
    intro hle
    rw [h.code, List.take_append_of_le_length hle]
  rcases Nat.lt_trichotomy limit full.length with hfull | hfull | hroom
  · have hover : s.overflowed = true := h.overflowed.trans (decide_eq_true hfull)
    refine ⟨none, s, emit_of_overflowed i hover, Grows.refl _ _, (if_neg (by omega)).symm, ?_, hsame (by omega)⟩
    rw [hlen]
    exact h.beyond hfull
  · have hover : s.overflowed = false := h.overflowed.trans (decide_eq_false (by omega))
    refine ⟨none, _, emit_of_full i hover (by rw [h.limit_eq]; omega), Grows.refl _ _, (if_neg (by omega)).symm, ?_,
      hsame (by omega)⟩
    rw [hlen]
    exact
      { limit_eq := h.limit_eq
        overflowed := (decide_eq_true (by omega)).symm
        depth := h.depth
        storage := fun hle => h.storage (Nat.le_of_succ_le hle)
        room := Nat.le_succ_of_le h.room
        entities := fun id p hp => h.entities_mono (Grows.refl _ []) (Nat.le_succ _) id p hp
        clean := fun hle => absurd hle (by omega)
        tooLarge := fun _ => ⟨s.position, [], by simp [h.clean (Nat.le_of_eq hfull.symm)], by simp, fun _ => rfl⟩
        reports := h.reports.trans (Reports.push rfl) }
  · have hover : s.overflowed = false := h.overflowed.trans (decide_eq_false (by omega))
    refine ⟨_, _, emit_of_room i hover (by rw [h.limit_eq]; omega), Grows.refl _ _, ?_, ?_, ?_⟩
    · rw [addressIn, if_pos hroom, hsize, Nat.min_eq_right (by omega)]
    · rw [hlen]
      exact
        { limit_eq := h.limit_eq
          overflowed := hover.trans (decide_eq_false (by omega)).symm
          depth := h.depth
          storage := fun _ => h.storage (by omega)
          room := Nat.le_succ_of_le h.room
          entities := fun id p hp => h.entities_mono (Grows.refl _ []) (Nat.le_succ _) id p hp
          clean := fun _ => h.clean (by omega)
          tooLarge := fun hlt => absurd hlt (by omega)
          reports := h.reports }
    · rw [hi hroom, Code.append, Array.toList_push, h.code, List.take_of_length_le (by omega),
        List.take_of_length_le (by omega)]

/-- An instruction whose address is not needed. -/
theorem emits_discard {i : Instruction} (i' : Instruction) (h : Tracks limit places sizes full s)
    (hi : full.length < limit → i = i') :
    Emits (discard (emit i)) s [] fun _ t => Tracks limit places sizes (full ++ [i']) t :=
  Emits.discard ((emits_emit i' h hi).imp fun _ _ h => h.2)

/-- A jump that was emitted behind `before` can be completed. -/
theorem emits_patch {n target : Nat} (before : List Instruction) (i : Instruction)
    (after : List Instruction) (h : Tracks limit places sizes full s) (hfull : full = before ++ i :: after)
    (hn : before.length = n) (htarget : full.length = target) (hi : i.isJump = true) :
    Emits (patch (addressIn limit n)) s [] fun _ t => Tracks limit places sizes
      (before ++ { i with operand := cappedTarget limit target } :: after) t := by
  subst hn htarget hfull
  have hlen : ∀ j : Instruction, (before ++ j :: after).length = (before ++ i :: after).length := by
    intro j
    simp
  unfold addressIn
  by_cases hroom : before.length < limit
  · have htake : ∀ j : Instruction, (before ++ j :: after).take limit =
        before ++ j :: after.take (limit - before.length - 1) := by
      intro j
      rw [List.take_append, List.take_of_length_le (by omega)]
      obtain ⟨k, hk⟩ : ∃ k, limit - before.length = k + 1 := ⟨limit - before.length - 1, by omega⟩
      rw [hk, List.take_succ_cons, Nat.add_sub_cancel]
    have hget : s.code.refusal? before.length = none := by
      have hi' : s.code.instructions[before.length]? = some i := by
        rw [← Array.getElem?_toList, h.code, htake]
        simp
      simp [Code.refusal?, Code.get?, hi', hi]
    rw [if_pos hroom]
    refine ⟨(), _, patch_of_jump hget, Grows.refl _ _, ?_, ?_⟩
    · have hacc := h.toAccounts
      rw [hlen]
      exact { hacc with }
    · rw [htake, ← h.nextAddress]
      show (s.code.instructions.modify before.length _).toList = _
      rw [Array.toList_modify, h.code, htake]
      simp [List.modify_eq_take_drop]
  · rw [if_neg hroom]
    refine Emits.pure ⟨?_, ?_⟩
    · rw [hlen]
      exact h.toAccounts
    · rw [h.code, List.take_append_of_le_length (by omega), List.take_append_of_le_length (by omega)]

theorem emits_nextAddress (h : Tracks limit places sizes full s) :
    Emits nextAddress s [] fun address t =>
      address = cappedTarget limit full.length ∧ Tracks limit places sizes full t :=
  ⟨_, s, rfl, Grows.refl _ _, h.nextAddress, h⟩

theorem emits_visit (position : Position) (h : Tracks limit places sizes full s) :
    Emits (visit position) s [] fun _ t => Tracks limit places sizes full t :=
  ⟨(), _, rfl, Grows.refl _ _, { h with }, h.code⟩

/-! ### Storage -/

theorem emits_openScope (h : Tracks limit places sizes full s) :
    Emits openScope s [] fun _ t => Tracks limit places (0 :: sizes) full t := by
  refine ⟨(), _, rfl, Grows.refl _ _, ?_, h.code⟩
  exact { h with
    depth := congrArg (· + 1) h.depth
    storage := fun hle => congrArg (0 :: ·) (h.storage hle)
    room := by simpa using h.room }

/-- A scope of `size` words is closed; the names declared in it are forgotten. -/
theorem emits_closeScope {size : Nat} (h : Tracks limit places (size :: sizes) full s)
    (houter : ∀ id p, places' id = some p → places id = some p) :
    Emits closeScope s [] fun _ t =>
      Tracks limit places' sizes (full ++ [.pop (Int16.ofNat size)]) t := by
  unfold closeScope
  have hget : Emits get s [] fun s' t => s' = s ∧ t = s := ⟨s, s, rfl, Grows.refl _ _, rfl, rfl⟩
  refine hget.next ?_
  rintro _ _ _ ⟨hs', ht⟩
  subst hs' ht
  refine (emits_discard (.pop (Int16.ofNat size)) h fun hlt => ?_).next fun _ t _ ht => ?_
  · rw [Storage.localSize, h.storage (Nat.le_trans (Nat.le_of_lt hlt) h.limit_le)]
    rfl
  · obtain ⟨inner, outer, hsizes⟩ : ∃ inner outer, t.storage.sizes = inner :: outer :=
      List.exists_cons_of_length_eq_add_one ht.depth
    have hdepth := ht.depth
    rw [hsizes] at hdepth
    have hroom := ht.room
    rw [Storage.total_cons] at hroom
    refine ⟨(), { t with storage := ⟨outer⟩ }, ?_, Grows.refl _ _, ?_, ht.code⟩
    · simp only [Storage.closeScope, hsizes]
    · exact { ht with
        depth := Nat.succ.inj hdepth
        storage := fun hle => by
          have := ht.storage hle
          rw [hsizes] at this
          exact (List.cons.inj this).2
        room := by omega
        entities := fun id p hp => ht.entities id p (houter id p hp) }

/-- A word for which an instruction was spent. Its place is the right one if the instructions find
    room, and then there is room for the word as well. -/
theorem emits_allocate {size : Nat} (h : Tracks limit places (size :: sizes) full s)
    (hspent : size + Storage.total sizes < full.length) : Emits (allocate 1) s [] fun offset t =>
      (full.length ≤ limit → offset = Int16.ofNat (size + Storage.total sizes)) ∧
      Tracks limit places ((size + 1) :: sizes) full t := by
  obtain ⟨inner, outer, hsizes⟩ : ∃ inner outer, s.storage.sizes = inner :: outer :=
    List.exists_cons_of_length_eq_add_one h.depth
  have hdepth := h.depth
  rw [hsizes] at hdepth
  have hlimit := h.limit_le
  have hstorage : full.length ≤ Word.max → inner = size ∧ outer = sizes := fun hle => by
    have := h.storage hle
    rw [hsizes] at this
    exact List.cons.inj this
  have hroom : (size + 1) + Storage.total sizes ≤ full.length := by omega
  unfold Emits Pass.Ends allocate
  simp only [Storage.allocate, hsizes, Storage.totalSize, Storage.total_cons]
  by_cases hfits : inner + Storage.total outer + (1 : UInt8).toNat ≤ Word.max
  · rw [if_pos hfits]
    refine ⟨_, _, rfl, Grows.refl _ _, fun hle => ?_, ?_, h.code⟩
    · obtain ⟨hinner, houter⟩ := hstorage (Nat.le_trans hle hlimit)
      rw [hinner, houter]
    · exact { h with
        depth := hdepth
        storage := fun hle => by rw [(hstorage hle).1, (hstorage hle).2]; rfl
        room := hroom }
  · have hfull : Word.max < full.length := by
      -- otherwise the words in use, and one more, are as many as there are addresses
      refine Nat.lt_of_not_le fun hle => hfits ?_
      rw [(hstorage hle).1, (hstorage hle).2]
      show size + Storage.total sizes + 1 ≤ Word.max
      omega
    obtain ⟨position, scopes, herrors, hscopes, -⟩ := h.tooLarge (by omega)
    rw [if_neg hfits]
    refine ⟨_, _, rfl, Grows.refl _ _, fun hle => absurd hle (by omega), ?_, h.code⟩
    exact { h with
      depth := hdepth
      storage := fun hle => absurd hle (by omega)
      room := hroom
      clean := fun hle => absurd hle (by omega)
      tooLarge := fun _ => by
        refine ⟨position, scopes ++ [⟨s.position, .size .scopeTooLarge⟩], by simp [herrors], ?_,
          fun hle => absurd hle (by omega)⟩
        intro d hd
        rcases List.mem_append.mp hd with hd | hd
        · exact hscopes d hd
        · rw [List.mem_singleton.mp hd]
      reports := h.reports.trans (Reports.push rfl) }

/-- A name gets its place. -/
theorem emits_define {id : NodeId} {e : Entity} {p : Place} (h : Tracks limit places sizes full s)
    (hfree : s.entities.Free [id]) (hexact : full.length ≤ limit → e = p.entity)
    (hvar : ∀ k, p = .slot true k → ∃ offset size, e = .var offset size) :
    Emits (define id e) s [id] fun _ t =>
      Tracks limit (fun id' => if id' = id then some p else places id') sizes full t := by
  have hgrows := NodeTable.grows_write hfree e
  have hlt := (hfree id List.mem_cons_self).1
  refine ⟨(), _, define_of_free hfree.refusal? e, hgrows, ?_, h.code⟩
  refine { h with entities := fun id' p' hp' => ?_ }
  by_cases hid : id' = id
  · rw [if_pos hid, Option.some.injEq] at hp'
    subst hp'
    refine ⟨e, ?_, hexact, hvar⟩
    show (s.entities.write id e).get? id' = some e
    rw [NodeTable.get?_write hlt, if_pos hid]
  · rw [if_neg hid] at hp'
    exact h.entities_mono hgrows (Nat.le_refl _) id' p' hp'

/-- A variable gets the word behind everything that is declared. -/
theorem emits_declareVariable {id : NodeId} {type : SimpleType} {size : Nat} (htype : type.size = 1)
    (h : Tracks limit places (size :: sizes) full s) (hfree : s.entities.Free [id]) :
    Emits (declareVariable id type) s [id] fun e t =>
      (full.length < limit → e = (Place.slot true (size + Storage.total sizes)).entity) ∧
      (∃ offset words, e = .var offset words) ∧
      Tracks limit (fun id' => if id' = id then some (.slot true (size + Storage.total sizes)) else places id')
        ((size + 1) :: sizes) (full ++ [.push 1]) t := by
  have hroom := h.room
  rw [Storage.total_cons] at hroom
  unfold declareVariable
  rw [htype]
  refine (emits_discard (.push 1) h fun _ => rfl).next fun _ t hkeeps ht => ?_
  have hspent : size + Storage.total sizes < (full ++ [Instruction.push 1]).length := by simp; omega
  have hlen : (full ++ [Instruction.push 1]).length = full.length + 1 := by simp
  refine (emits_allocate ht hspent).next ?_
  rintro offset u hkeeps' ⟨hoffset, hu⟩
  have hentity : full.length < limit →
      Entity.var offset 1 = (Place.slot true (size + Storage.total sizes)).entity := fun hlt => by
    rw [hoffset (by omega)]
    rfl
  have hdefine := emits_define (p := .slot true (size + Storage.total sizes)) (e := .var offset 1) hu
    (hkeeps' _ (hkeeps _ hfree)) (fun hle => hentity (by omega)) fun _ _ => ⟨offset, 1, rfl⟩
  exact hdefine.last fun _ v hv => Emits.pure ⟨hentity, ⟨offset, 1, rfl⟩, hv⟩

end TriangleCompiler.Generation
