import TriangleCompiler.Proofs.Generation.Emission
import TriangleCompiler.Proofs.Generation.TypedCode

/-! Code is generated for every well-typed program, also if there is no room for all of it, and it is the
    code that was written down phrase by phrase. -/

namespace TriangleCompiler

open Machine (Code Entity Instruction Primitive Storage Word)
open NodeTable (Free Grows)
open Typing Generation

namespace Generation

variable {cx : Context} {limit : Nat} {L : Layout} {sizes : List Nat} {full : List Instruction}
  {s : State} {name : Name}

/-- A node that nothing is said of has no place. -/
theorem Tracks.unplaced {ids : List NodeId} (h : Tracks limit L.place? sizes full s)
    (hfree : s.entities.Free ids) : L.Unplaced ids := by
  intro id hid
  cases hp : L.place? id with
  | none => rfl
  | some p =>
    obtain ⟨e, he, -⟩ := h.entities id p hp
    rw [(hfree id hid).2] at he
    cases he

/-! ### Names -/

theorem emits_linkOf {id : NodeId} {link : Link} (hlink : cx.links.get? id = some link) :
    Emits (linkOf cx id) s [] fun a t => a = link ∧ t = s := by
  rw [linkOf, hlink]
  exact Emits.pure ⟨rfl, rfl⟩

theorem emits_entityOf {id : NodeId} {p : Place} (h : Tracks limit L.place? sizes full s)
    (hp : L.place? id = some p) : Emits (entityOf id) s [] fun e t =>
      t = s ∧ (full.length ≤ limit → e = p.entity) ∧
        ∀ k, p = .slot true k → ∃ offset size, e = .var offset size := by
  obtain ⟨e, he, hexact, hvar⟩ := h.entities id p hp
  have hget : Emits get s [] fun s' t => s' = s ∧ t = s := ⟨s, s, rfl, Grows.refl _ _, rfl, rfl⟩
  unfold entityOf
  refine hget.next ?_
  rintro _ _ _ ⟨hs', ht⟩
  subst hs' ht
  rw [he]
  exact Emits.pure ⟨rfl, hexact, hvar⟩

theorem emits_variableOf {id : NodeId} {k : Nat} (h : Tracks limit L.place? sizes full s)
    (hlink : cx.links.get? name.id = some (.var id)) (hp : L.place? id = some (.slot true k)) :
    Emits (variableOf cx name) s [] fun e t =>
      t = s ∧ (full.length ≤ limit → e = .var (Int16.ofNat k) 1) ∧ ∃ offset size, e = .var offset size := by
  unfold variableOf
  refine (emits_linkOf hlink).next ?_
  rintro _ _ _ ⟨hlink', ht⟩
  subst hlink' ht
  exact (emits_entityOf h hp).imp fun e t ⟨ht, hexact, hvar⟩ => ⟨ht, hexact, hvar k rfl⟩

theorem emits_call {b : Builtin} {p : Primitive} (h : Tracks limit L.place? sizes full s)
    (hlink : cx.links.get? name.id = some (.builtin b)) (hkind : b.kind.primitive? = some p) :
    Emits (call cx name) s [] fun _ t =>
      Tracks limit L.place? sizes (full ++ callCode cx.links name) t := by
  rw [callCode_eq hlink hkind]
  unfold call
  refine (emits_linkOf hlink).next ?_
  rintro _ _ _ ⟨hlink', ht⟩
  subst hlink' ht
  dsimp only
  generalize b.kind = kind at hkind ⊢
  cases kind <;> cases hkind <;> exact emits_discard _ h fun _ => rfl

theorem emits_load_constant {b : Builtin} {type : SimpleType} {value : Word}
    (h : Tracks limit L.place? sizes full s) (hlink : cx.links.get? name.id = some (.builtin b))
    (hkind : b.kind = .constant type value) : Emits (load cx name) s [] fun _ t =>
      Tracks limit L.place? sizes (full ++ loadCode cx.links L name) t := by
  rw [loadCode_constant hlink hkind]
  unfold load
  refine (emits_linkOf hlink).next ?_
  rintro _ _ _ ⟨hlink', ht⟩
  subst hlink' ht
  simp only [hkind]
  exact emits_discard _ h fun _ => rfl

theorem emits_load_located {link : Link} {p : Place} (h : Tracks limit L.place? sizes full s)
    (hlink : cx.links.get? name.id = some link) (hp : L.Locates link p) :
    Emits (load cx name) s [] fun _ t =>
      Tracks limit L.place? sizes (full ++ loadCode cx.links L name) t := by
  have hemit : ∀ id, L.place? id = some p →
      Emits (do discard (emit (← entityOf id).load)) s [] fun _ t =>
        Tracks limit L.place? sizes (full ++ [p.entity.load]) t := by
    intro id hid
    refine (emits_entityOf h hid).next ?_
    rintro e t _ ⟨ht, hexact, _⟩
    subst ht
    exact emits_discard _ h fun hlt => by rw [hexact (Nat.le_of_lt hlt)]
  rw [loadCode_located hlink hp]
  unfold load
  refine (emits_linkOf hlink).next ?_
  rintro _ _ _ ⟨hlink', ht⟩
  subst hlink' ht
  cases hp with
  | const hid => exact hemit _ hid
  | var hid => exact hemit _ hid

theorem emits_loadAddress {id : NodeId} {k : Nat} (h : Tracks limit L.place? sizes full s)
    (hlink : cx.links.get? name.id = some (.var id)) (hp : L.place? id = some (.slot true k)) :
    Emits (loadAddress cx name) s [] fun _ t =>
      Tracks limit L.place? sizes (full ++ placeCode cx.links L Entity.loadAddress? name) t := by
  rw [placeCode_var hlink hp]
  unfold loadAddress
  refine (emits_variableOf h hlink hp).next ?_
  rintro e t _ ⟨ht, hexact, offset, size, he⟩
  subst ht he
  refine emits_discard _ h fun hlt => ?_
  rw [(Entity.var.inj (hexact (Nat.le_of_lt hlt))).1]

theorem emits_store {k : Nat} {e : Entity} (h : Tracks limit L.place? sizes full s)
    (hexact : full.length < limit → e = .var (Int16.ofNat k) 1)
    (he : ∃ offset size, e = .var offset size) : Emits (store e) s [] fun _ t =>
      Tracks limit L.place? sizes (full ++ [storeSlot k]) t := by
  obtain ⟨offset, size, rfl⟩ := he
  refine emits_discard _ h fun hlt => ?_
  obtain ⟨rfl, rfl⟩ := Entity.var.inj (hexact hlt)
  rfl

end Generation

namespace Typing

/-! ### Expressions -/

mutual

theorem HasType.emits {cx : Context} {limit : Nat} {L : Layout} {sizes : List Nat} {Γ : Environment}
    {e : Expr} {type : SimpleType} {ds : Decoration} : HasType cx.links Γ e type ds → L.Fits Γ →
      ∀ {full : List Instruction} {s : Generation.State}, Tracks limit L.place? sizes full s →
      Emits (e.generate cx) s [] fun _ t =>
        Tracks limit L.place? sizes (full ++ e.code cx.links L) t
  | .int h hlo hhi, _, full, s, ht => by
    simp only [Expr.generate, Expr.code, literalCode, intValue?_eq h hlo hhi]
    exact emits_discard _ ht fun _ => rfl
  | .char h, _, full, s, ht => by
    simp only [Expr.generate, Expr.code, literalCode, charValue?_eq h]
    exact emits_discard _ ht fun _ => rfl
  | .truth hlink hkind, _, full, s, ht => by
    rw [Expr.generate, Expr.code]
    exact emits_load_constant ht hlink hkind
  | .declared hlink hΓ, hfits, full, s, ht => by
    obtain ⟨-, p, hp⟩ := hfits _ _ hΓ
    rw [Expr.generate, Expr.code]
    exact emits_load_located ht hlink hp
  | .call hlink hkind _ ha, hfits, full, s, ht => by
    rw [Expr.generate, Expr.code, ← List.append_assoc]
    refine (ha.emits hfits ht).next fun _ t _ ht => ?_
    exact emits_call ht hlink (congrArg Builtin.Kind.primitive? hkind)
  | .unary hlink hkind h, hfits, full, s, ht => by
    rw [Expr.generate, Expr.code, ← List.append_assoc]
    refine (h.emits hfits ht).next fun _ t _ ht => ?_
    exact emits_call ht hlink (congrArg Builtin.Kind.primitive? hkind)
  | .binary hlink hkind h₁ h₂, hfits, full, s, ht => by
    obtain ⟨p, l, r, hkind⟩ := hkind.exists_primitive
    rw [Expr.generate, Expr.code, ← List.append_assoc, ← List.append_assoc]
    refine (h₁.emits hfits ht).next fun _ t _ ht => ?_
    refine (h₂.emits hfits ht).next fun _ u _ hu => ?_
    exact emits_call hu hlink (congrArg Builtin.Kind.primitive? hkind)

theorem Accepts.emits {cx : Context} {limit : Nat} {L : Layout} {sizes : List Nat} {Γ : Environment}
    {formal : Option Builtin.Formal} {a : Argument} {ds : Decoration} : Accepts cx.links Γ formal a ds →
      L.Fits Γ → ∀ {full : List Instruction} {s : Generation.State},
      Tracks limit L.place? sizes full s → Emits (a.generate cx) s [] fun _ t =>
        Tracks limit L.place? sizes (full ++ a.code cx.links L) t
  | .none, _, full, s, ht => by
    rw [Argument.generate, Argument.code, List.append_nil]
    exact Emits.pure ht
  | .value h, hfits, full, s, ht => by
    rw [Argument.generate, Argument.code]
    exact h.emits hfits ht
  | .reference hlink hΓ, hfits, full, s, ht => by
    obtain ⟨-, p, hp⟩ := hfits _ _ hΓ
    cases hp with
    | var hp =>
      rw [Argument.generate, Argument.code]
      exact emits_loadAddress ht hlink hp

end

/-! ### Declarations -/

/-- The types that are recorded are those of the rules. -/
def Records (cx : Context) (ds : Decoration) : Prop := ∀ p ∈ ds, cx.types.get? p.1 = some p.2

variable {cx : Context} {limit : Nat} {L : Layout} {sizes : List Nat} {full : List Instruction}
  {s : Generation.State} {Γ Γ' : Environment} {ds ds' : Decoration} {size : Nat}

theorem Records.left (h : Records cx (ds ++ ds')) : Records cx ds :=
  fun p hp => h p (List.mem_append_left _ hp)

theorem Records.right (h : Records cx (ds ++ ds')) : Records cx ds' :=
  fun p hp => h p (List.mem_append_right _ hp)

theorem emits_typeOf {id : NodeId} {type : SimpleType} (h : cx.types.get? id = some type) :
    Emits (Generation.typeOf cx id) s [] fun a t => a = type ∧ t = s := by
  rw [Generation.typeOf, h]
  exact Emits.pure ⟨rfl, rfl⟩

theorem Declares.emits {d : SingleDeclaration} (h : Declares cx.links Γ d Γ' ds) (hfits : L.Fits Γ)
    (hrec : Records cx ds) (hsize : L.size = size + Storage.total sizes) (hfree : s.entities.Free d.ids)
    (ht : Tracks limit L.place? (size :: sizes) full s) :
    Emits (d.generate cx) s d.ids fun _ t => ∃ size', (d.layoutAfter L).size = size' + Storage.total sizes ∧
      Tracks limit (d.layoutAfter L).place? (size' :: sizes) (full ++ d.code cx.links L) t := by
  have hroom := ht.room
  rw [Storage.total_cons] at hroom
  cases h with
  | @const tag name value type ds h =>
    have htag : ∀ id ∈ [tag.id], id ∈ (SingleDeclaration.const tag name value).ids := by
      simp [SingleDeclaration.ids]
    have hfree' : s.entities.Free [tag.id] := hfree.mono htag
    refine Emits.mono ?_ htag
    simp only [SingleDeclaration.generate, SingleDeclaration.layoutAfter, SingleDeclaration.code]
    cases literal? value with
    | some known =>
      have hdefine := emits_define (p := .known known) ht hfree' (fun _ => rfl) (by simp)
      refine hdefine.imp fun _ t ht => ⟨size, hsize, ?_⟩
      rw [List.append_nil]
      exact ht
    | none =>
      have hpos := h.length_code_pos hfits
      have htype : cx.types.get? tag.id = some type := hrec (tag.id, type) (by simp)
      have hspent : size + Storage.total sizes < (full ++ value.code cx.links L).length := by
        rw [List.length_append]
        omega
      refine (h.emits hfits ht).next fun _ t hkeeps ht => ?_
      refine (emits_typeOf htype).next ?_
      rintro _ _ _ ⟨htype', ht'⟩
      subst htype' ht'
      rw [h.size_eq_one hfits]
      refine (emits_allocate ht hspent).next ?_
      rintro offset u hkeeps' ⟨hoffset, hu⟩
      have hexact : (full ++ value.code cx.links L).length ≤ limit →
          Entity.stored offset 1 = (Place.slot false L.size).entity := fun hle => by
        rw [hoffset hle, hsize]
        rfl
      have hdefine := emits_define hu (hkeeps' _ (hkeeps _ hfree')) hexact (by simp)
      refine hdefine.imp fun _ v hv => ⟨size + 1, ?_, hv⟩
      simp only [Layout.allocate]
      omega
  | @var tag name denoter b type _ hkind =>
    have htype : cx.types.get? tag.id = some type := hrec (tag.id, type) (by simp)
    have htag : ∀ id ∈ [tag.id], id ∈ (SingleDeclaration.var tag name denoter).ids := by
      simp [SingleDeclaration.ids]
    refine Emits.mono ?_ htag
    simp only [SingleDeclaration.generate, SingleDeclaration.layoutAfter, SingleDeclaration.code]
    refine (emits_typeOf htype).next ?_
    rintro _ _ _ ⟨htype', ht'⟩
    subst htype' ht'
    have hdeclare := emits_declareVariable (size_valueType hkind (by simp)) ht (hfree.mono htag)
    rw [← hsize] at hdeclare
    refine Emits.discard (hdeclare.imp ?_)
    rintro _ t ⟨_, _, ht⟩
    refine ⟨size + 1, ?_, ht⟩
    simp only [Layout.allocate]
    omega

theorem DeclaresAll.emits {parts : List SingleDeclaration} (h : DeclaresAll cx.links Γ parts Γ' ds)
    (hfits : L.Fits Γ) (hrec : Records cx ds) (hsize : L.size = size + Storage.total sizes)
    (hnodup : (declarationIds parts).Nodup) (hfree : s.entities.Free (declarationIds parts))
    (ht : Tracks limit L.place? (size :: sizes) full s) :
    Emits (generateDeclarations cx parts) s (declarationIds parts) fun _ t =>
      ∃ size', (layoutAfterDeclarations L parts).size = size' + Storage.total sizes ∧
        Tracks limit (layoutAfterDeclarations L parts).place? (size' :: sizes)
          (full ++ declarationsCode cx.links L parts) t := by
  induction h generalizing L full s size with
  | nil =>
    rw [declarationsCode, List.append_nil]
    exact Emits.pure ⟨size, hsize, ht⟩
  | cons hd _ ih =>
    have hd' := hd.fits hfits ((ht.unplaced hfree).mono fun _ => List.mem_append_left _)
    rw [declarationsCode, ← List.append_assoc]
    refine (hd.emits hfits hrec.left hsize hfree.left ht).bind ?_
    rintro _ t hgrows ⟨size', hsize', ht⟩
    exact ih hd' hrec.right hsize' (List.nodup_append.mp hnodup).2.1 (hgrows.free_right hnodup hfree) ht

/-! ### Commands -/

/-- A counting loop, given what happens in its body. -/
theorem emits_for {position : Position} {counter : LoopVariable} {first last : Expr} {body : Command}
    {start : Nat} (h₁ : HasType cx.links (Γ.declare (.var counter.id) .integer) first .integer ds)
    (h₂ : HasType cx.links (Γ.declare (.var counter.id) .integer) last .integer ds')
    (hfits : L.Fits Γ) (hsize : L.size = Storage.total sizes)
    (hnodup : (Command.for_ position counter first last body).ids.Nodup)
    (hfree : s.entities.Free (Command.for_ position counter first last body).ids)
    (hstart : full.length = start) (ht : Tracks limit L.place? sizes full s)
    (hbody : ∀ {full : List Instruction} {s : Generation.State} {start : Nat},
      (L.allocate counter.id true).Fits (Γ.declare (.var counter.id) .integer) →
      (L.allocate counter.id true).size = Storage.total (1 :: sizes) → body.ids.Nodup → s.entities.Free body.ids →
      full.length = start → Tracks limit (L.allocate counter.id true).place? (1 :: sizes) full s →
      Emits (body.generate cx) s body.ids fun _ t =>
        Tracks limit (L.allocate counter.id true).place? (1 :: sizes)
          (full ++ body.code cx.links (cappedTarget limit) (L.allocate counter.id true) start) t) :
    Emits (Command.generate cx (.for_ position counter first last body)) s
      (Command.for_ position counter first last body).ids fun _ t => Tracks limit L.place? sizes
        (full ++ Command.code cx.links (cappedTarget limit) L start
          (.for_ position counter first last body)) t := by
  let inner := L.allocate counter.id true
  let enter := Instruction.jump unknownTarget
  let before := full ++ [Instruction.push 1] ++ first.code cx.links inner ++ [storeSlot L.size]
  let top := start + (.push 1 :: (first.code cx.links inner ++ [storeSlot L.size])).length + 1
  let loop := body.code cx.links (cappedTarget limit) inner top ++
    [loadSlot L.size, .call .succ, storeSlot L.size]
  have htop : (before ++ [enter]).length = top := by
    simp only [before, top, List.length_append, List.length_cons, List.length_nil, hstart]
    omega
  have hids : Within ([counter.id] ++ body.ids) _ := within_for position counter first last body
  have hplace := ht.unplaced hfree counter.id (hids.mem (by simp))
  have hL := Layout.extends_allocate hplace true
  have hfits' : inner.Fits (Γ.declare (.var counter.id) .integer) := hfits.counter hplace
  rw [Command.generate, Command.code]
  refine (emits_visit _ ht).next fun _ s₁ hkeeps₁ ht₁ => ?_
  refine (emits_openScope ht₁).next fun _ s₂ hkeeps₂ ht₂ => ?_
  have hfree₂ := (hkeeps₂ _ (hkeeps₁ _ hfree)).mono fun _ => hids.mem
  refine Emits.mono ?_ fun _ => hids.mem
  have hdeclare := @emits_declareVariable _ _ _ _ _ _ .integer _ rfl ht₂ hfree₂.left
  rw [Nat.zero_add, ← hsize] at hdeclare
  refine hdeclare.bind ?_
  rintro entity s₃ hgrows ⟨hexact, hvar, ht₃⟩
  have hexact' : ∀ n, full.length ≤ n → n < limit → entity = .var (Int16.ofNat L.size) 1 :=
    fun n hn hlt => hexact (Nat.lt_of_le_of_lt hn hlt)
  refine (h₁.emits hfits' ht₃).next fun _ s₄ hkeeps₄ ht₄ => ?_
  refine (emits_store ht₄ (hexact' _ (by simp)) hvar).next fun _ s₅ hkeeps₅ ht₅ => ?_
  refine (emits_emit enter ht₅ fun _ => rfl).next ?_
  rintro address s₆ hkeeps₆ ⟨haddress, ht₆⟩
  refine (emits_nextAddress ht₆).next ?_
  rintro top' s₇ hkeeps₇ ⟨htop', ht₇⟩
  have hfree₇ := hkeeps₇ _ (hkeeps₆ _ (hkeeps₅ _ (hkeeps₄ _
    (hgrows.free_right (hids.nodup hnodup) hfree₂))))
  refine (hbody hfits' (by simp [Layout.allocate, hsize, Nat.add_comm])
    (List.nodup_append.mp (hids.nodup hnodup)).2.1 hfree₇ htop ht₇).last fun _ s₈ ht₈ => ?_
  rw [haddress, htop', htop]
  have hload : ∀ n, full.length ≤ n → n < limit → entity.load = loadSlot L.size := fun n hn hlt => by
    rw [hexact' n hn hlt]
    rfl
  -- the end of the body, which counts up
  refine (emits_discard _ ht₈ (hload _ (by simp [before, Nat.add_assoc]))).next fun _ t₁ _ hu₁ => ?_
  refine (emits_discard _ hu₁ fun _ => rfl).next fun _ t₂ _ hu₂ => ?_
  refine (emits_store hu₂ (hexact' _ (by simp [before, Nat.add_assoc])) hvar).next fun _ t₃ _ hu₃ => ?_
  -- the test, which the jump into the loop goes to
  have htest : ∀ l, l = before ++ enter :: loop → l.length = top + loop.length := by
    rintro l rfl
    rw [← htop]
    simp only [List.length_append, List.length_cons, List.length_nil]
    omega
  have hloop : before ++ [enter] ++ body.code cx.links (cappedTarget limit) inner top ++
      [loadSlot L.size] ++ [Instruction.call .succ] ++ [storeSlot L.size] = before ++ enter :: loop := by
    simp [loop]
  refine (emits_patch before enter loop hu₃ hloop rfl (htest _ hloop) rfl).next fun _ t₄ _ hu₄ => ?_
  refine (emits_discard _ hu₄ (hload _ (by simp [before, Nat.add_assoc]))).next fun _ t₅ _ hu₅ => ?_
  refine (h₂.emits hfits' hu₅).next fun _ t₆ _ hu₆ => ?_
  refine (emits_discard _ hu₆ fun _ => rfl).next fun _ t₇ _ hu₇ => ?_
  refine (emits_discard _ hu₇ fun _ => rfl).next fun _ t₈ _ hu₈ => ?_
  refine (emits_closeScope hu₈ hL).imp fun _ t ht => ?_
  simp only [before, loop, List.append_assoc, List.cons_append, List.nil_append] at ht ⊢
  exact ht

mutual

/-- Code is generated for a well-typed command whose nodes nothing is said of yet. -/
theorem WellTyped.emits {cx : Context} {limit : Nat} {Γ : Environment} {c : Command} {ds : Decoration} :
    WellTyped cx.links Γ c ds → ∀ {L : Layout} {sizes : List Nat} {full : List Instruction}
      {s : Generation.State} {start : Nat}, L.Fits Γ → Records cx ds → L.size = Storage.total sizes → c.ids.Nodup →
      s.entities.Free c.ids → full.length = start → Tracks limit L.place? sizes full s →
      Emits (c.generate cx) s c.ids fun _ t =>
        Tracks limit L.place? sizes (full ++ c.code cx.links (cappedTarget limit) L start) t
  | .assign hlink hΓ h, L, sizes, full, s, start, hfits, _, _, _, _, _, ht => by
    obtain ⟨-, p, hp⟩ := hfits _ _ hΓ
    cases hp with
    | var hp =>
      rw [Command.generate, Command.code, placeCode_var hlink hp, ← List.append_assoc]
      refine Emits.mono ?_ (fun _ => List.not_mem_nil.elim)
      refine (emits_visit _ ht).next fun _ t _ ht => ?_
      refine (h.emits hfits ht).next fun _ u _ hu => ?_
      refine (emits_variableOf hu hlink hp).next ?_
      rintro e v _ ⟨hv, hexact, he⟩
      subst hv
      exact emits_store hu (fun hlt => hexact (Nat.le_of_lt hlt)) he
  | .blank, L, sizes, full, s, start, _, _, _, _, _, _, ht => by
    rw [Command.generate, Command.code, List.append_nil]
    exact emits_visit _ ht
  | .call hlink hkind ha, L, sizes, full, s, start, hfits, _, _, _, _, _, ht => by
    rw [Command.generate, Command.code, ← List.append_assoc]
    refine Emits.mono ?_ (fun _ => List.not_mem_nil.elim)
    refine (emits_visit _ ht).next fun _ t _ ht => ?_
    refine (ha.emits hfits ht).next fun _ u _ hu => ?_
    exact emits_call hu hlink (congrArg Builtin.Kind.primitive? hkind)
  | @WellTyped.ifThen _ _ _ condition body _ _ h₁ h₂, L, sizes, full, s, start, hfits, hrec, hsize,
      hnodup, hfree, hstart, ht => by
    let test := condition.code cx.links L
    let skip := Instruction.jumpIf (Word.ofBool false) unknownTarget
    have hinside : (full ++ test ++ [skip]).length = start + test.length + 1 := by
      simp [hstart, Nat.add_assoc]
    rw [Command.generate, Command.code, ← List.append_assoc]
    refine (emits_visit _ ht).next fun _ s₁ hkeeps₁ ht₁ => ?_
    refine (h₁.emits hfits ht₁).next fun _ s₂ hkeeps₂ ht₂ => ?_
    refine (emits_emit skip ht₂ fun _ => rfl).next ?_
    rintro address s₃ hkeeps₃ ⟨haddress, ht₃⟩
    have hfree₃ := (hkeeps₃ _ (hkeeps₂ _ (hkeeps₁ _ hfree))).right
    refine Emits.mono ?_ (fun _ => List.mem_append_right _)
    refine (h₂.emits hfits hrec.right hsize (List.nodup_append.mp hnodup).2.1 hfree₃ hinside ht₃).last
      fun _ s₄ ht₄ => ?_
    rw [haddress]
    exact emits_patch (full ++ test) skip _ ht₄ (List.append_assoc _ _ _) rfl
      (by rw [List.length_append, hinside]) rfl
  | @WellTyped.ifElse _ _ _ condition positive negative _ _ _ h₁ h₂ h₃, L, sizes, full, s, start, hfits,
      hrec, hsize, hnodup, hfree, hstart, ht => by
    let test := condition.code cx.links L
    let skip := Instruction.jumpIf (Word.ofBool false) unknownTarget
    let leave := Instruction.jump unknownTarget
    let inside := start + test.length + 1
    let taken := positive.code cx.links (cappedTarget limit) L inside
    let otherwise := inside + taken.length + 1
    let other := negative.code cx.links (cappedTarget limit) L otherwise
    let skip' := Instruction.jumpIf (Word.ofBool false) (cappedTarget limit otherwise)
    have hinside : (full ++ test ++ [skip]).length = inside := by simp [hstart, inside, Nat.add_assoc]
    have hotherwise : (full ++ test ++ [skip] ++ taken ++ [leave]).length = otherwise := by
      simp only [List.length_append, List.length_singleton] at hinside ⊢
      omega
    have hotherwise' : (full ++ test ++ skip' :: (taken ++ [leave])).length = otherwise := by
      rw [← hotherwise]
      simp
    obtain ⟨-, hnodup, -⟩ := List.nodup_append.mp hnodup
    rw [Command.generate, Command.code, ← List.append_assoc]
    refine (emits_visit _ ht).next fun _ s₁ hkeeps₁ ht₁ => ?_
    refine (h₁.emits hfits ht₁).next fun _ s₂ hkeeps₂ ht₂ => ?_
    refine (emits_emit skip ht₂ fun _ => rfl).next ?_
    rintro address s₃ hkeeps₃ ⟨haddress, ht₃⟩
    have hfree₃ := (hkeeps₃ _ (hkeeps₂ _ (hkeeps₁ _ hfree))).right
    refine Emits.mono ?_ (fun _ => List.mem_append_right _)
    refine (h₂.emits hfits hrec.right.left hsize (List.nodup_append.mp hnodup).1 hfree₃.left hinside
      ht₃).bind fun _ s₄ hgrows ht₄ => ?_
    refine (emits_emit leave ht₄ fun _ => rfl).next ?_
    rintro address' s₅ hkeeps₅ ⟨haddress', ht₅⟩
    rw [haddress, haddress']
    -- the first jump goes behind the second, which stands between the two branches
    refine (emits_patch (full ++ test) skip (taken ++ [leave]) ht₅ (by simp [taken]) rfl hotherwise rfl).next
      fun _ s₆ hkeeps₆ ht₆ => ?_
    have hfree₆ := hkeeps₆ _ (hkeeps₅ _ (hgrows.free_right hnodup hfree₃))
    refine (h₃.emits hfits hrec.right.right hsize (List.nodup_append.mp hnodup).2.1 hfree₆ hotherwise'
      ht₆).last fun _ s₇ ht₇ => ?_
    refine (emits_patch (full ++ test ++ skip' :: taken) leave other ht₇ (by simp [other])
      (by simp [taken]) (by rw [List.length_append, hotherwise']) rfl).imp fun _ t ht => ?_
    rw [List.append_assoc (full ++ test)] at ht
    exact ht
  | @WellTyped.while_ _ _ _ condition body _ _ h₁ h₂, L, sizes, full, s, start, hfits, hrec, hsize,
      hnodup, hfree, hstart, ht => by
    let enter := Instruction.jump unknownTarget
    let loop := body.code cx.links (cappedTarget limit) L (start + 1)
    have htop : (full ++ [enter]).length = start + 1 := by simp [hstart]
    rw [Command.generate, Command.code]
    refine (emits_visit _ ht).next fun _ s₁ hkeeps₁ ht₁ => ?_
    refine (emits_emit enter ht₁ fun _ => rfl).next ?_
    rintro address s₂ hkeeps₂ ⟨haddress, ht₂⟩
    refine (emits_nextAddress ht₂).next ?_
    rintro top s₃ hkeeps₃ ⟨htop', ht₃⟩
    have hfree₃ := (hkeeps₃ _ (hkeeps₂ _ (hkeeps₁ _ hfree))).right
    refine Emits.mono ?_ (fun _ => List.mem_append_right _)
    refine (h₂.emits hfits hrec.right hsize (List.nodup_append.mp hnodup).2.1 hfree₃ htop ht₃).last
      fun _ s₄ ht₄ => ?_
    rw [haddress, htop', htop]
    refine (emits_patch full enter loop ht₄ (List.append_assoc _ _ _) rfl
      (by rw [List.length_append, htop]) rfl).next fun _ s₅ _ ht₅ => ?_
    refine (h₁.emits hfits ht₅).next fun _ s₆ _ ht₆ => ?_
    refine (emits_discard _ ht₆ fun _ => rfl).imp fun _ t ht => ?_
    rw [List.append_assoc, List.append_assoc] at ht
    exact ht
  | .for_ h₁ h₂ h₃, L, sizes, full, s, start, hfits, hrec, hsize, hnodup, hfree, hstart, ht => by
    have hrec' : Records cx _ := fun p hp => hrec p (List.mem_cons_of_mem _ hp)
    refine emits_for h₁ h₂ hfits hsize hnodup hfree hstart ht fun hfits' hsize' hnodup' hfree' hstart' ht' => ?_
    exact h₃.emits hfits' hrec'.right.right hsize' hnodup' hfree' hstart' ht'
  | @WellTyped.let_ _ _ _ _ declaration body _ _ h₁ h₂, L, sizes, full, s, start, hfits, hrec, hsize,
      hnodup, hfree, hstart, ht => by
    let init := declarationsCode cx.links L declaration.parts
    have hnodup₁ := (List.nodup_append.mp hnodup).1
    have hnew := (ht.unplaced hfree).mono fun _ => List.mem_append_left _
    have hinit : (full ++ init).length = start + init.length := by rw [List.length_append, hstart]
    rw [Command.generate, Command.code, ← List.append_assoc, ← List.append_assoc]
    refine (emits_visit _ ht).next fun _ s₁ hkeeps₁ ht₁ => ?_
    refine (emits_openScope ht₁).next fun _ s₂ hkeeps₂ ht₂ => ?_
    have hfree₂ := hkeeps₂ _ (hkeeps₁ _ hfree)
    refine (h₁.emits hfits hrec.left (by omega) hnodup₁ hfree₂.left ht₂).bind ?_
    rintro _ s₃ hgrows ⟨size, hsize', ht₃⟩
    refine (h₂.emits (h₁.fits hfits hnodup₁ hnew) hrec.right (by rw [hsize', Storage.total_cons])
      (List.nodup_append.mp hnodup).2.1 (hgrows.free_right hnodup hfree₂) hinit ht₃).last
      fun _ s₄ ht₄ => ?_
    have hlocal : (layoutAfterDeclarations L declaration.parts).size - L.size = size := by omega
    rw [hlocal]
    exact emits_closeScope ht₄ (extends_layoutAfterDeclarations hnew)
  | .sequential h, L, sizes, full, s, start, hfits, hrec, hsize, hnodup, hfree, hstart, ht => by
    rw [Command.generate, Command.code]
    refine (emits_visit _ ht).next fun _ s₁ hkeeps₁ ht₁ => ?_
    exact h.emits hfits hrec hsize hnodup (hkeeps₁ _ hfree) hstart ht₁

theorem AllWellTyped.emits {cx : Context} {limit : Nat} {Γ : Environment} {cs : List Command}
    {ds : Decoration} : AllWellTyped cx.links Γ cs ds → ∀ {L : Layout} {sizes : List Nat}
      {full : List Instruction} {s : Generation.State} {start : Nat}, L.Fits Γ → Records cx ds →
      L.size = Storage.total sizes → (commandIds cs).Nodup → s.entities.Free (commandIds cs) →
      full.length = start → Tracks limit L.place? sizes full s →
      Emits (generateCommands cx cs) s (commandIds cs) fun _ t =>
        Tracks limit L.place? sizes (full ++ commandsCode cx.links (cappedTarget limit) L start cs) t
  | .nil, L, sizes, full, s, start, _, _, _, _, _, _, ht => by
    rw [generateCommands, commandsCode, List.append_nil]
    exact Emits.pure ht
  | .cons h₁ h₂, L, sizes, full, s, start, hfits, hrec, hsize, hnodup, hfree, hstart, ht => by
    rw [generateCommands, commandsCode, ← List.append_assoc]
    refine (h₁.emits hfits hrec.left hsize (List.nodup_append.mp hnodup).1 hfree.left hstart ht).bind
      fun _ t hgrows ht => ?_
    exact h₂.emits hfits hrec.right hsize (List.nodup_append.mp hnodup).2.1
      (hgrows.free_right hnodup hfree) (by rw [List.length_append, hstart]) ht

end

end Typing

/-! ### Programs -/

theorem Generation.tracks_start (p : Program) {code : Code} (hcode : code.instructions = #[]) :
    Tracks code.limit Layout.empty.place? [] [] (.start p code) where
  limit_eq := rfl
  overflowed := rfl
  depth := rfl
  storage _ := rfl
  room := Nat.le_refl _
  entities _ _ h := by cases h
  clean _ := rfl
  tooLarge h := absurd h (Nat.not_lt_zero _)
  reports := Reports.refl _ _
  code := by
    show code.instructions.toList = _
    rw [hcode, List.take_nil]

/-- The generation of code for a well-typed program ends. If there is room for the code of the program,
    this is what was generated; otherwise it is cut off at the limit, and errors are reported. -/
theorem Program.generate_ends {p : Program} {cx : Context} {ds : Decoration} {code : Code}
    (hids : Parser.Counted p.command.ids 0 p.nodeCount) (h : WellTyped cx.links .empty p.command ds)
    (hrec : Records cx ds) (hcode : code.instructions = #[]) :
    ∃ t, (p.generate cx).finalState (.start p code) = .ok t ∧
      Tracks code.limit Layout.empty.place? [] (p.fullCode cx.links (cappedTarget code.limit)) t := by
  have hfree : (NodeTable.empty p.nodeCount : NodeTable Entity).Free p.command.ids :=
    NodeTable.free_empty fun id hid => hids.lt hid
  have hcommand := h.emits (Layout.fits_empty .empty) hrec rfl hids.nodup hfree rfl
    (tracks_start p hcode)
  obtain ⟨_, t, hok, -, ht⟩ := hcommand.last fun _ t ht => emits_discard .halt ht fun _ => rfl
  exact ⟨t, by rw [Program.generate, Pass.finalState, hok], ht⟩

end TriangleCompiler
