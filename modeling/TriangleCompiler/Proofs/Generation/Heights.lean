import TriangleCompiler.Proofs.Generation.Preservation
import TriangleCompiler.Proofs.Machine.StackHeight

/-! The height of the stack in the code of well-typed phrases. An expression leaves one word more than it
    found, a declaration as many as its layout has more, and a command none. The jumps of a command land
    inside it or right behind it, at the height that they leave. -/

namespace TriangleCompiler

open Generation Machine
open Typing

namespace Machine

variable {P : Word → Nat → Prop} {h h' h'' k start : Nat} {is js : List Instruction} {v w : Word}

/-! ### Single instructions -/

theorem flows_loadLiteral (w : Word) : Flows P h [.loadLiteral w] (h + 1) :=
  .single h 0 1 rfl (.of_contains rfl) rfl

theorem flows_push : Flows P h [.push 1] (h + 1) :=
  .single h 0 1 rfl (.of_contains rfl) rfl

theorem flows_pop (hle : h' ≤ h) (hroom : h - h' ≤ Word.max) :
    Flows P h [.pop (Int16.ofNat (h - h'))] h' := by
  have heffect : (Instruction.pop (Int16.ofNat (h - h'))).effect? = some (h - h', 0) := by
    simp [Instruction.effect?, Instruction.pop, Word.index?_ofNat hroom]
  have hpop := Flows.single (P := P) h' (h - h') 0 heffect (.of_contains rfl) rfl
  rwa [Nat.add_sub_cancel' hle] at hpop

theorem flows_call {p : Primitive} {c : Convention} (hp : p.convention = c) :
    Flows P (h + c.effect.1) [.call p] (h + c.effect.2) := by
  refine .single h _ _ ?_ (.of_contains rfl) rfl
  simp only [Instruction.effect?, Instruction.call, ofNumber?_number, Option.map_some, hp]

theorem flows_loadSlot (hk : k ≤ Word.max) (hlt : k < h) : Flows P h [loadSlot k] (h + 1) :=
  .single h 0 1 rfl ⟨fun _ => ⟨k, Word.index?_ofNat hk, hlt⟩, nofun⟩ rfl

theorem flows_loadAddress (hk : k ≤ Word.max) (hlt : k < h) :
    Flows P h [⟨.loadAddress, .sb, 0, Int16.ofNat k⟩] (h + 1) :=
  .single h 0 1 rfl ⟨fun _ => ⟨k, Word.index?_ofNat hk, hlt⟩, nofun⟩ rfl

theorem flows_storeSlot (hk : k ≤ Word.max) (hlt : k < h) : Flows P (h + 1) [storeSlot k] h :=
  .single h 1 0 rfl ⟨(by rintro (hop | hop) <;> cases hop),
    fun _ => ⟨k, Word.index?_ofNat hk, hlt⟩⟩ rfl

theorem Flows.jump (hw : P w h) (hf : Flows P h is h') : Flows P h (.jump w :: is) h' :=
  @Flows.cons P h h' 0 0 _ _ rfl (.of_contains rfl) (fun _ => hw) hf

theorem Flows.jumpIf (hw : P w h) (hf : Flows P h is h') : Flows P (h + 1) (.jumpIf v w :: is) h' :=
  @Flows.cons P h h' 1 0 _ _ rfl (.of_contains rfl) (fun _ => hw) hf

/-! ### Code with jumps -/

/-- A part of some code whose jumps land in it. -/
theorem Flows.within {start' : Nat} {whole : List Instruction} (hf : Flows (Lands start' h is) h is h')
    (pre post : List Instruction) (hwhole : whole = pre ++ (is ++ post)) (hstart : start' = start + pre.length)
    (hpre : heightAfter h'' pre = h) : Flows (Lands start h'' whole) h is h' := by
  subst hwhole hstart hpre
  exact hf.mono fun w n => Lands.within

/-- Two pieces of code, one behind the other. -/
theorem Flows.seq (hf : Flows (Lands start h is) h is h')
    (hf' : Flows (Lands (start + is.length) h' js) h' js h'') :
    Flows (Lands start h (is ++ js)) h (is ++ js) h'' :=
  (hf.within [] js rfl rfl rfl).append (hf'.within is [] (by simp) rfl hf.heightAfter_eq)

/-- The same code, wherever its jumps land. -/
theorem Flows.free (hf : Flows P h is h') : Flows (fun _ _ => True) h is h' :=
  hf.mono fun _ _ _ => trivial

section Jumps
variable {target : Nat → Word} {test taken other loop : List Instruction}
  (htarget : ∀ a ≤ Word.max, (target a).index? = some a)
include htarget

/-- A jump behind the first part of some code. -/
theorem Flows.lands (hf : Flows P h is h') (js : List Instruction) {a : Nat} (ha : a = start + is.length)
    (hroom : a ≤ Word.max) : Lands start h (is ++ js) (target a) h' :=
  ⟨is, js, rfl, ha ▸ htarget a hroom, hf.heightAfter_eq⟩

/-- Skips instructions unless a test succeeds. -/
theorem flows_ifThen (start : Nat) (htest : ∀ P, Flows P h test (h + 1))
    (htaken : Flows (Lands (start + test.length + 1) h taken) h taken h)
    (hroom : start + test.length + 1 + taken.length ≤ Word.max) :
    let code := test ++ .jumpIf v (target (start + test.length + 1 + taken.length)) :: taken
    Flows (Lands start h code) h code h := by
  intro code
  let skip := Instruction.jumpIf v (target (start + test.length + 1 + taken.length))
  have hbefore : Flows (fun _ _ => True) h (test ++ [skip]) h := (htest _).append (.jumpIf trivial .nil)
  have hcode : code = test ++ [skip] ++ taken := by simp [code, skip]
  have hend : Lands start h code (target (start + test.length + 1 + taken.length)) h := by
    rw [hcode, ← List.append_nil (test ++ [skip] ++ taken)]
    exact (hbefore.append htaken.free).lands htarget [] (by simp; omega) hroom
  refine (htest _).append (.jumpIf hend (htaken.within (test ++ [skip]) [] ?_ ?_ hbefore.heightAfter_eq))
  · simp [hcode]
  · simp [Nat.add_assoc]

/-- Goes on with one of two pieces of code. -/
theorem flows_ifElse (start : Nat) (htest : ∀ P, Flows P h test (h + 1))
    (htaken : Flows (Lands (start + test.length + 1) h taken) h taken h)
    (hother : Flows (Lands (start + test.length + 1 + taken.length + 1) h other) h other h)
    (hroom : start + test.length + 1 + taken.length + 1 + other.length ≤ Word.max) :
    let otherwise := start + test.length + 1 + taken.length + 1
    let code := test ++ .jumpIf v (target otherwise) ::
      (taken ++ .jump (target (otherwise + other.length)) :: other)
    Flows (Lands start h code) h code h := by
  intro otherwise code
  let skip := Instruction.jumpIf v (target otherwise)
  let leave := Instruction.jump (target (otherwise + other.length))
  have hbefore : Flows (fun _ _ => True) h (test ++ [skip]) h := (htest _).append (.jumpIf trivial .nil)
  have hbetween : Flows (fun _ _ => True) h (test ++ [skip] ++ (taken ++ [leave])) h :=
    hbefore.append (htaken.free.append (.jump trivial .nil))
  have hcode : code = test ++ [skip] ++ (taken ++ [leave]) ++ other := by simp [code, skip, leave]
  have hskip : Lands start h code (target otherwise) h := by
    rw [hcode]
    exact hbetween.lands htarget other (by simp [otherwise]; omega) (by omega)
  have hleave : Lands start h code (target (otherwise + other.length)) h := by
    rw [hcode, ← List.append_nil (test ++ [skip] ++ (taken ++ [leave]) ++ other)]
    exact (hbetween.append hother.free).lands htarget [] (by simp [otherwise]; omega) hroom
  have htaken' : Flows (Lands start h code) h taken h := htaken.within (test ++ [skip]) (leave :: other)
    (by simp [hcode]) (by simp [Nat.add_assoc]) hbefore.heightAfter_eq
  have hother' : Flows (Lands start h code) h other h :=
    hother.within (test ++ [skip] ++ (taken ++ [leave])) [] (by simp [hcode]) (by simp; omega)
      hbetween.heightAfter_eq
  exact (htest _).append (.jumpIf hskip (htaken'.append (.jump hleave hother')))

/-- Goes through code again and again until a test fails; the test comes first. -/
theorem flows_while (start : Nat) (htest : ∀ P, Flows P h test (h + 1))
    (hloop : Flows (Lands (start + 1) h loop) h loop h)
    (hroom : start + 1 + loop.length ≤ Word.max) :
    let code := .jump (target (start + 1 + loop.length)) ::
      (loop ++ (test ++ [Instruction.jumpIf v (target (start + 1))]))
    Flows (Lands start h code) h code h := by
  intro code
  let enter := Instruction.jump (target (start + 1 + loop.length))
  have henter : Flows (fun _ _ => True) h [enter] h := .jump trivial .nil
  have hcode : code = [enter] ++ loop ++ (test ++ [Instruction.jumpIf v (target (start + 1))]) := by
    simp [code, enter]
  have hbottom : Lands start h code (target (start + 1 + loop.length)) h := by
    rw [hcode]
    exact (henter.append hloop.free).lands htarget _ (by simp; omega) hroom
  have htop : Lands start h code (target (start + 1)) h := by
    rw [hcode, List.append_assoc]
    exact henter.lands htarget _ rfl (by omega)
  have hloop' : Flows (Lands start h code) h loop h :=
    hloop.within [enter] (test ++ [Instruction.jumpIf v (target (start + 1))]) (by simp [hcode]) rfl
      henter.heightAfter_eq
  exact .jump hbottom (hloop'.append ((htest _).append (.jumpIf htop .nil)))

/-- Counts a word on the stack up and goes through code each time, as long as a test succeeds. -/
theorem flows_for (start : Nat) {first last body : List Instruction}
    (hfirst : ∀ P, Flows P (h + 1) first (h + 2)) (hlast : ∀ P, Flows P (h + 2) last (h + 3))
    (hh : h ≤ Word.max) :
    let init := Instruction.push 1 :: (first ++ [storeSlot h])
    let top := start + init.length + 1
    let loop := body ++ [loadSlot h, .call .succ, storeSlot h]
    let code := init ++ .jump (target (top + loop.length)) ::
      (loop ++ loadSlot h :: (last ++ [Instruction.call .le, .jumpIf v (target top), .pop (Int16.ofNat 1)]))
    Flows (Lands top (h + 1) body) (h + 1) body (h + 1) → top + loop.length ≤ Word.max →
      Flows (Lands start h code) h code h := by
  intro init top loop code hbody hroom
  have hinit : ∀ P, Flows P h init (h + 1) := fun P =>
    flows_push.append ((hfirst P).append (flows_storeSlot hh (Nat.lt_succ_self h)))
  have hcount : ∀ P, Flows P (h + 1) [loadSlot h, .call .succ, storeSlot h] (h + 1) := fun P =>
    (flows_loadSlot hh (Nat.lt_succ_self h)).append
      ((flows_call (h := h + 1) (c := .function 1) rfl).append (flows_storeSlot hh (Nat.lt_succ_self h)))
  have htest : ∀ P, Flows P (h + 1) (loadSlot h :: (last ++ [Instruction.call .le])) (h + 2) := fun P =>
    (flows_loadSlot hh (Nat.lt_succ_self h)).append
      ((hlast P).append (flows_call (h := h + 1) (c := .function 2) rfl))
  have hpop : ∀ P, Flows P (h + 1) [.pop (Int16.ofNat 1)] h := fun P => by
    have hone : h + 1 - h = 1 := Nat.add_sub_cancel_left h 1
    have hpop := @flows_pop P (h + 1) h (Nat.le_succ h) (by rw [hone]; decide)
    rwa [hone] at hpop
  have hwhile := flows_while (v := v) htarget (start + init.length) htest (hbody.seq (hcount _)) hroom
  have hcode : code = init ++ (.jump (target (top + loop.length)) ::
      (loop ++ (loadSlot h :: (last ++ [Instruction.call .le]) ++ [Instruction.jumpIf v (target top)])) ++
        [Instruction.pop (Int16.ofNat 1)]) := by
    simp [code]
  rw [hcode]
  exact (hinit _).seq (hwhile.seq (hpop _))

end Jumps

end Machine

namespace Typing

variable {P : Word → Nat → Prop} {h : Nat} {links : Resolution} {Γ Γ' : Environment} {L : Layout}

/-! ### Phrases without jumps -/

theorem flows_load_place {p : Place} {id : NodeId} (hp : L.place? id = some p) (hsize : L.size ≤ Word.max)
    (hh : L.size ≤ h) : Flows P h [p.entity.load] (h + 1) := by
  cases p with
  | known value => exact flows_loadLiteral value
  | slot assignable k =>
    have hk := Layout.lt_size hp
    have hload : (Place.slot assignable k).entity.load = loadSlot k := by cases assignable <;> rfl
    rw [hload]
    exact flows_loadSlot (by omega) (by omega)

mutual

/-- The code of an expression pushes one word. -/
theorem HasType.flows {links : Resolution} {Γ : Environment} {L : Layout} {e : Expr} {type : SimpleType}
    {ds : Decoration} : HasType links Γ e type ds → L.Fits Γ → L.size ≤ Word.max →
      ∀ {P : Word → Nat → Prop} {h : Nat}, L.size ≤ h → Flows P h (e.code links L) (h + 1)
  | .int hint hlo hhi, _, _, P, h, _ => by
    rw [Expr.code, intValue?_eq hint hlo hhi]
    exact flows_loadLiteral _
  | .char hchar, _, _, P, h, _ => by
    rw [Expr.code, charValue?_eq hchar]
    exact flows_loadLiteral _
  | .truth hlink hkind, _, _, P, h, _ => by
    rw [Expr.code, loadCode_constant hlink hkind]
    exact flows_loadLiteral _
  | .declared hlink hΓ, hfits, hsize, P, h, hh => by
    obtain ⟨-, p, hp⟩ := hfits _ _ hΓ
    rw [Expr.code, loadCode_located hlink hp]
    cases hp with
    | const hid => exact flows_load_place hid hsize hh
    | var hid => exact flows_load_place hid hsize hh
  | .call hlink hkind hresult ha, hfits, hsize, P, h, hh => by
    obtain ⟨hp, -⟩ := Builtin.convention_of_function hkind hresult
    rw [Expr.code, callCode_eq hlink (congrArg Builtin.Kind.primitive? hkind)]
    exact (ha.flows hfits hsize hh).append (flows_call hp)
  | .unary hlink hkind he, hfits, hsize, P, h, hh => by
    have hp := Builtin.convention_of_unary hkind
    rw [Expr.code, callCode_eq hlink (congrArg Builtin.Kind.primitive? hkind)]
    exact (he.flows hfits hsize hh).append (flows_call hp)
  | .binary hlink htakes hl hr, hfits, hsize, P, h, hh => by
    obtain ⟨p, _, _, hkind⟩ := htakes.exists_primitive
    have hp := Builtin.convention_of_binary hkind
    rw [Expr.code, callCode_eq hlink (congrArg Builtin.Kind.primitive? hkind)]
    exact (hl.flows hfits hsize hh).append ((hr.flows hfits hsize (by omega)).append (flows_call hp))

/-- The code of an argument pushes a word if there is one. -/
theorem Accepts.flows {links : Resolution} {Γ : Environment} {L : Layout} {formal : Option Builtin.Formal}
    {a : Argument} {ds : Decoration} : Accepts links Γ formal a ds → L.Fits Γ → L.size ≤ Word.max →
      ∀ {P : Word → Nat → Prop} {h : Nat}, L.size ≤ h →
        Flows P h (a.code links L) (h + formal.toList.length)
  | .none, _, _, P, h, _ => by
    rw [Argument.code]
    exact .nil
  | .value he, hfits, hsize, P, h, hh => by
    rw [Argument.code]
    exact he.flows hfits hsize hh
  | .reference hlink hΓ, hfits, hsize, P, h, hh => by
    obtain ⟨-, p, hp⟩ := hfits _ _ hΓ
    cases hp with
    | var hid =>
      have hk := Layout.lt_size hid
      rw [Argument.code, placeCode_var hlink hid]
      exact flows_loadAddress (by omega) (by omega)

end

theorem Declares.flows {d : SingleDeclaration} {ds : Decoration} (hd : Declares links Γ d Γ' ds)
    (hfits : L.Fits Γ) (hsize : L.size ≤ Word.max) :
    Flows P L.size (d.code links L) (d.layoutAfter L).size := by
  cases hd with
  | const he =>
    simp only [SingleDeclaration.code, SingleDeclaration.layoutAfter]
    split
    · exact .nil
    · exact he.flows hfits hsize (Nat.le_refl _)
  | var => exact flows_push

theorem DeclaresAll.flows {parts : List SingleDeclaration} {ds : Decoration}
    (hds : DeclaresAll links Γ parts Γ' ds) (hfits : L.Fits Γ) (hnodup : (declarationIds parts).Nodup)
    (hnew : L.Unplaced (declarationIds parts))
    (hroom : L.size + (declarationsCode links L parts).length ≤ Word.max) :
    Flows P L.size (declarationsCode links L parts) (layoutAfterDeclarations L parts).size := by
  induction hds generalizing L with
  | nil => exact .nil
  | cons hd _ ih =>
    simp only [declarationsCode, List.length_append] at hroom ⊢
    have hsize := hd.size_le hfits
    refine (hd.flows hfits (by omega)).append (ih ?_ (List.nodup_append.mp hnodup).2.1 ?_ (by omega))
    · exact hd.fits hfits (hnew.mono fun _ => List.mem_append_left _)
    · exact (hnew.mono fun _ => List.mem_append_right _).layoutAfter hnodup

/-! ### Commands -/

/-- The code of a call of a procedure leaves the stack as high as it was. -/
theorem flows_procedure {callee : Name} {a : Argument} {b : Builtin} {p : Primitive}
    {formal : Option Builtin.Formal} {ds : Decoration} (hlink : links.get? callee.id = some (.builtin b))
    (hkind : b.kind = .routine p .void formal) (ha : Accepts links Γ formal a ds) (hfits : L.Fits Γ)
    (hsize : L.size ≤ Word.max) :
    Flows P L.size (a.code links L ++ callCode links callee) L.size := by
  have hp := Builtin.convention_of_procedure hkind
  rw [callCode_eq hlink (congrArg Builtin.Kind.primitive? hkind)]
  refine (ha.flows hfits hsize (Nat.le_refl _)).append ?_
  cases ha with
  | none => exact flows_call hp
  | value => exact flows_call hp
  | reference => exact flows_call hp

mutual

/-- The code of a command leaves the stack as high as it was, and its jumps land in it. -/
theorem WellTyped.flows {links : Resolution} {target : Nat → Word}
    (htarget : ∀ a ≤ Word.max, (target a).index? = some a) {Γ : Environment} {c : Command}
    {ds : Decoration} : WellTyped links Γ c ds → ∀ {L : Layout} (start : Nat), L.Fits Γ → c.ids.Nodup →
      L.Unplaced c.ids → L.size ≤ start → start + (c.code links target L start).length ≤ Word.max →
      Flows (Lands start L.size (c.code links target L start)) L.size (c.code links target L start) L.size
  | .assign hlink hΓ he, L, start, hfits, _, _, hsize, hroom => by
    obtain ⟨-, p, hp⟩ := hfits _ _ hΓ
    cases hp with
    | var hid =>
      have hk := Layout.lt_size hid
      rw [Command.code, placeCode_var hlink hid] at hroom ⊢
      exact (he.flows hfits (by omega) (Nat.le_refl _)).append (flows_storeSlot (by omega) hk)
  | .blank, L, start, _, _, _, _, _ => by
    rw [Command.code]
    exact .nil
  | .call hlink hkind ha, L, start, hfits, _, _, hsize, hroom => by
    rw [Command.code]
    exact flows_procedure hlink hkind ha hfits (by omega)
  | .ifThen h₁ h₂, L, start, hfits, hnodup, hnew, hsize, hroom => by
    simp only [Command.code, List.length_append, List.length_cons] at hroom ⊢
    refine flows_ifThen htarget start (fun P => h₁.flows hfits (by omega) (Nat.le_refl _)) ?_ (by omega)
    exact h₂.flows htarget _ hfits (List.nodup_append.mp hnodup).2.1
      (hnew.mono fun _ => List.mem_append_right _) (by omega) (by omega)
  | .ifElse h₁ h₂ h₃, L, start, hfits, hnodup, hnew, hsize, hroom => by
    simp only [Command.code, List.length_append, List.length_cons] at hroom ⊢
    obtain ⟨-, hnodup, -⟩ := List.nodup_append.mp hnodup
    have hnew := hnew.mono fun _ => List.mem_append_right _
    refine flows_ifElse htarget start (fun P => h₁.flows hfits (by omega) (Nat.le_refl _)) ?_ ?_ (by omega)
    · exact h₂.flows htarget _ hfits (List.nodup_append.mp hnodup).1
        (hnew.mono fun _ => List.mem_append_left _) (by omega) (by omega)
    · exact h₃.flows htarget _ hfits (List.nodup_append.mp hnodup).2.1
        (hnew.mono fun _ => List.mem_append_right _) (by omega) (by omega)
  | .while_ h₁ h₂, L, start, hfits, hnodup, hnew, hsize, hroom => by
    simp only [Command.code, List.length_append, List.length_cons] at hroom ⊢
    refine flows_while htarget start (fun P => h₁.flows hfits (by omega) (Nat.le_refl _)) ?_ (by omega)
    exact h₂.flows htarget _ hfits (List.nodup_append.mp hnodup).2.1
      (hnew.mono fun _ => List.mem_append_right _) (by omega) (by omega)
  | @WellTyped.for_ _ _ position counter first last body _ _ _ h₁ h₂ h₃, L, start, hfits, hnodup, hnew,
      hsize, hroom => by
    have hids := within_for position counter first last body
    have hnodup' := hids.nodup hnodup
    have hnew' := hnew.mono fun _ => hids.mem
    have hfits' := hfits.counter (hnew' _ List.mem_cons_self)
    have hinner : (L.allocate counter.id true).size = L.size + 1 := rfl
    simp only [Command.code] at hroom ⊢
    have hlength := hroom
    simp only [List.length_append, List.length_cons, List.length_nil] at hlength
    refine flows_for htarget start (fun P => h₁.flows hfits' (by omega) (Nat.le_refl _))
      (fun P => h₂.flows hfits' (by omega) (by omega)) (by omega) (h₃.flows htarget _ hfits'
        (List.nodup_cons.mp hnodup').2 (hnew'.allocate hnodup' true) ?_ ?_) ?_
    all_goals
      simp only [hinner, List.length_append, List.length_cons, List.length_nil]
      omega
  | @WellTyped.let_ _ _ _ _ declaration body _ _ h₁ h₂, L, start, hfits, hnodup, hnew, hsize, hroom => by
    obtain ⟨hdeclared, hbody, -⟩ := List.nodup_append.mp hnodup
    have hnew₁ : L.Unplaced (declarationIds declaration.parts) :=
      hnew.mono fun _ => List.mem_append_left _
    have hnew₂ := (hnew.mono fun _ => List.mem_append_right _).layoutAfterDeclarations hnodup
    have hgrowth := h₁.size_le hfits hdeclared hnew₁
    simp only [Command.code, List.length_append, ← Nat.add_assoc] at hroom ⊢
    have hinside := h₂.flows htarget (start + (declarationsCode links L declaration.parts).length)
      (h₁.fits hfits hdeclared hnew₁) hbody hnew₂ (by omega) (by omega)
    exact (h₁.flows hfits hdeclared hnew₁ (by omega)).seq
      (hinside.seq (flows_pop hgrowth.1 (by omega)))
  | .sequential h, L, start, hfits, hnodup, hnew, hsize, hroom => by
    simp only [Command.code] at hroom ⊢
    exact h.flows htarget _ hfits hnodup hnew hsize hroom

theorem AllWellTyped.flows {links : Resolution} {target : Nat → Word}
    (htarget : ∀ a ≤ Word.max, (target a).index? = some a) {Γ : Environment} {parts : List Command}
    {ds : Decoration} : AllWellTyped links Γ parts ds → ∀ {L : Layout} (start : Nat), L.Fits Γ →
      (commandIds parts).Nodup → L.Unplaced (commandIds parts) → L.size ≤ start →
      start + (commandsCode links target L start parts).length ≤ Word.max →
      Flows (Lands start L.size (commandsCode links target L start parts)) L.size
        (commandsCode links target L start parts) L.size
  | .nil, L, start, _, _, _, _, _ => by
    rw [commandsCode]
    exact .nil
  | .cons h hrest, L, start, hfits, hnodup, hnew, hsize, hroom => by
    obtain ⟨hfirst, hothers, -⟩ := List.nodup_append.mp hnodup
    simp only [commandsCode, List.length_append] at hroom ⊢
    have hc := h.flows htarget _ hfits hfirst (hnew.mono fun _ => List.mem_append_left _) hsize (by omega)
    exact hc.seq (hrest.flows htarget _ hfits hothers (hnew.mono fun _ => List.mem_append_right _) (by omega)
      (by omega))

end

end Typing

end TriangleCompiler
