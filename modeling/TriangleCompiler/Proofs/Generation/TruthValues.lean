import TriangleCompiler.Proofs.Generation.Correctness
import TriangleCompiler.Proofs.Generation.Listing
import TriangleCompiler.Proofs.Typing.Completeness

/-! Well-typed phrases keep to their types while they run. Each of them is safe if the code behind it is, so
    they are taken from the last one to the first. -/

namespace TriangleCompiler

open Evaluation Generation Machine
open Typing

/-! ### Built-in routines -/

namespace Builtin

variable {σ : Type} {I : Interpretation σ} {b : Builtin} {p : Primitive} {type result : SimpleType}
  {formal : Option Formal} {operands : List Word} {io : σ} {r : Word × σ}

theorem admits_constant {value : Word} (h : b.kind = .constant type value) : type.Admits value := by
  cases b <;> cases h
  · exact Word.isTruth_ofBool true
  · exact Word.isTruth_ofBool false

theorem admits_unary (hI : I.Truthful) (h : b.kind = .unary p type result) {w : Word} (hw : type.Admits w)
    (hr : I p [w] io = some r) : result.Admits r.1 := by
  cases b <;> cases h
  exact hI.negation w io r hw hr

theorem admits_binary (hI : I.Truthful) {lhs rhs : SimpleType} (h : b.kind = .binary p lhs rhs result)
    {v w : Word} (hr : I p [v, w] io = some r) : result.Admits r.1 := by
  cases b <;> cases h
  case less | greater | equal => exact hI.comparison _ (by decide) v w io r hr
  all_goals trivial

theorem admits_function (hI : I.Truthful) (h : b.kind = .routine p result formal) (hresult : result ≠ .void)
    (hlength : operands.length = formal.toList.length) (hr : I p operands io = some r) :
    result.Admits r.1 := by
  cases b <;> cases h
  case eof | eol =>
    obtain rfl := List.length_eq_zero_iff.mp hlength
    exact hI.ending _ (by decide) io r hr
  case chr | ord => trivial
  all_goals exact absurd rfl hresult

theorem ne_not_of_routine (h : b.kind = .routine p result formal) : p ≠ .not := by
  cases b <;> cases h <;> decide

theorem ne_not_of_binary {lhs rhs : SimpleType} (h : b.kind = .binary p lhs rhs result) : p ≠ .not := by
  cases b <;> cases h <;> decide

theorem eq_boolean_of_unary (h : b.kind = .unary p type result) : type = .boolean := by
  cases b <;> cases h
  rfl

/-- No truth value is read from the input. -/
theorem admits_of_reference (h : b.kind = .routine p .void (some ⟨type, true⟩)) (w : Word) :
    type.Admits w := by
  cases b <;> cases h <;> trivial

end Builtin

/-! ### Expressions -/

namespace Typing

/-- What is declared has a place under the number that has its type. -/
theorem Environment.RecordedIn.exists_place {Γ : Environment} {types : Types} {L : Layout} {link : Link}
    {type : SimpleType} {p : Place} (h : Γ.RecordedIn types) (hΓ : Γ link = some type)
    (hp : L.Locates link p) : ∃ id, L.place? id = some p ∧ types.get? id = some type := by
  obtain ⟨id, hid, htype⟩ := h link type hΓ
  cases hp with
  | const hplace =>
    rcases hid with h | h <;> cases h
    exact ⟨id, hplace, htype⟩
  | var hplace =>
    rcases hid with h | h <;> cases h
    exact ⟨id, hplace, htype⟩

mutual

/-- The code of an expression pushes a value of its type. -/
theorem HasType.safe {σ : Type} {I : Interpretation σ} {l : Listing} {n : Nat} {links : Resolution}
    {Γ : Environment} {L : Layout} {store : Store} {e : Expr} {type : SimpleType} {ds : Decoration} :
      HasType links Γ e type ds → I.Truthful → Γ.RecordedIn l.types → L.Fits Γ → L.size ≤ Word.max →
      Agrees l.types store → ∀ {start : Nat} {stack : List Word} {io : σ},
      l.Stands L start (e.code links L) → L.Holds store stack →
      (∀ w io, type.Admits w →
        Safe I l.code l.Sound n ⟨start + (e.code links L).length, stack ++ [w], io⟩) →
      Safe I l.code l.Sound n ⟨start, stack, io⟩
  | .int h hlo hhi, _, _, _, _, hagrees, start, stack, io, hat, hholds, hnext => by
    simp only [Expr.code, literalCode, intValue?_eq h hlo hhi] at hat hnext
    exact safe_literal hat hholds hagrees (hnext _ _ trivial)
  | .char h, _, _, _, _, hagrees, start, stack, io, hat, hholds, hnext => by
    simp only [Expr.code, literalCode, charValue?_eq h] at hat hnext
    exact safe_literal hat hholds hagrees (hnext _ _ trivial)
  | .truth hlink hkind, _, _, _, _, hagrees, start, stack, io, hat, hholds, hnext => by
    simp only [Expr.code, loadCode_constant hlink hkind] at hat hnext
    exact safe_literal hat hholds hagrees (hnext _ _ (Builtin.admits_constant hkind))
  | .declared hlink hΓ, _, hrec, hfits, hsize, hagrees, start, stack, io, hat, hholds, hnext => by
    obtain ⟨-, p, hp⟩ := hfits _ _ hΓ
    simp only [Expr.code, loadCode_located hlink hp] at hat hnext
    obtain ⟨id, hid, htype⟩ := hrec.exists_place hΓ hp
    exact safe_load hat hsize hid hholds hagrees (hnext _ _ (hagrees id _ htype))
  | .call hlink hkind hresult ha, hI, hrec, hfits, hsize, hagrees, start, stack, io, hat, hholds, hnext => by
    obtain ⟨hp, hvalue⟩ := Builtin.convention_of_function hkind hresult
    simp only [Expr.code, callCode_eq hlink (congrArg Builtin.Kind.primitive? hkind)] at hat hnext
    refine ha.safe hvalue hI hrec hfits hsize hagrees hat.left hholds fun operands io hlength => ?_
    rw [← hlength] at hp
    refine safe_call hat.right (callPrimitive?_function hp)
      (fun hnot => absurd hnot (Builtin.ne_not_of_routine hkind)) (hholds.append operands) hagrees ?_
    intro r hr
    have hsafe := hnext r.1 r.2 (Builtin.admits_function hI hkind hresult hlength hr)
    simpa [Nat.add_assoc] using hsafe
  | @HasType.unary _ _ _ _ _ _ p _ _ _ hlink hkind h, hI, hrec, hfits, hsize, hagrees, start, stack, io,
      hat, hholds, hnext => by
    simp only [Expr.code, callCode_eq hlink (congrArg Builtin.Kind.primitive? hkind)] at hat hnext
    refine h.safe hI hrec hfits hsize hagrees hat.left hholds fun w io hw => ?_
    have htruth : w.IsTruth := by
      rw [Builtin.eq_boolean_of_unary hkind] at hw
      exact hw
    have hp : p.convention = .function [w].length := Builtin.convention_of_unary hkind
    refine safe_call hat.right (callPrimitive?_function hp) (fun _ => ⟨stack, w, rfl, htruth⟩)
      (hholds.append [w]) hagrees ?_
    intro r hr
    have hsafe := hnext r.1 r.2 (Builtin.admits_unary hI hkind hw hr)
    simpa [Nat.add_assoc] using hsafe
  | .binary hlink htakes h₁ h₂, hI, hrec, hfits, hsize, hagrees, start, stack, io, hat, hholds, hnext => by
    obtain ⟨p, _, _, hkind⟩ := htakes.exists_primitive
    simp only [Expr.code, callCode_eq hlink (congrArg Builtin.Kind.primitive? hkind)] at hat hnext
    refine h₁.safe hI hrec hfits hsize hagrees hat.left hholds fun v io _ => ?_
    refine h₂.safe hI hrec hfits hsize hagrees hat.right.left (hholds.append [v]) fun w io _ => ?_
    rw [List.append_assoc]
    have hp : p.convention = .function [v, w].length := Builtin.convention_of_binary hkind
    refine safe_call hat.right.right (callPrimitive?_function hp)
      (fun hnot => absurd hnot (Builtin.ne_not_of_binary hkind)) (hholds.append [v, w]) hagrees ?_
    intro r hr
    have hsafe := hnext r.1 r.2 (Builtin.admits_binary hI hkind hr)
    simpa [Nat.add_assoc] using hsafe

/-- The code of an argument that is no reference pushes the operands. -/
theorem Accepts.safe {σ : Type} {I : Interpretation σ} {l : Listing} {n : Nat} {links : Resolution}
    {Γ : Environment} {L : Layout} {store : Store} {formal : Option Builtin.Formal} {a : Argument}
    {ds : Decoration} : Accepts links Γ formal a ds → (∀ type, formal ≠ some ⟨type, true⟩) → I.Truthful →
      Γ.RecordedIn l.types → L.Fits Γ → L.size ≤ Word.max → Agrees l.types store →
      ∀ {start : Nat} {stack : List Word} {io : σ}, l.Stands L start (a.code links L) →
      L.Holds store stack →
      (∀ operands io, operands.length = formal.toList.length →
        Safe I l.code l.Sound n ⟨start + (a.code links L).length, stack ++ operands, io⟩) →
      Safe I l.code l.Sound n ⟨start, stack, io⟩
  | .none, _, _, _, _, _, _, start, stack, io, _, _, hnext => by
    have hsafe := hnext [] io rfl
    simpa [Argument.code] using hsafe
  | .value h, _, hI, hrec, hfits, hsize, hagrees, start, stack, io, hat, hholds, hnext => by
    simp only [Argument.code] at hat hnext
    exact h.safe hI hrec hfits hsize hagrees hat hholds fun w io _ => hnext [w] io rfl
  | .reference _ _, hvalue, _, _, _, _, _, _, _, _, _, _, _ => absurd rfl (hvalue _)

end

section Phrases
variable {σ : Type} {I : Interpretation σ} {l : Listing} {n : Nat} {links : Resolution}
  {Γ Γ' : Environment} {L : Layout} {start : Nat}

theorem HasType.safeAt {e : Expr} {type : SimpleType} {ds : Decoration} (h : HasType links Γ e type ds)
    (hI : I.Truthful) (hrec : Γ.RecordedIn l.types) (hfits : L.Fits Γ) (hsize : L.size ≤ Word.max)
    (hat : l.Stands L start (e.code links L))
    (hnext : SafeWith I l n L type (start + (e.code links L).length)) : SafeAt I l n L start := by
  intro store stack io hstack hagrees
  exact h.safe hI hrec hfits hsize hagrees hat hstack.holds fun w io hw =>
    hnext store stack w io hstack hagrees hw

/-! ### Declarations -/

/-- No literal is a truth value. -/
theorem HasType.admits_literal {e : Expr} {type : SimpleType} {ds : Decoration} {w : Word}
    (h : HasType links Γ e type ds) (hliteral : literal? e = some w) : type.Admits w := by
  cases h with
  | int | char => trivial
  | _ => cases hliteral

theorem Declares.recordedIn_of_records {d : SingleDeclaration} {ds : Decoration}
    (h : Declares links Γ d Γ' ds) (hrec : Γ.RecordedIn l.types) (hds : Records ⟨links, l.types⟩ ds) :
    Γ'.RecordedIn l.types := by
  cases h with
  | const => exact hrec.declare (Or.inl rfl) (hds _ (List.mem_append_right _ List.mem_cons_self))
  | var => exact hrec.declare (Or.inr rfl) (hds _ (List.mem_cons_of_mem _ List.mem_cons_self))

theorem DeclaresAll.recordedIn_of_records {parts : List SingleDeclaration} {ds : Decoration}
    (h : DeclaresAll links Γ parts Γ' ds) (hrec : Γ.RecordedIn l.types)
    (hds : Records ⟨links, l.types⟩ ds) : Γ'.RecordedIn l.types := by
  induction h with
  | nil => exact hrec
  | cons hd _ ih => exact ih (hd.recordedIn_of_records hrec hds.left) hds.right

theorem Declares.safe {d : SingleDeclaration} {ds : Decoration} (h : Declares links Γ d Γ' ds)
    (hI : I.Truthful) (hrec : Γ.RecordedIn l.types) (hds : Records ⟨links, l.types⟩ ds) (hfits : L.Fits Γ)
    (hsize : L.size ≤ Word.max) (hat : l.Stands L start (d.code links L))
    (hnext : SafeAt I l n (d.layoutAfter L) (start + (d.code links L).length)) : SafeAt I l n L start := by
  cases h with
  | @const tag _ value type _ h =>
    have htype : l.types.get? tag.id = some type :=
      hds _ (List.mem_append_right _ List.mem_cons_self)
    simp only [SingleDeclaration.code, SingleDeclaration.layoutAfter] at hat hnext
    cases hliteral : literal? value with
    | some known =>
      simp only [hliteral] at hnext
      intro store stack io hstack hagrees
      exact hnext _ _ _ (hstack.define tag.id known) (hagrees.set htype (h.admits_literal hliteral))
    | none =>
      simp only [hliteral] at hat hnext
      exact h.safeAt hI hrec hfits hsize hat (hnext.keep htype)
  | @var tag _ _ _ type =>
    have htype : l.types.get? tag.id = some type := hds _ (List.mem_cons_of_mem _ List.mem_cons_self)
    exact SafeAt.push hnext hat htype

theorem DeclaresAll.safe {parts : List SingleDeclaration} {ds : Decoration}
    (h : DeclaresAll links Γ parts Γ' ds) (hI : I.Truthful) (hrec : Γ.RecordedIn l.types)
    (hds : Records ⟨links, l.types⟩ ds) (hfits : L.Fits Γ) (hnodup : (declarationIds parts).Nodup)
    (hnew : L.Unplaced (declarationIds parts)) (hsize : L.size ≤ start) (hcode : l.code.length ≤ Word.max)
    (hat : l.Places start (declarationsCode links L parts) (declarationLayouts links L parts))
    (hnext : SafeAt I l n (layoutAfterDeclarations L parts)
      (start + (declarationsCode links L parts).length)) : SafeAt I l n L start := by
  induction h generalizing L start with
  | nil => exact hnext
  | cons hd _ ih =>
    have hroom := hat.code.length_le
    have hgrowth := hd.size_le hfits
    have hfits' := hd.fits hfits (hnew.mono fun _ => List.mem_append_left _)
    have hnew' := (hnew.mono fun _ => List.mem_append_right _).layoutAfter hnodup
    simp only [declarationsCode, declarationLayouts, layoutAfterDeclarations, List.length_append,
      ← Nat.add_assoc] at hat hroom hnext
    refine hd.safe hI hrec hds.left hfits (by omega) hat.left ?_
    exact ih (hd.recordedIn_of_records hrec hds.left) hds.right hfits' (List.nodup_append.mp hnodup).2.1 hnew'
      (by omega) (hat.right (Layout.length_throughout _ _)) hnext

/-! ### Commands -/

theorem safe_procedure {callee : Name} {a : Argument} {b : Builtin} {p : Primitive}
    {formal : Option Builtin.Formal} {ds : Decoration} (hlink : links.get? callee.id = some (.builtin b))
    (hkind : b.kind = .routine p .void formal) (ha : Accepts links Γ formal a ds) (hI : I.Truthful)
    (hrec : Γ.RecordedIn l.types) (hfits : L.Fits Γ) (hsize : L.size ≤ Word.max)
    (hat : l.Stands L start (a.code links L ++ callCode links callee))
    (hnext : SafeAt I l n L (start + (a.code links L ++ callCode links callee).length)) :
    SafeAt I l n L start := by
  have hnot : p ≠ .not := Builtin.ne_not_of_routine hkind
  intro store stack io hstack hagrees
  rw [callCode_eq hlink (congrArg Builtin.Kind.primitive? hkind)] at hat hnext
  rw [List.length_append, ← Nat.add_assoc] at hnext
  by_cases href : ∃ type, formal = some ⟨type, true⟩
  · obtain ⟨type, rfl⟩ := href
    cases ha with
    | @reference _ name id _ hname hΓ =>
      obtain ⟨-, q, hq⟩ := hfits _ _ hΓ
      cases hq with
      | @var _ k hid =>
        have hp : p.convention = .input := Builtin.convention_of_procedure hkind
        have hk := Layout.lt_size hid
        have hlt : k < stack.length := by rw [hstack.length_eq]; exact hk
        simp only [Argument.code, placeCode_var hname hid] at hat hnext
        refine safe_step .loadAddress hat rfl (by decide) (.of_slot hid rfl) hstack.holds hagrees
          (step?_loadAddress hat.head) ?_
        refine safe_call hat.right (callPrimitive?_input hp (by omega) hlt) (fun h => absurd h hnot)
          (hstack.holds.append _) hagrees fun r _ => ?_
        -- the word may be any: the variable is not of the type Boolean
        exact hnext _ _ _ (hstack.set hid r.1) (hagrees.set (hrec.get? hΓ)
          (Builtin.admits_of_reference hkind r.1))
  · have hvalue : ∀ type, formal ≠ some ⟨type, true⟩ := fun type h => href ⟨type, h⟩
    refine ha.safe hvalue hI hrec hfits hsize hagrees hat.left hstack.holds fun operands io hlength => ?_
    have hp : p.convention = .procedure operands.length :=
      hlength ▸ Builtin.convention_of_value hkind hvalue
    exact safe_call hat.right (callPrimitive?_procedure hp) (fun h => absurd h hnot)
      (hstack.holds.append operands) hagrees fun r _ => hnext store stack r.2 hstack hagrees

/-- A loop with its test at the bottom, which ends with the conditional jump at `jump`. -/
theorem safe_loop {top bottom jump : Nat} {target : Word} {piece : List Instruction}
    (hat : l.Stands L jump (.jumpIf (Word.ofBool true) target :: piece))
    (htop : Word.index? target = some top)
    (htest : ∀ n, SafeWith I l n L .boolean jump → SafeAt I l n L bottom)
    (hbody : ∀ n, SafeAt I l n L bottom → SafeAt I l n L top) (hnext : SafeAt I l n L (jump + 1)) :
    SafeAt I l n L bottom := by
  -- the jump is a step of every round, so what comes behind it has to be safe for one step less
  induction n with
  | zero =>
    exact htest 0 fun store stack w io hstack hagrees hw => hat.sound_branch hstack hagrees hw
  | succ n ih => exact htest (n + 1) ((hbody n (ih hnext.of_succ)).branch hnext.of_succ hat htop)

/-- The same with the jump to the test in front of it. -/
theorem safe_while {loop test : List Instruction} {layouts : List Layout}
    (hat : l.Places start
      (.jump (cappedTarget Word.max (start + 1 + loop.length)) ::
        (loop ++ (test ++ [Instruction.jumpIf (Word.ofBool true) (cappedTarget Word.max (start + 1))])))
      (L :: (layouts ++ (L.throughout test ++ [L]))))
    (hlength : layouts.length = loop.length) (hcode : l.code.length ≤ Word.max)
    (htest : ∀ n, SafeWith I l n L .boolean (start + 1 + loop.length + test.length) →
      SafeAt I l n L (start + 1 + loop.length))
    (hbody : ∀ n, SafeAt I l n L (start + 1 + loop.length) → SafeAt I l n L (start + 1))
    (hnext : SafeAt I l n L (start + 1 + loop.length + test.length + 1)) : SafeAt I l n L start := by
  have hroom := hat.code.length_le
  simp only [List.length_cons, List.length_append] at hroom
  have hatEnd : l.Stands L _ _ := (hat.tail.right hlength).right (L.length_throughout test)
  have hbottom := safe_loop hatEnd (index?_cappedTarget (by omega)) htest hbody hnext
  exact hbottom.jump hat.first (index?_cappedTarget (by omega))

theorem safe_countUp {id : NodeId} {k : Nat} {piece : List Instruction}
    (hid : L.place? id = some (.slot true k)) (htype : l.types.get? id = some .integer)
    (hsize : L.size ≤ Word.max) (hat : l.Stands L start (loadSlot k :: .call .succ :: storeSlot k :: piece))
    (hnext : SafeAt I l n L (start + 3)) : SafeAt I l n L start := by
  intro store stack io hstack hagrees
  have hassign := SafeAt.assign hnext hat.tail.tail hid htype hsize
  refine safe_load hat hsize hid hstack.holds hagrees ?_
  have hp : Primitive.succ.convention = .function [store id].length := rfl
  exact safe_call hat.tail (callPrimitive?_function hp) (fun h => by cases h)
    (hstack.holds.append [store id]) hagrees fun r _ => hassign store stack r.1 r.2 hstack hagrees trivial

theorem safe_test {id : NodeId} {k : Nat} {last : Expr} {type : SimpleType} {ds : Decoration}
    (h : HasType links Γ last type ds) (hI : I.Truthful) (hrec : Γ.RecordedIn l.types) (hfits : L.Fits Γ)
    (hid : L.place? id = some (.slot true k)) (hsize : L.size ≤ Word.max)
    (hat : l.Stands L start (loadSlot k :: (last.code links L ++ [Instruction.call .le])))
    (hnext : SafeWith I l n L .boolean (start + 1 + (last.code links L).length + 1)) :
    SafeAt I l n L start := by
  intro store stack io hstack hagrees
  refine safe_load hat hsize hid hstack.holds hagrees ?_
  refine h.safe hI hrec hfits hsize hagrees hat.tail.left (hstack.holds.append _) fun w io _ => ?_
  have hp : Primitive.le.convention = .function [store id, w].length := rfl
  rw [List.append_assoc]
  refine safe_call hat.tail.right (callPrimitive?_function hp) (fun h => by cases h)
    (hstack.holds.append [store id, w]) hagrees fun r hr => ?_
  exact hnext store stack r.1 r.2 hstack hagrees (hI.comparison .le (by decide) _ _ _ _ hr)

/-- The rounds of a counting loop: the code inside, counting up, and the test. -/
theorem safe_rounds {id : NodeId} {k : Nat} {inside : List Instruction} {layouts : List Layout}
    {last : Expr} {type : SimpleType} {ds : Decoration} (h : HasType links Γ last type ds) (hI : I.Truthful)
    (hrec : Γ.RecordedIn l.types) (hfits : L.Fits Γ) (hid : L.place? id = some (.slot true k))
    (htype : l.types.get? id = some .integer) (hsize : L.size ≤ Word.max) (hcode : l.code.length ≤ Word.max)
    (hlength : layouts.length = inside.length)
    (hinside : ∀ n, SafeAt I l n L (start + 1 + inside.length) → SafeAt I l n L (start + 1)) :
    let loop := inside ++ [loadSlot k, .call .succ, storeSlot k]
    let test := loadSlot k :: (last.code links L ++ [Instruction.call .le])
    let rounds := Instruction.jump (cappedTarget Word.max (start + 1 + loop.length)) ::
      (loop ++ (test ++ [Instruction.jumpIf (Word.ofBool true) (cappedTarget Word.max (start + 1))]))
    l.Places start rounds (L :: ((layouts ++ [L, L, L]) ++ (L.throughout test ++ [L]))) →
      SafeAt I l n L (start + rounds.length) → SafeAt I l n L start := by
  intro loop test rounds hat hnext
  have hloop : (layouts ++ [L, L, L]).length = loop.length := by simp [loop, hlength]
  have hend : start + rounds.length = start + 1 + loop.length + test.length + 1 := by
    simp only [rounds, List.length_cons, List.length_append, List.length_nil]
    omega
  have hbottom : start + 1 + loop.length = start + 1 + inside.length + 3 := by
    simp only [loop, List.length_append, List.length_cons, List.length_nil]
    omega
  have htest : test.length = 1 + (last.code links L).length + 1 := by
    simp only [test, List.length_cons, List.length_append, List.length_nil]
    omega
  rw [hend] at hnext
  refine safe_while hat hloop hcode (fun m hm => ?_) (fun m hm => ?_) hnext
  · rw [htest, ← Nat.add_assoc, ← Nat.add_assoc] at hm
    exact safe_test h hI hrec hfits hid hsize (hat.tail.right hloop).left hm
  · rw [hbottom] at hm
    exact hinside m (safe_countUp hid htype hsize (hat.tail.left.right hlength) hm)

/-- A counting loop, given its body. -/
theorem safe_for {position : Position} {counter : LoopVariable} {first last : Expr} {body : Command}
    {ds ds' : Decoration}
    (h₁ : HasType links (Γ.declare (.var counter.id) .integer) first .integer ds)
    (h₂ : HasType links (Γ.declare (.var counter.id) .integer) last .integer ds')
    (hI : I.Truthful) (hrec : Γ.RecordedIn l.types) (htype : l.types.get? counter.id = some .integer)
    (hfits : L.Fits Γ) (hnew : L.place? counter.id = none) (hsize : L.size ≤ start)
    (hcode : l.code.length ≤ Word.max)
    (hat : l.Places start
      (Command.code links (cappedTarget Word.max) L start (.for_ position counter first last body))
      (Command.layouts links L (.for_ position counter first last body)))
    (hbody : ∀ {n start : Nat},
      (Γ.declare (.var counter.id) .integer).RecordedIn l.types →
      (L.allocate counter.id true).Fits (Γ.declare (.var counter.id) .integer) →
      (L.allocate counter.id true).size ≤ start →
      l.Places start (body.code links (cappedTarget Word.max) (L.allocate counter.id true) start)
        (body.layouts links (L.allocate counter.id true)) →
      SafeAt I l n (L.allocate counter.id true) (start +
        (body.code links (cappedTarget Word.max) (L.allocate counter.id true) start).length) →
      SafeAt I l n (L.allocate counter.id true) start)
    (hnext : SafeAt I l n L (start + (Command.code links (cappedTarget Word.max) L start
      (.for_ position counter first last body)).length)) : SafeAt I l n L start := by
  let inner := L.allocate counter.id true
  let init := Instruction.push 1 :: (first.code links inner ++ [storeSlot L.size])
  let top := start + init.length + 1
  let inside := body.code links (cappedTarget Word.max) inner top
  let loop := inside ++ [loadSlot L.size, .call .succ, storeSlot L.size]
  let test := loadSlot L.size :: (last.code links inner ++ [Instruction.call .le])
  let rounds := Instruction.jump (cappedTarget Word.max (top + loop.length)) ::
    (loop ++ (test ++ [Instruction.jumpIf (Word.ofBool true) (cappedTarget Word.max top)]))
  have hid : inner.place? counter.id = some (.slot true L.size) := Layout.place?_allocate_self _ _
  have hfits' : inner.Fits (Γ.declare (.var counter.id) .integer) := hfits.counter hnew
  have hrec' : (Γ.declare (.var counter.id) .integer).RecordedIn l.types := hrec.declare (Or.inr rfl) htype
  have hinner : inner.size = L.size + 1 := rfl
  have hsplit : Command.code links (cappedTarget Word.max) L start (.for_ position counter first last body) =
      init ++ (rounds ++ [Instruction.pop (Int16.ofNat 1)]) := by
    simp [Command.code, init, rounds, loop, inside, top, test, inner]
  have hlayouts : Command.layouts links L (.for_ position counter first last body) =
      (L :: (inner.throughout (first.code links inner) ++ [inner])) ++
        ((inner :: ((body.layouts links inner ++ [inner, inner, inner]) ++
          (inner.throughout test ++ [inner]))) ++ [inner]) := by
    simp [Command.layouts, Layout.throughout, test, inner]
  rw [hsplit, hlayouts] at hat
  rw [hsplit, List.length_append, List.length_append, ← Nat.add_assoc, ← Nat.add_assoc] at hnext
  have hroom := hat.code.length_le
  simp only [List.length_append] at hroom
  have hinit : init.length = 1 + (first.code links inner).length + 1 := by
    simp only [init, List.length_cons, List.length_append, List.length_nil]
    omega
  have hmax : inner.size ≤ Word.max := by omega
  have htop : inner.size ≤ top := by omega
  have hlength : (body.layouts links inner).length = inside.length := body.length_layouts inner top
  have hatInit := hat.left
  have hatRounds := hat.right (by simp [init])
  have hatPop := hatRounds.right (by simp [rounds, loop, inside, hlength])
  have hleave : SafeAt I l n inner (start + init.length + rounds.length) :=
    SafeAt.pop hnext (by simpa [hinner] using hatPop.first) (Layout.extends_allocate hnew true) (by omega)
      hmax
  have hrounds : SafeAt I l n inner (start + init.length) := by
    refine safe_rounds h₂ hI hrec' hfits' hid htype hmax hcode hlength (fun m hm => ?_) hatRounds.left hleave
    exact hbody hrec' hfits' htop hatRounds.left.tail.left.left hm
  rw [hinit, ← Nat.add_assoc, ← Nat.add_assoc] at hrounds
  -- the variable is there when the first value is computed
  refine SafeAt.push ?_ hatInit.first htype
  refine h₁.safeAt hI hrec' hfits' hmax hatInit.tail.left ?_
  exact hrounds.assign (hatInit.tail.right (Layout.length_throughout _ _)) hid htype hmax

end Phrases

mutual

/-- A well-typed command whose names are new is safe if what is behind it is. -/
theorem WellTyped.safe {σ : Type} {I : Interpretation σ} {l : Listing} {links : Resolution}
    {Γ : Environment} {x : Command} {ds : Decoration} : WellTyped links Γ x ds → I.Truthful →
      l.code.length ≤ Word.max → ∀ {n : Nat} {L : Layout} {start : Nat}, Γ.RecordedIn l.types →
      Records ⟨links, l.types⟩ ds → L.Fits Γ → x.ids.Nodup → L.Unplaced x.ids → L.size ≤ start →
      l.Places start (x.code links (cappedTarget Word.max) L start) (x.layouts links L) →
      SafeAt I l n L (start + (x.code links (cappedTarget Word.max) L start).length) →
      SafeAt I l n L start
  | .assign hlink hΓ h, hI, hcode, n, L, start, hrec, _, hfits, _, _, hsize, hat, hnext => by
    have hroom := hat.code.length_le
    obtain ⟨-, p, hp⟩ := hfits _ _ hΓ
    cases hp with
    | @var _ k hid =>
      simp only [Command.code, Command.layouts, placeCode_var hlink hid, List.length_append,
        ← Nat.add_assoc] at hat hnext
      replace hat : l.Stands L start _ := hat
      refine h.safeAt hI hrec hfits (by omega) hat.left ?_
      exact hnext.assign hat.right hid (hrec.get? hΓ) (by omega)
  | .blank, _, _, n, L, start, _, _, _, _, _, _, _, hnext => by
    rwa [Command.code] at hnext
  | .call hlink hkind ha, hI, hcode, n, L, start, hrec, _, hfits, _, _, hsize, hat, hnext => by
    have hroom := hat.code.length_le
    simp only [Command.code, Command.layouts] at hat hnext
    exact safe_procedure hlink hkind ha hI hrec hfits (by omega) hat hnext
  | @WellTyped.ifThen _ _ _ condition body _ _ h₁ h₂, hI, hcode, n, L, start, hrec, hds, hfits, hnodup,
      hnew, hsize, hat, hnext => by
    let inside := start + (condition.code links L).length + 1
    let taken := body.code links (cappedTarget Word.max) L inside
    have hroom := hat.code.length_le
    simp only [Command.code, Command.layouts] at hat hroom hnext
    have hend : start + (condition.code links L ++ .jumpIf (Word.ofBool false)
        (cappedTarget Word.max (inside + taken.length)) :: taken).length = inside + taken.length := by
      simp only [List.length_append, List.length_cons, inside]
      omega
    rw [hend] at hroom hnext
    have hskip : inside + taken.length ≤ Word.max := by omega
    have hatBody := hat.right (Layout.length_throughout _ _)
    have htaken : SafeAt I l n L inside := h₂.safe hI hcode hrec hds.right hfits
      (List.nodup_append.mp hnodup).2.1 (hnew.mono fun _ => List.mem_append_right _) (by omega)
      hatBody.tail hnext
    refine h₁.safeAt hI hrec hfits (by omega) hat.left ?_
    exact (hnext.branch htaken hatBody.first (index?_cappedTarget hskip)).of_succ
  | @WellTyped.ifElse _ _ _ condition positive negative _ _ _ h₁ h₂ h₃, hI, hcode, n, L, start, hrec,
      hds, hfits, hnodup, hnew, hsize, hat, hnext => by
    let inside := start + (condition.code links L).length + 1
    let taken := positive.code links (cappedTarget Word.max) L inside
    let otherwise := inside + taken.length + 1
    let other := negative.code links (cappedTarget Word.max) L otherwise
    have hroom := hat.code.length_le
    simp only [Command.code, Command.layouts] at hat hroom hnext
    have hend : start + (condition.code links L ++ .jumpIf (Word.ofBool false)
        (cappedTarget Word.max otherwise) :: (taken ++ .jump (cappedTarget Word.max
          (otherwise + other.length)) :: other)).length = otherwise + other.length := by
      simp only [List.length_append, List.length_cons, inside, otherwise]
      omega
    rw [hend] at hroom hnext
    have hend' : otherwise + other.length ≤ Word.max := by omega
    have hskip : otherwise ≤ Word.max := by omega
    obtain ⟨-, hnodup, -⟩ := List.nodup_append.mp hnodup
    replace hnew := hnew.mono fun _ => List.mem_append_right _
    have hatTaken := hat.right (Layout.length_throughout _ _)
    have hatOther := hatTaken.tail.right (positive.length_layouts L inside)
    have hother : SafeAt I l n L otherwise := h₃.safe hI hcode hrec hds.right.right hfits
      (List.nodup_append.mp hnodup).2.1 (hnew.mono fun _ => List.mem_append_right _) (by omega)
      hatOther.tail hnext
    have hleave : SafeAt I l n L (inside + taken.length) :=
      hnext.jump hatOther.first (index?_cappedTarget hend')
    have htaken : SafeAt I l n L inside := h₂.safe hI hcode hrec hds.right.left hfits
      (List.nodup_append.mp hnodup).1 (hnew.mono fun _ => List.mem_append_left _) (by omega)
      hatTaken.tail.left hleave
    refine h₁.safeAt hI hrec hfits (by omega) hat.left ?_
    exact (hother.branch htaken hatTaken.first (index?_cappedTarget hskip)).of_succ
  | @WellTyped.while_ _ _ position condition body _ _ h₁ h₂, hI, hcode, n, L, start, hrec, hds, hfits,
      hnodup, hnew, hsize, hat, hnext => by
    let loop := body.code links (cappedTarget Word.max) L (start + 1)
    have hroom := hat.code.length_le
    have hend : start + (Command.code links (cappedTarget Word.max) L start
        (.while_ position condition body)).length =
          start + 1 + loop.length + (condition.code links L).length + 1 := by
      simp only [Command.code, List.length_cons, List.length_append, List.length_nil, loop]
      omega
    rw [hend] at hroom hnext
    simp only [Command.code, Command.layouts] at hat
    refine safe_while hat (body.length_layouts L _) hcode (fun m hm => ?_) (fun m hm => ?_) hnext
    · exact h₁.safeAt hI hrec hfits (by omega) (hat.tail.right (body.length_layouts L _)).left hm
    · exact h₂.safe hI hcode hrec hds.right hfits (List.nodup_append.mp hnodup).2.1
        (hnew.mono fun _ => List.mem_append_right _) (by omega) hat.tail.left hm
  | @WellTyped.for_ _ _ position counter first last body _ _ _ h₁ h₂ h₃, hI, hcode, n, L, start, hrec, hds,
      hfits, hnodup, hnew, hsize, hat, hnext => by
    have hids := within_for position counter first last body
    have hnodup' := hids.nodup hnodup
    have hnew' := hnew.mono fun _ => hids.mem
    have hds' : Records ⟨links, l.types⟩ _ := fun p hp => hds p (List.mem_cons_of_mem _ hp)
    refine safe_for h₁ h₂ hI hrec (hds _ List.mem_cons_self) hfits (hnew' _ List.mem_cons_self) hsize hcode
      hat ?_ hnext
    intro m start hrec' hfits' hsize' hat' hm
    exact h₃.safe hI hcode hrec' hds'.right.right hfits' (List.nodup_cons.mp hnodup').2
      (hnew'.allocate hnodup' true) hsize' hat' hm
  | @WellTyped.let_ _ _ _ _ declaration body _ _ h₁ h₂, hI, hcode, n, L, start, hrec, hds, hfits, hnodup,
      hnew, hsize, hat, hnext => by
    have hroom := hat.code.length_le
    obtain ⟨hdeclared, hbody, -⟩ := List.nodup_append.mp hnodup
    have hnew₁ : L.Unplaced (declarationIds declaration.parts) :=
      hnew.mono fun _ => List.mem_append_left _
    have hnew₂ := (hnew.mono fun _ => List.mem_append_right _).layoutAfterDeclarations hnodup
    have hgrowth := h₁.size_le hfits hdeclared hnew₁
    simp only [Command.code, Command.layouts, List.length_append, ← Nat.add_assoc] at hat hroom hnext
    have hatBody := hat.right (length_declarationLayouts links L declaration.parts)
    have hatEnd := hatBody.right (body.length_layouts _ _)
    have hleave := SafeAt.pop hnext hatEnd.first (extends_layoutAfterDeclarations hnew₁) hgrowth.1 (by omega)
    refine h₁.safe hI hrec hds.left hfits hdeclared hnew₁ hsize hcode hat.left ?_
    exact h₂.safe hI hcode (h₁.recordedIn_of_records hrec hds.left) hds.right
      (h₁.fits hfits hdeclared hnew₁) hbody hnew₂ (by omega) hatBody.left hleave
  | .sequential h, hI, hcode, n, L, start, hrec, hds, hfits, hnodup, hnew, hsize, hat, hnext => by
    simp only [Command.code, Command.layouts] at hat hnext
    exact h.safe hI hcode hrec hds hfits hnodup hnew hsize hat hnext

theorem AllWellTyped.safe {σ : Type} {I : Interpretation σ} {l : Listing} {links : Resolution}
    {Γ : Environment} {parts : List Command} {ds : Decoration} : AllWellTyped links Γ parts ds →
      I.Truthful → l.code.length ≤ Word.max → ∀ {n : Nat} {L : Layout} {start : Nat},
      Γ.RecordedIn l.types → Records ⟨links, l.types⟩ ds → L.Fits Γ → (commandIds parts).Nodup →
      L.Unplaced (commandIds parts) → L.size ≤ start →
      l.Places start (commandsCode links (cappedTarget Word.max) L start parts)
        (commandsLayouts links L parts) →
      SafeAt I l n L (start + (commandsCode links (cappedTarget Word.max) L start parts).length) →
      SafeAt I l n L start
  | .nil, _, _, n, L, start, _, _, _, _, _, _, _, hnext => by
    rwa [commandsCode] at hnext
  | @AllWellTyped.cons _ _ x _ _ _ h hrest, hI, hcode, n, L, start, hrec, hds, hfits, hnodup, hnew, hsize,
      hat, hnext => by
    obtain ⟨hfirst, hothers, -⟩ := List.nodup_append.mp hnodup
    simp only [commandsCode, commandsLayouts, List.length_append, ← Nat.add_assoc] at hat hnext
    have hothers' := hrest.safe hI hcode hrec hds.right hfits hothers
      (hnew.mono fun _ => List.mem_append_right _) (by omega) (hat.right (x.length_layouts L start)) hnext
    exact h.safe hI hcode hrec hds.left hfits hfirst (hnew.mono fun _ => List.mem_append_left _) hsize
      hat.left hothers'

end

end Typing

end TriangleCompiler
