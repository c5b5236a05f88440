import TriangleCompiler.Proofs.Generation.Layout
import TriangleCompiler.Proofs.Parser.Numbering
import TriangleCompiler.Proofs.Passes
import TriangleCompiler.Proofs.Typing.Rules

/-! The code of well-typed phrases: every name in them has a place, every value takes one word, and every
    word that a declaration takes costs an instruction. -/

namespace TriangleCompiler

open Machine (Entity Instruction Primitive Word)
open Typing

namespace Generation

variable {L L' : Layout} {links : Resolution} {Γ : Environment}

/-! ### Places -/

/-- A declaration has a place; that of a variable is assignable. -/
inductive Layout.Locates (L : Layout) : Link → Place → Prop where
  | const {id : NodeId} {p : Place} : L.place? id = some p → L.Locates (.const id) p
  | var {id : NodeId} {k : Nat} : L.place? id = some (.slot true k) → L.Locates (.var id) (.slot true k)

/-- None of the nodes has a place yet. -/
def Layout.Unplaced (L : Layout) (ids : List NodeId) : Prop := ∀ id ∈ ids, L.place? id = none

/-- What has a place in `L` has the same in `L'`. -/
def Layout.Extends (L L' : Layout) : Prop := ∀ id p, L.place? id = some p → L'.place? id = some p

/-- Everything that is declared takes at most one word and has a place. -/
def Layout.Fits (L : Layout) (Γ : Environment) : Prop :=
  ∀ link type, Γ link = some type → type.size = 1 ∧ ∃ p, L.Locates link p

theorem Layout.fits_empty (L : Layout) : L.Fits .empty := fun _ _ h => by cases h

theorem Layout.offset?_eq {id : NodeId} {assignable : Bool} {k : Nat}
    (h : L.place? id = some (.slot assignable k)) : (L.place? id).bind Place.offset? = some k := by
  rw [h]
  rfl

theorem Layout.lt_size {id : NodeId} {assignable : Bool} {k : Nat}
    (h : L.place? id = some (.slot assignable k)) : k < L.size :=
  L.inside id k (Layout.offset?_eq h)

theorem Layout.Unplaced.mono {ids ids' : List NodeId} (h : L.Unplaced ids)
    (hsub : ∀ id ∈ ids', id ∈ ids) : L.Unplaced ids' :=
  fun id hid => h id (hsub id hid)

theorem Layout.Locates.extends {link : Link} {p : Place} (h : L.Locates link p) (hL : L.Extends L') :
    L'.Locates link p := by
  cases h with
  | const h => exact .const (hL _ _ h)
  | var h => exact .var (hL _ _ h)

theorem Layout.Fits.declare {link : Link} {type : SimpleType} {p : Place} (h : L.Fits Γ)
    (hL : L.Extends L') (htype : type.size = 1) (hlink : L'.Locates link p) :
    L'.Fits (Γ.declare link type) := by
  intro link' type' h'
  unfold Environment.declare at h'
  split at h'
  · rename_i heq
    cases h'
    exact ⟨htype, p, heq ▸ hlink⟩
  · obtain ⟨hsize, p', hp'⟩ := h link' type' h'
    exact ⟨hsize, p', hp'.extends hL⟩

/-- Names that are new do not disturb the others. -/
theorem Layout.extends_of_place? {ids : List NodeId} (hframe : ∀ id, id ∉ ids → L'.place? id = L.place? id)
    (hnew : L.Unplaced ids) : L.Extends L' := by
  intro id p hp
  rw [hframe id fun hid => by rw [hnew id hid] at hp; cases hp]
  exact hp

theorem Layout.place?_allocate_of_ne {id id' : NodeId} (h : id' ≠ id) (assignable : Bool) :
    (L.allocate id assignable).place? id' = L.place? id' := if_neg h

theorem Layout.place?_allocate_self (id : NodeId) (assignable : Bool) :
    (L.allocate id assignable).place? id = some (.slot assignable L.size) := if_pos rfl

theorem Layout.extends_allocate {id : NodeId} (h : L.place? id = none) (assignable : Bool) :
    L.Extends (L.allocate id assignable) := by
  have hframe : ∀ id', id' ∉ [id] → (L.allocate id assignable).place? id' = L.place? id' :=
    fun id' hid' => place?_allocate_of_ne (by simpa using hid') assignable
  exact extends_of_place? hframe (by simpa [Unplaced] using h)

theorem Layout.Unplaced.allocate {id : NodeId} {ids : List NodeId} (h : L.Unplaced (id :: ids))
    (hnodup : (id :: ids).Nodup) (assignable : Bool) : (L.allocate id assignable).Unplaced ids := by
  intro id' hid'
  have hne : id' ≠ id := fun heq => (List.nodup_cons.mp hnodup).1 (heq ▸ hid')
  rw [place?_allocate_of_ne hne]
  exact h id' (List.mem_cons_of_mem _ hid')

/-- The counter of a loop takes the next word. -/
theorem Layout.Fits.counter {id : NodeId} (h : L.Fits Γ) (hnew : L.place? id = none) :
    (L.allocate id true).Fits (Γ.declare (.var id) .integer) :=
  h.declare (extends_allocate hnew true) rfl (.var (place?_allocate_self id true))

theorem within_for (position : Position) (counter : LoopVariable) (first last : Expr) (body : Command) :
    Within (counter.id :: body.ids) (Command.for_ position counter first last body).ids := by
  intro id
  simp only [Command.ids, List.count_append, List.count_cons]
  omega

/-! ### Declarations and their places -/

theorem place?_layoutAfter {d : SingleDeclaration} {id : NodeId} (h : id ∉ d.ids) :
    (d.layoutAfter L).place? id = L.place? id := by
  cases d with
  | const tag name value =>
    simp only [SingleDeclaration.ids, List.mem_cons, not_or] at h
    simp only [SingleDeclaration.layoutAfter]
    split
    · exact if_neg h.1
    · exact if_neg h.1
  | var tag name type =>
    simp only [SingleDeclaration.ids, List.mem_cons, not_or] at h
    exact if_neg h.1
  | error => rfl

theorem place?_layoutAfterDeclarations {parts : List SingleDeclaration} {id : NodeId}
    (h : id ∉ declarationIds parts) : (layoutAfterDeclarations L parts).place? id = L.place? id := by
  induction parts generalizing L with
  | nil => rfl
  | cons d rest ih =>
    rw [declarationIds, List.mem_append, not_or] at h
    rw [layoutAfterDeclarations, ih h.2, place?_layoutAfter h.1]

/-- What comes behind a declaration has no place yet. -/
theorem Layout.Unplaced.layoutAfter {d : SingleDeclaration} {ids : List NodeId} (h : L.Unplaced ids)
    (hnodup : (d.ids ++ ids).Nodup) : (d.layoutAfter L).Unplaced ids := by
  intro id hid
  obtain ⟨-, -, hdisj⟩ := List.nodup_append.mp hnodup
  rw [place?_layoutAfter fun hmem => hdisj id hmem id hid rfl]
  exact h id hid

theorem Layout.Unplaced.layoutAfterDeclarations {parts : List SingleDeclaration} {ids : List NodeId}
    (h : L.Unplaced ids) (hnodup : (declarationIds parts ++ ids).Nodup) :
    (layoutAfterDeclarations L parts).Unplaced ids := by
  intro id hid
  obtain ⟨-, -, hdisj⟩ := List.nodup_append.mp hnodup
  rw [place?_layoutAfterDeclarations fun hmem => hdisj id hmem id hid rfl]
  exact h id hid

theorem extends_layoutAfterDeclarations {parts : List SingleDeclaration}
    (h : L.Unplaced (declarationIds parts)) : L.Extends (layoutAfterDeclarations L parts) :=
  Layout.extends_of_place? (fun _ => place?_layoutAfterDeclarations) h

/-! ### The code of names -/

theorem loadCode_constant {name : Name} {b : Builtin} {type : SimpleType} {value : Word}
    (hlink : links.get? name.id = some (.builtin b)) (hkind : b.kind = .constant type value) :
    loadCode links L name = [.loadLiteral value] := by
  simp [loadCode, hlink, hkind]

theorem loadCode_located {name : Name} {link : Link} {p : Place} (hlink : links.get? name.id = some link)
    (h : L.Locates link p) : loadCode links L name = [p.entity.load] := by
  cases h with
  | const h => simp [loadCode, placeCode, hlink, h]
  | var h => simp [loadCode, placeCode, hlink, h]

theorem placeCode_var {name : Name} {id : NodeId} {k : Nat} (hlink : links.get? name.id = some (.var id))
    (h : L.place? id = some (.slot true k)) (f : Entity → Option Instruction) :
    placeCode links L f name = (f (.var (Int16.ofNat k) 1)).toList := by
  simp [placeCode, hlink, h, Place.entity]

theorem callCode_eq {name : Name} {b : Builtin} {p : Primitive}
    (hlink : links.get? name.id = some (.builtin b)) (hkind : b.kind.primitive? = some p) :
    callCode links name = [.call p] := by
  simp [callCode, hlink, hkind]

end Generation

namespace Typing

open Generation

variable {L : Layout} {links : Resolution} {Γ : Environment}

/-! ### One word for every value -/

/-- A binary operator comes down to a built-in routine. -/
theorem TakesOperands.exists_primitive {kind : Builtin.Kind} {lhs rhs result : SimpleType}
    (h : TakesOperands kind lhs rhs result) : ∃ p l r, kind = .binary p l r result := by
  cases h with
  | declared => exact ⟨_, _, _, rfl⟩
  | same => exact ⟨_, _, _, rfl⟩

/-- Only procedures give back nothing; every other value takes a word. -/
theorem size_valueType {b : Builtin} {kind : Builtin.Kind} (hkind : b.kind = kind)
    (hvalue : ∀ p formal, kind ≠ .routine p .void formal) : kind.valueType.size = 1 := by
  subst hkind
  cases b <;> first | rfl | exact absurd rfl (hvalue _ _)

theorem HasType.size_eq_one {e : Expr} {type : SimpleType} {ds : Decoration}
    (h : HasType links Γ e type ds) (hfits : L.Fits Γ) : type.size = 1 := by
  cases h with
  | int | char => rfl
  | truth _ hkind => exact size_valueType hkind (by simp)
  | declared _ hΓ => exact (hfits _ _ hΓ).1
  | call _ hkind hresult _ => exact size_valueType hkind (by simp [hresult])
  | unary _ hkind _ => exact size_valueType hkind (by simp)
  | binary _ hkind _ _ =>
    obtain ⟨p, l, r, hkind⟩ := hkind.exists_primitive
    exact size_valueType hkind (by simp)

/-- A value is not pushed for free. -/
theorem HasType.length_code_pos {e : Expr} {type : SimpleType} {ds : Decoration}
    (h : HasType links Γ e type ds) (hfits : L.Fits Γ) : 0 < (e.code links L).length := by
  cases h with
  | int h hlo hhi => simp [Expr.code, literalCode, intValue?_eq h hlo hhi]
  | char h => simp [Expr.code, literalCode, charValue?_eq h]
  | truth hlink hkind => simp [Expr.code, loadCode_constant hlink hkind]
  | declared hlink hΓ =>
    obtain ⟨-, p, hp⟩ := hfits _ _ hΓ
    simp [Expr.code, loadCode_located hlink hp]
  | call hlink hkind _ _ => simp [Expr.code, callCode_eq hlink (congrArg Builtin.Kind.primitive? hkind)]
  | unary hlink hkind _ => simp [Expr.code, callCode_eq hlink (congrArg Builtin.Kind.primitive? hkind)]
  | binary hlink hkind _ _ =>
    obtain ⟨p, l, r, hkind⟩ := hkind.exists_primitive
    rw [Expr.code, callCode_eq hlink (congrArg Builtin.Kind.primitive? hkind)]
    simp only [List.length_append, List.length_singleton]
    omega

theorem Declares.fits {Γ' : Environment} {d : SingleDeclaration} {ds : Decoration}
    (h : Declares links Γ d Γ' ds) (hfits : L.Fits Γ) (hnew : L.Unplaced d.ids) :
    (d.layoutAfter L).Fits Γ' := by
  have hL : L.Extends (d.layoutAfter L) := Layout.extends_of_place? (fun _ => place?_layoutAfter) hnew
  cases h with
  | @const tag name value type ds h =>
    obtain ⟨p, hp⟩ : ∃ p, (SingleDeclaration.layoutAfter L (.const tag name value)).place? tag.id = some p := by
      simp only [SingleDeclaration.layoutAfter]
      split
      · exact ⟨_, if_pos rfl⟩
      · exact ⟨_, if_pos rfl⟩
    exact hfits.declare hL (h.size_eq_one hfits) (.const hp)
  | var _ hkind => exact hfits.declare hL (size_valueType hkind (by simp)) (.var (if_pos rfl))

theorem DeclaresAll.fits {Γ' : Environment} {parts : List SingleDeclaration} {ds : Decoration}
    (h : DeclaresAll links Γ parts Γ' ds) (hfits : L.Fits Γ) (hnodup : (declarationIds parts).Nodup)
    (hnew : L.Unplaced (declarationIds parts)) : (layoutAfterDeclarations L parts).Fits Γ' := by
  induction h generalizing L with
  | nil => exact hfits
  | cons hd _ ih =>
    have hd' := hd.fits hfits (hnew.mono fun _ => List.mem_append_left _)
    refine ih hd' (List.nodup_append.mp hnodup).2.1 ?_
    exact (hnew.mono fun _ => List.mem_append_right _).layoutAfter hnodup

/-- A declaration takes room only for an instruction. -/
theorem Declares.size_le {Γ' : Environment} {d : SingleDeclaration} {ds : Decoration}
    (h : Declares links Γ d Γ' ds) (hfits : L.Fits Γ) :
    L.size ≤ (d.layoutAfter L).size ∧ (d.layoutAfter L).size ≤ L.size + (d.code links L).length := by
  cases h with
  | const h =>
    have hpos := h.length_code_pos hfits
    simp only [SingleDeclaration.layoutAfter, SingleDeclaration.code]
    split <;> simp only [Layout.define, Layout.allocate] <;> omega
  | var => simp [SingleDeclaration.layoutAfter, SingleDeclaration.code, Layout.allocate]

theorem DeclaresAll.size_le {Γ' : Environment} {parts : List SingleDeclaration} {ds : Decoration}
    (h : DeclaresAll links Γ parts Γ' ds) (hfits : L.Fits Γ) (hnodup : (declarationIds parts).Nodup)
    (hnew : L.Unplaced (declarationIds parts)) : L.size ≤ (layoutAfterDeclarations L parts).size ∧
      (layoutAfterDeclarations L parts).size ≤ L.size + (declarationsCode links L parts).length := by
  induction h generalizing L with
  | nil => exact ⟨Nat.le_refl _, Nat.le_refl _⟩
  | cons hd _ ih =>
    have hsize := hd.size_le hfits
    have hrest := ih (hd.fits hfits (hnew.mono fun _ => List.mem_append_left _))
      (List.nodup_append.mp hnodup).2.1
      ((hnew.mono fun _ => List.mem_append_right _).layoutAfter hnodup)
    simp only [layoutAfterDeclarations, declarationsCode, List.length_append]
    omega

end Typing

end TriangleCompiler
