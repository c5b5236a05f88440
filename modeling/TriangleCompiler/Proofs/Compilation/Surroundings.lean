import TriangleCompiler.Proofs.Generation.TypedCode
import TriangleCompiler.Proofs.Resolution.Binders
import TriangleCompiler.Proofs.Resolution.Links

/-! Two phrases that stand in surroundings of the same kind. The nodes of the one may have other numbers than
    those of the other; but what a name stands for around the one has a counterpart around the other, with the
    same type and at the same place, and that is all that linking, checking and generating read of it. -/

namespace TriangleCompiler

open Machine (Entity Instruction)
open Typing Generation Resolution

/-! ### Events without an error -/

namespace Resolution

/-- Nothing is reported in the events, and every table that has their links is as `P` says. -/
def Works (es : List Event) (P : Resolution → Prop) : Prop :=
  diagnostics es = [] ∧ ∀ links, Realized links es → P links

variable {es fs : List Event} {P Q : Resolution → Prop}

theorem Works.imp (h : Works es P) (hPQ : ∀ links, P links → Q links) : Works es Q :=
  ⟨h.1, fun links hreal => hPQ links (h.2 links hreal)⟩

theorem works_nil (h : ∀ links, P links) : Works [] P := ⟨rfl, fun links _ => h links⟩

theorem Works.append (h : Works es P) (h' : Works fs Q) : Works (es ++ fs) fun links => P links ∧ Q links := by
  refine ⟨by rw [diagnostics_append, h.1, h'.1, List.append_nil], fun links hreal => ?_⟩
  obtain ⟨hes, hfs⟩ := realized_append.mp hreal
  exact ⟨h.2 links hes, h'.2 links hfs⟩

theorem works_use {scopes : SymbolTable} {name : Name} {link : Link}
    (h : scopes.retrieve? name.spelling = some link) :
    Works [useEvent scopes name] fun links => links.get? name.id = some link := by
  refine ⟨by simp only [useEvent, h]; rfl, fun links hreal => ?_⟩
  obtain ⟨target, hretrieve, hlink⟩ := hreal.use
  cases hretrieve.symm.trans h
  exact hlink

end Resolution

/-- What is known where a phrase stands: what the names in sight stand for, and the types and the places of
    what is declared. -/
structure Surroundings where
  scopes : SymbolTable
  types : Environment
  layout : Layout

namespace Surroundings

/-- Around a whole program. -/
def standard : Surroundings := ⟨.standard, .empty, .empty⟩

def openScope (S : Surroundings) : Surroundings := { S with scopes := S.scopes.openScope }

/-- Within the value of a constant, which is in sight but has neither a type nor a place. -/
def enter (S : Surroundings) (name : Name) (declared : Link) : Surroundings :=
  { S with scopes := scopesWith S.scopes name declared }

/-- Behind a declaration. -/
def declare (S : Surroundings) (name : Name) (declared : Link) (type : SimpleType) (L : Layout) :
    Surroundings :=
  ⟨scopesWith S.scopes name declared, S.types.declare declared type, L⟩

/-- The same in both surroundings, up to the number of a declaration. -/
inductive Counterpart (S S' : Surroundings) : Link → Link → Prop where
  | builtin {b : Builtin} : S.types (.builtin b) = S'.types (.builtin b) →
      Counterpart S S' (.builtin b) (.builtin b)
  | const {id id' : NodeId} : S.types (.const id) = S'.types (.const id') →
      S.layout.place? id = S'.layout.place? id' → Counterpart S S' (.const id) (.const id')
  | var {id id' : NodeId} : S.types (.var id) = S'.types (.var id') →
      S.layout.place? id = S'.layout.place? id' → Counterpart S S' (.var id) (.var id')

/-- The same names are in sight and the same are declared in the innermost scope. -/
structure Parallel (S S' : Surroundings) : Prop where
  inSight : ∀ name, Option.Rel (Counterpart S S') (S.scopes.retrieve? name) (S'.scopes.retrieve? name)
  inner : ∀ name : String, (S.scopes.inner[name]?).isSome = (S'.scopes.inner[name]?).isSome
  size : S.layout.size = S'.layout.size

/-- The nodes are different, and nothing around them is one of them. -/
structure Fresh (S : Surroundings) (ids : List NodeId) : Prop where
  nodup : ids.Nodup
  unseen : ∀ name link, S.scopes.retrieve? name = some link → ∀ id ∈ ids, id ∉ link.nodes
  untyped : ∀ id ∈ ids, S.types (.const id) = none
  unplaced : S.layout.Unplaced ids

/-- A declaration has the same type and place around two phrases. -/
def Keeps (S T : Surroundings) (link : Link) : Prop :=
  T.types link = S.types link ∧ ∀ id ∈ link.nodes, T.layout.place? id = S.layout.place? id

variable {S S' T T' : Surroundings}

/-! ### Names that are used -/

theorem Counterpart.types_eq {link link' : Link} (h : Counterpart S S' link link') :
    S.types link = S'.types link' := by
  cases h <;> assumption

theorem Counterpart.of_builtin {b : Builtin} {link' : Link} (h : Counterpart S S' (.builtin b) link') :
    link' = .builtin b := by
  cases h
  rfl

theorem Counterpart.of_var {id : NodeId} {link' : Link} (h : Counterpart S S' (.var id) link') :
    ∃ id', link' = .var id' := by
  cases h with
  | var => exact ⟨_, rfl⟩

theorem Counterpart.keeps {link link' : Link} (h : Counterpart S S' link link') (hkeeps : S.Keeps T link)
    (hkeeps' : S'.Keeps T' link') : Counterpart T T' link link' := by
  obtain ⟨htype, hplace⟩ := hkeeps
  obtain ⟨htype', hplace'⟩ := hkeeps'
  cases h with
  | builtin h => exact .builtin (by rw [htype, htype', h])
  | @const id id' h hp =>
    exact .const (by rw [htype, htype', h])
      (by rw [hplace id List.mem_cons_self, hplace' id' List.mem_cons_self, hp])
  | @var id id' h hp =>
    exact .var (by rw [htype, htype', h])
      (by rw [hplace id List.mem_cons_self, hplace' id' List.mem_cons_self, hp])

theorem Counterpart.rel_keeps {link? link'? : Option Link} (h : Option.Rel (Counterpart S S') link? link'?)
    (hkeeps : ∀ link, link? = some link → S.Keeps T link)
    (hkeeps' : ∀ link, link'? = some link → S'.Keeps T' link) : Option.Rel (Counterpart T T') link? link'? := by
  cases h with
  | none => exact .none
  | some hlink => exact .some (hlink.keeps (hkeeps _ rfl) (hkeeps' _ rfl))

section
variable {links links' : Resolution} {name name' : Name} {link link' : Link}

theorem Counterpart.placeCode_eq (h : Counterpart S S' link link') (hlink : links.get? name.id = some link)
    (hlink' : links'.get? name'.id = some link') (f : Entity → Option Instruction) :
    placeCode links' S'.layout f name' = placeCode links S.layout f name := by
  unfold placeCode
  rw [hlink, hlink']
  cases h with
  | builtin => rfl
  | const _ hp | var _ hp => simp only [hp]

theorem Counterpart.loadCode_eq (h : Counterpart S S' link link') (hlink : links.get? name.id = some link)
    (hlink' : links'.get? name'.id = some link') :
    loadCode links' S'.layout name' = loadCode links S.layout name := by
  have hplace := h.placeCode_eq hlink hlink' fun e => some e.load
  unfold loadCode
  rw [hlink, hlink']
  cases h with
  | builtin => rfl
  | const | var => exact hplace

/-- What a name is linked to around the one phrase has a counterpart around the other. -/
theorem Parallel.counterpart (h : S.Parallel S') (hreal : Realized links [useEvent S.scopes name])
    (hlink : links.get? name.id = some link) (hspelling : name.spelling = name'.spelling) :
    ∃ link', S'.scopes.retrieve? name'.spelling = some link' ∧ Counterpart S S' link link' := by
  obtain ⟨target, hretrieve, htarget⟩ := hreal.use
  cases htarget.symm.trans hlink
  have hrel := h.inSight name.spelling
  rw [hretrieve, hspelling] at hrel
  cases hname : S'.scopes.retrieve? name'.spelling with
  | none =>
    rw [hname] at hrel
    cases hrel
  | some link' =>
    rw [hname] at hrel
    cases hrel with
    | some hcounterpart => exact ⟨link', rfl, hcounterpart⟩

end

/-! ### Names that are declared -/

theorem Parallel.openScope (h : S.Parallel S') : S.openScope.Parallel S'.openScope where
  inSight name := by
    simp only [Surroundings.openScope, SymbolTable.retrieve?_openScope]
    exact Counterpart.rel_keeps (h.inSight name) (fun _ _ => ⟨rfl, fun _ _ => rfl⟩)
      fun _ _ => ⟨rfl, fun _ _ => rfl⟩
  inner name := by simp [Surroundings.openScope]
  size := h.size

/-- A name that is declared around the one phrase without an error may be declared around the other. -/
theorem Parallel.enter_ok (h : S.Parallel S') {name name' : Name} {declared : Link}
    (henter : S.scopes.enter name.spelling declared = .ok (scopesWith S.scopes name declared))
    (hspelling : name.spelling = name'.spelling) (declared' : Link) :
    Works (declareEvents S'.scopes name' declared') (fun _ => True) ∧
      S'.scopes.enter name'.spelling declared' = .ok (scopesWith S'.scopes name' declared') := by
  have hinner := h.inner name.spelling
  rw [(SymbolTable.inner_enter henter).1, hspelling] at hinner
  cases hduplicate : S'.scopes.enter name'.spelling declared' with
  | error existing =>
    rw [SymbolTable.inner_of_enter_error hduplicate] at hinner
    cases hinner
  | ok scopes =>
    unfold declareEvents scopesWith
    rw [hduplicate]
    exact ⟨works_nil fun _ => trivial, rfl⟩

/-- Behind the declaration of counterparts, if it changes nothing else that is in sight. -/
theorem Parallel.enter (h : S.Parallel S') (T T' : Surroundings) {spelling : String} {declared declared' : Link}
    (henter : S.scopes.enter spelling declared = .ok T.scopes)
    (henter' : S'.scopes.enter spelling declared' = .ok T'.scopes)
    (hdeclared : Counterpart T T' declared declared') (hsize : T.layout.size = T'.layout.size)
    (hkeeps : ∀ name link, S.scopes.retrieve? name = some link → S.Keeps T link)
    (hkeeps' : ∀ name link, S'.scopes.retrieve? name = some link → S'.Keeps T' link) : T.Parallel T' where
  inSight name := by
    rw [SymbolTable.retrieve?_enter henter, SymbolTable.retrieve?_enter henter']
    split
    · exact .some hdeclared
    · exact Counterpart.rel_keeps (h.inSight name) (hkeeps name) (hkeeps' name)
  inner name := by
    rw [(SymbolTable.inner_enter henter).2, (SymbolTable.inner_enter henter').2]
    split
    · rfl
    · exact h.inner name
  size := hsize

theorem Fresh.sublist {ids ids' : List NodeId} (h : S.Fresh ids) (hsub : ids'.Sublist ids) : S.Fresh ids' where
  nodup := hsub.nodup h.nodup
  unseen name link hlink id hid := h.unseen name link hlink id (hsub.mem hid)
  untyped id hid := h.untyped id (hsub.mem hid)
  unplaced := h.unplaced.mono fun _ => hsub.mem

theorem Fresh.openScope {ids : List NodeId} (h : S.Fresh ids) : S.openScope.Fresh ids where
  nodup := h.nodup
  unseen name link hlink := h.unseen name link (by simpa [Surroundings.openScope] using hlink)
  untyped := h.untyped
  unplaced := h.unplaced

theorem fresh_standard {ids : List NodeId} (hnodup : ids.Nodup) : standard.Fresh ids where
  nodup := hnodup
  unseen name link hlink id _ := by
    simp only [standard, SymbolTable.retrieve?_standard] at hlink
    obtain ⟨b, -, rfl⟩ := Option.map_eq_some_iff.mp hlink
    exact List.not_mem_nil
  untyped _ _ := rfl
  unplaced _ _ := rfl

theorem parallel_standard : standard.Parallel standard where
  inSight name := by
    simp only [standard, SymbolTable.retrieve?_standard]
    cases Builtin.ofName? name with
    | none => exact .none
    | some b => exact .some (.builtin rfl)
  inner _ := rfl
  size := rfl

section
variable {name : Name} {declared : Link} {id : NodeId} {ids : List NodeId} {type : SimpleType} {L : Layout}

/-- A declaration of a new node changes nothing that was in sight. -/
theorem Fresh.keeps_declare (h : S.Fresh (id :: ids)) (hnodes : declared.nodes = [id])
    (hL : ∀ i, i ≠ id → L.place? i = S.layout.place? i) {spelling : String} {link : Link}
    (hlink : S.scopes.retrieve? spelling = some link) : S.Keeps (S.declare name declared type L) link := by
  have hid := h.unseen spelling link hlink id List.mem_cons_self
  have hne : link ≠ declared := by
    rintro rfl
    rw [hnodes] at hid
    exact hid List.mem_cons_self
  refine ⟨if_neg hne, fun i hi => hL i ?_⟩
  rintro rfl
  exact hid hi

theorem Fresh.declare (h : S.Fresh (id :: ids)) (hnodes : declared.nodes = [id])
    (hL : ∀ i, i ≠ id → L.place? i = S.layout.place? i)
    (henter : S.scopes.enter name.spelling declared = .ok (scopesWith S.scopes name declared)) :
    (S.declare name declared type L).Fresh ids := by
  obtain ⟨hid, hnodup⟩ := List.nodup_cons.mp h.nodup
  have hne : ∀ i ∈ ids, i ≠ id := by
    rintro i hi rfl
    exact hid hi
  refine ⟨hnodup, fun spelling link hlink i hi => ?_, fun i hi => ?_, fun i hi => ?_⟩
  · simp only [Surroundings.declare, SymbolTable.retrieve?_enter henter] at hlink
    split at hlink
    · cases hlink
      rw [hnodes]
      exact List.not_mem_cons_of_ne_of_not_mem (hne i hi) List.not_mem_nil
    · exact h.unseen spelling link hlink i (List.mem_cons_of_mem _ hi)
  · have hlink : Link.const i ≠ declared := by
      rintro rfl
      exact hne i hi (List.singleton_inj.mp hnodes)
    exact (if_neg hlink).trans (h.untyped i (List.mem_cons_of_mem _ hi))
  · exact (hL i (hne i hi)).trans (h.unplaced i (List.mem_cons_of_mem _ hi))

/-- Behind two declarations of the same kind, with the same type and at the same place. -/
theorem Parallel.declare {name' : Name} {declared' : Link} {id' : NodeId} {ids' : List NodeId} {L' : Layout}
    {place : Place} (h : S.Parallel S') (hfresh : S.Fresh (id :: ids)) (hfresh' : S'.Fresh (id' :: ids'))
    (henter : S.scopes.enter name.spelling declared = .ok (scopesWith S.scopes name declared))
    (hspelling : name.spelling = name'.spelling)
    (hkind : declared = .const id ∧ declared' = .const id' ∨ declared = .var id ∧ declared' = .var id')
    (hL : ∀ i, L.place? i = if i = id then some place else S.layout.place? i)
    (hL' : ∀ i, L'.place? i = if i = id' then some place else S'.layout.place? i) (hsize : L.size = L'.size) :
    (S.declare name declared type L).Parallel (S'.declare name' declared' type L') := by
  have henter' := (h.enter_ok henter hspelling declared').2
  rw [← hspelling] at henter'
  have hplace : L.place? id = L'.place? id' := by rw [hL, hL', if_pos rfl, if_pos rfl]
  have htype : S.types.declare declared type declared = S'.types.declare declared' type declared' :=
    (if_pos rfl).trans (if_pos rfl).symm
  refine h.enter (S.declare name declared type L) (S'.declare name' declared' type L') henter henter' ?_ hsize
    (fun _ _ => hfresh.keeps_declare ?_ fun i hi => (hL i).trans (if_neg hi))
    fun _ _ => hfresh'.keeps_declare ?_ fun i hi => (hL' i).trans (if_neg hi)
  · rcases hkind with ⟨rfl, rfl⟩ | ⟨rfl, rfl⟩
    · exact .const htype hplace
    · exact .var htype hplace
  · rcases hkind with ⟨rfl, -⟩ | ⟨rfl, -⟩ <;> rfl
  · rcases hkind with ⟨-, rfl⟩ | ⟨-, rfl⟩ <;> rfl

end

end Surroundings

end TriangleCompiler
