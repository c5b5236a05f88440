import TriangleCompiler.SymbolTable

/-! What the names in sight stand for, when scopes are opened and names are declared. -/

namespace TriangleCompiler.SymbolTable

variable {t u : SymbolTable}

@[simp] theorem retrieve?_openScope (t : SymbolTable) (name : String) :
    t.openScope.retrieve? name = t.retrieve? name := by
  simp [retrieve?, openScope]

@[simp] theorem inner_openScope (t : SymbolTable) (name : String) : t.openScope.inner[name]? = none := by
  simp [openScope]

theorem getElem?_insert (scope : Scope) (name : String) (link : Link) (name' : String) :
    (scope.insert name link)[name']? = if name' = name then some link else scope[name']? := by
  simp only [Std.TreeMap.getElem?_insert, Std.LawfulEqCmp.compare_eq_iff_eq, eq_comm (a := name)]

/-- A name that is declared stands for its declaration; the others stand for what they stood for. -/
theorem retrieve?_enter {name : String} {link : Link} (h : t.enter name link = .ok u) (name' : String) :
    u.retrieve? name' = if name' = name then some link else t.retrieve? name' := by
  unfold enter at h
  split at h
  · cases h
  · cases h
    simp only [retrieve?, List.findSome?_cons, getElem?_insert]
    by_cases hname : name' = name
    · simp [hname]
    · simp [hname]

/-- A name is declared only where its scope does not declare it yet, and changes no other one. -/
theorem inner_enter {name : String} {link : Link} (h : t.enter name link = .ok u) :
    t.inner[name]? = none ∧ ∀ name', u.inner[name']? = if name' = name then some link else t.inner[name']? := by
  unfold enter at h
  split at h
  · cases h
  · rename_i hnone
    cases h
    exact ⟨hnone, getElem?_insert t.inner name link⟩

theorem inner_of_enter_error {name : String} {link existing : Link} (h : t.enter name link = .error existing) :
    t.inner[name]? = some existing := by
  unfold enter at h
  split at h
  · rename_i hsome
    cases h
    exact hsome
  · cases h

/-- Names that are entered one after the other are found again, as no two of them are the same. -/
theorem getElem?_foldl_insert (bs : List Builtin) (hnames : (bs.map Builtin.name).Nodup) (scope : Scope)
    (name : String) : (bs.foldl (fun scope b => scope.insert b.name (.builtin b)) scope)[name]? =
      ((bs.find? (·.name = name)).map Link.builtin).or scope[name]? := by
  induction bs generalizing scope with
  | nil => simp
  | cons b bs ih =>
    obtain ⟨hb, hnames⟩ := List.nodup_cons.mp hnames
    rw [List.foldl_cons, ih hnames, getElem?_insert, List.find?_cons]
    by_cases hname : b.name = name
    · have hrest : bs.find? (·.name = name) = none := by
        rw [List.find?_eq_none]
        intro b' hb' hsame
        exact hb (List.mem_map.mpr ⟨b', hb', (of_decide_eq_true hsame).trans hname.symm⟩)
      simp [hname, hrest]
    · simp [hname, Ne.symm hname]

/-- The names of the standard environment, in one scope. -/
def standard : SymbolTable :=
  ⟨Builtin.all.foldl (fun scope b => scope.insert b.name (.builtin b)) ∅, []⟩

/-- Builtins with names of their own, none of which is declared yet, are entered without a fault. -/
theorem enterBuiltins_eq (bs : List Builtin) (hnames : (bs.map Builtin.name).Nodup) (t : SymbolTable)
    (hnew : ∀ b ∈ bs, t.inner[b.name]? = none) : t.enterBuiltins bs =
      .ok { t with inner := bs.foldl (fun scope b => scope.insert b.name (.builtin b)) t.inner } := by
  induction bs generalizing t with
  | nil => rfl
  | cons b bs ih =>
    obtain ⟨hb, hnames⟩ := List.nodup_cons.mp hnames
    have henter : t.enter b.name (.builtin b) =
        .ok { t with inner := t.inner.insert b.name (.builtin b) } := by
      rw [enter, hnew b List.mem_cons_self]
    have hrest : ∀ b' ∈ bs, (t.inner.insert b.name (.builtin b))[b'.name]? = none := by
      intro b' hb'
      have hne : b'.name ≠ b.name := fun hsame => hb (hsame ▸ List.mem_map_of_mem hb')
      rw [getElem?_insert, if_neg hne]
      exact hnew b' (List.mem_cons_of_mem b hb')
    rw [enterBuiltins, henter]
    exact ih hnames _ hrest

theorem ofBuiltins_all : ofBuiltins Builtin.all = .ok standard :=
  enterBuiltins_eq Builtin.all (by decide) empty fun b _ => by simp [empty]

/-- Outside of all declarations a name stands for what it stands for in the standard environment. -/
theorem retrieve?_standard (name : String) :
    standard.retrieve? name = (Builtin.ofName? name).map Link.builtin := by
  rw [retrieve?, standard, List.findSome?_singleton, getElem?_foldl_insert _ (by decide), Builtin.ofName?]
  simp

end TriangleCompiler.SymbolTable
