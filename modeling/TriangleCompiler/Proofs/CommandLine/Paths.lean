import TriangleCompiler.CommandLine.Path

/-! Paths with another extension. A path with a file name gets the extension behind the stem of that name. A
    path without a file name stays as it is, and its last part is no name. -/

namespace TriangleCompiler.Path

/-! ### Pieces -/

theorem pieces_ne_nil (cs : List Char) : pieces cs ≠ [] := by
  induction cs with
  | nil => simp [pieces]
  | cons c cs ih =>
    rw [pieces]
    split
    · contradiction
    · split <;> simp

theorem pieces_append_slash (p q : List Char) : pieces (p ++ '/' :: q) = pieces p ++ pieces q := by
  induction p with
  | nil =>
    obtain ⟨piece, others, hq⟩ := List.exists_cons_of_ne_nil (pieces_ne_nil q)
    simp [pieces, hq]
  | cons c p ih =>
    obtain ⟨piece, others, hp⟩ := List.exists_cons_of_ne_nil (pieces_ne_nil p)
    rw [List.cons_append, pieces, pieces, ih, hp, List.cons_append]
    dsimp only
    split <;> rfl

theorem pieces_eq_singleton {q : List Char} (h : '/' ∉ q) : pieces q = [q] := by
  induction q with
  | nil => rfl
  | cons c q ih =>
    rw [List.mem_cons, not_or] at h
    rw [pieces, ih h.2]
    dsimp only
    rw [if_neg (Ne.symm h.1)]

/-- Behind a slash, or at the start, the last piece may be any that has no slash in it. -/
theorem exists_pieces_append {base : List Char} (h : base = [] ∨ ∃ b, base = b ++ ['/']) :
    ∃ init, ∀ {q}, '/' ∉ q → pieces (base ++ q) = init ++ [q] := by
  rcases h with rfl | ⟨b, rfl⟩
  · exact ⟨[], pieces_eq_singleton⟩
  · refine ⟨pieces b, fun hq => ?_⟩
    rw [List.append_assoc, List.singleton_append, pieces_append_slash, pieces_eq_singleton hq]

/-- A reversed path is its last piece and what stands before it. -/
theorem exists_takeWhile_append (p : List Char) :
    ∃ base, p = p.takeWhile (· ≠ '/') ++ base ∧ (base = [] ∨ ∃ b, base = '/' :: b) := by
  induction p with
  | nil => exact ⟨[], rfl, .inl rfl⟩
  | cons c p ih =>
    by_cases hc : c = '/'
    · exact ⟨c :: p, by simp [hc], .inr ⟨p, by rw [hc]⟩⟩
    · obtain ⟨base, hp, hbase⟩ := ih
      refine ⟨base, ?_, hbase⟩
      rw [List.takeWhile_cons_of_pos (by simpa using hc), List.cons_append, ← hp]

theorem not_mem_takeWhile (p : List Char) : '/' ∉ p.takeWhile (· ≠ '/') := by
  intro hmem
  simpa using List.all_eq_true.mp List.all_takeWhile _ hmem

theorem exists_pieces_reverse (p : List Char) :
    ∃ init, pieces p.reverse = init ++ [(p.takeWhile (· ≠ '/')).reverse] := by
  obtain ⟨base, hp, hbase⟩ := exists_takeWhile_append p
  have hreverse : base.reverse = [] ∨ ∃ b, base.reverse = b ++ ['/'] := by
    rcases hbase with rfl | ⟨b, rfl⟩
    · exact .inl rfl
    · exact .inr ⟨b.reverse, List.reverse_cons⟩
  obtain ⟨init, hinit⟩ := exists_pieces_append hreverse
  refine ⟨init, ?_⟩
  conv => lhs; rw [hp, List.reverse_append]
  exact hinit (mt List.mem_reverse.mp (not_mem_takeWhile p))

/-! ### File names -/

/-- The part of a path is a name. -/
def IsName (part : String) : Prop := part ≠ "" ∧ part ≠ "." ∧ part ≠ ".."

/-- The last piece of a path without a file name is no name. -/
theorem not_isName_of_fileName?_none {p : List Char} (h : fileName? p = none) :
    ¬ IsName (String.ofList (p.takeWhile (· ≠ '/')).reverse) := by
  rintro ⟨hblank, hdot, hdots⟩
  unfold fileName? dropTrailing at h
  split at h
  · exact hblank (by simp)
  · exact hdot (by simp)
  · dsimp only at h
    split at h
    · rename_i hname
      rcases hname with hname | hname | hname
      · exact hblank (by rw [hname]; rfl)
      · exact hdot (by rw [hname]; rfl)
      · exact hdots (by rw [hname]; rfl)
    · cases h

/-- The stem is part of the file name. -/
theorem mem_of_mem_stem {name : List Char} {c : Char}
    (h : c ∈ ((splitExtension? name).map (·.2)).getD name) : c ∈ name := by
  unfold splitExtension? at h
  split at h
  · rename_i stem hstem
    split at h
    · exact h
    · exact (List.dropWhile_suffix _).subset (hstem ▸ List.mem_cons_of_mem _ h)
  · exact h

/-- An extension is set behind a stem. -/
theorem exists_setExtension {p name : List Char} (h : fileName? p = some name) (extension : List Char) :
    ∃ stem base, '/' ∉ stem ∧ (base = [] ∨ ∃ b, base = '/' :: b) ∧
      setExtension p extension = extension ++ '.' :: (stem ++ base) := by
  obtain ⟨base, hp, hbase⟩ := exists_takeWhile_append (dropTrailing p)
  have hname : name = (dropTrailing p).takeWhile (· ≠ '/') := by
    unfold fileName? at h
    dsimp only at h
    split at h
    · cases h
    · cases h
      rfl
  refine ⟨((splitExtension? name).map (·.2)).getD name, base, fun hslash => ?_, hbase, ?_⟩
  · exact not_mem_takeWhile _ (hname ▸ mem_of_mem_stem hslash)
  · have hdrop : (dropTrailing p).drop name.length = base := by
      conv => lhs; rw [hp, ← hname, List.drop_left]
    simp only [setExtension, h, hdrop, List.append_assoc, List.cons_append]

theorem getLast?_parts_reverse (p : List Char) :
    (parts (String.ofList p.reverse)).getLast? = some (String.ofList (p.takeWhile (· ≠ '/')).reverse) := by
  obtain ⟨init, hinit⟩ := exists_pieces_reverse p
  rw [parts, String.toList_ofList, hinit, List.map_append, List.map_singleton, List.getLast?_concat]

/-- With another extension, a path ends with a stem and the extension, or with a part that is no name. -/
theorem getLast?_withExtension (path : String) {extension : String} (h : '/' ∉ extension.toList) :
    ∃ last, (parts (withExtension path extension)).getLast? = some last ∧
      (IsName last → ∃ stem, last = stem ++ "." ++ extension) := by
  refine ⟨_, getLast?_parts_reverse _, fun hlast => ?_⟩
  cases hname : fileName? (cutExtension path.toList.reverse) with
  | none =>
    rw [setExtension, hname] at hlast
    exact absurd hlast (not_isName_of_fileName?_none hname)
  | some name =>
    obtain ⟨stem, base, hslash, hbase, hset⟩ := exists_setExtension hname extension.toList.reverse
    refine ⟨String.ofList stem.reverse, String.toList_inj.mp ?_⟩
    have hfile : (extension.toList.reverse ++ '.' :: (stem ++ base)).takeWhile (· ≠ '/') =
        extension.toList.reverse ++ '.' :: stem := by
      have hno : ∀ c ∈ extension.toList.reverse ++ '.' :: stem, (decide (c ≠ '/')) = true := by
        intro c hc
        refine decide_eq_true fun hslash' => ?_
        subst hslash'
        simp [h, hslash] at hc
      rw [← List.cons_append, ← List.append_assoc, List.takeWhile_append_of_pos hno]
      rcases hbase with rfl | ⟨b, rfl⟩
      · rw [List.takeWhile_nil, List.append_nil]
      · simp
    rw [hset, hfile]
    simp

end TriangleCompiler.Path
