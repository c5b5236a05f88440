import TriangleCompiler.CommandLine.Directory
import TriangleCompiler.Proofs.CommandLine.Paths

/-! Files in a directory. Many paths lead to one file: by way of `..`, from the root, along links, or because
    the file stands at several locations. What is written at one of these paths is read at all of them, and
    nothing else changes. -/

namespace TriangleCompiler

/-- A file, or the location of one that can be created. -/
inductive Directory.Slot where
  | file (id : FileId)
  | vacant (location : Location)
deriving DecidableEq, Repr

/-- The file that is there. -/
def Directory.Slot.file? : Directory.Slot → Option FileId
  | file id => some id
  | vacant _ => none

/-- The file at a destination. A folder is none. -/
def Destination.slot? : Destination → Option Directory.Slot
  | folder _ => none
  | file _ id => some (.file id)
  | vacant l => some (.vacant l)

/-- The location of a destination. -/
def Destination.location : Destination → Location
  | folder l | file l _ | vacant l => l

/-- What stands at the location is what a path that leads there finds. -/
def Destination.Stands (lookup : Location → Option Entry) : Destination → Prop
  | folder _ => True
  | file l id => lookup l = some (.file id)
  | vacant l => lookup l = none

/-- Where a path leads once the file stands at the location. -/
def Destination.filled (l : Location) (id : FileId) : Destination → Destination
  | vacant l' => if l' = l then .file l id else .vacant l'
  | x => x

namespace Directory

/-! ### Where paths lead -/

section
variable {lookup : Location → Option Entry} {folder l : Location} {parts : List String} {id : FileId}
  {links : Nat} {x : Destination} {onLink onLink' : Location → String → List String → Except FileError Destination}

/-- A walk leads to a folder, or finds out what has the last part of the path as its name, or goes on at a
    link. -/
theorem walk_ok (h : walk lookup onLink folder parts = .ok x) :
    (∃ l, x = .folder l) ∨
    (∃ f name, parts.getLast? = some name ∧ Path.IsName name ∧ x.location = f ++ [name] ∧ x.Stands lookup) ∨
    ∃ f name target rest, lookup (f ++ [name]) = some (.link target) ∧ onLink f target rest = .ok x := by
  have hcons : ∀ {part name : String} {rest : List String}, rest.getLast? = some name →
      (part :: rest).getLast? = some name := by
    intro part name rest hrest
    rw [List.getLast?_cons, hrest, Option.getD_some]
  fun_induction walk lookup onLink folder parts with
  | case1 folder =>
    cases h
    exact .inl ⟨folder, rfl⟩
  | case2 _ _ ih | case3 _ _ ih | case4 _ _ ih | case8 _ _ _ _ _ _ _ _ ih =>
    refine (ih h).imp_right (Or.imp_left ?_)
    rintro ⟨f, name, hlast, hplace⟩
    exact ⟨f, name, hcons hlast, hplace⟩
  | case5 | case7 | case10 => cases h
  | case6 folder name rest hblank hdot hdots _ hentry hrest
  | case9 folder name rest hblank hdot hdots _ _ hentry hrest =>
    cases h
    rw [List.isEmpty_iff.mp hrest]
    exact .inr (.inl ⟨folder, name, rfl, ⟨hblank, hdot, hdots⟩, rfl, hentry⟩)
  | case11 folder name rest _ _ _ _ target hentry => exact .inr (.inr ⟨folder, name, target, rest, hentry, h⟩)

theorem walk_stands (honLink : ∀ {folder target rest}, onLink folder target rest = .ok x → x.Stands lookup)
    (h : walk lookup onLink folder parts = .ok x) : x.Stands lookup := by
  rcases walk_ok h with ⟨l, rfl⟩ | ⟨_, _, -, -, -, hstands⟩ | ⟨_, _, _, _, -, hlink⟩
  · exact trivial
  · exact hstands
  · exact honLink hlink

theorem follow_stands (h : follow lookup links folder parts = .ok x) : x.Stands lookup := by
  induction links generalizing folder parts with
  | zero => exact walk_stands (fun hlink => by cases hlink) h
  | succ links ih => exact walk_stands ih h

/-- Without links a path leads to a folder, or to a location that has the last part of the path as its name. -/
theorem follow_location (hlinks : ∀ {l target}, lookup l ≠ some (.link target))
    (h : follow lookup links folder parts = .ok x) (hx : ∀ l, x ≠ .folder l) :
    ∃ f name, parts.getLast? = some name ∧ Path.IsName name ∧ x.location = f ++ [name] := by
  obtain ⟨onLink, hwalk⟩ : ∃ onLink, walk lookup onLink folder parts = .ok x := by
    cases links <;> exact ⟨_, h⟩
  rcases walk_ok hwalk with ⟨l, rfl⟩ | ⟨f, name, hlast, hname, hplace, -⟩ | ⟨_, _, _, _, hentry, -⟩
  · exact absurd rfl (hx l)
  · exact ⟨f, name, hlast, hname, hplace⟩
  · exact absurd hentry hlinks

/-- A new file changes where a path leads only if it leads to the place of the file. -/
theorem walk_filled (hl : lookup l = none)
    (honLink : ∀ folder target rest,
      (onLink' folder target rest).toOption = (onLink folder target rest).toOption.map (.filled l id)) :
    (walk (fun l' => if l' = l then some (.file id) else lookup l') onLink' folder parts).toOption =
      (walk lookup onLink folder parts).toOption.map (.filled l id) := by
  have hne : ∀ {l' : Location} {entry : Entry}, lookup l' = some entry → l' ≠ l := by
    rintro l' entry hentry rfl
    exact absurd (hl.symm.trans hentry) (by simp)
  fun_induction walk lookup onLink folder parts with
  | case1 => rfl
  | case2 _ _ ih | case3 _ _ ih | case4 _ _ ih => rw [walk, ih]
  | case5 folder name rest hblank hdot hdots hsize =>
    rw [walk.eq_5 _ _ _ _ _ hblank hdot hdots, if_pos hsize]
    rfl
  | case6 folder name rest hblank hdot hdots hsize hnone hrest =>
    rw [walk.eq_5 _ _ _ _ _ hblank hdot hdots, if_neg hsize]
    by_cases hplace : folder ++ [name] = l
    · simp only [hplace, if_true, if_pos hrest, Except.toOption, Option.map_some, Destination.filled]
    · simp only [if_neg hplace, hnone, if_pos hrest, Except.toOption, Option.map_some, Destination.filled]
  | case7 folder name rest hblank hdot hdots hsize hnone hrest =>
    rw [walk.eq_5 _ _ _ _ _ hblank hdot hdots, if_neg hsize]
    by_cases hplace : folder ++ [name] = l
    · simp only [hplace, if_true, if_neg hrest, Except.toOption, Option.map_none]
    · simp only [if_neg hplace, hnone, if_neg hrest, Except.toOption, Option.map_none]
  | case8 folder name rest hblank hdot hdots hsize hentry ih =>
    rw [walk.eq_5 _ _ _ _ _ hblank hdot hdots, if_neg hsize, if_neg (hne hentry), hentry]
    exact ih
  | case9 folder name rest hblank hdot hdots hsize other hentry hrest =>
    rw [walk.eq_5 _ _ _ _ _ hblank hdot hdots, if_neg hsize, if_neg (hne hentry), hentry]
    simp only [if_pos hrest, Except.toOption, Option.map_some, Destination.filled]
  | case10 folder name rest hblank hdot hdots hsize other hentry hrest =>
    rw [walk.eq_5 _ _ _ _ _ hblank hdot hdots, if_neg hsize, if_neg (hne hentry), hentry]
    simp only [if_neg hrest, Except.toOption, Option.map_none]
  | case11 folder name rest hblank hdot hdots hsize target hentry =>
    rw [walk.eq_5 _ _ _ _ _ hblank hdot hdots, if_neg hsize, if_neg (hne hentry), hentry]
    exact honLink folder target rest

theorem follow_filled (hl : lookup l = none) :
    (follow (fun l' => if l' = l then some (.file id) else lookup l') links folder parts).toOption =
      (follow lookup links folder parts).toOption.map (.filled l id) := by
  induction links generalizing folder parts with
  | zero => exact walk_filled hl fun _ _ _ => rfl
  | succ links ih => exact walk_filled hl fun _ _ _ => ih

end

variable {d : Directory} {l l' : Location} {path path' : String} {id : FileId} {bytes : List UInt8} {x : Destination}

theorem follow_of_locate (h : d.locate path = .ok x) :
    follow d.lookup maxLinks (origin d.working path) (Path.parts path) = .ok x := by
  unfold locate at h
  split at h
  · cases h
  · split at h
    · cases h
    · exact h

theorem locate_stands (h : d.locate path = .ok x) : x.Stands d.lookup :=
  follow_stands (follow_of_locate h)

/-! ### Entries -/

theorem lookup_create (h : d.lookup l = none) : (d.create l bytes).lookup =
    fun l' => if l' = l then some (.file d.newFile) else d.lookup l' := by
  have hroot : l ≠ [] := by
    rintro rfl
    simp [lookup] at h
  have hnone : d.entries.lookup l = none := by
    rw [← h, lookup, if_neg hroot]
  funext l'
  simp only [lookup, create, fill, List.lookup_append, List.lookup_cons, List.lookup_nil]
  by_cases hl : l' = l
  · subst hl
    simp [hroot, hnone]
  · have hbeq : (l' == l) = false := beq_eq_false_iff_ne.mpr hl
    simp [hl, hbeq]

theorem mem_entries_of_lookup {entry : Entry} (h : d.lookup l = some entry) (hfolder : entry ≠ .folder) :
    (l, entry) ∈ d.entries := by
  unfold lookup at h
  split at h
  · exact absurd (Option.some.inj h).symm hfolder
  · obtain ⟨before, after, hentries, -⟩ := List.lookup_eq_some_iff.mp h
    rw [hentries]
    exact List.mem_append_right _ (.head _)

/-- No file that stands somewhere is a new one. -/
theorem lt_newFile (h : d.lookup l = some (.file id)) : id < d.newFile := by
  have hmem : id ∈ d.entries.filterMap (·.2.file?) :=
    List.mem_filterMap.mpr ⟨_, mem_entries_of_lookup h (by simp), rfl⟩
  unfold newFile
  generalize d.entries.filterMap (·.2.file?) = ids at hmem
  induction ids with
  | nil => cases hmem
  | cons first ids ih =>
    rw [List.foldr_cons]
    rcases List.mem_cons.mp hmem with rfl | hmem
    · exact Nat.lt_of_lt_of_le (Nat.lt_succ_self id) (Nat.le_max_left _ _)
    · exact Nat.lt_of_lt_of_le (ih hmem) (Nat.le_max_right _ _)

theorem locate_create (h : d.lookup l = none) :
    ((d.create l bytes).locate path).toOption = (d.locate path).toOption.map (.filled l d.newFile) := by
  unfold locate
  split
  · rfl
  · split
    · rfl
    · rw [lookup_create h]
      exact follow_filled h

/-! ### Files -/

/-- The file is at the location, or can be created there. -/
def Slot.Stands (d : Directory) (l : Location) : Slot → Prop
  | file id => d.lookup l = some (.file id)
  | vacant l' => l' = l ∧ d.lookup l = none

/-- The file that a path leads to. -/
def slot? (d : Directory) (path : String) : Option Slot :=
  (d.locate path).toOption.bind Destination.slot?

/-- A file is at the path or can be created there. -/
def Creatable (d : Directory) (path : String) : Prop := (d.slot? path).isSome = true

/-- The paths lead to one file, or to the place of one. -/
def SameFile (d : Directory) (path path' : String) : Prop := d.Creatable path ∧ d.slot? path = d.slot? path'

instance (d : Directory) (path : String) : Decidable (d.Creatable path) :=
  inferInstanceAs (Decidable (_ = true))

instance (d : Directory) (path path' : String) : Decidable (d.SameFile path path') :=
  inferInstanceAs (Decidable (_ ∧ _))

/-- What the file at a path holds. -/
def contents? (d : Directory) (path : String) : Option (List UInt8) := (d.read path).toOption

/-- The file is given its contents, and created before if it is not there. -/
def put (d : Directory) (slot : Slot) (bytes : List UInt8) : Directory :=
  match slot with
  | .file id => d.fill id bytes
  | .vacant l => d.create l bytes

/-- The file that is given its contents. -/
def filledFile (d : Directory) : Slot → FileId
  | .file id => id
  | .vacant _ => d.newFile

variable {slot : Slot}

theorem SameFile.symm (h : d.SameFile path path') : d.SameFile path' path :=
  ⟨by rw [Creatable, ← h.2]; exact h.1, h.2.symm⟩

theorem SameFile.trans {path'' : String} (h : d.SameFile path path') (h' : d.SameFile path' path'') :
    d.SameFile path path'' :=
  ⟨h.1, h.2.trans h'.2⟩

theorem SameFile.slot_eq (h : d.SameFile path path') : d.slot? path = some slot ↔ d.slot? path' = some slot := by
  rw [h.2]

theorem sameFile_of_slot? (h : d.slot? path = some slot) (h' : d.slot? path' = some slot) : d.SameFile path path' :=
  ⟨by rw [Creatable, h]; rfl, h.trans h'.symm⟩

theorem exists_locate (h : d.slot? path = some slot) : ∃ x, d.locate path = .ok x ∧ x.slot? = some slot := by
  unfold slot? at h
  cases hlocate : d.locate path with
  | error e =>
    rw [hlocate] at h
    cases h
  | ok x =>
    rw [hlocate] at h
    exact ⟨x, rfl, h⟩

theorem slot_stands (hlocate : d.locate path = .ok x) (hx : x.slot? = some slot) : slot.Stands d x.location := by
  cases x <;> cases hx
  · exact locate_stands hlocate
  · exact ⟨rfl, locate_stands hlocate⟩

theorem exists_stands (h : d.slot? path = some slot) : ∃ l, slot.Stands d l := by
  obtain ⟨x, hlocate, hx⟩ := exists_locate h
  exact ⟨x.location, slot_stands hlocate hx⟩

theorem lookup_of_vacant (h : d.slot? path = some (.vacant l)) : d.lookup l = none := by
  obtain ⟨_, rfl, hnone⟩ := exists_stands h
  exact hnone

/-- Reading looks at the file and its contents only. -/
theorem contents?_eq : d.contents? path = (d.slot? path).bind fun slot => slot.file?.map d.contents := by
  unfold contents? read slot?
  cases d.locate path with
  | error e => rfl
  | ok x => cases x <;> rfl

theorem read_eq_ok : d.read path = .ok bytes ↔ d.contents? path = some bytes := by
  unfold contents?
  cases d.read path <;> simp [Except.toOption]

theorem write_of_slot? (h : d.slot? path = some slot) : d.write path bytes = .ok (d.put slot bytes) := by
  obtain ⟨x, hlocate, hx⟩ := exists_locate h
  rw [write, hlocate]
  cases x <;> cases hx <;> rfl

theorem write_of_not_creatable (h : ¬ d.Creatable path) : ∃ e, d.write path bytes = .error e := by
  unfold Creatable slot? at h
  unfold write
  cases hlocate : d.locate path with
  | error e => exact ⟨e, rfl⟩
  | ok x =>
    rw [hlocate] at h
    cases x with
    | folder => exact ⟨.isADirectory, rfl⟩
    | file | vacant => exact absurd rfl h

/-! ### What a write changes -/

theorem working_put : (d.put slot bytes).working = d.working := by
  cases slot <;> rfl

theorem contents_put : (d.put slot bytes).contents =
    fun id => if id = d.filledFile slot then bytes else d.contents id := by
  cases slot <;> rfl

theorem lookup_put (h : d.slot? path = some slot) (hl : slot ≠ .vacant l) :
    (d.put slot bytes).lookup l = d.lookup l := by
  cases slot with
  | file id => rfl
  | vacant l' =>
    have hne : l ≠ l' := by
      rintro rfl
      exact hl rfl
    simp only [put, lookup_create (lookup_of_vacant h), if_neg hne]

/-- The paths that led to the place of a file lead to the file, and all others where they led. -/
theorem slot?_put (h : d.slot? path' = some slot) : (d.put slot bytes).slot? path =
    if d.slot? path = some slot then some (.file (d.filledFile slot)) else d.slot? path := by
  cases slot with
  | file id =>
    have hfill : (d.fill id bytes).slot? path = d.slot? path := rfl
    rw [put, hfill]
    split
    · assumption
    · rfl
  | vacant l =>
    rw [put, slot?, locate_create (lookup_of_vacant h), slot?]
    cases (d.locate path).toOption with
    | none => rfl
    | some x =>
      cases x with
      | folder | file => rfl
      | vacant l' =>
        by_cases hl : l' = l
        · simp [Destination.filled, Destination.slot?, filledFile, hl]
        · simp [Destination.filled, Destination.slot?, hl]

/-- Only the paths to the file that is written lead to that file. -/
theorem slot_eq_of_filledFile (h : d.slot? path' = some slot)
    (hpath : d.slot? path = some (.file (d.filledFile slot))) : d.slot? path = some slot := by
  cases slot with
  | file id => exact hpath
  | vacant l =>
    obtain ⟨l', hl'⟩ := exists_stands hpath
    exact absurd (lt_newFile hl') (Nat.lt_irrefl _)

theorem creatable_put (h : d.slot? path' = some slot) : (d.put slot bytes).Creatable path ↔ d.Creatable path := by
  rw [Creatable, Creatable, slot?_put h]
  split
  · rename_i hpath
    simp [hpath]
  · rfl

theorem sameFile_put {path₁ path₂ : String} (h : d.slot? path' = some slot) :
    (d.put slot bytes).SameFile path₁ path₂ ↔ d.SameFile path₁ path₂ := by
  unfold SameFile
  rw [creatable_put h, slot?_put h, slot?_put h]
  refine and_congr_right fun _ => ?_
  split
  · rename_i h₁
    split
    · rename_i h₂
      simp [h₁, h₂]
    · rename_i h₂
      rw [h₁]
      exact ⟨fun heq => absurd (slot_eq_of_filledFile h heq.symm) h₂, fun heq => absurd heq.symm h₂⟩
  · rename_i h₁
    split
    · rename_i h₂
      rw [h₂]
      exact ⟨fun heq => absurd (slot_eq_of_filledFile h heq) h₁, fun heq => absurd heq h₁⟩
    · rfl

/-- What is written is read at every path to the file, and at no other. -/
theorem contents?_put (h : d.slot? path' = some slot) :
    (d.put slot bytes).contents? path = if d.slot? path = some slot then some bytes else d.contents? path := by
  rw [contents?_eq, contents?_eq, slot?_put h, contents_put]
  split
  · simp [Slot.file?]
  · rename_i hne
    cases hpath : d.slot? path with
    | none => rfl
    | some other =>
      cases other with
      | vacant l => rfl
      | file id =>
        have hid : id ≠ d.filledFile slot := by
          rintro rfl
          exact hne (slot_eq_of_filledFile h hpath)
        simp [Slot.file?, hid]

/-! ### Directories without links -/

/-- There is no link, and every file stands at one location. -/
structure Unlinked (d : Directory) : Prop where
  noLink : ∀ {l target}, d.lookup l ≠ some (.link target)
  location_unique : ∀ {l l' id}, d.lookup l = some (.file id) → d.lookup l' = some (.file id) → l = l'

namespace Unlinked

theorem of_entries (hlink : ∀ e ∈ d.entries, ∀ target, e.2 ≠ .link target)
    (hfile : ∀ e ∈ d.entries, ∀ e' ∈ d.entries, ∀ id, e.2 = .file id → e'.2 = .file id → e.1 = e'.1) :
    d.Unlinked where
  noLink h := hlink _ (mem_entries_of_lookup h (by simp)) _ rfl
  location_unique h h' :=
    hfile _ (mem_entries_of_lookup h (by simp)) _ (mem_entries_of_lookup h' (by simp)) _ rfl rfl

theorem exists_name (h : d.Unlinked) (hpath : d.slot? path = some slot) :
    ∃ folder name, (Path.parts path).getLast? = some name ∧ Path.IsName name ∧ slot.Stands d (folder ++ [name]) := by
  obtain ⟨x, hlocate, hx⟩ := exists_locate hpath
  have hfolder : ∀ l, x ≠ .folder l := by
    rintro l rfl
    cases hx
  obtain ⟨folder, name, hlast, hname, hplace⟩ := follow_location h.noLink (follow_of_locate hlocate) hfolder
  exact ⟨folder, name, hlast, hname, hplace ▸ slot_stands hlocate hx⟩

theorem stands_unique (h : d.Unlinked) (hl : slot.Stands d l) (hl' : slot.Stands d l') : l = l' := by
  cases slot with
  | file id => exact h.location_unique hl hl'
  | vacant l'' => exact hl.1.symm.trans hl'.1

/-- Paths to one file end with the same name. -/
theorem getLast?_eq (h : d.Unlinked) (hsame : d.SameFile path path') :
    (Path.parts path).getLast? = (Path.parts path').getLast? := by
  obtain ⟨slot, hslot⟩ := Option.isSome_iff_exists.mp hsame.1
  obtain ⟨folder, name, hlast, -, hstands⟩ := h.exists_name hslot
  obtain ⟨folder', name', hlast', -, hstands'⟩ := h.exists_name (hsame.slot_eq.mp hslot)
  obtain ⟨-, hname⟩ := List.append_inj' (h.stands_unique hstands hstands') rfl
  rw [hlast, hlast', List.singleton_inj.mp hname]

end Unlinked

end Directory
end TriangleCompiler
