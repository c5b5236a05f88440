import TriangleCompiler.CommandLine
import TriangleCompiler.Proofs.CommandLine.Files
import TriangleCompiler.Proofs.Compilation.Places

/-! What a run of the compiler does to the files around it, and what it says. -/

namespace TriangleCompiler.CommandLine
open Machine (Code Format)

/-- The bytes of the file are those of the text. -/
def HoldsText (d : Directory) (path source : String) : Prop := d.read path = .ok source.toUTF8.data.toList

theorem fromUTF8?_eq_some {bytes : List UInt8} {source : String}
    (h : String.fromUTF8? ⟨bytes.toArray⟩ = some source) : bytes = source.toUTF8.data.toList := by
  unfold String.fromUTF8? at h
  split at h
  · cases h
    rfl
  · cases h

theorem fromUTF8?_toUTF8 (source : String) :
    String.fromUTF8? ⟨source.toUTF8.data.toList.toArray⟩ = some source := by
  unfold String.fromUTF8?
  rw [Array.toArray_toList]
  exact dif_pos source.isValidUTF8

/-! ### Writing -/

/-- The forms that are asked for, in the order in which they are written. -/
def chosenForms (options : Options) : List Format :=
  match options.emit with
  | .text => [.text]
  | .binary => [.binary]
  | .both => [.text, .binary]

/-- The extension of the file for a form. -/
def fileExtension : Format → String
  | .text => "txt"
  | .binary => "tam"

/-- The path of the file for a form: the given stem, or else the input, with another extension. -/
def filePath (options : Options) (format : Format) : String :=
  Path.withExtension (options.output.getD options.input) (fileExtension format)

/-- The bytes of the file for a form: the text of the code or its binary image. -/
def fileBytes (code : Code) : Format → List UInt8
  | .text => code.text.toUTF8.toList
  | .binary => code.binary

/-- The chosen forms up to the first whose file cannot be created. -/
def writtenForms (d : Directory) (options : Options) : List Format :=
  (chosenForms options).takeWhile fun f => d.Creatable (filePath options f)

theorem formats_eq (options : Options) : options.emit.formats = chosenForms options := by
  unfold chosenForms
  cases options.emit <;> rfl

theorem outputPath_eq (options : Options) (format : Format) :
    outputPath options format = filePath options format := by
  cases format <;> rfl

theorem bytes_eq (code : Code) (format : Format) : code.bytes format = fileBytes code format := by
  cases format <;> rfl

/-- The name of the file for a form ends in the extension of the form. -/
theorem fileName_filePath {options : Options} {format : Format} {name : String} (hname : Path.IsName name)
    (h : (Path.parts (filePath options format)).getLast? = some name) :
    ∃ stem, name = stem ++ "." ++ fileExtension format := by
  have hslash : '/' ∉ (fileExtension format).toList := by
    cases format <;> decide
  obtain ⟨last, hlast, hstem⟩ := Path.getLast?_withExtension (options.output.getD options.input) hslash
  cases Option.some.inj (hlast.symm.trans h)
  exact hstem hname

/-- The files of the forms `done` are written one after the other, and nothing else changes. -/
structure Written (options : Options) (code : Code) (d : Directory) (done : List Format) (d' : Directory) :
    Prop where
  /-- Every path to the file of a form reads that form then, unless a later one is written to the same file. -/
  contents : ∀ before format after, done = before ++ format :: after →
    (∀ f ∈ after, ¬ d.SameFile (filePath options f) (filePath options format)) →
    ∀ path, d.SameFile path (filePath options format) → d'.read path = .ok (fileBytes code format)
  others : ∀ path, (∀ format ∈ done, ¬ d.SameFile path (filePath options format)) →
    d'.contents? path = d.contents? path
  /-- No folder, link or file goes, and the only ones that come are the files of the forms. -/
  entries : ∀ l, (∀ format ∈ done, d.slot? (filePath options format) ≠ some (.vacant l)) →
    d'.lookup l = d.lookup l
  working : d'.working = d.working

section
variable {d d₁ d' : Directory} {options : Options} {code : Code} {format : Format}
  {formats done : List Format} {shown : Shown} {e : FileError}

theorem Written.nil : Written options code d [] d := by
  refine ⟨fun before format after hnil => ?_, fun _ _ => rfl, fun _ _ => rfl, rfl⟩
  exact absurd hnil (by simp)

theorem Written.cons {slot : Directory.Slot} (hslot : d.slot? (filePath options format) = some slot)
    (h : Written options code (d.put slot (fileBytes code format)) done d') :
    Written options code d (format :: done) d' := by
  have hsame : ∀ {path path'}, (d.put slot (fileBytes code format)).SameFile path path' ↔ d.SameFile path path' :=
    Directory.sameFile_put hslot
  refine ⟨?_, ?_, ?_, h.working.trans Directory.working_put⟩
  · intro before f after hdone hafter path hpath
    cases before with
    | nil =>
      cases hdone
      have hother : ∀ f ∈ done, ¬ (d.put slot (fileBytes code format)).SameFile path (filePath options f) :=
        fun f hf hf' => hafter f hf ((hsame.mp hf').symm.trans hpath)
      rw [Directory.read_eq_ok, h.others path hother, Directory.contents?_put hslot, if_pos (hpath.slot_eq.mpr hslot)]
    | cons first before =>
      cases hdone
      exact h.contents before f after rfl (fun f' hf' => mt hsame.mp (hafter f' hf')) path (hsame.mpr hpath)
  · intro path hpath
    have hne : d.slot? path ≠ some slot := fun hslot' =>
      hpath format (.head _) (Directory.sameFile_of_slot? hslot' hslot)
    rw [h.others path fun f hf => mt hsame.mp (hpath f (.tail _ hf)), Directory.contents?_put hslot, if_neg hne]
  · intro l hl
    have hrest : ∀ f ∈ done,
        (d.put slot (fileBytes code format)).slot? (filePath options f) ≠ some (.vacant l) := by
      intro f hf
      rw [Directory.slot?_put hslot]
      split
      · simp
      · exact hl f (.tail _ hf)
    rw [h.entries l hrest, Directory.lookup_put hslot]
    rintro rfl
    exact hl format (.head _) hslot

theorem writeAll_cons_ok (h : d.write (filePath options format) (fileBytes code format) = .ok d₁) :
    writeAll directoryFiles options shown code (format :: formats) d =
      writeAll directoryFiles options
        (shown.note options [⟨.debug, s!"wrote {format.name} code to {filePath options format}"⟩])
        code formats d₁ := by
  simp only [writeAll, directoryFiles, bind, StateT.bind, outputPath_eq, bytes_eq, h]

theorem writeAll_cons_error (h : d.write (filePath options format) (fileBytes code format) = .error e) :
    writeAll directoryFiles options shown code (format :: formats) d = (stopped shown e, d) := by
  simp only [writeAll, directoryFiles, bind, StateT.bind, outputPath_eq, bytes_eq, h]
  rfl

/-- Files are written up to the first that cannot be created. -/
theorem writeAll_written : ∃ outcome d', writeAll directoryFiles options shown code formats d = (outcome, d') ∧
    Written options code d (formats.takeWhile fun f => d.Creatable (filePath options f)) d' ∧
    outcome.exitCode = if ∀ f ∈ formats, d.Creatable (filePath options f) then 0 else 2 := by
  induction formats generalizing d shown with
  | nil => exact ⟨_, _, rfl, .nil, rfl⟩
  | cons format formats ih =>
    by_cases hcreatable : d.Creatable (filePath options format)
    · obtain ⟨slot, hslot⟩ := Option.isSome_iff_exists.mp hcreatable
      obtain ⟨outcome, d', hrun, hwritten, hexit⟩ := @ih (d.put slot (fileBytes code format))
        (shown.note options [⟨.debug, s!"wrote {format.name} code to {filePath options format}"⟩])
      simp only [Directory.creatable_put hslot] at hwritten hexit
      refine ⟨outcome, d', ?_, ?_, ?_⟩
      · rw [writeAll_cons_ok (Directory.write_of_slot? hslot), hrun]
      · rw [List.takeWhile_cons_of_pos (by simpa using hcreatable)]
        exact hwritten.cons hslot
      · simpa only [List.forall_mem_cons, hcreatable, true_and] using hexit
    · obtain ⟨e, he⟩ := Directory.write_of_not_creatable hcreatable
      refine ⟨_, d, writeAll_cons_error he, ?_, ?_⟩
      · rw [List.takeWhile_cons_of_neg (by simpa using hcreatable)]
        exact .nil
      · rw [if_neg fun hall => hcreatable (hall format (.head _))]
        rfl

end

/-! ### Compiling -/

section
variable {d : Directory} {options options' : Options} {source : String} {c : Compilation} {shown shown' : Shown}

theorem compile_of_holdsText (h : HoldsText d options.input source) :
    compile directoryFiles options d = compileText directoryFiles options source d := by
  have hread : d.read options.input = .ok source.toUTF8.data.toList := h
  simp only [compile, directoryFiles, bind, StateT.bind, hread, fromUTF8?_toUTF8]

theorem compile_of_not_holdsText (h : ∀ source, ¬ HoldsText d options.input source) :
    ∃ e, compile directoryFiles options d = (stopped .nothing e, d) := by
  cases hread : d.read options.input with
  | error e =>
    refine ⟨e, ?_⟩
    simp only [compile, directoryFiles, bind, StateT.bind, hread]
    rfl
  | ok bytes =>
    have hnone : String.fromUTF8? ⟨bytes.toArray⟩ = none := by
      rw [Option.eq_none_iff_forall_ne_some]
      intro source hsource
      exact h source (hread.trans (congrArg Except.ok (fromUTF8?_eq_some hsource)))
    refine ⟨.notText, ?_⟩
    simp only [compile, directoryFiles, bind, StateT.bind, hread, hnone]
    rfl

/-- What is shown once the source text is compiled. -/
def shownFor (options : Options) (c : Compilation) : Shown :=
  ⟨dump options c, if options.verbose then ⟨.info, s!"compiling {options.input}"⟩ :: c.log else []⟩

theorem shownFor_eq : ⟨dump options c, ((Shown.nothing.note options [⟨.info, s!"compiling {options.input}"⟩]).note
    options c.log).log⟩ = shownFor options c := by
  unfold shownFor Shown.note
  split <;> rfl

theorem compile_of_error {errors : Diagnostics} (h : HoldsText d options.input source)
    (hrun : Compilation.run source = .ok c) (hresult : c.result = .error errors) :
    compile directoryFiles options d = (failed options (shownFor options c) errors, d) := by
  rw [compile_of_holdsText h]
  simp only [compileText, hrun, hresult, shownFor_eq]
  rfl

theorem compile_of_ok {code : Code} (h : HoldsText d options.input source)
    (hrun : Compilation.run source = .ok c) (hresult : c.result = .ok code) : compile directoryFiles options d =
      writeAll directoryFiles options (shownFor options c) code (chosenForms options) d := by
  rw [compile_of_holdsText h]
  simp only [compileText, hrun, hresult, shownFor_eq, formats_eq]

/-- The input is no text, or a program with errors, or one whose code is written. -/
theorem compile_cases (options : Options) (d : Directory) :
    ((∀ source, ¬ HoldsText d options.input source) ∧
      ∃ e, compile directoryFiles options d = (stopped .nothing e, d)) ∨
    ∃ source c, HoldsText d options.input source ∧ Compilation.run source = .ok c ∧
      ((∃ errors, c.result = .error errors ∧
        compile directoryFiles options d = (failed options (shownFor options c) errors, d)) ∨
      ∃ code, c.result = .ok code ∧ compile directoryFiles options d =
        writeAll directoryFiles options (shownFor options c) code (chosenForms options) d) := by
  by_cases hreadable : ∃ source, HoldsText d options.input source
  · obtain ⟨source, hsource⟩ := hreadable
    obtain ⟨c, hrun, -⟩ := Compilation.run_ends source
    refine .inr ⟨source, c, hsource, hrun, ?_⟩
    cases hresult : c.result with
    | error errors => exact .inl ⟨errors, rfl, compile_of_error hsource hrun hresult⟩
    | ok code => exact .inr ⟨code, rfl, compile_of_ok hsource hrun hresult⟩
  · exact .inl ⟨not_exists.mp hreadable, compile_of_not_holdsText (not_exists.mp hreadable)⟩

theorem compile_written {code : Code} (h : HoldsText d options.input source)
    (hrun : Compilation.run source = .ok c) (hresult : c.result = .ok code) :
    ∃ outcome d', compile directoryFiles options d = (outcome, d') ∧
      Written options code d (writtenForms d options) d' ∧
      outcome.exitCode = if ∀ f ∈ chosenForms options, d.Creatable (filePath options f) then 0 else 2 := by
  rw [compile_of_ok h hrun hresult]
  exact writeAll_written

end

end TriangleCompiler.CommandLine
