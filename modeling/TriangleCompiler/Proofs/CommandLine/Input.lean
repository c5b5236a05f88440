import TriangleCompiler.Proofs.CommandLine.Effects

/-! What a run does to its own input. The files to write are named after a path by their extension, and
    nothing keeps such a path from leading to the input: then the input gives way to the code. -/

namespace TriangleCompiler.CommandLine
open Machine (Code Format)

/-- The input is a program without errors, and this is its code. -/
def Compiles (d : Directory) (options : Options) (code : Code) : Prop :=
  ∃ source c, HoldsText d options.input source ∧ Compilation.run source = .ok c ∧ c.result = .ok code

/-- The form takes the place of the input: its file is written and is the input, and the file of no form that
    is written later is. -/
def Overwrites (d : Directory) (options : Options) (format : Format) : Prop :=
  ∃ before after, writtenForms d options = before ++ format :: after ∧
    d.SameFile (filePath options format) options.input ∧
    ∀ f ∈ after, ¬ d.SameFile (filePath options f) options.input

section
variable {d d' : Directory} {options : Options} {code : Code} {format : Format}

/-- Among the forms whose file is the input there is a last one. -/
theorem exists_overwrites (hmem : format ∈ writtenForms d options)
    (hsame : d.SameFile (filePath options format) options.input) : ∃ f, Overwrites d options f := by
  unfold Overwrites
  generalize writtenForms d options = done at hmem
  induction done generalizing format with
  | nil => cases hmem
  | cons first done ih =>
    by_cases hlater : ∃ f ∈ done, d.SameFile (filePath options f) options.input
    · obtain ⟨f, hf, hsame⟩ := hlater
      obtain ⟨last, before, after, rfl, hlast⟩ := ih hsame hf
      exact ⟨last, first :: before, after, rfl, hlast⟩
    · have hafter : ∀ f ∈ done, ¬ d.SameFile (filePath options f) options.input :=
        fun f hf hf' => hlater ⟨f, hf, hf'⟩
      rcases List.mem_cons.mp hmem with rfl | hmem
      · exact ⟨format, [], done, rfl, hsame, hafter⟩
      · exact absurd hsame (hafter format hmem)

theorem Overwrites.mem_writtenForms (h : Overwrites d options format) : format ∈ writtenForms d options := by
  obtain ⟨before, after, hdone, -⟩ := h
  rw [hdone]
  exact List.mem_append_right _ (.head _)

/-- Without links only the name of a file to write can be that of an input which is written over. -/
theorem Overwrites.fileName (h : Overwrites d options format) (hlinks : d.Unlinked) :
    ∃ stem, (Path.parts options.input).getLast? = some (stem ++ "." ++ fileExtension format) := by
  obtain ⟨before, after, -, hsame, -⟩ := h
  obtain ⟨slot, hslot⟩ := Option.isSome_iff_exists.mp hsame.1
  obtain ⟨-, name, hlast, hname, -⟩ := hlinks.exists_name hslot
  obtain ⟨stem, rfl⟩ := fileName_filePath hname hlast
  exact ⟨stem, (hlinks.getLast?_eq hsame).symm.trans hlast⟩

/-- An input that is written over has the bytes of the code afterwards. -/
theorem read_compile_of_overwrites (hcode : Compiles d options code) (h : Overwrites d options format) :
    (compile directoryFiles options d).2.read options.input = .ok (fileBytes code format) := by
  obtain ⟨source, c, hsource, hrun, hresult⟩ := hcode
  obtain ⟨outcome, d', hcompile, hwritten, -⟩ := compile_written hsource hrun hresult
  obtain ⟨before, after, hdone, hsame, hafter⟩ := h
  rw [hcompile]
  exact hwritten.contents before format after hdone (fun f hf hf' => hafter f hf (hf'.trans hsame)) _ hsame.symm

/-- Any other input stays as it is. -/
theorem read_compile_of_not_overwrites (h : ∀ code format, Compiles d options code → ¬Overwrites d options format) :
    (compile directoryFiles options d).2.read options.input = d.read options.input := by
  rcases compile_cases options d with ⟨-, e, he⟩ |
    ⟨source, c, hsource, hrun, ⟨errors, -, hfailed⟩ | ⟨code, hresult, -⟩⟩
  · rw [he]
  · rw [hfailed]
  · obtain ⟨outcome, d', hcompile, hwritten, -⟩ := compile_written hsource hrun hresult
    have hother : ∀ f ∈ writtenForms d options, ¬ d.SameFile options.input (filePath options f) := by
      intro f hf hsame
      obtain ⟨last, hlast⟩ := exists_overwrites hf hsame.symm
      exact h code last ⟨source, c, hsource, hrun, hresult⟩ hlast
    have hread : d.read options.input = .ok source.toUTF8.data.toList := hsource
    rw [hcompile, hread, Directory.read_eq_ok, hwritten.others _ hother, ← Directory.read_eq_ok, hread]

end

/-- What a request does to the input, whatever files and links there are. A request for no compilation changes
    nothing. Otherwise the input has the same contents as before, unless it is a program without errors and one
    of the files that are written is the input itself, whichever way the paths lead there; then it has the code
    in the last form that is written to it. Without links this happens only to a file whose name ends in the
    extension of a chosen form. -/
theorem serve_keeps_input (request : Request) (d : Directory) :
    ((∀ options, request ≠ .compile options) → (serve directoryFiles request d).2 = d) ∧
    ∀ options, request = .compile options →
      ((∀ code format, Compiles d options code → ¬Overwrites d options format) →
        (serve directoryFiles request d).2.read options.input = d.read options.input) ∧
      (∀ code format, Compiles d options code → Overwrites d options format →
        (serve directoryFiles request d).2.read options.input = .ok (fileBytes code format)) ∧
      (d.Unlinked → (∀ format ∈ chosenForms options, ∀ stem,
          (Path.parts options.input).getLast? ≠ some (stem ++ "." ++ fileExtension format)) →
        (serve directoryFiles request d).2.read options.input = d.read options.input) := by
  refine ⟨fun hother => ?_, ?_⟩
  · cases request with
    | compile options => exact absurd rfl (hother options)
    | version | help => rfl
  · rintro options rfl
    refine ⟨read_compile_of_not_overwrites, fun code format => read_compile_of_overwrites, fun hlinks hname => ?_⟩
    refine read_compile_of_not_overwrites fun code format _ hover => ?_
    obtain ⟨stem, hstem⟩ := hover.fileName hlinks
    exact hname format ((List.takeWhile_sublist _).subset hover.mem_writtenForms) stem hstem

/-- An input gives way to its own code where its path leads out of the directory and back, and where the file to
    write is a link to it. The same program in a file with a name of its own stays. -/
theorem serve_keeps_input_beside_stem :
    (∃ code, (serve directoryFiles (.compile ⟨"../w/a.txt", some "a", .text, false, false, false⟩)
      ⟨["w"], [(["w"], .folder), (["w", "a.txt"], .file 0)], fun _ => "puteol()".toUTF8.data.toList⟩).2.read
        "../w/a.txt" = .ok (Code.text code).toUTF8.toList) ∧
    (∃ code, (serve directoryFiles (.compile ⟨"a.tri", none, .both, false, false, false⟩)
      ⟨["w"], [(["w"], .folder), (["w", "a.tri"], .file 0), (["w", "a.txt"], .link "a.tri")],
        fun _ => "puteol()".toUTF8.data.toList⟩).2.read "a.tri" = .ok (Code.text code).toUTF8.toList) ∧
    (serve directoryFiles (.compile ⟨"a.tri", some "./a.b", .both, false, false, false⟩)
      ⟨["w"], [(["w"], .folder), (["w", "a.tri"], .file 0)], fun _ => "puteol()".toUTF8.data.toList⟩).2.read "a.tri" =
        .ok "puteol()".toUTF8.data.toList := by
  have hcompiles : ((Compilation.run "puteol()").toOption.any fun c => c.result.toOption.isSome) = true := by
    decide +kernel
  obtain ⟨c, hrun, -⟩ := Compilation.run_ends "puteol()"
  rw [hrun] at hcompiles
  cases hresult : c.result with
  | error errors => simp [hresult, Except.toOption] at hcompiles
  | ok code =>
    refine ⟨⟨code, ?_⟩, ⟨code, ?_⟩, ?_⟩
    · refine ((serve_keeps_input _ _).2 _ rfl).2.1 code .text ⟨"puteol()", c, ?_, hrun, hresult⟩
        ⟨[], [], by decide +kernel, by decide +kernel, by simp⟩
      unfold HoldsText
      decide +kernel
    · refine ((serve_keeps_input _ _).2 _ rfl).2.1 code .text ⟨"puteol()", c, ?_, hrun, hresult⟩
        ⟨[], [.binary], by decide +kernel, by decide +kernel, by decide +kernel⟩
      unfold HoldsText
      decide +kernel
    · refine (((serve_keeps_input _ _).2 _ rfl).2.2 (.of_entries (by simp) (by simp)) ?_).trans (by decide +kernel)
      intro format _ stem hstem
      have hname : "a.tri" = stem ++ "." ++ fileExtension format :=
        Option.some.inj ((by decide +kernel : _ = some "a.tri").symm.trans hstem)
      have hlast := congrArg (fun name => name.toList.reverse.take 3) hname
      simp only [String.toList_append, List.reverse_append] at hlast
      cases format <;> exact absurd hlast (by simp [fileExtension])

/-- A program in a file with the extension of the text form does not survive its compilation. -/
theorem serve_overwrites_input : ¬ ∀ (options : Options) (d : Directory),
    (serve directoryFiles (.compile options) d).2.read options.input = d.read options.input := by
  intro hkeeps
  refine absurd (hkeeps ⟨"a.txt", none, .both, false, false, false⟩
    ⟨["w"], [(["w"], .folder), (["w", "a.txt"], .file 0)], fun _ => "puteol()".toUTF8.data.toList⟩) ?_
  decide +kernel

end TriangleCompiler.CommandLine
