import TriangleCompiler.CommandLine
import TriangleCompiler.CommandLine.Arguments

/-! The command line. -/

namespace TriangleCompiler.CommandLine

/-- An error of the system. -/
def systemError (e : IO.Error) : FileError :=
  match e with
  | .noFileOrDirectory .. => .notFound
  | .inappropriateType _ 20 _ => .notADirectory
  | .inappropriateType _ 21 _ => .isADirectory
  | .invalidArgument _ 36 _ => .nameTooLong
  | .invalidArgument _ 40 _ => .tooManyLinks
  | e => .other (toString e)

/-- The files of the system. -/
def systemFiles : FileSystem IO where
  read path := do
    try
      return .ok (← IO.FS.readBinFile path).toList
    catch e => return .error (systemError e)
  write path bytes := do
    try
      IO.FS.writeBinFile path ⟨bytes.toArray⟩
      return .ok ()
    catch e => return .error (systemError e)

end TriangleCompiler.CommandLine

open TriangleCompiler.CommandLine

/-- Compiles the program that the arguments name. -/
def main (args : List String) : IO UInt32 := do
  match Request.ofArguments args with
  | .error e =>
    IO.eprint (e.message ++ "\n\n" ++ usageText)
    return 2
  | .ok request =>
    let outcome ← serve systemFiles request
    IO.print outcome.stdout
    IO.eprint outcome.stderr
    return UInt32.ofNat outcome.exitCode
