/-! Paths: names of files, of which the parts are divided by slashes. -/

namespace TriangleCompiler.Path

/-- Drops the slashes, and the dots that are whole parts, from the end of a path; the path is
    reversed. -/
def dropTrailing : List Char → List Char
  | '/' :: rest => dropTrailing rest
  | '.' :: '/' :: rest => dropTrailing rest
  | path => path

/-- The file name at the end of a path, both reversed. Slashes and dots behind it do not count, and
    neither a dot alone nor two dots are a file name. -/
def fileName? (path : List Char) : Option (List Char) :=
  let name := (dropTrailing path).takeWhile (· ≠ '/')
  if name = [] ∨ name = ['.'] ∨ name = ['.', '.'] then none else some name

/-- Divides a file name at its last dot into the extension and the stem; all are reversed. A dot that
    starts the name does not count. -/
def splitExtension? (name : List Char) : Option (List Char × List Char) :=
  match name.dropWhile (· ≠ '.') with
  | '.' :: stem => if stem.isEmpty then none else some (name.takeWhile (· ≠ '.'), stem)
  | _ => none

/-- Ends a path with `extension` instead of what follows the stem of its file name; both are reversed. A
    path without a file name stays as it is. -/
def setExtension (path extension : List Char) : List Char :=
  match fileName? path with
  | none => path
  | some name =>
    let stem := ((splitExtension? name).map (·.2)).getD name
    extension ++ '.' :: stem ++ (dropTrailing path).drop name.length

/-- Cuts as many characters from the end of a path as its extension has, which leaves the dot if nothing
    stands behind the extension; the path is reversed. -/
def cutExtension (path : List Char) : List Char :=
  match (fileName? path).bind splitExtension? with
  | some (extension, _) => path.drop extension.length
  | none => path

/-- The path with `extension` in the place of what follows the last dot of its file name. The old
    extension is cut off before the new one is set, so a path that ends in `..` and an extension is left
    with no file name, and ends in `..`. -/
def withExtension (path extension : String) : String :=
  String.ofList
    (setExtension (cutExtension path.toList.reverse) extension.toList.reverse).reverse

/-- The pieces of a text between the slashes in it. -/
def pieces : List Char → List (List Char)
  | [] => [[]]
  | c :: rest =>
    match pieces rest with
    | [] => []
    | piece :: others => if c = '/' then [] :: piece :: others else (c :: piece) :: others

/-- The parts of a path. -/
def parts (path : String) : List String :=
  (pieces path.toList).map String.ofList

/-- Whether a path starts at the root of all files. -/
def isAbsolute (path : String) : Bool :=
  path.toList.head? = some '/'

end TriangleCompiler.Path
