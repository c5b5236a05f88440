import TriangleCompiler.CommandLine.Path

/-! The tree of all files and the directory in it that a program runs in. A file can stand at several
    locations, and a link leads from one location to another. -/

namespace TriangleCompiler

/-- Why a file could not be read or written. -/
inductive FileError where
  | notFound
  | notADirectory
  | isADirectory
  | nameTooLong
  | tooManyLinks
  | notText
  /-- Another cause, in the words of the system. -/
  | other (message : String)
deriving DecidableEq, Repr

/-- The wording of a file error. -/
def FileError.message : FileError → String
  | notFound => "No such file or directory (os error 2)"
  | notADirectory => "Not a directory (os error 20)"
  | isADirectory => "Is a directory (os error 21)"
  | nameTooLong => "File name too long (os error 36)"
  | tooManyLinks => "Too many levels of symbolic links (os error 40)"
  | notText => "stream did not contain valid UTF-8"
  | other message => message

/-- The names of the folders from the root of all files down to an entry, and the name of the entry. -/
abbrev Location := List String

/-- What tells a file from all others, wherever it stands. -/
abbrev FileId := Nat

/-- What stands at a location. -/
inductive Entry where
  | folder
  | file (id : FileId)
  /-- Paths go on with the target, from the folder that the link is in. -/
  | link (target : String)
deriving DecidableEq, Repr

/-- The file that stands there. -/
def Entry.file? : Entry → Option FileId
  | file id => some id
  | folder | link _ => none

/-- Where a path leads. -/
inductive Destination where
  | folder (location : Location)
  | file (location : Location) (id : FileId)
  /-- Nothing is there yet, in a folder that is. -/
  | vacant (location : Location)
deriving DecidableEq, Repr

/-- The folder that a program runs in, the entries of all folders, and the contents of the files. -/
structure Directory where
  working : Location
  entries : List (Location × Entry)
  contents : FileId → List UInt8

namespace Directory

/-- What stands at a location. The root of all files is a folder. -/
def lookup (d : Directory) (location : Location) : Option Entry :=
  if location = [] then some .folder else d.entries.lookup location

/-! ### Paths -/

/-- The largest number of bytes in a part of a path. -/
def maxPartSize : Nat := 255

/-- The largest number of bytes in a path. -/
def maxPathSize : Nat := 4095

/-- The largest number of links on the way of a path. -/
def maxLinks : Nat := 40

/-- The folder that a path in a folder starts at. -/
def origin (folder : Location) (path : String) : Location :=
  if Path.isAbsolute path then [] else folder

/-- Follows the parts of a path from a folder. At a link, `onLink` goes on: with the folder that the link
    is in, its target and the parts behind it. -/
def walk (lookup : Location → Option Entry)
    (onLink : Location → String → List String → Except FileError Destination) (folder : Location) :
    List String → Except FileError Destination
  | [] => .ok (.folder folder)
  | "" :: rest => walk lookup onLink folder rest
  | "." :: rest => walk lookup onLink folder rest
  | ".." :: rest => walk lookup onLink folder.dropLast rest
  | name :: rest =>
    if maxPartSize < name.utf8ByteSize then .error .nameTooLong
    else
      match lookup (folder ++ [name]) with
      | none => if rest.isEmpty then .ok (.vacant (folder ++ [name])) else .error .notFound
      | some .folder => walk lookup onLink (folder ++ [name]) rest
      | some (.file id) =>
        if rest.isEmpty then .ok (.file (folder ++ [name]) id) else .error .notADirectory
      | some (.link target) => onLink folder target rest

/-- Follows the parts of a path from a folder, through so many links at most. -/
def follow (lookup : Location → Option Entry) :
    Nat → Location → List String → Except FileError Destination
  | 0 => walk lookup fun _ _ _ => .error .tooManyLinks
  | links + 1 => walk lookup fun folder target rest =>
      follow lookup links (origin folder target) (Path.parts target ++ rest)

/-- Where a path leads. -/
def locate (d : Directory) (path : String) : Except FileError Destination :=
  if path = "" then .error .notFound
  else if maxPathSize < path.utf8ByteSize then .error .nameTooLong
  else follow d.lookup maxLinks (origin d.working path) (Path.parts path)

/-! ### Files -/

/-- The contents of a file. -/
def read (d : Directory) (path : String) : Except FileError (List UInt8) := do
  match ← d.locate path with
  | .folder _ => .error .isADirectory
  | .file _ id => .ok (d.contents id)
  | .vacant _ => .error .notFound

/-- Makes `bytes` the contents of a file. -/
def fill (d : Directory) (id : FileId) (bytes : List UInt8) : Directory :=
  { d with contents := fun other => if other = id then bytes else d.contents other }

/-- A file that stands nowhere. -/
def newFile (d : Directory) : FileId :=
  (d.entries.filterMap (·.2.file?)).foldr (fun id next => max (id + 1) next) 0

/-- Puts a new file with the contents `bytes` at a location. -/
def create (d : Directory) (location : Location) (bytes : List UInt8) : Directory :=
  Directory.fill { d with entries := d.entries ++ [(location, .file d.newFile)] } d.newFile bytes

/-- Makes `bytes` the contents of a file, which need not exist before. -/
def write (d : Directory) (path : String) (bytes : List UInt8) : Except FileError Directory := do
  match ← d.locate path with
  | .folder _ => .error .isADirectory
  | .file _ id => .ok (d.fill id bytes)
  | .vacant location => .ok (d.create location bytes)

end Directory

end TriangleCompiler
