import Stepwise.Process.Source

/-!
A folder of files in which paths are looked up the way a file system does it: every name but the last must be
that of a folder, and only files can be read.
-/

namespace Stepwise.Rehearsal

/-- The contents of files by the names on the way to them. -/
structure Folder where
  files : List (List String × String)

namespace Folder

private def isStay (name : String) : Bool :=
  name == "" || name == "."

/-- A folder with a file for each path; the folders on the way exist as well. -/
def ofFiles (files : List (String × String)) : Folder :=
  ⟨files.map fun (path, content) => ((path.splitOn "/").filter (!isStay ·), content)⟩

/-- Whether a folder is below this one. -/
def hasFolder (f : Folder) (names : List String) : Bool :=
  f.files.any fun (path, _) => names.length < path.length && path.take names.length == names

private def noFolder : FileResult := .unreachable "Not a directory (os error 20)"

private def isFolder : FileResult := .failed "Is a directory (os error 21)"

private def tooLong : FileResult := .unreachable "File name too long (os error 36)"

private def zeroInName : FileResult :=
  .unreachable "file name contained an unexpected NUL byte"

/-- The greatest number of bytes in a name. -/
def maxNameLength : Nat := 255

/-- The greatest number of bytes in a path. -/
def maxPathLength : Nat := 4095

/-- Look names up from a folder on; `here` leads to it from this one. Outside of this one there are only
folders on the way out. -/
def lookup (f : Folder) (here : List String) : List String → FileResult
  | [] => isFolder
  | name :: rest =>
    if isStay name then f.lookup here rest
    else if name = ".." then
      if here.isEmpty then
        if rest.all fun name => isStay name || name == ".." then isFolder else .missing
      else f.lookup here.dropLast rest
    else if maxNameLength < name.utf8ByteSize then tooLong
    else
      let next := here ++ [name]
      match f.files.lookup next with
      | some content => if rest.isEmpty then .content content else noFolder
      | none => if f.hasFolder next then f.lookup next rest else .missing

/-- Read a file. Of the paths from the root on, only the root and the empty device are known. -/
def read (f : Folder) (path : String) : FileResult :=
  if path.contains '\x00' then zeroInName
  else if maxPathLength < path.utf8ByteSize then tooLong
  else match path.splitOn "/" with
  | [""] => .missing
  | "" :: names =>
    match names.filter (!isStay ·) with
    | [] => isFolder
    | ["dev", "null"] => if names.getLast? = some "null" then .content "" else noFolder
    | _ => .missing
  | names => f.lookup [] names

end Folder

end Stepwise.Rehearsal
