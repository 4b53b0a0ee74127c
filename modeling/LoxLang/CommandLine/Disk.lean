/-!
# Reading a program's file

A path is read component by component from the working directory.  Empty
components and single dots count for nothing; two dots lead to the folder around.
A component takes at most 255 bytes.
-/

namespace LoxLang.CommandLine

/-- The components of a path. -/
def components (path : String) : List String :=
  (path.splitOn "/").filter fun part => part ≠ "" ∧ part ≠ "."

/-- Whether a path starts at the root of all folders. -/
def isAbsolute (path : String) : Bool := path.toList.head? = some '/'

/-- The slashes with which an absolute path is shown: one, unless it begins with exactly two. -/
def rootOf (path : String) : String :=
  match path.toList with
  | '/' :: '/' :: '/' :: _ => "/"
  | '/' :: '/' :: _ => "//"
  | _ => "/"

/-- A path as it is shown, given the working directory. -/
def shownPath (workingDirectory path : String) : String :=
  let parts := components path
  if isAbsolute path then rootOf path ++ String.intercalate "/" parts
  else String.intercalate "/" (workingDirectory :: parts)

/-- Why a file cannot be read. -/
inductive ReadError where
  | missing
  | isFolder
  | notFolder
  | nameTooLong
  | other (reason : String)
deriving DecidableEq, Repr

/-- The reason, in words. -/
def ReadError.message : ReadError → String
  | missing => "No such file or directory"
  | isFolder => "Is a directory"
  | notFolder => "Not a directory"
  | nameTooLong => "File name too long"
  | other reason => reason

/-- Why there is nothing of this name in a folder. -/
def ReadError.absent (name : String) : ReadError :=
  if 255 < name.utf8ByteSize then nameTooLong else missing

/-- The files and folders under a working directory, by their components. -/
structure Disk where
  files : List (List String × ByteArray)
  folders : List (List String)

namespace Disk

/-- The contents of a file. -/
def file? (disk : Disk) (path : List String) : Option ByteArray := disk.files.lookup path

/-- Whether there is a folder, perhaps only because something lies in it. -/
def isFolder (disk : Disk) (path : List String) : Bool :=
  disk.folders.any path.isPrefixOf || disk.files.any (path.isPrefixOf ·.1)

/-- Go on outside the working directory, where only the folders around it are known. -/
def walkOutside (parts : List String) : Except ReadError ByteArray :=
  match parts.find? (· ≠ "..") with
  | none => .error .isFolder
  | some name => .error (.absent name)

/-- Go on from a folder. -/
def walk (disk : Disk) (folder : List String) : List String → Except ReadError ByteArray
  | [] => .error .isFolder
  | part :: rest =>
      if part = ".." then
        if folder.isEmpty then walkOutside rest else walk disk folder.dropLast rest
      else
        let path := folder ++ [part]
        match disk.file? path with
        | some contents => if rest.isEmpty then .ok contents else .error .notFolder
        | none => if disk.isFolder path then walk disk path rest else .error (.absent part)

/-- The contents of the file at a path. -/
def read (disk : Disk) (path : String) : Except ReadError ByteArray :=
  if isAbsolute path then walkOutside (components path) else disk.walk [] (components path)

end Disk

end LoxLang.CommandLine
