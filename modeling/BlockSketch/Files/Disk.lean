import BlockSketch.Files.Path

/-!
Folders and files.  Before a sketch is compiled it is written to a file in a
folder of its own, and the folder is made if it is not there.  This is as much
of a file system as that needs: names, folders, files with a text, and the ways
in which it can go wrong.  `.` and `..` on a path mean what they always mean,
and a path through something that is not there leads nowhere, even if it comes
back.
-/

namespace BlockSketch

inductive FileFault
  | notFound
  | alreadyThere
  | notAFolder
  | isAFolder
  | nameTooLong
  | nameHasNul
deriving DecidableEq, Repr, Inhabited

def FileFault.message : FileFault → String
  | .notFound => "No such file or directory (os error 2)"
  | .alreadyThere => "File exists (os error 17)"
  | .notAFolder => "Not a directory (os error 20)"
  | .isAFolder => "Is a directory (os error 21)"
  | .nameTooLong => "File name too long (os error 36)"
  | .nameHasNul => "file name contained an unexpected NUL byte"

/-- Folders and files, by the names on the way to them. -/
structure Disk where
  folders : List (List String)
  files : List (List String × String)
deriving Inhabited

namespace Disk

/-- Whether there is a folder.  The root always is one. -/
def isFolder (disk : Disk) (place : List String) : Bool :=
  place.isEmpty || disk.folders.contains place

def file? (disk : Disk) (place : List String) : Option String :=
  disk.files.lookup place

def nameLimit : Nat := 255

/-- Where a path leads, step by step from a folder. -/
def resolve (disk : Disk) (place : List String) : List String → Except FileFault (List String)
  | [] => .ok place
  | name :: rest =>
    if !disk.isFolder place then .error .notAFolder
    else if name = "." then resolve disk place rest
    else if name = ".." then resolve disk place.dropLast rest
    else if nameLimit < name.utf8ByteSize then .error .nameTooLong
    else if disk.isFolder (place ++ [name]) || (disk.file? (place ++ [name])).isSome then
      resolve disk (place ++ [name]) rest
    else .error .notFound

def leadsToFolder (disk : Disk) (path : List String) : Bool :=
  match disk.resolve [] path with
  | .ok place => disk.isFolder place
  | .error _ => false

/-- The place that the last name of a path stands for, in the folder to which
the names before it lead. -/
def entry (disk : Disk) (path : List String) : Except FileFault (List String) := do
  let folder ← disk.resolve [] path.dropLast
  if !disk.isFolder folder then throw .notAFolder
  match path.getLast? with
  | none => return folder
  | some name =>
    if nameLimit < name.utf8ByteSize then throw .nameTooLong
    if name = "." then return folder
    if name = ".." then return folder.dropLast
    return folder ++ [name]

def makeFolder (disk : Disk) (path : List String) : Except FileFault Disk := do
  let place ← disk.entry path
  if disk.isFolder place || (disk.file? place).isSome then throw .alreadyThere
  return { disk with folders := disk.folders ++ [place] }

def trimDots (path : List String) : List String :=
  (path.reverse.dropWhile fun name => name == ".").reverse

def parent (path : List String) : List String :=
  trimDots (trimDots path).dropLast

theorem length_trimDots_le (path : List String) : (trimDots path).length ≤ path.length := by
  have := (List.dropWhile_sublist (fun name => name == ".") (l := path.reverse)).length_le
  simpa [trimDots] using this

theorem length_parent_lt {path : List String} (h : path ≠ []) :
    (parent path).length < path.length := by
  have h1 := length_trimDots_le (trimDots path).dropLast
  have h2 := length_trimDots_le path
  have h3 : 0 < path.length := List.length_pos_iff.2 h
  simp only [parent, List.length_dropLast] at *
  omega

def ensureFolder (disk : Disk) (path : List String) : Except FileFault Disk :=
  match disk.makeFolder path with
  | .ok disk => .ok disk
  | .error fault => if disk.leadsToFolder path then .ok disk else .error fault

/-- Makes a folder and those around it that are missing. -/
def makeFolders (disk : Disk) (path : List String) : Except FileFault Disk :=
  if _h : path = [] then .ok disk
  else
    match disk.ensureFolder path with
    | .error .notFound => do
      let disk ← makeFolders disk (parent path)
      disk.ensureFolder path
    | result => result
termination_by path.length
decreasing_by exact length_parent_lt ‹_›

def write (disk : Disk) (path : List String) (text : String) : Except FileFault Disk := do
  let place ← disk.entry path
  if disk.isFolder place then throw .isAFolder
  return { disk with files := (place, text) :: disk.files.filter fun f => f.1 != place }

def read? (disk : Disk) (path : List String) : Option String :=
  match disk.resolve [] path with
  | .ok place => disk.file? place
  | .error _ => none

/-- How long a path may be, in bytes, with the zero that the system puts behind
it. -/
def pathLimit : Nat := 4096

/-- The names on a path, if it can be handed to the system at all. -/
def namesOn (path : String) : Except FileFault (List String) :=
  if path.toList.contains '\x00' then .error .nameHasNul
  else if pathLimit ≤ path.utf8ByteSize then .error .nameTooLong
  else .ok (Path.names path)

def makeFoldersAt (disk : Disk) (path : String) : Except FileFault Disk := do
  disk.makeFolders (← namesOn path)

def writeAt (disk : Disk) (path text : String) : Except FileFault Disk := do
  disk.write (← namesOn path) text

def readAt? (disk : Disk) (path : String) : Option String :=
  match namesOn path with
  | .ok names => disk.read? names
  | .error _ => none

end Disk

end BlockSketch
