/-!
Paths.  A path is kept as it was written; joining puts a separator where one is
missing and resolves nothing.  A name that begins with a separator is a path of
its own and replaces what it is joined to.
-/

namespace BlockSketch.Path

def isAbsolute (path : String) : Bool :=
  path.toList.head? == some '/'

/-- Whether a separator is missing before something is appended. -/
def needsSeparator (path : String) : Bool :=
  match path.toList.getLast? with
  | some c => c != '/'
  | none => false

def join (root name : String) : String :=
  if isAbsolute name then name
  else if needsSeparator root then root ++ "/" ++ name
  else root ++ name

/-- The names on a path; separators next to each other count as one. -/
def names (path : String) : List String :=
  ((path.toList.splitOn '/').filter fun cs => !cs.isEmpty).map String.ofList

theorem join_of_isAbsolute {root name : String} (h : isAbsolute name = true) :
    join root name = name := by
  simp [join, h]

end BlockSketch.Path
