/-!
Blank characters.  Field values, environment settings and captured tool output
are trimmed, and a line of a sketch counts as empty when nothing but blanks
stands on it.  "Blank" is the Unicode property `White_Space`, so the table is
kept here once and everything that trims goes through it.
-/

namespace BlockSketch.Text

/-- The twenty-five characters with the property `White_Space`. -/
def isBlank (c : Char) : Bool :=
  let n := c.toNat
  (9 ≤ n && n ≤ 13) || n == 0x20 || n == 0x85 || n == 0xA0 || n == 0x1680 ||
    (0x2000 ≤ n && n ≤ 0x200A) || n == 0x2028 || n == 0x2029 || n == 0x202F ||
    n == 0x205F || n == 0x3000

def dropBlankEnd (cs : List Char) : List Char :=
  (cs.reverse.dropWhile isBlank).reverse

def dropBlankEnds (cs : List Char) : List Char :=
  dropBlankEnd (cs.dropWhile isBlank)

def trimEnd (s : String) : String :=
  String.ofList (dropBlankEnd s.toList)

def trim (s : String) : String :=
  String.ofList (dropBlankEnds s.toList)

/-- A line on which nothing is visible. -/
def isBlankLine (cs : List Char) : Bool :=
  cs.all isBlank

@[simp] theorem isBlankLine_nil : isBlankLine [] = true := rfl

@[simp] theorem isBlankLine_cons (c : Char) (cs : List Char) :
    isBlankLine (c :: cs) = (isBlank c && isBlankLine cs) := rfl

@[simp] theorem isBlankLine_append (cs ds : List Char) :
    isBlankLine (cs ++ ds) = (isBlankLine cs && isBlankLine ds) := by
  simp [isBlankLine]

end BlockSketch.Text
