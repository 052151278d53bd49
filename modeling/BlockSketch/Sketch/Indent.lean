import BlockSketch.Text.Blank
import BlockSketch.Text.Lines

/-!
Indentation.  A container block receives the code of its chain without any
indentation and moves it one level in; nested containers therefore indent the
same lines again and again.  Blank lines are kept, but become empty.
-/

namespace BlockSketch.Sketch

/-- What one level of indentation consists of. -/
def indentUnit : String := "  "

def margin (levels : Nat) : List Char :=
  (List.replicate levels indentUnit.toList).flatten

def indentLine (levels : Nat) (line : List Char) : List Char :=
  if Text.isBlankLine line then ['\n'] else margin levels ++ line ++ ['\n']

/-- `indent code levels` moves every line of the code in by some levels. -/
def indent (code : String) (levels : Nat) : String :=
  String.ofList ((Text.lines code.toList).flatMap (indentLine levels))

/-! ### Lines -/

theorem margin_add (a b : Nat) : margin (a + b) = margin a ++ margin b := by
  simp [margin, ← List.replicate_append_replicate]

theorem indentLine_eq_of_blank {levels : Nat} {line : List Char}
    (h : Text.isBlankLine line = true) : indentLine levels line = ['\n'] := by
  simp [indentLine, h]

end BlockSketch.Sketch
