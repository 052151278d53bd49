import BlockSketch.Sketch.Program

/-!
The code on display.  It follows the program as it is edited; when a program
has no code, the last one stays on display together with the reason.
-/

namespace BlockSketch

/-- The code on display, and why it is not that of the current program. -/
structure LiveCode where
  text : String
  lastError : Option GenerationError
deriving DecidableEq, Repr, Inhabited

namespace LiveCode

/-- On display before any code was generated. -/
def initialText : String := "// Generated code appears here...\n"

def start : LiveCode := ⟨initialText, none⟩

def isStale (live : LiveCode) : Bool :=
  live.lastError.isSome

def display (live : LiveCode) : Except GenerationError String → LiveCode
  | .ok code => ⟨code, none⟩
  | .error e => { live with lastError := some e }

def refresh (live : LiveCode) (w : Workspace) (registry : Registry) : LiveCode :=
  live.display (w.compileWith registry)

end LiveCode

end BlockSketch
