import BlockSketch.Sketch.LiveCode
import BlockSketch.Snapshot.Restore
import BlockSketch.Snapshot.Save
import BlockSketch.Workspace.Edit

/-!
Editing sessions.  A session holds a program and the code on display, and
brings the display up to date after every change that went through.  Several
edits can be made as one: if any of them is refused, none has happened.
-/

namespace BlockSketch

structure Editor where
  workspace : Workspace
  live : LiveCode
deriving Inhabited

namespace Editor

def regenerate (editor : Editor) : Editor :=
  { editor with live := editor.live.refresh editor.workspace editor.workspace.registry }

def ofWorkspace (w : Workspace) : Editor :=
  regenerate ⟨w, .start⟩

def new (registry : Registry) (board : String) : Except BoardError Editor := do
  return ofWorkspace (← Workspace.new registry board)

/-- A session that begins with a stored program, or with a new one if the
stored one cannot be rebuilt. -/
def ofSnapshot (registry : Registry) (snapshot : Json) : Editor :=
  ofWorkspace (Workspace.loadValue registry snapshot)

def code (editor : Editor) : String :=
  editor.live.text

/-- Why the code on display is not that of the program, if it is not. -/
def generationError (editor : Editor) : Option GenerationError :=
  editor.live.lastError

def commit (editor : Editor) (w : Workspace) : Editor :=
  regenerate { editor with workspace := w }

def apply {α : Type} (editor : Editor)
    (change : Workspace → Except GraphError (Workspace × α)) :
    Except GraphError (Editor × α) := do
  let (w, result) ← change editor.workspace
  return (editor.commit w, result)

def applyAll (editor : Editor) (edits : List Edit) :
    Except GraphError (Editor × List EditResult) :=
  editor.apply fun w => w.performAll edits

def setBoard (editor : Editor) (board : String) : Except BoardError Editor := do
  return editor.commit (← editor.workspace.setBoard board)

def snapshot (editor : Editor) : Snapshot :=
  editor.workspace.save

end Editor

end BlockSketch
