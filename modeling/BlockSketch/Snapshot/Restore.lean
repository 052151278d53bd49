import BlockSketch.Snapshot.Json
import BlockSketch.Workspace.Connect
import BlockSketch.Workspace.Fields

/-!
Reading a program back.  A snapshot is rebuilt block by block through the same
operations that an editor uses, so that nothing gets into a workspace that an
edit could not have put there.  `restore` refuses a snapshot that cannot be
rebuilt in full; `load` never refuses, and starts an empty program instead.
-/

namespace BlockSketch

inductive RestoreFault
  | newerVersion (version : UInt32)
  | board (error : BoardError)
  | emptyStack
  | graph (error : GraphError)
  | described (reason : String)
deriving DecidableEq, Repr, Inhabited

def RestoreFault.message : RestoreFault → String
  | .newerVersion version =>
    let current := toString Snapshot.currentVersion.toNat
    s!"snapshot version {version.toNat} is newer than supported version {current}"
  | .board error => error.message
  | .emptyStack => "empty stack"
  | .graph error => error.message
  | .described reason => reason

inductive PersistenceError
  | json (reason : String)
  | reconstruct (fault : RestoreFault)
  | notFound (project : String)
  | store (reason : String)
deriving DecidableEq, Repr, Inhabited

def PersistenceError.message : PersistenceError → String
  | .json reason => s!"Snapshot JSON error: {reason}"
  | .reconstruct fault => s!"Snapshot could not be reconstructed: {fault.message}"
  | .notFound project => s!"Project '{project}' not found"
  | .store reason => s!"Project store error: {reason}"

namespace Workspace

mutual

/-- Adds a block with everything plugged into it. -/
def restoreBlock (w : Workspace) (position : Position) :
    StoredBlock → Except GraphError (Workspace × BlockId)
  | ⟨kind, fields, statements, values⟩ => do
    let (w, id) ← w.create kind position
    let w ← fields.foldlM (fun w field => w.restoreField id field.1 field.2) w
    let w ← restoreSlots w id statements
    let w ← restoreValues w id values
    return (w, id)

/-- Adds blocks to the end of a chain. -/
def restoreTail (w : Workspace) (last : BlockId) :
    List StoredBlock → Except GraphError Workspace
  | [] => return w
  | b :: rest => do
    let (w, id) ← restoreBlock w .origin b
    let w ← w.connectStatement last .next id
    restoreTail w id rest

/-- Adds the chains in the statement slots of a block.  An empty chain is
nothing, whatever its slot. -/
def restoreSlots (w : Workspace) (id : BlockId) :
    List (String × List StoredBlock) → Except GraphError Workspace
  | [] => return w
  | (_, []) :: rest => restoreSlots w id rest
  | (slot, first :: chain) :: rest => do
    let (w, head) ← restoreBlock w .origin first
    let w ← w.connectStatement id (.slot slot) head
    let w ← restoreTail w head chain
    restoreSlots w id rest

def restoreValues (w : Workspace) (id : BlockId) :
    List (String × StoredBlock) → Except GraphError Workspace
  | [] => return w
  | (slot, b) :: rest => do
    let (w, child) ← restoreBlock w .origin b
    let w ← w.connectValue id slot child
    restoreValues w id rest

end

def restoreStack (w : Workspace) (stack : StoredStack) : Except RestoreFault Workspace :=
  match stack.blocks with
  | [] => .error .emptyStack
  | first :: chain =>
    Except.mapError .graph do
      let (w, head) ← w.restoreBlock ⟨stack.x, stack.y⟩ first
      w.restoreTail head chain

/-- Rebuilds a snapshot, and adds the roots that it lacks. -/
def restore (registry : Registry) (s : Snapshot) : Except RestoreFault Workspace := do
  if Snapshot.currentVersion < s.version then throw (.newerVersion s.version)
  let board ← (Board.resolve s.board).mapError .board
  let w ← s.canvas.foldlM restoreStack (bare registry board)
  return w.ensureRoots

/-- Rebuilds a snapshot, or begins a new program if there is none to rebuild. -/
def restoreOrNew (registry : Registry) (s : Option Snapshot) : Workspace :=
  match s with
  | none => onDefaultBoard registry
  | some s =>
    match restore registry s with
    | .ok w => w
    | .error _ => onDefaultBoard registry

def load (registry : Registry) (text : String) : Workspace :=
  restoreOrNew registry (Snapshot.ofText? text)

def loadValue (registry : Registry) (value : Json) : Workspace :=
  restoreOrNew registry (Snapshot.ofValue? value)

end Workspace

end BlockSketch
