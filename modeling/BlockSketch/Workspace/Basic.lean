import BlockSketch.Workspace.Error
import BlockSketch.Workspace.Reach

/-!
Workspaces.  A workspace is the program that is being edited: an arena of
blocks, the registry their types come from, the active board, and the number
for the next block.  Every operation checks everything before it changes
anything, so an operation that is refused has no result but its reason.
-/

namespace BlockSketch

structure Workspace where
  registry : Registry
  board : Board
  arena : Arena
  nextId : Nat
deriving Inhabited

namespace Workspace

def size (w : Workspace) : Nat :=
  w.arena.length

def block? (w : Workspace) (id : BlockId) : Option Block :=
  w.arena.find? id

def block (w : Workspace) (id : BlockId) : Except GraphError Block :=
  match w.block? id with
  | some b => .ok b
  | none => .error (.blockNotFound id)

def typeOf (w : Workspace) (id : BlockId) : Except GraphError BlockType := do
  w.registry.lookup (← w.block id).kind

def withArena (w : Workspace) (arena : Arena) : Workspace :=
  { w with arena := arena }

/-! ### New blocks -/

/-- A block as it comes out of its type: every field at its default, nothing
attached. -/
def freshBlock (type : BlockType) (board : Board) (id : BlockId) (position : Position) : Block where
  id := id
  kind := type.kind
  fields := Entries.ofList (type.fields.map fun spec => (spec.name, spec.defaultValue board))
  position := position
  next := none
  statements := Entries.ofList (type.sockets.statementSlots.map fun slot => (slot, none))
  values := Entries.ofList (type.sockets.valueSlots.map fun slot => (slot.name, none))

def add (w : Workspace) (type : BlockType) (position : Position) : Workspace :=
  { w with
    arena := w.arena ++ [freshBlock type w.board ⟨w.nextId⟩ position]
    nextId := w.nextId + 1 }

/-- Creates a block of a kind.  Each root can be there only once. -/
def create (w : Workspace) (kind : String) (position : Position) :
    Except GraphError (Workspace × BlockId) := do
  let type ← w.registry.lookup kind
  match type.rootKind?.bind w.arena.root? with
  | some root => throw (.invalidOperation (.rootExists kind root))
  | none => return (w.add type position, ⟨w.nextId⟩)

/-! ### Roots -/

/-- Where a root is put that nobody has placed. -/
def rootPosition : RootKind → Position
  | .setup => ⟨20, 20⟩
  | .loop => ⟨20, 240⟩

/-- Adds a root if it is missing and its kind is registered. -/
def ensureRoot (w : Workspace) (kind : RootKind) : Workspace :=
  match w.arena.root? kind, w.registry.get? kind.kindName with
  | none, some type => w.add type (rootPosition kind)
  | _, _ => w

def ensureRoots (w : Workspace) : Workspace :=
  RootKind.all.foldl ensureRoot w

def bare (registry : Registry) (board : Board) : Workspace :=
  ⟨registry, board, [], 1⟩

/-- A new program for a board: nothing but the roots. -/
def new (registry : Registry) (boardId : String) : Except BoardError Workspace := do
  return (bare registry (← Board.resolve boardId)).ensureRoots

def onDefaultBoard (registry : Registry) : Workspace :=
  (bare registry Board.default).ensureRoots

/-! ### Deleting -/

/-- Closes the gap that a block leaves: what came after it takes its place in
its parent, or on the canvas. -/
def closeGap (arena : Arena) (b : Block) : Arena :=
  match arena.parent? b.id with
  | some (parent, link) => arena.setLink parent link b.next
  | none =>
    match b.next with
    | some next => arena.modify next fun n => { n with position := b.position }
    | none => arena

/-- Deletes a block with everything plugged into it.  Roots stay. -/
def delete (w : Workspace) (id : BlockId) : Except GraphError Workspace := do
  let b ← w.block id
  let type ← w.registry.lookup b.kind
  if type.rootKind?.isSome then throw (.protectedBlock id)
  let doomed := b.plugged.flatMap w.arena.descendants
  if doomed.any w.arena.isRoot then throw (.invalidOperation (.containsRoot id))
  return w.withArena ((closeGap w.arena b).remove (id :: doomed))

end Workspace

end BlockSketch
