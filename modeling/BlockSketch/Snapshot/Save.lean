import BlockSketch.Snapshot.Basic
import BlockSketch.Workspace.Basic

/-!
Taking a snapshot.  Each block at the top level begins a stack; from there the
links are followed into the chain and into the slots.  In a well-shaped program
this meets every block once, so the bound on the walk is never reached.
-/

namespace BlockSketch

namespace Arena

mutual

/-- A block with everything plugged into it. -/
def storedBlock (arena : Arena) : Nat → Block → StoredBlock
  | 0, b => ⟨b.kind, b.fields, [], []⟩
  | steps + 1, b =>
    { kind := b.kind
      fields := b.fields
      statements := b.statements.filterMap fun entry =>
        entry.2.map fun head => (entry.1, storedChain arena steps head)
      values := b.values.filterMap fun entry =>
        (entry.2.bind arena.find?).map fun child => (entry.1, storedBlock arena steps child) }

def storedChain (arena : Arena) : Nat → BlockId → List StoredBlock
  | 0, _ => []
  | steps + 1, id =>
    match arena.find? id with
    | none => []
    | some b =>
      storedBlock arena steps b ::
        match b.next with
        | none => []
        | some next => storedChain arena steps next

end

/-- The stack that begins with a block, if the block is there. -/
def storedStack? (arena : Arena) (head : BlockId) : Option StoredStack :=
  (arena.find? head).map fun b =>
    ⟨b.position.x, b.position.y, arena.storedChain arena.walkBound head⟩

end Arena

namespace Workspace

def save (w : Workspace) : Snapshot where
  version := Snapshot.currentVersion
  board := w.board.id
  canvas := w.arena.topLevel.filterMap w.arena.storedStack?

end Workspace

end BlockSketch
