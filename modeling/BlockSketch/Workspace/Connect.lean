import BlockSketch.Workspace.Basic

/-!
Connecting blocks.  A block that is attached somewhere brings the rest of its
chain along.  What stood in its place moves to the end of that chain; an
expression has no chain, and what it replaces is left on the canvas.
-/

namespace BlockSketch.Workspace

/-- Whether a block may be attached below another one at all. -/
def checkConnectable (w : Workspace) (parent child : BlockId) : Except GraphError Unit := do
  let _ ← w.block parent
  let _ ← w.block child
  if w.arena.isRoot child then throw (.invalidOperation (.nestsRoot child))
  if parent ∈ w.arena.descendants child then
    throw (.invalidOperation (.makesCycle child parent))

def hasTarget (type : BlockType) : StatementTarget → Bool
  | .next => type.sockets.next
  | .slot name => type.sockets.hasStatementSlot name

/-- Attaches a block at a link after taking it from where it was. -/
def attach (arena : Arena) (parent : BlockId) (link : Link) (child : BlockId) : Arena :=
  (arena.detach child).setLink parent link (some child)

/-- Attaches a block and the rest of its chain below another block.  What hung
there moves to the end of the chain. -/
def connectStatement (w : Workspace) (parent : BlockId) (target : StatementTarget)
    (child : BlockId) : Except GraphError Workspace := do
  w.checkConnectable parent child
  let parentType ← w.typeOf parent
  if !hasTarget parentType target then
    throw (.invalidOperation (.noStatementInput parent parentType.kind target))
  let childType ← w.typeOf child
  if !childType.isChainable then
    throw (.invalidOperation (.notChainable child childType.kind))
  match w.arena.linked? parent target.link with
  | none => return w.withArena (attach w.arena parent target.link child)
  | some displaced =>
    if displaced = child then return w
    let tail := w.arena.chainTail child
    let tailType ← w.typeOf tail
    if !tailType.sockets.next then throw (.invalidOperation (.noNextSocket tail))
    return w.withArena
      ((attach w.arena parent target.link child).setLink tail .next (some displaced))

def connectValue (w : Workspace) (parent : BlockId) (slot : String) (child : BlockId) :
    Except GraphError Workspace := do
  w.checkConnectable parent child
  let parentType ← w.typeOf parent
  if (parentType.sockets.valueSlot? slot).isNone then
    throw (.invalidOperation (.noValueInput parent parentType.kind slot))
  let childType ← w.typeOf child
  if !childType.isPluggable then
    throw (.invalidOperation (.notPluggable child childType.kind))
  if w.arena.linked? parent (.value slot) = some child then return w
  return w.withArena (attach w.arena parent (.value slot) child)

/-- Takes a block and the rest of its chain out of its parent. -/
def disconnect (w : Workspace) (id : BlockId) : Except GraphError Workspace := do
  let _ ← w.block id
  return w.withArena (w.arena.detach id)

end BlockSketch.Workspace
