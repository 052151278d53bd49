import BlockSketch.Text.Blank
import BlockSketch.Workspace.Basic

/-!
The code of a program.  It consists of the two roots; blocks on the canvas that
hang from neither have no code.  The walk from a root goes into the statement
slots of a block, then into its value slots, and then asks the generator of its
type.  The registry used for this need not be the one of the workspace.

The walk remembers every block it has entered and stops at one that comes up
again, so it goes through each block at most once and the number of blocks
bounds it on every arena.
-/

namespace BlockSketch

inductive GenerationError
  | unknownKind (block : BlockId) (kind : String)
  | missingRoot (kind : String)
  | danglingReference (parent missing : BlockId)
  | cycle (block : BlockId)
deriving DecidableEq, Repr, Inhabited

def GenerationError.message : GenerationError → String
  | .unknownKind block kind => s!"Block {block.text} has an unregistered kind '{kind}'"
  | .missingRoot kind => s!"Workspace is missing its '{kind}' root block"
  | .danglingReference parent missing =>
    s!"Block {parent.text} references missing block {missing.text}"
  | .cycle block => s!"Block {block.text} was reached twice while generating"

namespace Sketch

/-! ### Pieces of code in their places -/

/-- A piece of code in a chain: an expression becomes a statement. -/
def inChain : Fragment → String
  | .statement code => code
  | .value code _ => code ++ ";\n"

/-- A piece of code in a value slot: an expression gets the parentheses that
the slot asks for, and a statement loses its line end. -/
def inSlot (slot : ValueSlot) : Fragment → String
  | .value code order => if slot.order.needsParens order then "(" ++ code ++ ")" else code
  | .statement code => Text.trimEnd code

def atTop : Fragment → String
  | .statement code => code
  | .value code _ => code ++ "\n"

/-- The depth of the blocks in the statement slots of a block. -/
def innerDepth (type : BlockType) (depth : Nat) : Nat :=
  if type.rootKind?.isSome then depth else depth + 1

/-! ### The walk -/

/-- A part of the walk, which knows the blocks that were entered. -/
abbrev Walk := StateT (List BlockId) (Except GenerationError)

/-- Enters a block for the first and only time. -/
def enter (id : BlockId) : Walk Unit := do
  if id ∈ (← get) then throw (.cycle id)
  modify (id :: ·)

def find (arena : Arena) (parent id : BlockId) : Walk Block :=
  match arena.find? id with
  | some b => return b
  | none => throw (.danglingReference parent id)

def typeOf (registry : Registry) (b : Block) : Walk BlockType :=
  match registry.get? b.kind with
  | some type => return type
  | none => throw (.unknownKind b.id b.kind)

mutual

def blockCode (arena : Arena) (registry : Registry) : Nat → BlockId → Nat → Walk Fragment
  | 0, id, _ => throw (.cycle id)
  | fuel + 1, id, depth => do
    enter id
    let b ← find arena id id
    let type ← typeOf registry b
    let statements ← type.sockets.statementSlots.filterMapM fun slot =>
      match b.linked? (.statement slot) with
      | none => return none
      | some head => do
        let _ ← find arena id head
        return some (slot, ← chainCode arena registry fuel head (innerDepth type depth))
    let values ← type.sockets.valueSlots.mapM fun slot =>
      match b.linked? (.value slot.name) with
      | none => return (slot.name, slot.empty)
      | some child => do
        let _ ← find arena id child
        return (slot.name, inSlot slot (← blockCode arena registry fuel child depth))
    return type.generator
      ⟨id, depth, b.fields, Entries.ofList statements, Entries.ofList values⟩

def chainCode (arena : Arena) (registry : Registry) : Nat → BlockId → Nat → Walk String
  | 0, id, _ => throw (.cycle id)
  | fuel + 1, id, depth => do
    let fragment ← blockCode arena registry fuel id depth
    let b ← find arena id id
    match b.next with
    | none => return inChain fragment
    | some next => return inChain fragment ++ (← chainCode arena registry fuel next depth)

end

def rootCode (arena : Arena) (registry : Registry) (kind : RootKind) : Walk String :=
  match arena.root? kind with
  | none => throw (.missingRoot kind.kindName)
  | some root => return atTop (← blockCode arena registry arena.walkBound root 0)

/-- The code of a program: what happens at the start, an empty line, and what
is repeated. -/
def programCode (arena : Arena) (registry : Registry) : Walk String := do
  let setup ← rootCode arena registry .setup
  let loop ← rootCode arena registry .loop
  return setup ++ "\n" ++ loop

end Sketch

namespace Workspace

/-- The code of a workspace with the block types of some registry. -/
def compileWith (w : Workspace) (registry : Registry) : Except GenerationError String :=
  (Sketch.programCode w.arena registry).run' []

def compile (w : Workspace) : Except GenerationError String :=
  w.compileWith w.registry

end Workspace

end BlockSketch
