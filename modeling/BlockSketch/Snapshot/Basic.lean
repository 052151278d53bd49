import BlockSketch.Block.Basic
import BlockSketch.Board

/-!
Snapshots.  A snapshot is a program as a tree: every stack on the canvas is the
list of its blocks, a statement slot holds the list of its chain, a value slot
holds one block.  Block numbers are not part of it, and neither is anything that
the block types say already.
-/

namespace BlockSketch

/-- A block with everything plugged into it.  Empty slots are left out. -/
structure StoredBlock where
  kind : String
  fields : List (String × FieldValue)
  statements : List (String × List StoredBlock)
  values : List (String × StoredBlock)
deriving Inhabited

/-- A block on the canvas and what comes after it. -/
structure StoredStack where
  x : Int32
  y : Int32
  blocks : List StoredBlock
deriving Inhabited

structure Snapshot where
  version : UInt32
  board : String
  canvas : List StoredStack
deriving Inhabited

/-! ### Counting -/

namespace StoredBlock

mutual

/-- How many blocks there are in a block, itself included. -/
def count : StoredBlock → Nat
  | ⟨_, _, statements, values⟩ => 1 + countSlots statements + countValues values

def countChain : List StoredBlock → Nat
  | [] => 0
  | b :: rest => b.count + countChain rest

def countSlots : List (String × List StoredBlock) → Nat
  | [] => 0
  | (_, chain) :: rest => countChain chain + countSlots rest

def countValues : List (String × StoredBlock) → Nat
  | [] => 0
  | (_, b) :: rest => b.count + countValues rest

end

end StoredBlock

namespace Snapshot

/-- The version that is written, and the newest that is read. -/
def currentVersion : UInt32 := 1

def blockCount (s : Snapshot) : Nat :=
  s.canvas.foldr (fun stack n => StoredBlock.countChain stack.blocks + n) 0

end Snapshot

end BlockSketch
