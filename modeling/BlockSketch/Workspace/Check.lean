import BlockSketch.Workspace.Basic

/-!
The shape of a program.  Whatever has been done to it, a program has each root
once, roots hang from nothing, links lead to blocks that are there, no block
hangs from two places, and following links never leads back.  `check` finds the
first fault; it works on any arena, because that is the point of checking.
-/

namespace BlockSketch.Arena

/-- All links, as pairs of a block and one that hangs from it, in order. -/
def links (arena : Arena) : List (BlockId × BlockId) :=
  arena.flatMap fun b => b.children.map fun child => (b.id, child)

def checkRoots (arena : Arena) : Except GraphError Unit :=
  RootKind.all.forM fun root =>
    let count := arena.countP fun b => b.kind = root.kindName
    if count = 1 then .ok () else .error (.invalidOperation (.rootCount root.kindName count))

/-- Whether each link leads to a block that is there, is no root, and hangs
from no earlier link. -/
def checkLinks (arena : Arena) (seen : List BlockId) : List (BlockId × BlockId) →
    Except GraphError Unit
  | [] => .ok ()
  | (parent, child) :: rest =>
    if (arena.find? child).isNone then .error (.blockNotFound child)
    else if arena.isRoot child then .error (.invalidOperation (.rootAttached child parent))
    else if child ∈ seen then .error (.invalidOperation (.severalParents child))
    else checkLinks arena (child :: seen) rest

/-- The blocks that hang from one at the top level, each once. -/
def hanging (arena : Arena) : List BlockId :=
  (arena.topLevel.flatMap arena.descendants).eraseDups

/-- Whether every block hangs from one at the top level.  Where no block has two
parents, the blocks of a cycle are those that do not, so it is enough to count. -/
def checkReach (arena : Arena) : Except GraphError Unit :=
  if arena.hanging.length = arena.length then .ok () else .error (.invalidOperation .cyclic)

def check (arena : Arena) : Except GraphError Unit := do
  arena.checkRoots
  arena.checkLinks [] arena.links
  arena.checkReach

/-- The shape that `check` looks for: each root is there exactly once, links lead
to blocks that are there, none of them a root and no two the same, and following
them never leads back. -/
structure WellShaped (arena : Arena) : Prop where
  roots : ∀ root : RootKind, arena.countP (fun b => b.kind = root.kindName) = 1
  present : ∀ a c, (a, c) ∈ arena.links → c ∈ arena.ids
  rootsFree : ∀ a c, (a, c) ∈ arena.links → arena.isRoot c = false
  single : (arena.links.map Prod.snd).Nodup
  acyclic : ∀ a b, Linked arena a b → ¬ Reachable arena b a

end BlockSketch.Arena

namespace BlockSketch.Workspace

def validate (w : Workspace) : Except GraphError Unit :=
  w.arena.check

end BlockSketch.Workspace
