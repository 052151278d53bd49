import BlockSketch.Block.Basic

/-!
Arenas.  The blocks of a program are kept side by side, in the order in which
they were created, and refer to each other by number: to the block after them
in their chain, to the head of the chain in each statement slot, and to the
block in each value slot.  Nothing here knows about block types; an arena may
hold any links at all, also cyclic, shared and dangling ones.
-/

namespace BlockSketch

structure Position where
  x : Int32
  y : Int32
deriving DecidableEq, Repr, Inhabited

/-- Where a block is put that has not been given a place. -/
def Position.origin : Position := ⟨0, 0⟩

/-- A block of a program. Its position counts as long as it is inside no other
block. What is attached to it are the block after it in its chain, the heads of
the chains in its statement slots, and the blocks in its value slots. -/
structure Block where
  id : BlockId
  kind : String
  fields : Entries FieldValue
  position : Position
  next : Option BlockId
  statements : Entries (Option BlockId)
  values : Entries (Option BlockId)
deriving DecidableEq, Repr, Inhabited

/-- The way in which a block is attached to another one. -/
inductive Link
  | next
  | statement (slot : String)
  | value (slot : String)
deriving DecidableEq, Repr, Inhabited

namespace Block

/-- The blocks in its statement slots and value slots, in order. -/
def plugged (b : Block) : List BlockId :=
  b.statements.filterMap Prod.snd ++ b.values.filterMap Prod.snd

/-- The blocks attached to it, in order. -/
def children (b : Block) : List BlockId :=
  b.next.toList ++ b.plugged

def linked? (b : Block) : Link → Option BlockId
  | .next => b.next
  | .statement slot => (b.statements.get? slot).join
  | .value slot => (b.values.get? slot).join

/-- The same block with something else, or nothing, attached at a link. -/
def withLink (b : Block) (link : Link) (child : Option BlockId) : Block :=
  match link with
  | .next => { b with next := child }
  | .statement slot => { b with statements := b.statements.insert slot child }
  | .value slot => { b with values := b.values.insert slot child }

/-- The first link at which a block is attached. -/
def linkTo? (b : Block) (id : BlockId) : Option Link :=
  if b.next = some id then some .next
  else
    match b.statements.find? fun entry => entry.2 = some id with
    | some entry => some (.statement entry.1)
    | none =>
      match b.values.find? fun entry => entry.2 = some id with
      | some entry => some (.value entry.1)
      | none => none

def rootKind? (b : Block) : Option RootKind :=
  RootKind.ofKindName? b.kind

@[simp] theorem id_withLink (b : Block) (link : Link) (child : Option BlockId) :
    (b.withLink link child).id = b.id := by
  cases link <;> rfl

@[simp] theorem kind_withLink (b : Block) (link : Link) (child : Option BlockId) :
    (b.withLink link child).kind = b.kind := by
  cases link <;> rfl

@[simp] theorem fields_withLink (b : Block) (link : Link) (child : Option BlockId) :
    (b.withLink link child).fields = b.fields := by
  cases link <;> rfl

@[simp] theorem linked?_withLink (b : Block) (link other : Link) (child : Option BlockId) :
    (b.withLink link child).linked? other = if other = link then child else b.linked? other := by
  cases link <;> cases other <;> simp only [withLink, linked?, Entries.get?_insert] <;>
    split <;> simp_all

end Block

/-- The blocks of a program, in the order of their creation. -/
abbrev Arena := List Block

namespace Arena

def ids (arena : Arena) : List BlockId :=
  arena.map Block.id

def find? (arena : Arena) (id : BlockId) : Option Block :=
  List.find? (fun b => b.id = id) arena

def modify (arena : Arena) (id : BlockId) (f : Block → Block) : Arena :=
  arena.map fun b => if b.id = id then f b else b

def setLink (arena : Arena) (id : BlockId) (link : Link) (child : Option BlockId) : Arena :=
  arena.modify id fun b => b.withLink link child

/-- Takes blocks out of the arena; links to them stay. -/
def remove (arena : Arena) (ids : List BlockId) : Arena :=
  arena.filter fun b => b.id ∉ ids

/-- The block to which a block is attached, and how: the first one that links
to it. -/
def parent? (arena : Arena) (id : BlockId) : Option (BlockId × Link) :=
  arena.findSome? fun b => (b.linkTo? id).map fun link => (b.id, link)

def linked? (arena : Arena) (id : BlockId) (link : Link) : Option BlockId :=
  (arena.find? id).bind fun b => b.linked? link

def detach (arena : Arena) (id : BlockId) : Arena :=
  match arena.parent? id with
  | some (parent, link) => arena.setLink parent link none
  | none => arena

/-- The blocks that are attached to no other one. -/
def topLevel (arena : Arena) : List BlockId :=
  let attached := arena.flatMap Block.children
  arena.ids.filter fun id => id ∉ attached

def root? (arena : Arena) (kind : RootKind) : Option BlockId :=
  (List.find? (fun b => b.kind = kind.kindName) arena).map Block.id

def isRoot (arena : Arena) (id : BlockId) : Bool :=
  ((arena.find? id).bind Block.rootKind?).isSome

/-- Steps that suffice for a walk along links that enters no block twice, when
it takes one step for a block as a part of its chain and one for the block
itself. -/
def walkBound (arena : Arena) : Nat :=
  2 * arena.length + 2

/-! ### Looking up -/

theorem mem_of_find? {arena : Arena} {id : BlockId} {b : Block} (h : arena.find? id = some b) :
    b ∈ arena :=
  List.mem_of_find?_eq_some h

theorem id_of_find? {arena : Arena} {id : BlockId} {b : Block} (h : arena.find? id = some b) :
    b.id = id := by
  simpa using List.find?_some h

theorem find?_isSome {arena : Arena} {id : BlockId} :
    (arena.find? id).isSome ↔ id ∈ arena.ids := by
  simp [find?, ids]

@[simp] theorem ids_modify (arena : Arena) (id : BlockId) (f : Block → Block)
    (hf : ∀ b, (f b).id = b.id) : (arena.modify id f).ids = arena.ids := by
  simp only [ids, modify, List.map_map]
  apply List.map_congr_left
  intro b _
  by_cases h : b.id = id <;> simp [h, hf]

@[simp] theorem ids_setLink (arena : Arena) (id : BlockId) (link : Link)
    (child : Option BlockId) : (arena.setLink id link child).ids = arena.ids := by
  simp [setLink]

end Arena

end BlockSketch
