import BlockSketch.Block.Field
import BlockSketch.Block.Fragment

/-!
Block types.  Everything that is known about a kind of block in advance: how
the editor shows it, what can be set on it, where other blocks fit onto it, and
what code it stands for.
-/

namespace BlockSketch

/-- How the graph treats a kind of block: a root is there once, never inside
another block, a statement stands in a chain, and a value is an expression for a
value slot. -/
inductive Category
  | root (kind : RootKind)
  | statement
  | value
deriving DecidableEq, Repr, Inhabited

/-- A place for an expression. The order is how tight the code around it needs the
expression to be, and `empty` stands there when nothing is plugged in. -/
structure ValueSlot where
  name : String
  order : Order
  empty : String
deriving DecidableEq, Repr, Inhabited

structure Sockets where
  previous : Bool
  next : Bool
  output : Bool
  statementSlots : List String
  valueSlots : List ValueSlot
deriving DecidableEq, Repr, Inhabited

namespace Sockets

def none : Sockets := ⟨false, false, false, [], []⟩

def hasStatementSlot (sockets : Sockets) (name : String) : Bool :=
  sockets.statementSlots.contains name

def valueSlot? (sockets : Sockets) (name : String) : Option ValueSlot :=
  sockets.valueSlots.find? fun slot => slot.name == name

end Sockets

/-- A kind of block. Its label has a number for each input, and its colour is the
hue that the editor is advised to use. -/
structure BlockType where
  kind : String
  label : String
  colour : Nat
  category : Category
  fields : List FieldSpec
  sockets : Sockets
  generator : Generator

namespace BlockType

def field? (type : BlockType) (name : String) : Option FieldSpec :=
  type.fields.find? fun spec => spec.name == name

def rootKind? (type : BlockType) : Option RootKind :=
  match type.category with
  | .root kind => some kind
  | _ => none

/-- Whether its blocks can stand after another block in a chain. -/
def isChainable (type : BlockType) : Bool :=
  type.category == .statement && type.sockets.previous

/-- Whether its blocks can be plugged into a value slot. -/
def isPluggable (type : BlockType) : Bool :=
  type.category == .value && type.sockets.output

end BlockType

end BlockSketch
