import BlockSketch.Block.Basic
import BlockSketch.Sketch.Order

/-!
The code of one block.  A block type brings a generator, a function from what
can be seen of a block to its piece of code.  What it sees are the block's
fields and the finished code of the chains and expressions plugged into it;
chains arrive without indentation, expressions with the parentheses that their
slot asks for.
-/

namespace BlockSketch

/-- The code that a block stands for: whole lines, each with its end, or an
expression with the order that says how tightly it holds together. -/
inductive Fragment
  | statement (code : String)
  | value (code : String) (order : Order)
deriving DecidableEq, Repr, Inhabited

/-- What a generator can see of a block. The depth counts the statement slots of
blocks other than the roots around it. -/
structure Context where
  block : BlockId
  depth : Nat
  fields : Entries FieldValue
  statements : Entries String
  values : Entries String
deriving Inhabited

namespace Context

def placeholder : String := "// (no blocks)\n"

def field (ctx : Context) (name : String) : String :=
  ((ctx.fields.get? name).map FieldValue.display).getD ""

def number (ctx : Context) (name : String) : UInt64 :=
  ((ctx.fields.get? name).bind FieldValue.number?).getD 0

def statement (ctx : Context) (name : String) : String :=
  (ctx.statements.get? name).getD placeholder

def value (ctx : Context) (name : String) : String :=
  (ctx.values.get? name).getD "0"

/-- The counter of a loop at this depth. -/
def loopVariable (ctx : Context) : String :=
  match ctx.depth with
  | 0 => "i"
  | 1 => "j"
  | 2 => "k"
  | n => "i" ++ toString n

end Context

abbrev Generator := Context → Fragment

end BlockSketch
