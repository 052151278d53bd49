/-!
How tightly an expression holds together.  Orders follow the precedence levels
of the generated language: the smaller the rank, the tighter the binding.  A
value slot says how tight it needs its expression to be, and an expression that
is looser goes in parentheses.
-/

namespace BlockSketch

structure Order where
  rank : Nat
deriving DecidableEq, Repr, Inhabited

namespace Order

def atomic : Order := ⟨0⟩
def unaryPostfix : Order := ⟨1⟩
def unaryPrefix : Order := ⟨2⟩
def multiplicative : Order := ⟨3⟩
def additive : Order := ⟨4⟩
def shift : Order := ⟨5⟩
def relational : Order := ⟨6⟩
def equality : Order := ⟨7⟩
def logicalAnd : Order := ⟨11⟩
def logicalOr : Order := ⟨12⟩
def conditional : Order := ⟨13⟩
def assignment : Order := ⟨14⟩

/-- The order of a slot that takes any expression as it is. -/
def none : Order := ⟨99⟩

/-- The named orders, from the tightest to the loosest. -/
def all : List Order :=
  [atomic, unaryPostfix, unaryPrefix, multiplicative, additive, shift, relational, equality,
    logicalAnd, logicalOr, conditional, assignment, none]

/-- Whether an expression of order `inner` goes in parentheses in a slot of
order `slot`: it does unless the slot is looser, or both have the same one of
the two extreme orders. -/
def needsParens (slot inner : Order) : Bool :=
  if inner.rank < slot.rank then false
  else !(slot == inner && (slot == atomic || slot == none))

end Order

end BlockSketch
