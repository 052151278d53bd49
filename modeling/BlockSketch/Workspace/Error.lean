import BlockSketch.Block.Registry
import BlockSketch.Text.Quote
import BlockSketch.Workspace.Arena

/-!
What can be wrong with an edit.  An edit is checked before it touches anything,
and what it is refused for is kept as a cause; the words are found at the end,
in one place.
-/

namespace BlockSketch

/-- A place below which a chain can be attached. -/
inductive StatementTarget
  | next
  | slot (name : String)
deriving DecidableEq, Repr, Inhabited

namespace StatementTarget

def link : StatementTarget → Link
  | .next => .next
  | .slot name => .statement name

def text : StatementTarget → String
  | .next => "Next"
  | .slot name => "Slot(" ++ Text.quoted name ++ ")"

end StatementTarget

/-- Why an operation does not fit the graph. -/
inductive GraphFault
  | rootExists (kind : String) (root : BlockId)
  | containsRoot (block : BlockId)
  | nestsRoot (root : BlockId)
  | makesCycle (child parent : BlockId)
  | noStatementInput (parent : BlockId) (kind : String) (target : StatementTarget)
  | notChainable (child : BlockId) (kind : String)
  | noNextSocket (tail : BlockId)
  | noValueInput (parent : BlockId) (kind slot : String)
  | notPluggable (child : BlockId) (kind : String)
  | noField (kind name : String)
  | rootCount (kind : String) (count : Nat)
  | rootAttached (root parent : BlockId)
  | severalParents (block : BlockId)
  | cyclic
  | described (reason : String)
deriving DecidableEq, Repr, Inhabited

def GraphFault.message : GraphFault → String
  | .rootExists kind root => s!"root block '{kind}' already exists as {root.text}"
  | .containsRoot block => s!"block {block.text} contains a root block"
  | .nestsRoot root => s!"root block {root.text} must stay top-level"
  | .makesCycle child parent =>
    s!"connecting {child.text} under {parent.text} would create a cycle"
  | .noStatementInput parent kind target =>
    s!"block {parent.text} ('{kind}') has no statement input {target.text}"
  | .notChainable child kind => s!"block {child.text} ('{kind}') cannot be chained as a statement"
  | .noNextSocket tail => s!"block {tail.text} has no next socket to take the displaced chain"
  | .noValueInput parent kind slot => s!"block {parent.text} ('{kind}') has no value input '{slot}'"
  | .notPluggable child kind => s!"block {child.text} ('{kind}') does not produce a value"
  | .noField kind name => s!"block kind '{kind}' has no field '{name}'"
  | .rootCount kind count => s!"expected exactly one '{kind}', found {count}"
  | .rootAttached root parent => s!"root {root.text} is referenced by {parent.text}"
  | .severalParents block => s!"block {block.text} has more than one parent"
  | .cyclic => "block references form a cycle"
  | .described reason => reason

inductive GraphError
  | protectedBlock (block : BlockId)
  | invalidField (block : BlockId) (field : String) (fault : FieldFault)
  | invalidOperation (fault : GraphFault)
  | unknownKind (kind : String)
  | blockNotFound (block : BlockId)
deriving DecidableEq, Repr, Inhabited

def GraphError.message : GraphError → String
  | .protectedBlock block => s!"Block {block.text} is a root block and cannot be deleted"
  | .invalidField block field fault =>
    s!"Invalid field '{field}' on block {block.text}: {fault.message}"
  | .invalidOperation fault => s!"Invalid graph operation: {fault.message}"
  | .unknownKind kind => s!"Block kind '{kind}' is not registered"
  | .blockNotFound block => s!"Block {block.text} does not exist"

namespace Registry

def lookup (registry : Registry) (kind : String) : Except GraphError BlockType :=
  match registry.get? kind with
  | some type => .ok type
  | none => .error (.unknownKind kind)

def fieldOf (registry : Registry) (kind name : String) : Except GraphError FieldSpec := do
  let type ← registry.lookup kind
  match type.field? name with
  | some spec => return spec
  | none => throw (.invalidOperation (.noField kind name))

def fieldOptions (registry : Registry) (kind name : String) (board : Board) :
    Except GraphError (List FieldOption) := do
  return (← registry.fieldOf kind name).options board

end Registry

end BlockSketch
