import BlockSketch.Workspace.Basic

/-!
Field values of a workspace.  A person can only choose what the active board
offers.  A program that is read back may have been written for another board,
so there the pins of every board are good; such a pin stays in its field and is
reported as stale until the board fits again.
-/

namespace BlockSketch

/-- A pin field whose value the active board does not offer. -/
structure StaleField where
  block : BlockId
  field : String
  value : String
deriving DecidableEq, Repr, Inhabited

namespace Workspace

def fieldSpec (w : Workspace) (id : BlockId) (name : String) : Except GraphError FieldSpec := do
  let type ← w.typeOf id
  match type.field? name with
  | some spec => return spec
  | none => throw (.invalidField id name (.notDeclared type.kind))

def storeField (w : Workspace) (id : BlockId) (name : String) (value : FieldValue) : Workspace :=
  w.withArena (w.arena.modify id fun b => { b with fields := b.fields.insert name value })

/-- Stores a value that has passed a check, or says why it did not. -/
def storeChecked (w : Workspace) (id : BlockId) (name : String) :
    Except FieldFault FieldValue → Except GraphError Workspace
  | .ok value => .ok (w.storeField id name value)
  | .error fault => .error (.invalidField id name fault)

/-- Sets a field to a value that the active board allows. -/
def setField (w : Workspace) (id : BlockId) (name : String) (value : FieldValue) :
    Except GraphError Workspace := do
  let spec ← w.fieldSpec id name
  w.storeChecked id name (spec.validate value w.board)

/-- What a field that is read back may hold: in a choice that depends on the
board, a pin of any board. -/
def restorable (spec : FieldSpec) (value : FieldValue) (board : Board) :
    Except FieldFault FieldValue :=
  if spec.isBoardDependent then
    if Board.isPinOfAny value.display then .ok (.text value.display)
    else .error (.notAPin value.display)
  else spec.validate value board

def restoreField (w : Workspace) (id : BlockId) (name : String) (value : FieldValue) :
    Except GraphError Workspace := do
  let spec ← w.fieldSpec id name
  w.storeChecked id name (restorable spec value w.board)

def options (w : Workspace) (id : BlockId) (name : String) :
    Except GraphError (List FieldOption) := do
  w.registry.fieldOptions (← w.block id).kind name w.board

/-! ### The board -/

def staleOf (w : Workspace) (b : Block) : List StaleField :=
  match w.registry.get? b.kind with
  | none => []
  | some type =>
    (type.fields.filter FieldSpec.isBoardDependent).filterMap fun spec =>
      match b.fields.get? spec.name with
      | none => none
      | some value =>
        if w.board.hasPin value.display then none else some ⟨b.id, spec.name, value.display⟩

/-- The stale fields, in order of the blocks and then of the declarations. -/
def staleFields (w : Workspace) : List StaleField :=
  w.arena.flatMap w.staleOf

/-- Switches to another board and leaves every field as it is. -/
def setBoard (w : Workspace) (boardId : String) : Except BoardError Workspace := do
  return { w with board := ← Board.resolve boardId }

/-- Switches to another board, and reports what is stale there. -/
def switchBoard (w : Workspace) (boardId : String) :
    Except BoardError (Workspace × List StaleField) := do
  let w ← w.setBoard boardId
  return (w, w.staleFields)

end Workspace

end BlockSketch
